import Zmtp.Proofs.Router.Moves

namespace Zmtp

open Function (update)

theorem IdentitySource.not_inUse_of_search {inUse : Identity → Bool} {k : Nat}
    {s s' : IdentitySource} {i : Identity} (h : search inUse k s = some (i, s')) :
    inUse i = false := by
  induction k generalizing s with
  | zero => cases h
  | succ k ih =>
    rw [search] at h
    split at h
    · exact ih h
    · next hu =>
      cases h
      exact eq_false_of_ne_true hu

namespace Intake

/-- A pipe is asked for the identity of its peer. -/
inductive Identifies (v : Intake) (p : PipeId) (e : LinkEnd) : Identified → Intake → Prop where
  | dry (hi : e.inbox = []) : Identifies v p e .unknown v
  | rejected {part : Part} {rest : List Part} (hi : e.inbox = part :: rest) :
      Identifies v p e .rejected
        { v with front := update v.front p (some { e with inbox := rest }) }
  | known {part : Part} {rest : List Part} (i : Identity) (hi : e.inbox = part :: rest)
      (hf : v.owner i = none) :
      Identifies v p e .known
        { v with
          front := update v.front p (some { e with inbox := rest, identity := i })
          name := update v.name p (some i)
          owner := update v.owner i (some p) }

/-- A pipe is attached and waits to be identified. -/
def arrive (v : Intake) (p : PipeId) (e : LinkEnd) : Intake :=
  { v with
    front := update v.front p (some e)
    anonymous := update v.anonymous p (some .pending) }

/-- What becomes of a pipe that was asked for the identity of its peer. -/
def settle (v : Intake) (p : PipeId) : Identified → Intake
  | .known => { v with anonymous := update v.anonymous p none, queue := v.queue.attach p }
  | .unknown => { v with anonymous := update v.anonymous p (some .pending) }
  | .rejected => { v with anonymous := update v.anonymous p (some .rejected) }

theorem Identifies.with_anonymous {v v' : Intake} {p : PipeId} {e : LinkEnd} {o : Identified}
    (h : v.Identifies p e o v') (a : PipeId → Option Anonymous) :
    Identifies { v with anonymous := a } p e o { v' with anonymous := a } := by
  cases h with
  | dry hi => exact .dry hi
  | rejected hi => exact .rejected hi
  | known i hi hf => exact .known i hi hf

theorem Identifies.anonymous_eq {v v' : Intake} {p : PipeId} {e : LinkEnd} {o : Identified}
    (h : v.Identifies p e o v') : v'.anonymous = v.anonymous := by
  cases h <;> rfl

end Intake

namespace Router

variable {r : Router} {p : PipeId}

theorem owner_eq_none_iff {i : Identity} :
    r.intake.owner i = none ↔ r.table.contains i = false := by
  simp only [intake, PeerTable.contains, Assoc.contains, PeerTable.route?, Option.map_eq_none_iff,
    Option.isSome_eq_false_iff, Option.isNone_iff_eq_none]

theorem intake_register {i : Identity} {e : LinkEnd} (he : r.intake.front p = some e)
    (hi : r.table.contains i = false) :
    (r.register p i).intake =
      { r.intake with
        front := update r.intake.front p (some { e with identity := i })
        name := update r.intake.name p (some i)
        owner := update r.intake.owner i (some p) } := by
  obtain ⟨l, hl, rfl⟩ := Option.map_eq_some_iff.1 he
  have ht : r.table.insert? i p =
      some ⟨r.table.routes.insert i ⟨p, true⟩, r.table.byPipe.insert p i⟩ := by
    rw [PeerTable.insert?, hi]
    rfl
  have hm := intake_modifyLink r p (·.setIdentity .left i)
  simp only [hl, Option.map_some, Link.front_setIdentity] at hm
  refine Intake.ext ?_ rfl ?_ ?_ rfl rfl rfl rfl rfl
  · change (r.modifyLink p (·.setIdentity .left i)).intake.front = _
    rw [hm]
  · funext p'
    simp only [register, modifyLink, ht, Option.getD_some, intake, identity?, PeerTable.identity?,
      Assoc.get?_insert, update, eq_rec_constant, dite_eq_ite]
  · funext j
    simp only [register, modifyLink, ht, Option.getD_some, intake, PeerTable.route?,
      Assoc.get?_insert, update, eq_rec_constant, dite_eq_ite]
    split <;> rfl

theorem intake_identifyAs {i : Identity} {e : LinkEnd} (he : r.intake.front p = some e) :
    ((r.identifyAs p i).1 = .rejected ∧ (r.identifyAs p i).2.intake = r.intake) ∨
      ∃ j, r.intake.owner j = none ∧ (r.identifyAs p i).1 = .known ∧
        (r.identifyAs p i).2.intake =
          { r.intake with
            front := update r.intake.front p (some { e with identity := j })
            name := update r.intake.name p (some j)
            owner := update r.intake.owner j (some p) } := by
  rw [identifyAs]
  split
  · split
    · exact .inl ⟨rfl, rfl⟩
    · next j ids hg =>
      have hj := IdentitySource.not_inUse_of_search hg
      exact .inr ⟨j, owner_eq_none_iff.2 hj, rfl, intake_register (r := { r with ids }) he hj⟩
  · split
    · exact .inl ⟨rfl, rfl⟩
    · next hc =>
      have hi := eq_false_of_ne_true hc
      exact .inr ⟨i, owner_eq_none_iff.2 hi, rfl, intake_register he hi⟩

theorem intake_identify {e : LinkEnd} (he : r.intake.front p = some e) :
    r.intake.Identifies p e (r.identify p).1 (r.identify p).2.intake := by
  obtain ⟨l, hl, rfl⟩ := Option.map_eq_some_iff.1 he
  rw [identify]
  simp only [hl]
  cases hi : l.front.inbox with
  | nil =>
    rw [Link.read_left_of_nil hi]
    exact .dry hi
  | cons part rest =>
    obtain ⟨l', hr, hl'⟩ := Link.read_left_of_cons hi
    have hm := intake_modifyLink r p fun _ => l'
    simp only [hl, Option.map_some, hl'] at hm
    have he' : (r.modifyLink p fun _ => l').intake.front p =
        some { l.front with inbox := rest } := by
      rw [hm]
      exact Function.update_self ..
    simp only [hr]
    rcases intake_identifyAs (i := ⟨part.data⟩) he' with ⟨h1, h2⟩ | ⟨j, hj, h1, h2⟩
    · rw [h1, h2, hm]
      exact .rejected hi
    · rw [h1, h2, hm]
      rw [hm] at hj
      simp only [Function.update_idem]
      exact .known j hi hj

theorem anonymous_insert (r : Router) (p : PipeId) (a : Anonymous) :
    (r.anonymous.insert p a).get? = update r.intake.anonymous p (some a) := by
  funext p'
  simp only [Assoc.get?_insert, update, intake, eq_rec_constant, dite_eq_ite]

theorem anonymous_erase (r : Router) (p : PipeId) :
    (r.anonymous.erase p).get? = update r.intake.anonymous p none := by
  funext p'
  simp only [Assoc.get?_erase, update, intake, eq_rec_constant, dite_eq_ite]

theorem intake_attach (r : Router) (l : Link) (ha : r.intake.anonymous l.left.id = none) :
    ∃ o v, (r.intake.arrive l.left.id l.front).Identifies l.left.id l.front o v ∧
      (r.attach l).intake = v.settle l.left.id o := by
  let r₀ : Router := { r with pipes := r.pipes.insert l.left.id l }
  have hf : r₀.intake.front = update r.intake.front l.left.id (some l.front) := by
    funext p
    simp only [r₀, intake, link?, Assoc.get?_insert, update, eq_rec_constant, dite_eq_ite]
    split <;> rfl
  have hi : r₀.intake.Identifies l.left.id l.front (r₀.identify l.left.id).1
      (r₀.identify l.left.id).2.intake :=
    intake_identify (by rw [hf]; exact Function.update_self ..)
  have hv : { r₀.intake with anonymous := update r.intake.anonymous l.left.id (some .pending) } =
      r.intake.arrive l.left.id l.front :=
    Intake.ext hf rfl rfl rfl rfl rfl rfl rfl rfl
  have hw := hi.with_anonymous (update r.intake.anonymous l.left.id (some .pending))
  rw [hv] at hw
  refine ⟨_, _, hw, ?_⟩
  have ha' := hi.anonymous_eq
  rw [attach]
  split
  · next r' ho =>
    change r₀.identify l.left.id = _ at ho
    rw [ho] at ha' ⊢
    refine Intake.ext rfl ?_ rfl rfl rfl rfl rfl rfl rfl
    change r'.intake.anonymous = update (update r.intake.anonymous _ _) _ none
    rw [ha', Function.update_idem]
    exact (Function.update_eq_self_iff.2 ha.symm).symm
  · next r' ho =>
    change r₀.identify l.left.id = _ at ho
    rw [ho] at ha' ⊢
    refine Intake.ext rfl ?_ rfl rfl rfl rfl rfl rfl rfl
    change (r'.anonymous.insert _ _).get? = update (update r.intake.anonymous _ _) _ _
    rw [anonymous_insert, ha', Function.update_idem]
    rfl
  · next r' ho =>
    change r₀.identify l.left.id = _ at ho
    rw [ho] at ha' ⊢
    refine Intake.ext rfl ?_ rfl rfl rfl rfl rfl rfl rfl
    change (r'.anonymous.insert _ _).get? = update (update r.intake.anonymous _ _) _ _
    rw [anonymous_insert, ha', Function.update_idem]
    rfl

theorem intake_onReadable_pending {e : LinkEnd} (he : r.intake.front p = some e)
    (ha : r.intake.anonymous p = some .pending) :
    ∃ o v, r.intake.Identifies p e o v ∧ (r.onReadable p).intake = v.settle p o := by
  have hi := intake_identify he
  refine ⟨_, _, hi, ?_⟩
  have ha' := hi.anonymous_eq
  rw [onReadable, show r.anonymous.get? p = some .pending from ha]
  cases ho : r.identify p with
  | mk o r' =>
    rw [ho] at ha'
    cases o with
    | known => exact Intake.ext rfl (anonymous_erase r' p) rfl rfl rfl rfl rfl rfl rfl
    | unknown =>
      refine Intake.ext rfl ?_ rfl rfl rfl rfl rfl rfl rfl
      have hp : r'.intake.anonymous p = some .pending := (congrFun ha' p).trans ha
      exact (Function.update_eq_self_iff.2 hp.symm).symm
    | rejected => exact Intake.ext rfl (anonymous_insert r' p _) rfl rfl rfl rfl rfl rfl rfl

theorem intake_onReadable_rejected (ha : r.intake.anonymous p = some .rejected) :
    r.onReadable p = r := by
  rw [onReadable, show r.anonymous.get? p = some .rejected from ha]

theorem intake_onReadable_known (ha : r.intake.anonymous p = none) :
    (r.onReadable p).intake = { r.intake with queue := r.queue.activate p } := by
  rw [onReadable, show r.anonymous.get? p = none from ha]
  rfl

end Router

end Zmtp
