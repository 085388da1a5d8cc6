import Zmtp.Proofs.Router.Receive

namespace Zmtp

open Function (update)

namespace Intake

variable {v v' : Intake} {p : PipeId} {e : LinkEnd} {o : Identified}

theorem Consistent.mem_ready (h : v.Consistent) (hc : v.queue.current? = some p) :
    (v.name p).isSome :=
  (h.queued p).1 (List.mem_append_left _ (FairQueue.mem_ready_of_current? hc))

theorem Consistent.arrive (h : v.Consistent) (hf : v.front p = none) (e : LinkEnd) :
    (v.arrive p e).Consistent where
  attached p' := by
    simp only [Intake.arrive, Function.update_apply]
    by_cases hp : p' = p
    · simp [hp]
    · simpa [hp] using h.attached p'
  apart p' ha := by
    simp only [Intake.arrive, Function.update_apply] at ha ⊢
    by_cases hp : p' = p
    · rw [hp]
      exact (h.detached hf).2
    · rw [if_neg hp] at ha
      exact h.apart p' ha
  inverse := h.inverse
  queue := h.queue
  queued := h.queued
  labelled p' e' i he hi := by
    simp only [Intake.arrive, Function.update_apply] at he hi
    by_cases hp : p' = p
    · rw [hp, (h.detached hf).2] at hi
      cases hi
    · rw [if_neg hp] at he
      exact h.labelled p' e' i he hi
  sourced := h.sourced
  midway := h.midway

theorem Consistent.refill (h : v.Consistent) (he : v.front p = some e) (inbox : List Part) :
    Consistent { v with front := update v.front p (some { e with inbox }) } where
  attached p' := by
    rw [← h.attached p']
    simp only [Function.update_apply]
    by_cases hp : p' = p
    · simp [hp, he]
    · simp [hp]
  apart := h.apart
  inverse := h.inverse
  queue := h.queue
  queued := h.queued
  labelled p' e' i he' hi := by
    simp only [Function.update_apply] at he'
    by_cases hp : p' = p
    · rw [if_pos hp] at he'
      cases he'
      exact h.labelled p e i he (hp ▸ hi)
    · rw [if_neg hp] at he'
      exact h.labelled p' e' i he' hi
  sourced := h.sourced
  midway := h.midway

theorem Consistent.settle_known (h : v.Consistent) (ha : v.anonymous p = some .pending)
    (e : LinkEnd) {i : Identity} (hf : v.owner i = none) (rest : List Part) :
    (Intake.settle { v with
      front := update v.front p (some { e with inbox := rest, identity := i })
      name := update v.name p (some i)
      owner := update v.owner i (some p) } p .known).Consistent where
  attached p' := by
    simp only [Intake.settle, Function.update_apply]
    by_cases hp : p' = p
    · simp [hp]
    · simpa [hp] using h.attached p'
  apart p' ha' := by
    simp only [Intake.settle, Function.update_apply] at ha' ⊢
    by_cases hp : p' = p
    · simp [hp] at ha'
    · rw [if_neg hp] at ha' ⊢
      exact h.apart p' ha'
  inverse p' j := by
    have hn := h.apart p (by rw [ha]; rfl)
    simp only [Intake.settle, Function.update_apply]
    by_cases hp : p' = p
    · by_cases hj : j = i
      · simp [hp, hj]
      · rw [if_pos hp, if_neg hj, hp, ← h.inverse, hn]
        simp [Ne.symm hj]
    · by_cases hj : j = i
      · rw [if_neg hp, if_pos hj, hj, h.inverse, hf]
        simp [Ne.symm hp]
      · rw [if_neg hp, if_neg hj]
        exact h.inverse p' j
  queue := h.queue.attach fun hm => by
    have hn := (h.queued p).1 hm
    rw [h.apart p (by rw [ha]; rfl)] at hn
    cases hn
  queued p' := by
    simp only [Intake.settle, Function.update_apply]
    rw [(v.queue.members_attach p).mem_iff, List.mem_cons, h.queued]
    by_cases hp : p' = p
    · simp [hp]
    · simp [hp]
  labelled p' e' j he' hj := by
    simp only [Intake.settle, Function.update_apply] at he' hj
    by_cases hp : p' = p
    · rw [if_pos hp] at he' hj
      cases he'
      cases hj
      rfl
    · rw [if_neg hp] at he' hj
      exact h.labelled p' e' j he' hj
  sourced p' hs := by
    simp only [Intake.settle, Function.update_apply]
    by_cases hp : p' = p
    · simp [hp]
    · simpa [hp] using h.sourced p' hs
  midway := h.midway

theorem Consistent.set_anonymous (h : v.Consistent) (ha : v.anonymous p = some .pending)
    (a : Anonymous) : Consistent { v with anonymous := update v.anonymous p (some a) } where
  attached p' := by
    rw [h.attached p']
    simp only [Function.update_apply]
    by_cases hp : p' = p
    · simp [hp, ha]
    · simp [hp]
  apart p' ha' := by
    simp only [Function.update_apply] at ha'
    by_cases hp : p' = p
    · exact hp ▸ h.apart p (by rw [ha]; rfl)
    · rw [if_neg hp] at ha'
      exact h.apart p' ha'
  inverse := h.inverse
  queue := h.queue
  queued := h.queued
  labelled := h.labelled
  sourced := h.sourced
  midway := h.midway

theorem Consistent.settle (h : v.Consistent) (ha : v.anonymous p = some .pending)
    (he : v.front p = some e) (hi : v.Identifies p e o v') : (v'.settle p o).Consistent := by
  cases hi with
  | dry => exact h.set_anonymous ha .pending
  | rejected => exact (h.refill he _).set_anonymous ha .rejected
  | known i hi hf => exact h.settle_known ha _ hf _

theorem Consistent.with_queue (h : v.Consistent) {q : FairQueue} (hq : q.WellFormed)
    (hm : q.members.Perm v.queue.members)
    (hc : ∀ p, q.midMessage = some p → v.source = some p) : Consistent { v with queue := q } where
  attached := h.attached
  apart := h.apart
  inverse := h.inverse
  queue := hq
  queued p := hm.mem_iff.trans (h.queued p)
  labelled := h.labelled
  sourced := h.sourced
  midway := hc

theorem Consistent.activate (h : v.Consistent) (p : PipeId) :
    Consistent { v with queue := v.queue.activate p } :=
  h.with_queue h.queue.activate (v.queue.members_activate p)
    (by simpa only [FairQueue.midMessage_activate] using h.midway)

theorem Consistent.passes (h : v.Consistent) {dry : PipeId → Prop} {q : FairQueue}
    (hq : FairQueue.Passes dry v.queue q) : Consistent { v with queue := q } :=
  h.with_queue (hq.wellFormed h.queue) hq.members (by simpa only [hq.midMessage] using h.midway)

theorem Consistent.fetch (h : v.Consistent) {o : Option (PipeId × Part)} (hf : v.Fetches o v') :
    v'.Consistent := by
  cases hf with
  | dry hq hc => exact h.passes hq
  | @took q p e part rest hq hc he hi =>
    have h' := (h.passes hq).refill he rest
    have hn : (v.name p).isSome := (h.passes hq).mem_ready hc
    have hq' := (hq.wellFormed h.queue).served (c := p) hc part
    exact
      { attached := h'.attached
        apart := h'.apart
        inverse := h'.inverse
        queue := hq'
        queued := fun p' => by
          rw [FairQueue.members_served]
          exact h'.queued p'
        labelled := h'.labelled
        sourced := fun p' hs => Option.some.inj hs ▸ hn
        midway := fun p' hm => by
          rw [FairQueue.midMessage_served] at hm
          split at hm
          · exact hm
          · cases hm }

theorem Consistent.with_prefetched (h : v.Consistent) (m : Bool) (name part : Option Part) :
    Consistent { v with moreIn := m, prefetchedName := name, prefetchedPart := part } :=
  ⟨h.attached, h.apart, h.inverse, h.queue, h.queued, h.labelled, h.sourced, h.midway⟩

theorem Consistent.receive (h : v.Consistent) {o : Option Part} (hr : v.Receives o v') :
    v'.Consistent := by
  cases hr with
  | name => exact h.with_prefetched _ _ _
  | held => exact h.with_prefetched _ _ _
  | dry hn hp hf => exact h.fetch hf
  | inside hn hp hf hm => exact (h.fetch hf).with_prefetched _ _ _
  | first hn hp hf hm he => exact (h.fetch hf).with_prefetched _ _ _

theorem Consistent.ask (h : v.Consistent) {b : Bool} (hr : v.Asks b v') : v'.Consistent := by
  cases hr with
  | known => exact h
  | dry hm hn hp hf => exact h.fetch hf
  | first hm hn hp hf he => exact (h.fetch hf).with_prefetched _ _ _

theorem Consistent.depart_eq (h : v.Consistent) (p : PipeId) :
    v.depart p =
      { v.abandon p with
        front := update v.front p none
        anonymous := update v.anonymous p none
        name := update v.name p none
        owner := fun i => if v.name p = some i then none else v.owner i
        queue := v.queue.remove p } := by
  by_cases ha : (v.anonymous p).isSome = true
  · have hn := h.apart p ha
    have hm : p ∉ v.queue.members := by
      rw [h.queued, hn]
      exact Bool.false_ne_true
    have hu : update v.name p none = v.name := Function.update_eq_self_iff.2 hn.symm
    have ho : (fun i => if v.name p = some i then none else v.owner i) = v.owner := by
      funext i
      simp [hn]
    rw [hu, ho, FairQueue.remove_of_not_mem hm, Intake.depart, Intake.forget, if_pos ha,
      Intake.abandon, Intake.abandon]
    split <;> rfl
  · have hu : update v.anonymous p none = v.anonymous := by
      rw [Option.not_isSome_iff_eq_none] at ha
      exact Function.update_eq_self_iff.2 ha.symm
    rw [hu, Intake.depart, Intake.forget, if_neg ha, Intake.abandon, Intake.abandon]
    split <;> rfl

@[simp] theorem source_abandon (v : Intake) (p : PipeId) :
    (v.abandon p).source = if v.source = some p then none else v.source := by
  rw [abandon]
  split <;> rfl

theorem Consistent.depart (h : v.Consistent) (p : PipeId) : (v.depart p).Consistent := by
  rw [h.depart_eq]
  exact
    { attached := fun p' => by
        simp only [Function.update_apply]
        by_cases hp : p' = p
        · simp [hp]
        · simpa [hp] using h.attached p'
      apart := fun p' ha => by
        simp only [Function.update_apply] at ha ⊢
        by_cases hp : p' = p
        · exact if_pos hp
        · rw [if_neg hp] at ha ⊢
          exact h.apart p' ha
      inverse := fun p' i => by
        simp only [Function.update_apply]
        by_cases hp : p' = p
        · rw [if_pos hp]
          refine iff_of_false nofun fun ho => ?_
          split at ho
          · cases ho
          · next hne => exact hne (hp ▸ (h.inverse p' i).2 ho)
        · rw [if_neg hp, h.inverse]
          split
          · next hi =>
            rw [(h.inverse p i).1 hi]
            refine iff_of_false (fun he => hp (Option.some.inj he).symm) nofun
          · exact Iff.rfl
      queue := h.queue.remove p
      queued := fun p' => by
        rw [(v.queue.members_remove p).mem_iff, h.queue.nodup.mem_erase_iff, h.queued]
        simp only [Function.update_apply]
        by_cases hp : p' = p
        · simp [hp]
        · simp [hp]
      labelled := fun p' e i he hi => by
        simp only [Function.update_apply] at he hi
        by_cases hp : p' = p
        · rw [if_pos hp] at hi
          cases hi
        · rw [if_neg hp] at he hi
          exact h.labelled p' e i he hi
      sourced := fun p' hs => by
        rw [source_abandon] at hs
        split at hs
        · cases hs
        · next hne =>
          have hp : p' ≠ p := fun hp => hne (hp ▸ hs)
          simpa only [Function.update_apply, if_neg hp] using h.sourced p' hs
      midway := fun p' hm => by
        have hmem : ∀ c, v.queue.midMessage = some c → c ∈ v.queue.members := fun c hc =>
          (h.queued c).2 (h.sourced c (h.midway c hc))
        rw [FairQueue.midMessage_remove hmem] at hm
        split at hm
        · cases hm
        · next hne =>
          have hs := h.midway p' hm
          have hp : v.source ≠ some p := by
            intro hsp
            cases hs.symm.trans hsp
            exact hne hm
          rw [source_abandon, if_neg hp]
          exact hs }

/-- What a move does to the books of a router. -/
inductive Plays (v : Intake) : RouterMove → Intake → Prop where
  | attach {l : Link} {o : Identified} {w : Intake} (hf : v.front l.left.id = none)
      (hi : (v.arrive l.left.id l.front).Identifies l.left.id l.front o w) :
      Plays v (.attach l) (w.settle l.left.id o)
  | detach (p : PipeId) : Plays v (.detach p) (v.depart p)
  | activate {p : PipeId} (ha : v.anonymous p = none) :
      Plays v (.readable p) { v with queue := v.queue.activate p }
  | ignore {p : PipeId} (ha : v.anonymous p = some .rejected) : Plays v (.readable p) v
  | identify {p : PipeId} {e : LinkEnd} {o : Identified} {w : Intake}
      (ha : v.anonymous p = some .pending) (he : v.front p = some e)
      (hi : v.Identifies p e o w) : Plays v (.readable p) (w.settle p o)
  | writable (p : PipeId) : Plays v (.writable p) v
  | send (part : Part) : Plays v (.send part) v
  | rollback : Plays v .rollback v
  | mandate (on : Bool) : Plays v (.mandate on) v
  | ask {b : Bool} {v' : Intake} (h : v.Asks b v') : Plays v .ask v'
  | receive {o : Option Part} {v' : Intake} (h : v.Receives o v') : Plays v .receive v'
  | far {p : PipeId} {e : LinkEnd} (m : FarMove) (he : v.front p = some e) (inbox : List Part) :
      Plays v (.far p m) { v with front := update v.front p (some { e with inbox }) }
  | away {p : PipeId} (m : FarMove) (hf : v.front p = none) : Plays v (.far p m) v

theorem Consistent.plays {m : RouterMove} (h : v.Consistent) (hp : v.Plays m v') :
    v'.Consistent := by
  cases hp with
  | attach hf hi =>
    exact (h.arrive hf _).settle (Function.update_self ..) (Function.update_self ..) hi
  | detach p => exact h.depart p
  | @activate p ha => exact h.activate p
  | identify ha he hi => exact h.settle ha he hi
  | ask ha => exact h.ask ha
  | receive hr => exact h.receive hr
  | far m he inbox => exact h.refill he inbox
  | ignore | writable | send | rollback | mandate | away => exact h

end Intake

namespace Router

/-- Only a link whose near end the router does not have yet can be attached. -/
def Admits (r : Router) : RouterMove → Prop
  | .attach l => r.intake.front l.left.id = none
  | _ => True

theorem consistent_new (s : Settings) (ids : IdentitySource) : (new s ids).intake.Consistent where
  attached _ := iff_of_false nofun nofun
  apart _ := nofun
  inverse _ _ := iff_of_false nofun nofun
  queue := FairQueue.wellFormed_empty
  queued _ := iff_of_false nofun nofun
  labelled _ _ _ := nofun
  sourced _ := nofun
  midway _ := nofun

theorem intake_play {r : Router} (h : r.intake.Consistent) {m : RouterMove} (hm : r.Admits m) :
    r.intake.Plays m (r.play m).intake := by
  cases m with
  | attach l =>
    obtain ⟨o, v, hi, he⟩ := r.intake_attach l (h.detached hm).1
    rw [play, he]
    exact .attach hm hi
  | detach p =>
    rw [play, intake_detach]
    exact .detach p
  | readable p =>
    rw [play]
    cases ha : r.intake.anonymous p with
    | none =>
      rw [intake_onReadable_known ha]
      exact .activate ha
    | some a =>
      cases a with
      | rejected =>
        rw [intake_onReadable_rejected ha]
        exact .ignore ha
      | pending =>
        obtain ⟨e, he⟩ := Option.isSome_iff_exists.1 ((h.attached p).2 (.inl (by rw [ha]; rfl)))
        obtain ⟨o, v, hi, hv⟩ := intake_onReadable_pending he ha
        rw [hv]
        exact .identify ha he hi
  | writable p =>
    rw [play, intake_onWritable]
    exact .writable p
  | send part =>
    rw [play, intake_send]
    exact .send part
  | rollback =>
    rw [play, intake_rollback]
    exact .rollback
  | mandate on => exact .mandate on
  | ask => exact .ask r.intake_hasInput
  | receive => exact .receive r.intake_receive
  | far p m =>
    rw [intake_far]
    cases hl : r.link? p with
    | none =>
      have hf : r.intake.front p = none := congrArg (Option.map Link.front) hl
      rw [Option.map_none, ← hf, Function.update_eq_self]
      exact .away m hf
    | some l => exact .far (e := l.front) m (congrArg (Option.map Link.front) hl) _

theorem consistent_play {r : Router} (h : r.intake.Consistent) {m : RouterMove} (hm : r.Admits m) :
    (r.play m).intake.Consistent :=
  h.plays (intake_play h hm)

end Router

end Zmtp
