import Zmtp.Proofs.Router.Turn

namespace Zmtp

open Function (update)

/-- What was taken early from a pipe and not received yet. -/
def Intake.held (v : Intake) (p : PipeId) : List Part :=
  if v.source = some p then v.prefetchedPart.toList else []

/-- What became of all the parts that a peer published. The first is its identity, the others are
received, held or waiting, in this order. -/
inductive Standing (v : Intake) (published : Option (List Part)) (j : Journal) (p : PipeId) :
    Prop where
  | absent (hf : v.front p = none) (hs : published = none) (hj : j.of p = [])
  | unnamed {e : LinkEnd} (hf : v.front p = some e) (ha : (v.anonymous p).isSome)
      (hs : published.isSome) (hp : v.anonymous p = some .pending → published = some e.inbox)
      (hj : j.of p = [])
  | known {e : LinkEnd} {first : Part} {rest : List Part} (hf : v.front p = some e)
      (hn : (v.name p).isSome) (hs : published = some (first :: rest))
      (hcut : ∀ d ∈ j.of p, d.cut = false) (hp : j.parts p ++ (v.held p ++ e.inbox) = rest)
  | gone {s : List Part} (hf : v.front p = none) (hs : published = some s)
      (hcut : ∀ d ∈ (j.of p).dropLast, d.cut = false) (hp : j.parts p <+: s.drop 1)

namespace Journal

variable {j : Journal} {p : PipeId}

theorem parts_eq_nil (h : j.of p = []) : j.parts p = [] := by
  rw [parts, h]
  rfl

theorem of_cut_cases (j : Journal) (p : PipeId) : (j.cut p).of p = j.of p ∨
    ∃ init e, j.of p = init ++ [e] ∧ (j.cut p).of p = init ++ [{ e with cut := true }] := by
  cases hc : j.current with
  | none => exact .inl (by simp only [cut, hc])
  | some e =>
    by_cases he : e.sender = some p
    · refine .inr ⟨_, e, ?_, of_cut hc he⟩
      rw [of_of_some hc, if_pos he]
    · exact .inl (by simp only [cut, hc, if_neg he])

end Journal

namespace Standing

variable {v v' : Intake} {j j' : Journal} {p : PipeId} {s : Option (List Part)}
  {published : PipeId → Option (List Part)}

theorem frame (h : Standing v s j p) (hf : v'.front p = v.front p)
    (ha : v'.anonymous p = v.anonymous p) (hn : v'.name p = v.name p)
    (hh : v'.held p = v.held p) (hj : j'.of p = j.of p) : Standing v' s j' p := by
  have hparts : j'.parts p = j.parts p := by rw [Journal.parts, hj, Journal.parts]
  cases h with
  | absent hf' hs' hj' => exact .absent (hf.trans hf') hs' (hj.trans hj')
  | unnamed hf' ha' hs' hp' hj' =>
    exact .unnamed (hf.trans hf') (ha ▸ ha') hs' (fun h => hp' (ha ▸ h)) (hj.trans hj')
  | known hf' hn' hs' hcut hp' =>
    exact .known (hf.trans hf') (hn ▸ hn') hs' (hj ▸ hcut) (by rw [hparts, hh, hp'])
  | gone hf' hs' hcut hp' => exact .gone (hf.trans hf') hs' (hj ▸ hcut) (hparts ▸ hp')

theorem move (h : Standing v s j p) (hc : v.Consistent) (hn : (v.name p).isSome) {d d' : LinkEnd}
    (hd : v.front p = some d) (hd' : v'.front p = some d') (hn' : v'.name p = v.name p)
    (taken : List Part) (he : v.held p ++ d.inbox = taken ++ (v'.held p ++ d'.inbox))
    (hj : j'.parts p = j.parts p ++ taken)
    (hcut' : (∀ e ∈ j.of p, e.cut = false) → ∀ e ∈ j'.of p, e.cut = false) :
    Standing v' s j' p := by
  cases h with
  | absent hf => rw [hd] at hf; cases hf
  | gone hf => rw [hd] at hf; cases hf
  | unnamed hf ha =>
    rw [hc.apart p ha] at hn
    cases hn
  | known hf _ hs hcut hp =>
    cases hd.symm.trans hf
    refine .known hd' (hn' ▸ hn) hs (hcut' hcut) ?_
    rw [hj, List.append_assoc, ← he, hp]

theorem of_eq_nil (h : Standing v s j p) (hs : s = none) : j.of p = [] := by
  cases h with
  | absent _ _ hj => exact hj
  | unnamed _ _ hs' => rw [hs] at hs'; cases hs'
  | known _ _ hs' => rw [hs] at hs'; cases hs'
  | gone _ hs' => rw [hs] at hs'; cases hs'

theorem arrive (h : ∀ p, Standing v (published p) j p) (hp : published p = none) (e : LinkEnd)
    (p' : PipeId) :
    Standing (v.arrive p e) (update published p (some e.inbox) p') j p' := by
  by_cases hne : p' = p
  · subst hne
    rw [Function.update_self]
    refine .unnamed (e := e) (Function.update_self ..) ?_ rfl (fun _ => rfl) ((h p').of_eq_nil hp)
    rw [Intake.arrive]
    simp only [Function.update_self, Option.isSome_some]
  · rw [Function.update_of_ne hne]
    exact (h p').frame (Function.update_of_ne hne ..) (Function.update_of_ne hne ..) rfl rfl rfl

theorem settle (h : ∀ p, Standing v (published p) j p) (hc : v.Consistent) {e : LinkEnd}
    {o : Identified} (he : v.front p = some e) (ha : v.anonymous p = some .pending)
    (hi : v.Identifies p e o v') (p' : PipeId) :
    Standing (v'.settle p o) (published p') j p' := by
  by_cases hne : p' = p
  · subst hne
    cases h p' with
    | absent hf => rw [he] at hf; cases hf
    | gone hf => rw [he] at hf; cases hf
    | known _ hn =>
      rw [hc.apart p' (by rw [ha]; rfl)] at hn
      cases hn
    | unnamed hf ha' hs hp hj =>
      cases he.symm.trans hf
      have hp := hp ha
      cases hi with
      | dry =>
        exact .unnamed he (by simp [Intake.settle]) hs (fun _ => hp) hj
      | rejected =>
        refine .unnamed (Function.update_self ..) (by simp [Intake.settle]) hs (fun hp' => ?_) hj
        cases (Function.update_self ..).symm.trans hp'
      | known i hi hf' =>
        rw [hi] at hp
        refine .known (Function.update_self ..) (by simp [Intake.settle]) hp (by simp [hj]) ?_
        have hsrc : v.source ≠ some p' := by
          intro hsrc
          have hn := hc.sourced p' hsrc
          rw [hc.apart p' ha'] at hn
          cases hn
        rw [Journal.parts_eq_nil hj, Intake.held]
        simp [Intake.settle, hsrc]
  · cases hi with
    | dry => exact (h p').frame rfl (Function.update_of_ne hne ..) rfl rfl rfl
    | rejected =>
      exact (h p').frame (Function.update_of_ne hne ..) (Function.update_of_ne hne ..) rfl rfl rfl
    | known i hi hf =>
      exact (h p').frame (Function.update_of_ne hne ..) (Function.update_of_ne hne ..)
        (Function.update_of_ne hne ..) rfl rfl

theorem refill (h : ∀ p, Standing v (published p) j p) {e : LinkEnd} (he : v.front p = some e)
    (more : List Part) (p' : PipeId) :
    Standing { v with front := update v.front p (some { e with inbox := e.inbox ++ more }) }
      (update published p ((published p).map (· ++ more)) p') j p' := by
  by_cases hne : p' = p
  · subst hne
    rw [Function.update_self]
    cases h p' with
    | absent hf => rw [he] at hf; cases hf
    | gone hf => rw [he] at hf; cases hf
    | unnamed hf ha hs hp hj =>
      cases he.symm.trans hf
      refine .unnamed (Function.update_self ..) ha (by simpa using hs) (fun hp' => ?_) hj
      rw [hp hp']
      rfl
    | @known _ first rest hf hn hs hcut hp =>
      cases he.symm.trans hf
      have hs' : (published p').map (· ++ more) = some (first :: (rest ++ more)) := by
        rw [hs]
        rfl
      refine .known (Function.update_self ..) hn hs' hcut ?_
      rw [← hp]
      simp only [Intake.held, List.append_assoc]
  · rw [Function.update_of_ne hne]
    exact (h p').frame (Function.update_of_ne hne ..) rfl rfl rfl rfl

theorem depart (h : ∀ p, Standing v (published p) j p) (hc : v.Consistent) (p p' : PipeId) :
    Standing (v.depart p) (published p') (j.cut p) p' := by
  rw [hc.depart_eq]
  by_cases hne : p' = p
  · subst hne
    have hf : update v.front p' none p' = none := Function.update_self ..
    cases h p' with
    | absent _ hs hj =>
      refine .absent hf hs ?_
      rcases j.of_cut_cases p' with hj' | ⟨init, e, hj', -⟩
      · exact hj'.trans hj
      · rw [hj] at hj'
        exact absurd hj'.symm (List.concat_ne_nil _ _)
    | unnamed _ _ hs _ hj =>
      obtain ⟨s, hs⟩ := Option.isSome_iff_exists.1 hs
      have hnone : (j.cut p').parts p' = [] := by rw [Journal.parts_cut, Journal.parts_eq_nil hj]
      refine .gone hf hs ?_ (hnone ▸ List.nil_prefix)
      rcases j.of_cut_cases p' with hj' | ⟨init, e, hj', -⟩
      · simp [hj', hj]
      · rw [hj] at hj'
        exact absurd hj'.symm (List.concat_ne_nil _ _)
    | known _ _ hs hcut hp =>
      refine .gone hf hs ?_ ?_
      · rcases j.of_cut_cases p' with hj' | ⟨init, e, hj', hj''⟩
        · rw [hj']
          exact fun d hd => hcut d (List.dropLast_subset _ hd)
        · rw [hj'', List.dropLast_concat]
          exact fun d hd => hcut d (by rw [hj']; exact List.mem_append_left _ hd)
      · rw [Journal.parts_cut, List.drop_one, List.tail_cons, ← hp]
        exact List.prefix_append ..
    | gone _ hs hcut hp =>
      refine .gone hf hs ?_ (by rw [Journal.parts_cut]; exact hp)
      rcases j.of_cut_cases p' with hj' | ⟨init, e, hj', hj''⟩
      · rw [hj']
        exact hcut
      · rw [hj', List.dropLast_concat] at hcut
        rw [hj'', List.dropLast_concat]
        exact hcut
  · refine (h p').frame (Function.update_of_ne hne ..) (Function.update_of_ne hne ..)
      (Function.update_of_ne hne ..) ?_ (Journal.of_cut_of_ne hne)
    simp only [Intake.held, Intake.abandon]
    split
    · next hs => simp [hs, Ne.symm hne]
    · rfl

end Standing

end Zmtp
