import Mathlib.Algebra.Order.BigOperators.Group.List
import Mathlib.Algebra.Order.Ring.Nat
import Zmtp.Proofs.Router.Turn

namespace Zmtp

open Function (update)

namespace FairQueue

variable {σ : Type} {read : PipeId → σ → Option Part × σ} {q q' : FairQueue} {s : σ} {p : PipeId}

/-- As `next`, but gives nothing at all if a pipe is found empty in the middle of a message. -/
def next? (read : PipeId → σ → Option Part × σ) (q : FairQueue) (s : σ) :
    Option (Option (PipeId × Part) × FairQueue × σ) :=
  match _h : q.ready[q.cursor]? with
  | none => some (none, q, s)
  | some p =>
    match read p s with
    | (some part, s) => some (some (p, part), q.served p part, s)
    | (none, s) => if q.inMessage then none else next? read (q.park q.cursor p) s
termination_by q.ready.length
decreasing_by
  have hlt := (List.getElem?_eq_some_iff.1 _h).1
  simp only [park, length_ready_leave]
  omega

section Step

variable {part : Part} {s' : σ}

theorem next?_of_none (hc : q.current? = none) : next? read q s = some (none, q, s) := by
  rw [next?]
  split
  · rfl
  · next h => cases hc.symm.trans h

theorem next?_of_part (hc : q.current? = some p) (hr : read p s = (some part, s')) :
    next? read q s = some (some (p, part), q.served p part, s') := by
  rw [next?]
  split
  · next h => cases hc.symm.trans h
  · next h =>
    cases hc.symm.trans h
    rw [hr]

theorem next?_of_dry (hc : q.current? = some p) (hr : read p s = (none, s')) :
    next? read q s = if q.inMessage then none else next? read (q.park q.cursor p) s' := by
  rw [next?]
  split
  · next h => cases hc.symm.trans h
  · next h =>
    cases hc.symm.trans h
    rw [hr]

end Step

theorem next?_of_midMessage (hm : q.midMessage = none) : next? read q s = some (next read q s) := by
  induction q, s using next.induct read with
  | case1 q s hc => rw [next?_of_none hc, next_of_none hc]
  | case2 q s p hc part s' hr => rw [next?_of_part hc hr, next_of_part hc hr]
  | case3 q s p hc s' hr ih =>
    rw [next?_of_dry hc hr, next_of_dry hc hr, inMessage, hm]
    exact ih hm

/-- In the middle of a message, the pipe that has the turn must have more to read. -/
theorem next?_spec (read : PipeId → σ → Option Part × σ) (q : FairQueue) (s : σ) :
    next? read q s = some (next read q s) ∧
        (∀ p, q.current? = some p → (read p s).1 = none → q.midMessage = none) ∨
      next? read q s = none ∧
        ∃ p, q.current? = some p ∧ (read p s).1 = none ∧ q.midMessage ≠ none := by
  by_cases hm : q.midMessage = none
  · exact .inl ⟨next?_of_midMessage hm, fun _ _ _ => hm⟩
  · cases hc : q.current? with
    | none => exact .inl ⟨by rw [next?_of_none hc, next_of_none hc], nofun⟩
    | some p =>
      cases hr : read p s with
      | mk o s' =>
        cases o with
        | some part =>
          refine .inl ⟨by rw [next?_of_part hc hr, next_of_part hc hr], ?_⟩
          intro p' hp' hn
          cases hp'
          rw [hr] at hn
          cases hn
        | none =>
          have hin : q.inMessage = true := Option.isSome_iff_ne_none.2 hm
          exact .inr ⟨by rw [next?_of_dry hc hr, if_pos hin], p, rfl, by rw [hr], hm⟩

end FairQueue

/-- In the middle of a message, the pipe that is asked next is not empty. -/
def Intake.Smooth (v : Intake) : Prop :=
  ∀ p, v.queue.current? = some p → v.Dry p → v.queue.midMessage = none

namespace Router

variable {r : Router} {p : PipeId}

/-- Whether no pipe would be found empty in the middle of a message if a part was fetched. -/
def smooth (r : Router) : Bool := (r.queue.next? readPipe r.pipes).isSome

theorem readPipe_of_dry (h : r.intake.Dry p) : (readPipe p r.pipes).1 = none := by
  rw [readPipe]
  cases hl : r.pipes.get? p with
  | none => rfl
  | some l =>
    have hf : r.intake.front p = some l.front := congrArg (Option.map Link.front) hl
    simp only [Link.read_left_of_nil (h _ hf)]

theorem smooth_iff : r.smooth = true ↔ r.intake.Smooth := by
  rw [smooth]
  rcases r.queue.next?_spec readPipe r.pipes with ⟨hn, hall⟩ | ⟨hn, p, hc, hd, hm⟩
  · rw [hn]
    exact iff_of_true rfl fun p hc hd => hall p hc (readPipe_of_dry hd)
  · rw [hn]
    exact iff_of_false Bool.false_ne_true fun h => hm (h p hc (dry_of_readPipe hd))

end Router

namespace Intake

variable {v v' : Intake} {p c : PipeId} {e : LinkEnd} {o : Option Part}

theorem Steady.smooth (h : v.Steady) (hc : v.Consistent) : v.Smooth := by
  intro p hp hd
  by_contra hm
  obtain ⟨c, hm⟩ := Option.ne_none_iff_exists'.1 hm
  obtain ⟨ht, hne⟩ := h.turn c hm
  cases hp.symm.trans ht
  obtain ⟨e, he⟩ := hc.front_of_name (hc.sourced p (hc.midway p hm))
  exact hne e he (hd e he)

theorem Steady.smooth_depart (h : v.Steady) (hc : v.Consistent) (hd : v.queue.Displaces p) :
    (v.depart p).Smooth ↔ ∀ d, v.queue.ready.head? = some d → ¬ v.Dry d := by
  obtain ⟨c, hm, -, hne, -, hh⟩ := id hd
  have hmem : ∀ c, v.queue.midMessage = some c → c ∈ v.queue.members := fun c hc' =>
    (hc.queued c).2 (hc.sourced c (hc.midway c hc'))
  have hmid : (v.queue.remove p).midMessage ≠ none := by
    rw [FairQueue.midMessage_remove hmem, if_neg fun he => hne (Option.some.inj (he.symm.trans hm)),
      hm]
    exact Option.some_ne_none c
  have hcur := FairQueue.current?_remove_of_displaces hc.queue (hm.trans (h.turn c hm).1.symm) hd
  rw [hc.depart_eq, Smooth]
  change (∀ d, (v.queue.remove p).current? = some d → _ → (v.queue.remove p).midMessage = none) ↔ _
  rw [hcur]
  refine forall₂_congr fun d hhead => ?_
  have hdp : d ≠ p := by
    rintro rfl
    exact hh hhead
  simp only [Dry, Function.update_of_ne hdp, hmid, imp_false]

/-- A ready pipe ends in the middle of a message. -/
def Torn (v : Intake) (p : PipeId) : Prop :=
  p ∈ v.queue.ready ∧ ∃ e, v.front p = some e ∧ ¬ Whole e.inbox

def unread (v : Intake) (p : PipeId) : Nat := (v.front p).elim 0 fun e => e.inbox.length

/-- How many parts wait in the pipes of the queue. -/
def waiting (v : Intake) : Nat := (v.queue.members.map v.unread).sum

/-- What receiving lowers. A part that is only taken early counts for less than before. -/
def load (v : Intake) : Nat :=
  2 * v.waiting + v.prefetchedName.toList.length + v.prefetchedPart.toList.length

theorem not_whole_ne_nil {parts : List Part} (h : ¬ Whole parts) : parts ≠ [] := by
  rintro rfl
  exact h nofun

theorem not_whole_tail {part : Part} {rest : List Part} (h : ¬ Whole (part :: rest))
    (hr : rest ≠ []) : ¬ Whole rest := by
  intro hw
  apply h
  intro x hx
  rw [List.getLast?_cons_of_ne_nil hr] at hx
  exact hw x hx

theorem not_whole_singleton {part : Part} (h : ¬ Whole [part]) : part.hasMore = true := by
  by_contra hm
  apply h
  intro x hx
  cases hx
  exact eq_false_of_ne_true hm

theorem Torn.not_fetches_none (h : v.Torn p) (hc : v.Consistent) : ¬ v.Fetches none v' := by
  obtain ⟨hr, e, he, hw⟩ := h
  intro hf
  cases hf with
  | dry hq hn =>
    have hready := hq.mem_ready hr fun hd => not_whole_ne_nil hw (hd e he)
    rw [(hq.wellFormed hc.queue).ready_eq_nil hn] at hready
    cases hready

/-- A part is taken, and if it is the last of the torn pipe, that one is empty in the middle of its
message. -/
theorem Torn.fetch (h : v.Torn p) {d : PipeId × Part} (hf : v.Fetches (some d) v') :
    (v'.Torn p ∧ v'.waiting < v.waiting) ∨ ¬ v'.Smooth := by
  obtain ⟨hr, e, he, hw⟩ := h
  cases hf with
  | @took q c e' part rest hq hcur he' hi =>
    have hready := hq.mem_ready hr fun hd => not_whole_ne_nil hw (hd e he)
    have hsum : waiting { v with
        front := update v.front c (some { e' with inbox := rest })
        queue := q.served c part
        source := some c } < v.waiting := by
      have hmem : c ∈ q.members := List.mem_append_left _ (FairQueue.mem_ready_of_current? hcur)
      have hlt : unread { v with front := update v.front c (some { e' with inbox := rest }) } c <
          v.unread c := by
        simp [unread, he', hi]
      rw [waiting, FairQueue.members_served, waiting, ← (hq.members.map v.unread).sum_eq]
      apply List.sum_lt_sum _ _ _ ⟨c, hmem, hlt⟩
      intro p' _
      by_cases hp : p' = c
      · exact hp ▸ hlt.le
      · simp [unread, Function.update_of_ne hp]
    by_cases hp : p = c
    · subst hp
      cases he.symm.trans he'
      by_cases hrest : rest = []
      · right
        subst hrest
        rw [hi] at hw
        have hmore := not_whole_singleton hw
        intro hsmooth
        have hmid := hsmooth p ((FairQueue.current?_served hmore).trans hcur) (by
          intro d hd
          cases (Function.update_self ..).symm.trans hd
          rfl)
        rw [show (q.served p part).midMessage = _ from FairQueue.midMessage_served .., hmore] at hmid
        cases hmid
      · left
        rw [hi] at hw
        refine ⟨⟨?_, _, Function.update_self .., not_whole_tail hw hrest⟩, hsum⟩
        exact (FairQueue.ready_served ..).symm ▸ hready
    · left
      refine ⟨⟨?_, e, (Function.update_of_ne hp ..).trans he, hw⟩, hsum⟩
      exact (FairQueue.ready_served ..).symm ▸ hready

theorem Fetches.prefetched {d : Option (PipeId × Part)} (h : v.Fetches d v') :
    v'.prefetchedName = v.prefetchedName ∧ v'.prefetchedPart = v.prefetchedPart := by
  cases h <;> exact ⟨rfl, rfl⟩

theorem load_lt (hlt : v'.waiting < v.waiting)
    (hn : v'.prefetchedName = none) : v'.load < v.load := by
  have hp := Option.length_toList_le (o := v'.prefetchedPart)
  rw [load, load, hn, Option.toList_none, List.length_nil]
  omega

theorem Torn.receive (h : v.Torn p) (hc : v.Consistent) (hr : v.Receives o v') :
    (v'.Torn p ∧ v'.load < v.load) ∨ ¬ v'.Smooth := by
  cases hr with
  | name hn =>
    refine .inl ⟨h, ?_⟩
    rw [load, load, hn]
    change 2 * v.waiting + 0 + v.prefetchedPart.toList.length <
      2 * v.waiting + 1 + v.prefetchedPart.toList.length
    omega
  | held hn hp =>
    refine .inl ⟨h, ?_⟩
    rw [load, load, hn, hp]
    change 2 * v.waiting + 0 + 0 < 2 * v.waiting + 0 + 1
    omega
  | dry hn hp hf => exact absurd hf (h.not_fetches_none hc)
  | inside hn hp hf hm =>
    rcases h.fetch hf with ⟨ht, hlt⟩ | hs
    · exact .inl ⟨ht, load_lt hlt (hf.prefetched.1.trans hn)⟩
    · exact .inr hs
  | first hn hp hf hm he =>
    rcases h.fetch hf with ⟨ht, hlt⟩ | hs
    · exact .inl ⟨ht, load_lt hlt (hf.prefetched.1.trans hn)⟩
    · exact .inr hs

end Intake

namespace Router

variable {r : Router} {p : PipeId}

/-- If parts are received for long enough, the torn pipe is found empty in the middle of its
message. -/
theorem exists_not_smooth (h : r.intake.Torn p) (hc : r.intake.Consistent) :
    ∃ n, ((fun r : Router => r.receive.2)^[n] r).smooth = false := by
  induction hl : r.intake.load using Nat.strongRecOn generalizing r with
  | ind l ih =>
    have hr := r.intake_receive
    rcases h.receive hc hr with ⟨ht, hlt⟩ | hs
    · obtain ⟨n, hn⟩ := ih _ (hl ▸ hlt) ht (hc.receive hr) rfl
      exact ⟨n + 1, hn⟩
    · exact ⟨1, eq_false_of_ne_true fun h => hs (smooth_iff.1 h)⟩

end Router

end Zmtp
