import Mathlib.Logic.Function.Basic
import Zmtp.Proofs.FairQueue.Desk

namespace Zmtp

namespace FairQueue

open Function (update)

/-- What each pipe has to read, oldest first. -/
abbrev Inboxes := PipeId → List Part

def pop (p : PipeId) (s : Inboxes) : Option Part × Inboxes :=
  match s p with
  | [] => (none, s)
  | part :: rest => (some part, update s p rest)

theorem pop_of_nil {p : PipeId} {s : Inboxes} (h : s p = []) : pop p s = (none, s) := by
  rw [pop, h]

theorem pop_of_cons {p : PipeId} {s : Inboxes} {part : Part} {rest : List Part}
    (h : s p = part :: rest) : pop p s = (some part, update s p rest) := by
  rw [pop, h]

/-- What happens to a queue whose pipes have inboxes. -/
inductive Act where
  | attach (p : PipeId)
  | activate (p : PipeId)
  | remove (p : PipeId)
  | push (p : PipeId) (part : Part)
  | next
  deriving DecidableEq

def Act.use : Act → Use Inboxes
  | attach p => .attach p
  | activate p => .activate p
  | remove p => .remove p
  | push p part => .tend fun s => update s p (s p ++ [part])
  | next => .next pop

namespace Desk

variable {d : Desk Inboxes} {ps : List PipeId} {p : PipeId} {part : Part}

/-- No pipe is attached, and none has anything to read. -/
def empty : Desk Inboxes := start fun _ => []

def perform (d : Desk Inboxes) (as : List Act) : Desk Inboxes := d.run (as.map Act.use)

/-- What `next` would give. -/
def answer (d : Desk Inboxes) : Option (PipeId × Part) := (d.queue.next pop d.world).1

/-- The pipes that `next` would ask. -/
def asks (d : Desk Inboxes) : List (PipeId × Option Part) := asked pop d.queue d.world

theorem perform_append (d : Desk Inboxes) (as bs : List Act) :
    d.perform (as ++ bs) = (d.perform as).perform bs := by
  simp only [perform, run, List.map_append, List.foldl_append]

/-- A message that `next` has given a part of goes on: unless its pipe is removed, `next` asks this
pipe first and gives what it has, whatever else is done before. -/
def KeepsTurn (d : Desk Inboxes) (between : List Act) : Prop :=
  ∀ p part, d.answer = some (p, part) → part.hasMore = true →
    .next ∉ between → .remove p ∉ between →
      ∀ more rest, (d.perform (.next :: between)).world p = more :: rest →
        (d.perform (.next :: between)).asks = [(p, some more)] ∧
          (d.perform (.next :: between)).answer = some (p, more)

/-- No removal displaces the pipe in the middle of a message. -/
def Spares (d : Desk Inboxes) : Act → Prop
  | .remove p => ¬ d.queue.Displaces p
  | _ => True

instance (d : Desk Inboxes) : DecidablePred d.Spares
  | .remove _ => inferInstanceAs (Decidable (¬_))
  | .attach _ | .activate _ | .push _ _ | .next => inferInstanceAs (Decidable True)

def AllSpare : Desk Inboxes → List Act → Prop
  | _, [] => True
  | d, a :: as => d.Spares a ∧ AllSpare (d.play a.use) as

instance decidableAllSpare : ∀ d as, Decidable (AllSpare d as)
  | _, [] => inferInstanceAs (Decidable True)
  | d, a :: as =>
    have := decidableAllSpare (d.play a.use) as
    inferInstanceAs (Decidable (d.Spares a ∧ AllSpare (d.play a.use) as))

/-- The pipe is in the middle of a message and is asked next. -/
structure HasTurn (p : PipeId) (d : Desk Inboxes) : Prop where
  midMessage : d.queue.midMessage = some p
  current : d.queue.current? = some p

theorem hasTurn_next (ha : d.answer = some (p, part)) (hm : part.hasMore = true) :
    HasTurn p (d.play (.next pop)) := by
  obtain ⟨q, -, ⟨-, hn, -⟩ | ⟨p', part', hc, hsome, hq⟩⟩ := exists_passes_next pop d.queue d.world
  · rw [answer, hn] at ha
    cases ha
  · rw [answer, hsome] at ha
    cases ha
    constructor
    · change (d.queue.next pop d.world).2.1.midMessage = some p
      rw [hq, midMessage_served, if_pos hm]
    · change (d.queue.next pop d.world).2.1.current? = some p
      rw [hq, current?_served hm]
      exact hc

theorem HasTurn.play {a : Act} (h : HasTurn p d) (hk : d.Keeps ps) (hs : d.Spares a)
    (hn : a ≠ .next) (hr : a ≠ .remove p) : HasTurn p (d.play a.use) := by
  obtain ⟨hm, hc⟩ := h
  cases a with
  | attach x => exact ⟨hm, current?_attach hc⟩
  | activate x => exact ⟨(midMessage_activate ..).trans hm, current?_activate hc⟩
  | remove x =>
    have hx : x ≠ p := by
      rintro rfl
      exact hr rfl
    constructor
    · change (d.queue.remove x).midMessage = some p
      rw [midMessage_remove, hm, if_neg]
      · intro he
        exact hx (Option.some.inj he).symm
      · intro c hc'
        cases hm.symm.trans hc'
        exact List.mem_append_left _ (mem_ready_of_current? hc)
    · exact (current?_remove hk.wellFormed hm hc hx).2 hs
  | push x part => exact ⟨hm, hc⟩
  | next => exact absurd rfl hn

theorem HasTurn.perform {as : List Act} (h : HasTurn p d) (hk : d.Keeps ps)
    (hf : Fresh ps (as.map Act.use)) (hs : d.AllSpare as) (hn : .next ∉ as)
    (hr : .remove p ∉ as) : HasTurn p (d.perform as) := by
  induction as generalizing d ps with
  | nil => exact h
  | cons a as ih =>
    rw [List.mem_cons, not_or] at hn hr
    exact ih (h.play hk hs.1 (Ne.symm hn.1) (Ne.symm hr.1)) (hk.play hf.1) hf.2 hs.2 hn.2 hr.2

theorem HasTurn.answer (h : HasTurn p d) {more : Part} {rest : List Part}
    (hw : d.world p = more :: rest) : d.asks = [(p, some more)] ∧ d.answer = some (p, more) := by
  constructor
  · exact asked_of_part h.current (pop_of_cons hw)
  · rw [Desk.answer, next_of_part h.current (pop_of_cons hw)]

theorem HasTurn.asks_remove (h : HasTurn p d) (hk : d.Keeps ps) {r : PipeId} (hr : r ≠ p) :
    ((d.play (.remove r)).asks.head?.map Prod.fst = some p ↔ ¬ d.queue.Displaces r) := by
  rw [asks, head?_asked]
  exact current?_remove hk.wellFormed h.midMessage h.current hr

/-- If no pipe that is removed displaces the one in the middle of a message, that message is not
interrupted. The condition cannot be weakened: the pipe keeps its turn only if the one that is removed
does not displace it. -/
theorem keepsTurn_run (as between : List Act)
    (hf : Fresh [] ((as ++ .next :: between).map Act.use))
    (hs : ((empty.perform as).perform [.next]).AllSpare between) :
    (empty.perform as).KeepsTurn between ∧
      ∀ p part, (empty.perform as).answer = some (p, part) → part.hasMore = true →
        .next ∉ between → .remove p ∉ between → ∀ r ≠ p,
          ((empty.perform (as ++ .next :: (between ++ [.remove r]))).asks.head?.map Prod.fst =
              some p ↔
            ¬ (empty.perform (as ++ .next :: between)).queue.Displaces r) := by
  rw [List.map_append, List.map_cons, fresh_append] at hf
  obtain ⟨hf, -, hf'⟩ := hf
  have hk : ((empty.perform as).perform [.next]).Keeps (enrolled [] (as.map Act.use)) :=
    Keeps.play (u := .next pop) (keeps_run _ hf) trivial
  have hturn {p : PipeId} {part : Part} (ha : (empty.perform as).answer = some (p, part))
      (hm : part.hasMore = true) (hn : .next ∉ between) (hr : .remove p ∉ between) :
      HasTurn p ((empty.perform as).perform (.next :: between)) :=
    (hasTurn_next ha hm).perform hk hf' hs hn hr
  constructor
  · intro p part ha hm hn hr more rest hw
    exact (hturn ha hm hn hr).answer hw
  · intro p part ha hm hn hr r hne
    have h := (hturn ha hm hn hr).asks_remove (hk.run hf') hne
    rw [← List.cons_append, ← List.append_assoc, perform_append, perform_append]
    exact h

/-- Three pipes, each with a message of its own and the first with another. The message of the last
pipe has two parts. -/
def threePipes : List Act :=
  [.attach ⟨1⟩, .attach ⟨2⟩, .attach ⟨3⟩, .push ⟨1⟩ (.ofBytes [1, 1]),
    .push ⟨1⟩ (.ofBytes [1, 2]), .push ⟨2⟩ (.ofBytes [2, 1]), .push ⟨3⟩ (.ofMore [3, 1] true),
    .push ⟨3⟩ (.ofBytes [3, 2]), .next, .next]

/-- The first of the ready pipes is removed in the middle of the message, and others come and go. -/
theorem keepsTurn_run_threePipes :
    (empty.perform threePipes).answer = some (⟨3⟩, .ofMore [3, 1] true) ∧
      (empty.perform (threePipes ++
        [.next, .remove ⟨1⟩, .attach ⟨4⟩, .activate ⟨2⟩, .remove ⟨4⟩])).answer =
          some (⟨3⟩, .ofBytes [3, 2]) := by
  have h := (keepsTurn_run threePipes [.remove ⟨1⟩, .attach ⟨4⟩, .activate ⟨2⟩, .remove ⟨4⟩]
    (by decide +kernel) (by decide +kernel)).1
  have ha : (empty.perform threePipes).answer = some (⟨3⟩, .ofMore [3, 1] true) := by
    decide +kernel
  refine ⟨ha, ?_⟩
  rw [perform_append]
  exact (h _ _ ha rfl (by decide) (by decide) (.ofBytes [3, 2]) [] (by decide +kernel)).2

/-- The second of the ready pipes is removed, and the first one gets into the message. -/
theorem not_keepsTurn_threePipes :
    Fresh [] ((threePipes ++ [Act.next, .remove ⟨2⟩]).map Act.use) ∧
      ¬ (empty.perform threePipes).KeepsTurn [.remove ⟨2⟩] := by
  refine ⟨by decide +kernel, ?_⟩
  intro h
  have ha : (empty.perform threePipes).answer = some (⟨3⟩, .ofMore [3, 1] true) := by
    decide +kernel
  have hnext := (h _ _ ha rfl (by decide) (by decide) (.ofBytes [3, 2]) [] (by decide +kernel)).2
  have hother : ((empty.perform threePipes).perform [.next, .remove ⟨2⟩]).answer =
      some (⟨1⟩, .ofBytes [1, 2]) := by
    decide +kernel
  rw [hother] at hnext
  revert hnext
  decide

end Desk

end FairQueue

end Zmtp
