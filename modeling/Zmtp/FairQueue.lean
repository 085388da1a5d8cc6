import Zmtp.Link

namespace Zmtp

/-- Serves many pipes in turn, one whole message at a time. A pipe found empty is put aside until
its owner says that it has something to read again. -/
structure FairQueue where
  /-- The pipes that may have something to read, in the order in which they are served. -/
  ready : List PipeId
  idle : List PipeId
  /-- The place of the pipe that is asked next. -/
  cursor : Nat
  /-- The pipe whose message has been delivered in part. -/
  midMessage : Option PipeId
  deriving DecidableEq

/-- Removes the element at a place and puts the last element there. -/
def swapRemove {α : Type} (l : List α) (i : Nat) : List α :=
  match l.getLast? with
  | none => []
  | some x => (l.set i x).dropLast

@[simp] theorem length_swapRemove {α : Type} (l : List α) (i : Nat) :
    (swapRemove l i).length = l.length - 1 := by
  unfold swapRemove
  split
  · next h => rw [List.getLast?_eq_none_iff.1 h]; rfl
  · simp

namespace FairQueue

def empty : FairQueue := ⟨[], [], 0, none⟩

def size (q : FairQueue) : Nat := q.ready.length + q.idle.length

def isEmpty (q : FairQueue) : Bool := q.ready.isEmpty && q.idle.isEmpty

def inMessage (q : FairQueue) : Bool := q.midMessage.isSome

def isReady (q : FairQueue) (p : PipeId) : Bool := q.ready.contains p

def attach (q : FairQueue) (p : PipeId) : FairQueue := { q with ready := q.ready ++ [p] }

/-- Takes the pipe at a place out of turn. The last one takes its place. -/
def leave (q : FairQueue) (i : Nat) : FairQueue :=
  let ready := swapRemove q.ready i
  { q with ready, cursor := if q.cursor = ready.length then 0 else q.cursor }

/-- Forgets a pipe and abandons the message that it was delivering. -/
def remove (q : FairQueue) (p : PipeId) : FairQueue :=
  if p ∈ q.ready ∨ p ∈ q.idle then
    let q := if q.midMessage = some p then { q with midMessage := none } else q
    if p ∈ q.ready then q.leave (q.ready.idxOf p) else { q with idle := q.idle.erase p }
  else q

/-- Puts a pipe back in turn that had been put aside. -/
def activate (q : FairQueue) (p : PipeId) : FairQueue :=
  if p ∉ q.ready ∧ p ∈ q.idle then
    { q with ready := q.ready ++ [p], idle := q.idle.erase p }
  else q

def park (q : FairQueue) (i : Nat) (p : PipeId) : FairQueue :=
  let q := q.leave i
  { q with idle := p :: q.idle }

/-- Records that a pipe delivered a part. The cursor moves on only after a last part. -/
def served (q : FairQueue) (p : PipeId) (part : Part) : FairQueue :=
  if part.hasMore then { q with midMessage := some p }
  else { q with midMessage := none, cursor := (q.cursor + 1) % q.ready.length }

@[simp] theorem length_ready_leave (q : FairQueue) (i : Nat) :
    (q.leave i).ready.length = q.ready.length - 1 := by
  simp [leave]

/-- The next part and the pipe that it came from. Pipes are asked for a part through `read`, those
that have none are put aside. -/
def next {σ : Type} (read : PipeId → σ → Option Part × σ) (q : FairQueue) (s : σ) :
    Option (PipeId × Part) × FairQueue × σ :=
  match _h : q.ready[q.cursor]? with
  | none => (none, q, s)
  | some p =>
    match read p s with
    | (some part, s) => (some (p, part), q.served p part, s)
    | (none, s) => next read (q.park q.cursor p) s
termination_by q.ready.length
decreasing_by
  have hlt := (List.getElem?_eq_some_iff.1 _h).1
  simp only [park, length_ready_leave]
  omega

end FairQueue

end Zmtp
