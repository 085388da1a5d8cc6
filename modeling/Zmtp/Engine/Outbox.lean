import Zmtp.Bytes

namespace Zmtp

/-- Bytes that wait to be written, as the chunks that a write is offered. -/
structure Outbox where
  chunks : List Bytes
  /-- How many bytes the chunks have together. -/
  size : Nat
  deriving DecidableEq

namespace Outbox

def empty : Outbox := ⟨[], 0⟩

/-- Chunks up to this length are joined with their neighbours. -/
def joinLimit : Nat := 256

/-- How many chunks one write is offered at most. -/
def sliceLimit : Nat := 16

def push (o : Outbox) (chunk : Bytes) : Outbox := ⟨o.chunks ++ [chunk], o.size + chunk.length⟩

def slices (o : Outbox) : List Bytes := o.chunks.take sliceLimit

def dropBytes : Nat → List Bytes → List Bytes
  | _, [] => []
  | n, c :: cs =>
    if n = 0 then c :: cs
    else if c.length ≤ n then dropBytes (n - c.length) cs
    else c.drop n :: cs

/-- Removes the `n` bytes that a write took. -/
def consume (o : Outbox) (n : Nat) : Outbox := ⟨dropBytes n o.chunks, o.size - n⟩

/-- Small chunks, newest first, in one piece. -/
def joined (small : List Bytes) : List Bytes :=
  if small.isEmpty then [] else [small.reverse.flatten]

/-- Joins neighbours among the small chunks. The small ones just before come newest first. -/
def joinSmallFrom (small : List Bytes) : List Bytes → List Bytes
  | [] => joined small
  | c :: cs =>
    if c.length ≤ joinLimit then joinSmallFrom (c :: small) cs
    else joined small ++ c :: joinSmallFrom [] cs

def joinSmall (chunks : List Bytes) : List Bytes := joinSmallFrom [] chunks

def pushBatch (o : Outbox) (batch : List Bytes) : Outbox :=
  ⟨o.chunks ++ joinSmall batch, batch.foldl (fun n c => n + c.length) o.size⟩

theorem flatten_joined (small : List Bytes) : (joined small).flatten = small.reverse.flatten := by
  cases small <;> simp [joined]

theorem flatten_joinSmallFrom (small chunks : List Bytes) :
    (joinSmallFrom small chunks).flatten = small.reverse.flatten ++ chunks.flatten := by
  induction chunks generalizing small with
  | nil => simp [joinSmallFrom, flatten_joined]
  | cons c cs ih =>
    rw [joinSmallFrom]
    split <;> simp [ih, flatten_joined]

theorem flatten_joinSmall (chunks : List Bytes) : (joinSmall chunks).flatten = chunks.flatten :=
  flatten_joinSmallFrom [] chunks

theorem flatten_dropBytes (n : Nat) (chunks : List Bytes) :
    (dropBytes n chunks).flatten = chunks.flatten.drop n := by
  induction chunks generalizing n with
  | nil => simp [dropBytes]
  | cons c cs ih =>
    rw [dropBytes]
    split
    · next h => simp [h]
    · split
      · next h => simp [ih, List.drop_append, List.drop_of_length_le h]
      · next h =>
        have hc : n - c.length = 0 := Nat.sub_eq_zero_of_le (Nat.le_of_not_ge h)
        simp [List.drop_append, hc]

end Outbox

end Zmtp
