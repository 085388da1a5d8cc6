import Zmtp.Bytes

namespace Zmtp

/-- A buffer of fixed size that is filled from the front. What was written past the filled part
stays there until it is written over or counted as filled, and what was never written is zero. -/
structure Buffer where
  /-- The filled part, newest byte first. -/
  recent : Bytes
  /-- How many bytes still fit. -/
  room : Nat
  /-- What was written past the filled part. -/
  beyond : Bytes
  deriving DecidableEq

namespace Buffer

def new (size : Nat) : Buffer := ⟨[], size, []⟩

def size (b : Buffer) : Nat := b.recent.length + b.room

/-- The filled part, oldest byte first. -/
def bytes (b : Buffer) : Bytes := b.recent.reverse

/-- Writes past the filled part, as much as there is room for, and counts nothing. -/
def deposit (b : Buffer) (input : Bytes) : Buffer :=
  { b with beyond := input.take b.room ++ b.beyond.drop (input.take b.room).length }

/-- The first `n` bytes past the filled part. -/
def peek (b : Buffer) (n : Nat) : Bytes :=
  b.beyond.take n ++ List.replicate (n - b.beyond.length) 0

/-- Counts `n` more bytes as filled, at most as many as there is room for. -/
def count (b : Buffer) (n : Nat) : Buffer :=
  let n := min n b.room
  ⟨(b.peek n).reverseAux b.recent, b.room - n, b.beyond.drop n⟩

/-- Fills with as much of the input as there is room for. -/
def fill (b : Buffer) (input : Bytes) : Buffer :=
  let taken := input.take b.room
  (b.deposit taken).count taken.length

/-- Counts nothing as filled any more and keeps the contents. -/
def rewind (b : Buffer) : Buffer := ⟨[], b.size, b.bytes ++ b.beyond⟩

/-- At least `n` bytes large, with the same contents. -/
def grow (b : Buffer) (n : Nat) : Buffer := { b with room := b.room + (n - b.size) }

@[simp] theorem length_peek (b : Buffer) (n : Nat) : (b.peek n).length = n := by
  simp [peek]
  omega

@[simp] theorem size_new (n : Nat) : (new n).size = n := by simp [new, size]

@[simp] theorem room_deposit (b : Buffer) (input : Bytes) : (b.deposit input).room = b.room := rfl

@[simp] theorem bytes_deposit (b : Buffer) (input : Bytes) : (b.deposit input).bytes = b.bytes :=
  rfl

@[simp] theorem room_count (b : Buffer) (n : Nat) : (b.count n).room = b.room - n := by
  simp [count]
  omega

theorem bytes_count (b : Buffer) (n : Nat) :
    (b.count n).bytes = b.bytes ++ b.peek (min n b.room) := by
  simp [count, bytes, List.reverseAux_eq]

@[simp] theorem size_count (b : Buffer) (n : Nat) : (b.count n).size = b.size := by
  simp [count, size, List.reverseAux_eq]
  omega

theorem peek_deposit {b : Buffer} {input : Bytes} (h : input.length ≤ b.room) :
    (b.deposit input).peek input.length = input := by
  simp only [peek, deposit, List.take_of_length_le h, List.take_left', List.length_append]
  rw [Nat.sub_eq_zero_of_le (Nat.le_add_right _ _), List.replicate_zero, List.append_nil]

@[simp] theorem room_fill (b : Buffer) (input : Bytes) :
    (b.fill input).room = b.room - input.length := by
  simp [fill]
  omega

theorem bytes_fill (b : Buffer) (input : Bytes) :
    (b.fill input).bytes = b.bytes ++ input.take b.room := by
  have h : (input.take b.room).length ≤ b.room := List.length_take_le b.room input
  simp only [fill, bytes_count, bytes_deposit, room_deposit, Nat.min_eq_left h, peek_deposit h]

@[simp] theorem size_rewind (b : Buffer) : b.rewind.size = b.size := by simp [rewind, size]

end Buffer

end Zmtp
