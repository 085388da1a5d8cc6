import Zmtp.Stream.ByteStream

namespace Zmtp

/-- A stream whose answers are given beforehand, and which keeps a journal of what is asked of it. -/
structure Script where
  /-- What the next reads bring. -/
  input : List ReadOutcome
  ended : Bool
  /-- What the next writes answer. -/
  plan : List WriteOutcome
  /-- How much a write takes for which nothing is planned. -/
  limit : Option Nat
  closed : Bool
  wire : Bytes
  /-- The rooms offered to reads and what came of them. -/
  reads : List (Nat × ReadOutcome)
  /-- The slices of each write and what came of it. -/
  writes : List (List Nat × WriteOutcome)

namespace Script

def empty : Script := ⟨[], false, [], none, false, [], [], []⟩

def clearJournal (s : Script) : Script := { s with wire := [], reads := [], writes := [] }

/-- The answer to a read, without the journal. -/
def answer (s : Script) (room : Nat) : ReadOutcome × Script :=
  match s.input with
  | [] => (if s.ended then .data [] else .failed .wouldBlock, s)
  | .failed fault :: input => (.failed fault, { s with input })
  | .data bytes :: input =>
    let rest := bytes.drop room
    (.data (bytes.take room), { s with input := if rest.isEmpty then input else .data rest :: input })

def read (s : Script) (room : Nat) : ReadOutcome × Script :=
  let (outcome, s) := s.answer room
  (outcome, { s with reads := s.reads ++ [(room, outcome)] })

/-- How much of `total` bytes the next write takes. -/
def verdict (s : Script) (total : Nat) : WriteOutcome × Script :=
  match s.plan with
  | .failed fault :: plan => (.failed fault, { s with plan })
  | .accepted n :: plan => (.accepted (min n total), { s with plan })
  | [] =>
    match s.limit with
    | none => (.accepted total, s)
    | some 0 => (.failed .wouldBlock, s)
    | some n => (.accepted (min n total), s)

def write (s : Script) (slices : List Bytes) : WriteOutcome × Script :=
  let bytes := slices.flatten
  let (outcome, s) := s.verdict bytes.length
  let taken := match outcome with
    | .accepted n => bytes.take n
    | .failed _ => []
  (outcome, { s with
    wire := s.wire ++ taken
    writes := s.writes ++ [(slices.map List.length, outcome)] })

def close (s : Script) : Script := { s with closed := true }

instance : ByteStream Script := ⟨read, write, close⟩

end Script

end Zmtp
