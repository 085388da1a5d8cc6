import Zmtp.Buffer
import Zmtp.Frame.HeadReader

namespace Zmtp

/-- The part of a frame that the next byte belongs to. -/
inductive Phase where
  | head (reader : HeadReader)
  | body (more : Bool) (buffer : Buffer)
  deriving DecidableEq

/-- Takes frames from a byte stream, however it is cut into pieces. -/
structure Scanner where
  revision : Revision
  /-- The largest body that is accepted. -/
  limit : Nat
  phase : Phase
  deriving DecidableEq

structure Scan where
  scanner : Scanner
  outcome : Except WireFault (Option Part)
  /-- The input that was not used. -/
  rest : Bytes
  /-- The sizes of the bodies that storage was asked for. -/
  requests : List Nat

namespace Scanner

def new (revision : Revision) (limit : Nat) : Scanner := ⟨revision, limit, .head (.start revision)⟩

/-- Fills a body, and hands out the part once it is full. -/
def runBody (s : Scanner) (more : Bool) (buffer : Buffer) (input : Bytes) : Scan :=
  let filled := buffer.fill input
  let rest := input.drop buffer.room
  if filled.room = 0 then
    ⟨{ s with phase := .head (.start s.revision) }, .ok (some (.ofMore filled.bytes more)), rest, []⟩
  else
    ⟨{ s with phase := .body more filled }, .ok none, rest, []⟩

def runHead (s : Scanner) (reader : HeadReader) : Bytes → Scan
  | [] => ⟨{ s with phase := .head reader }, .ok none, [], []⟩
  | b :: input =>
    match reader.push s.limit b with
    | .error fault => ⟨{ s with phase := .head reader }, .error fault, input, []⟩
    | .ok (.pending reader) => s.runHead reader input
    | .ok (.done head) =>
      { s.runBody head.more (.new head.size) input with requests := [head.size] }

/-- Scans until a part is complete or the input runs out. -/
def run (s : Scanner) (input : Bytes) : Scan :=
  match s.phase with
  | .head reader => s.runHead reader input
  | .body more buffer => s.runBody more buffer input

/-- One for a part that is complete and not handed out, and zero otherwise. -/
def weight (s : Scanner) : Nat :=
  match s.phase with
  | .head _ => 0
  | .body _ buffer => if buffer.room = 0 then 1 else 0

theorem rest_runBody (s : Scanner) (more : Bool) (buffer : Buffer) (input : Bytes) :
    (s.runBody more buffer input).rest = input.drop buffer.room := by
  simp only [runBody]
  split <;> rfl

theorem weight_runBody {s : Scanner} {more : Bool} {buffer : Buffer} {input : Bytes} {p : Part}
    (h : (s.runBody more buffer input).outcome = .ok (some p)) :
    (s.runBody more buffer input).scanner.weight = 0 ∧ buffer.room ≤ input.length := by
  simp only [runBody, Buffer.room_fill] at h ⊢
  split at h
  · next hr => simp only [if_pos hr]; exact ⟨rfl, Nat.le_of_sub_eq_zero hr⟩
  · cases h

theorem load_runHead {s : Scanner} {reader : HeadReader} {input : Bytes} {p : Part}
    (h : (s.runHead reader input).outcome = .ok (some p)) :
    (s.runHead reader input).rest.length + (s.runHead reader input).scanner.weight <
      input.length := by
  induction input generalizing reader with
  | nil => cases h
  | cons b input ih =>
    rw [runHead] at h ⊢
    split at h
    · cases h
    · exact Nat.lt_succ_of_lt (ih h)
    · next head _ =>
      have hw := weight_runBody h
      simp only [rest_runBody, List.length_drop, List.length_cons, hw.1]
      omega

/-- A part that is handed out uses up input, or else was complete before. -/
theorem load_run {s s' : Scanner} {input rest : Bytes} {p : Part} {asked : List Nat}
    (h : s.run input = ⟨s', .ok (some p), rest, asked⟩) :
    rest.length + s'.weight < input.length + s.weight := by
  unfold run at h
  split at h
  · next hp =>
    have hl := load_runHead (p := p) (by rw [h])
    rw [h] at hl
    simp only [weight, hp] at hl ⊢
    exact hl
  · next more buffer hp =>
    have hw := weight_runBody (p := p) (by rw [h])
    have hr := s.rest_runBody more buffer input
    rw [h] at hw hr
    simp only at hw hr
    rw [hw.1, hr, List.length_drop]
    simp only [weight, hp]
    split <;> omega

end Scanner

/-- What came of reading all of an input, and the state of the reader after it. -/
structure Drain (σ : Type) where
  state : σ
  parts : List Part
  fault : Option WireFault
  /-- The input that was left when the last step began, if that step met a fault. -/
  rest : Bytes
  requests : List Nat

namespace Scanner

/-- Scans all of the input. The parts and the requests before it come newest first. -/
def drainFrom (parts : List Part) (requests : List Nat) (s : Scanner) (input : Bytes) : Drain Scanner :=
  match _h : s.run input with
  | ⟨s, .error fault, _, asked⟩ =>
    ⟨s, parts.reverse, some fault, input, (asked.reverseAux requests).reverse⟩
  | ⟨s, .ok none, rest, asked⟩ =>
    ⟨s, parts.reverse, none, rest, (asked.reverseAux requests).reverse⟩
  | ⟨s, .ok (some p), rest, asked⟩ =>
    drainFrom (p :: parts) (asked.reverseAux requests) s rest
termination_by input.length + s.weight
decreasing_by exact load_run _h

/-- Scans until the input gives no more parts or a fault is met. -/
def drain (s : Scanner) (input : Bytes) : Drain Scanner := drainFrom [] [] s input

end Scanner

end Zmtp
