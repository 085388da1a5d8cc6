import Zmtp.Frame.Head

namespace Zmtp

/-- Writes one part at a time, in chunks as small as the transport needs. -/
structure FrameWriter where
  revision : Revision
  head : Bytes
  body : Bytes
  deriving DecidableEq

namespace FrameWriter

def new (revision : Revision) : FrameWriter := ⟨revision, [], []⟩

/-- Bytes of the part are left to write. -/
def hasData (w : FrameWriter) : Bool := !w.head.isEmpty || !w.body.isEmpty

def load (w : FrameWriter) (p : Part) : FrameWriter :=
  { w with head := (Head.ofPart p).encode w.revision, body := p.data }

/-- The next chunk, at most `limit` bytes long. A chunk never crosses from the header to the body. -/
def emit (w : FrameWriter) (limit : Nat) : Option (Bytes × FrameWriter) :=
  if limit = 0 then none
  else if w.head ≠ [] then some (w.head.take limit, { w with head := w.head.drop limit })
  else if w.body ≠ [] then some (w.body.take limit, { w with body := w.body.drop limit })
  else none

theorem emit_length_pos {w w' : FrameWriter} {limit : Nat} {chunk : Bytes}
    (h : w.emit limit = some (chunk, w')) : 0 < chunk.length := by
  unfold emit at h
  split at h
  · cases h
  · next hl =>
    split at h
    · next hh =>
      cases h
      have := List.length_pos_iff.2 hh
      rw [List.length_take]
      omega
    · split at h
      · next hb =>
        cases h
        have := List.length_pos_iff.2 hb
        rw [List.length_take]
        omega
      · cases h

theorem emit_length {w w' : FrameWriter} {limit : Nat} {chunk : Bytes}
    (h : w.emit limit = some (chunk, w')) :
    w'.head.length + w'.body.length + chunk.length = w.head.length + w.body.length := by
  unfold emit at h
  repeat' split at h
  all_goals cases h
  all_goals simp only [List.length_take, List.length_drop]; omega

/-- Emits all that is left. The chunks before it come newest first. -/
def drainFrom (chunks : List Bytes) (limit : Nat) (w : FrameWriter) : List Bytes × FrameWriter :=
  match _h : w.emit limit with
  | none => (chunks.reverse, w)
  | some (chunk, w) => drainFrom (chunk :: chunks) limit w
termination_by w.head.length + w.body.length
decreasing_by
  have := emit_length_pos _h
  have := emit_length _h
  omega

/-- All that is left, in chunks of at most `limit` bytes. -/
def drain (w : FrameWriter) (limit : Nat) : List Bytes × FrameWriter := drainFrom [] limit w

end FrameWriter

end Zmtp
