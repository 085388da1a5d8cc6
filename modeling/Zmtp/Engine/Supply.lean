import Zmtp.Frame.FrameWriter
import Zmtp.Session

namespace Zmtp

/-- Where the bytes of a connection come from: the part that is being written, then our identity
unless it is sent, then the parts of the session. -/
structure Supply (σ : Type) where
  writer : FrameWriter
  identitySent : Bool
  session : σ

namespace Supply

variable {σ : Type} [Session σ]

/-- Starts on the next part unless one is being written. -/
def advance (identity : Bytes) (s : Supply σ) : Supply σ :=
  if s.writer.hasData then s
  else if s.identitySent then
    match Session.pull s.session with
    | (some p, session) => { s with writer := s.writer.load p, session }
    | (none, session) => { s with session }
  else { s with writer := s.writer.load (.ofBytes identity), identitySent := true }

/-- Gathers chunks of at most `room` bytes in all. The chunks before it come newest first. -/
def gatherFrom (identity : Bytes) (chunks : List Bytes) (room : Nat) (s : Supply σ) :
    List Bytes × Supply σ :=
  if _h : room = 0 then (chunks.reverse, s)
  else
    let s := s.advance identity
    match _he : s.writer.emit room with
    | none => (chunks.reverse, s)
    | some (chunk, writer) =>
      gatherFrom identity (chunk :: chunks) (room - chunk.length) { s with writer }
termination_by room
decreasing_by
  have := FrameWriter.emit_length_pos _he
  omega

/-- Gathers chunks of at most `room` bytes in all, until there is nothing to send. -/
def gather (identity : Bytes) (room : Nat) (s : Supply σ) : List Bytes × Supply σ :=
  gatherFrom identity [] room s

end Supply

end Zmtp
