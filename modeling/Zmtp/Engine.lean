import Zmtp.Engine.Inbound
import Zmtp.Engine.Outbound

namespace Zmtp

/-- What the owner of an engine can tell it. -/
inductive Signal where
  | start
  | readable
  | writable
  | resumeInput
  | resumeOutput
  deriving DecidableEq

namespace Engine

variable {τ σ : Type} [ByteStream τ] [Session σ]

/-- Takes up the connection, and reads what is there already. -/
def start (e : Engine τ σ) : Engine τ σ :=
  if e.isOver then e else (e.update (·.begin)).onReadable

/-- What an engine does when it is told something. -/
def handle (e : Engine τ σ) : Signal → Engine τ σ
  | .start => e.start
  | .readable => e.onReadable
  | .writable => e.onWritable
  | .resumeInput => e.resumeInput
  | .resumeOutput => e.resumeOutput

/-- Tells an engine something. The session that comes with a start is not looked at when the
connection is over: it is dropped, which gives up its end of the link. -/
def signal (e : Engine τ σ) (g : Signal) : Engine τ σ :=
  if g = .start ∧ e.isOver then { e with session := Session.detach e.session } else e.handle g

/-- One round of a loop that serves what the engine waits for. -/
def serve (e : Engine τ σ) : Engine τ σ :=
  let e := if e.interest.wantsWrite then e.onWritable else e
  if e.interest.wantsRead then e.onReadable else e

def pump : Nat → Engine τ σ → Engine τ σ
  | 0, e => e
  | n + 1, e => pump n e.serve

end Engine

end Zmtp
