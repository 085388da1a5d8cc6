import Zmtp.Link

namespace Zmtp

/-- What a session says to a part that is pushed to it. -/
inductive PushOutcome where
  | accepted
  /-- There is no room now. The part stays with the one who pushed it. -/
  | busy
  | closed
  deriving DecidableEq

def PushOutcome.message : PushOutcome → String
  | .accepted => "ok"
  | .busy => "session is busy"
  | .closed => "session is closed"

/-- Takes the parts of a peer and gives the parts to send to it. -/
class Session (σ : Type) where
  push : σ → Part → PushOutcome × σ
  /-- The next part to send, if there is one. -/
  pull : σ → Option Part × σ
  /-- Makes visible what was pushed. -/
  flush : σ → σ
  /-- The connection is over. -/
  detach : σ → σ

/-- A session that passes parts through the right end of a link, as long as it has that end. -/
structure LinkSession where
  link : Link
  deriving DecidableEq

namespace LinkSession

def attached (s : LinkSession) : Bool := s.link.right.live

def push (s : LinkSession) (p : Part) : PushOutcome × LinkSession :=
  if !s.attached || s.link.peerGone .right then (.closed, s)
  else
    match s.link.write? .right p with
    | none => (.busy, s)
    | some link => (.accepted, ⟨link⟩)

def pull (s : LinkSession) : Option Part × LinkSession :=
  if s.attached then
    let (p, link) := s.link.read .right
    (p, ⟨link⟩)
  else (none, s)

def flush (s : LinkSession) : LinkSession := if s.attached then ⟨s.link.flush .right⟩ else s

def detach (s : LinkSession) : LinkSession := ⟨s.link.drop .right⟩

instance : Session LinkSession := ⟨push, pull, flush, detach⟩

end LinkSession

end Zmtp
