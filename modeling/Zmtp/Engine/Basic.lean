import Zmtp.Engine.State
import Zmtp.Session
import Zmtp.Stream.ByteStream

namespace Zmtp

/-- One end of a connection: it moves parts between a stream and a session, and never waits. The
stream and the session stay in view after the engine has let go of them. -/
structure Engine (τ σ : Type) extends EngineState where
  stream : τ
  session : σ

namespace Engine

variable {τ σ : Type}

def new (settings : Settings) (endpoint : String) (stream : τ) (session : σ) : Engine τ σ :=
  { settings, endpoint, stream, session }

/-- Changes what the engine knows of its connection. -/
def update (e : Engine τ σ) (f : EngineState → EngineState) : Engine τ σ :=
  { e with toEngineState := f e.toEngineState }

variable [ByteStream τ] [Session σ]

def flush (e : Engine τ σ) : Engine τ σ := { e with session := Session.flush e.session }

/-- Ends the connection. What the session has accepted so far is made visible first. -/
def tearDown (e : Engine τ σ) (reason : Teardown) : Engine τ σ where
  toEngineState :=
    (e.report (.disconnected e.endpoint reason.message)).release (some reason)
  stream := ByteStream.close e.stream
  session := Session.detach (Session.flush e.session)

/-- Ends the connection at the wish of its owner, who gets the session back as it is, if the engine
had one. -/
def stop (e : Engine τ σ) : Bool × Engine τ σ :=
  if e.isOver then (false, e)
  else (e.isLive, { e.update (·.release none) with stream := ByteStream.close e.stream })

/-- Ends the connection at the wish of its owner, who has no use for the session. -/
def discard (e : Engine τ σ) : Bool × Engine τ σ :=
  match e.stop with
  | (true, e) => (true, { e with session := Session.detach e.session })
  | (false, e) => (false, e)

end Engine

end Zmtp
