import Zmtp.Proofs.Exchange.Call

namespace Zmtp

/-- One side of an exchange: an engine and the application that it serves. -/
structure Party where
  engine : Talker
  /-- What the engine has written, on its way to the other side. -/
  outbound : Channel
  published : List Part
  seen : List Part
  /-- Whether the engine was told of all that is published. -/
  announced : Bool

namespace Party

def new (s : Settings) (endpoint : String) (monitored : Bool) (first : PipeId) : Party where
  engine := .untold s endpoint monitored ⟨.empty, .empty, []⟩ ⟨.new first s.highWater⟩
  outbound := .empty
  published := []
  seen := []
  announced := true

/-- Between the application and the session of the engine. -/
def link (p : Party) : Link := p.engine.session.inner.link

/-- All that the application has read or can read. -/
def visible (p : Party) : List Part := p.seen ++ p.link.left.inbox

/-- What is published and was not asked for by the engine. -/
def waiting (p : Party) : List Part := p.link.right.inbox

def withLink (p : Party) (l : Link) : Party :=
  { p with engine := p.engine.withWorld p.engine.stream.inner ⟨l⟩ }

/-- The engine between the two channels. -/
def joined (p q : Party) (schedule : List Pace) : Talker :=
  p.engine.withWorld ⟨q.outbound, p.outbound, schedule⟩ p.engine.session.inner

/-- A party after a call of its engine. -/
def after (p : Party) (e : Talker) (announced : Bool) : Party :=
  { p with engine := e, outbound := e.stream.inner.outbound, announced }

/-- A party after a call of the engine of its peer. -/
def readBy (q : Party) (e : Talker) : Party := { q with outbound := e.stream.inner.inbound }

/-- What may be told to the engine: a start once, and that the stream takes bytes while it waits for
that. -/
def heeds (p : Party) : Signal → Bool
  | .start => p.engine.stage == .fresh
  | .writable => p.engine.interest.wantsWrite
  | _ => true

end Party

/-- What one side does next. Applications read and write, and their ends are never given up. -/
inductive Act where
  /-- The engine is told something, and its reads and writes go as scheduled. -/
  | signal (g : Signal) (schedule : List Pace)
  | write (p : Part)
  | rollback
  | publish
  | read

/-- Two engines that are joined by a stream in each direction. -/
structure Exchange where
  left : Party
  right : Party

namespace Exchange

def swap (x : Exchange) : Exchange := ⟨x.right, x.left⟩

/-- Tells the left engine something. -/
def signal (x : Exchange) (g : Signal) (schedule : List Pace) : Exchange :=
  if x.left.heeds g then
    let e := (x.left.joined x.right schedule).handle g
    ⟨x.left.after e (x.left.announced || g == .resumeOutput), x.right.readBy e⟩
  else x

def act (x : Exchange) : Act → Exchange
  | .signal g schedule => x.signal g schedule
  | .write p => { x with left := x.left.withLink ((x.left.link.write? .left p).getD x.left.link) }
  | .rollback => { x with left := x.left.withLink (x.left.link.rollback .left) }
  | .publish =>
    { x with left := { x.left.withLink (x.left.link.flush .left) with
        published := x.left.published ++ x.left.link.left.staged
        announced := false } }
  | .read =>
    let (p, link) := x.left.link.read .left
    { x with left := { x.left.withLink link with seen := x.left.seen ++ p.toList } }

/-- The exchanges of two engines with the given settings that any acts of the two sides lead to. -/
inductive Reached (s t : Settings) : Exchange → Prop where
  | new (endpoint endpoint' : String) (monitored monitored' : Bool) (first first' : PipeId) :
      Reached s t ⟨.new s endpoint monitored first, .new t endpoint' monitored' first'⟩
  | left {x : Exchange} (h : Reached s t x) (a : Act) : Reached s t (x.act a)
  | right {x : Exchange} (h : Reached s t x) (a : Act) : Reached s t (x.swap.act a).swap

def play (x : Exchange) : Side × Act → Exchange
  | (.left, a) => x.act a
  | (.right, a) => (x.swap.act a).swap

theorem Reached.play {s t : Settings} {x : Exchange} (h : Reached s t x) (as : List (Side × Act)) :
    Reached s t (as.foldl Exchange.play x) := by
  induction as generalizing x with
  | nil => exact h
  | cons a as ih =>
    obtain ⟨side, a⟩ := a
    cases side with
    | left => exact ih (h.left a)
    | right => exact ih (h.right a)

end Exchange

end Zmtp
