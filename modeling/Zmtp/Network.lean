import Zmtp.Engine
import Zmtp.Hub
import Zmtp.Stream.Duplex

namespace Zmtp

/-- Two engines and the bytes between them. The left one serves the router, the right one an
application of its own. -/
structure Connection where
  left : Option EngineState
  right : Option EngineState
  /-- The bytes on their way from left to right. -/
  rightward : Channel
  leftward : Channel
  /-- How much one write of the left engine moves at most. -/
  leftLimit : Option Nat
  rightLimit : Option Nat
  /-- Between the application of the right engine and its session. -/
  link : Link

namespace Connection

/-- An engine between its end of the connection and its end of a link. -/
abbrev Worker := Engine DuplexEnd LinkSession

def engine? (c : Connection) : Side → Option EngineState
  | .left => c.left
  | .right => c.right

/-- The engine of one side at work on the link that its session has the right end of. -/
def worker (c : Connection) (s : Side) (e : EngineState) (l : Link) : Worker :=
  match s with
  | .left => ⟨e, ⟨c.leftward, c.rightward, c.leftLimit⟩, ⟨l⟩⟩
  | .right => ⟨e, ⟨c.rightward, c.leftward, c.rightLimit⟩, ⟨l⟩⟩

/-- Takes over what an engine left behind, and the engine itself unless it is gone. -/
def store (c : Connection) (s : Side) (e : Worker) (gone : Bool) : Connection :=
  let state := if gone then none else some e.toEngineState
  match s with
  | .left => { c with left := state, leftward := e.stream.inbound, rightward := e.stream.outbound }
  | .right =>
    { c with right := state, rightward := e.stream.inbound, leftward := e.stream.outbound }

def forgetEvents (c : Connection) : Connection :=
  { c with
    left := c.left.map fun e => { e with events := [] }
    right := c.right.map fun e => { e with events := [] } }

end Connection

structure Network extends Hub where
  connections : Assoc String Connection

namespace Network

open Connection

def new (s : Settings) (ids : IdentitySource) : Network := ⟨.new s ids, .empty⟩

/-- Adds a connection and attaches its link to the router. -/
def connect (n : Network) (name : String) (left right : Settings)
    (leftLimit rightLimit : Option Nat) : Network :=
  let p := n.nextPipe
  let hub := n.toHub.addPeer name left.highWater
  let l := Link.new hub.nextPipe right.highWater
  let hub := { hub with nextPipe := l.right.id.succ }
  { toHub := (hub.attach? p).getD hub
    connections := n.connections.insert name {
      left := some { settings := left, endpoint := "mem://" ++ name ++ "/r" }
      right := some { settings := right, endpoint := "mem://" ++ name ++ "/d" }
      rightward := .empty
      leftward := .empty
      leftLimit := leftLimit
      rightLimit := rightLimit
      link := l } }

def modify (n : Network) (name : String) (f : Connection → Connection) : Network :=
  { n with connections := n.connections.modify name f }

/-- The link that the session of a side has the right end of. -/
def sessionLink? (n : Network) (name : String) (c : Connection) : Side → Option Link
  | .left => (n.pipes.get? name).bind n.linkAt?
  | .right => some c.link

def setSessionLink (n : Network) (name : String) (l : Link) : Side → Network
  | .left =>
    match n.pipes.get? name with
    | none => n
    | some p => { n with toHub := n.toHub.modifyAt p fun _ => l }
  | .right => n.modify name fun c => { c with link := l }

/-- Runs the engine of one side, which is gone after that if `gone` holds. -/
def run {α : Type} (n : Network) (name : String) (s : Side) (gone : Bool)
    (f : Worker → α × Worker) : Option (α × Network) := do
  let c ← n.connections.get? name
  let e ← c.engine? s
  let l ← n.sessionLink? name c s
  let (a, e) := f (c.worker s e l)
  return (a, (n.modify name fun c => c.store s e gone).setSessionLink name e.session.link s)

def signal (n : Network) (name : String) (s : Side) (g : Signal) : Option Network :=
  (n.run name s false fun e => ((), e.signal g)).map Prod.snd

/-- Stops an engine and says whether it had a session, which is dropped. -/
def stop (n : Network) (name : String) (s : Side) : Option (Bool × Network) :=
  n.run name s false Engine.discard

def drop (n : Network) (name : String) (s : Side) : Option Network :=
  (n.run name s true Engine.discard).map Prod.snd

def serve (n : Network) (name : String) (s : Side) : Network :=
  match n.run name s false fun e => ((), e.serve) with
  | none => n
  | some (_, n) => n

def pump (name : String) : Nat → Network → Network
  | 0, n => n
  | k + 1, n => pump name k ((n.serve name .left).serve name .right)

/-- Takes a pipe from the router and drops its end. -/
def detach (n : Network) (p : PipeId) : Bool × Network :=
  match n.toHub.detach p with
  | (none, hub) => (false, { n with toHub := hub })
  | (some _, hub) => (true, { n with toHub := hub.modifyAt p (·.drop .left) })

end Network

end Zmtp
