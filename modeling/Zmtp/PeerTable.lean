import Zmtp.Assoc
import Zmtp.Link

namespace Zmtp

/-- Where parts for a peer go. -/
structure Route where
  pipe : PipeId
  /-- Cleared when the pipe refused a part and set when it takes parts again. -/
  active : Bool
  deriving DecidableEq

/-- The peers that can be addressed, found by identity and by pipe. -/
structure PeerTable where
  routes : Assoc Identity Route
  byPipe : Assoc PipeId Identity

namespace PeerTable

def empty : PeerTable := ⟨.empty, .empty⟩

def size (t : PeerTable) : Nat := t.routes.size

def isEmpty (t : PeerTable) : Bool := t.routes.entries.isEmpty

def contains (t : PeerTable) (i : Identity) : Bool := t.routes.contains i

def containsPipe (t : PeerTable) (p : PipeId) : Bool := t.byPipe.contains p

def route? (t : PeerTable) (i : Identity) : Option Route := t.routes.get? i

def identity? (t : PeerTable) (p : PipeId) : Option Identity := t.byPipe.get? p

/-- Registers a peer, unless its identity is taken. -/
def insert? (t : PeerTable) (i : Identity) (p : PipeId) : Option PeerTable :=
  if t.contains i then none else some ⟨t.routes.insert i ⟨p, true⟩, t.byPipe.insert p i⟩

def erasePipe (t : PeerTable) (p : PipeId) : Option Identity × PeerTable :=
  match t.identity? p with
  | none => (none, t)
  | some i => (some i, ⟨t.routes.erase i, t.byPipe.erase p⟩)

def setActive (t : PeerTable) (i : Identity) (active : Bool) : PeerTable :=
  { t with routes := t.routes.modify i fun r => { r with active } }

/-- Marks the route behind a pipe as taking parts again, if there is one. -/
def activate? (t : PeerTable) (p : PipeId) : Option PeerTable :=
  match t.identity? p with
  | none => none
  | some i => if t.contains i then some (t.setActive i true) else none

def deactivate (t : PeerTable) (i : Identity) : PeerTable := t.setActive i false

end PeerTable

end Zmtp
