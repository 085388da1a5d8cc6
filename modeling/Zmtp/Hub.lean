import Zmtp.Router

namespace Zmtp

/-- A router and its peers, each of whom has the right end of a link of which the router may have
the left one. Peers are found by name. -/
structure Hub where
  router : Router
  pipes : Assoc String PipeId
  /-- The links that are not attached. -/
  loose : Assoc PipeId Link
  nextPipe : PipeId

namespace Hub

def new (s : Settings) (ids : IdentitySource) : Hub := ⟨.new s ids, .empty, .empty, ⟨1⟩⟩

/-- Makes a link for a peer. Its left end is not attached yet. -/
def addPeer (h : Hub) (name : String) (highWater : Nat) : Hub :=
  let l := Link.new h.nextPipe highWater
  { h with
    pipes := h.pipes.insert name l.left.id
    loose := h.loose.insert l.left.id l
    nextPipe := l.right.id.succ }

/-- The link behind a pipe, attached or not. -/
def linkAt? (h : Hub) (p : PipeId) : Option Link :=
  match h.loose.get? p with
  | some l => some l
  | none => h.router.link? p

/-- Changes the link behind a pipe, attached or not. -/
def modifyAt (h : Hub) (p : PipeId) (f : Link → Link) : Hub :=
  if h.loose.contains p then { h with loose := h.loose.modify p f }
  else { h with router := h.router.modifyLink p f }

/-- Attaches a left end that is at hand. -/
def attach? (h : Hub) (p : PipeId) : Option Hub :=
  match h.loose.get? p with
  | none => none
  | some l =>
    if l.left.live then some { h with loose := h.loose.erase p, router := h.router.attach l }
    else none

/-- Takes a left end back from the router. -/
def detach (h : Hub) (p : PipeId) : Option Link × Hub :=
  match h.router.detach p with
  | (none, router) => (none, { h with router })
  | (some l, router) => (some l, { h with router, loose := h.loose.insert p l })

end Hub

end Zmtp
