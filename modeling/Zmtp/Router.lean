import Zmtp.FairQueue
import Zmtp.Fault
import Zmtp.PeerTable
import Zmtp.Settings

namespace Zmtp

/-- Why a pipe cannot be addressed. -/
inductive Anonymous where
  /-- Its first part, the identity, has not come yet. -/
  | pending
  /-- Its identity was taken. It is never asked again. -/
  | rejected
  deriving DecidableEq

/-- A socket that gives every peer a name. What comes in is preceded by the name of the peer it
comes from, and what goes out is addressed by the name in its first part. The router holds the left
ends of its links. -/
structure Router where
  pipes : Assoc PipeId Link
  anonymous : Assoc PipeId Anonymous
  table : PeerTable
  queue : FairQueue
  ids : IdentitySource
  /-- Where the parts of the message that is being sent go, unless they are dropped. -/
  target : Option PipeId
  /-- The message that is being sent is not complete. -/
  moreOut : Bool
  /-- Where the part that was taken last came from. -/
  source : Option PipeId
  /-- The message that is being received is not complete. -/
  moreIn : Bool
  /-- The name that precedes the part that was taken early. -/
  prefetchedName : Option Part
  /-- A part that was taken early. -/
  prefetchedPart : Option Part
  /-- Whether parts for an unknown peer are refused and not dropped. -/
  mandatory : Bool

/-- What came of asking a pipe for its identity. -/
inductive Identified where
  | known
  | unknown
  | rejected
  deriving DecidableEq

namespace Router

def new (s : Settings) (ids : IdentitySource) : Router where
  pipes := .empty
  anonymous := .empty
  table := .empty
  queue := .empty
  ids := ids
  target := none
  moreOut := false
  source := none
  moreIn := false
  prefetchedName := none
  prefetchedPart := none
  mandatory := s.mandatory

def isAnonymous (r : Router) (p : PipeId) : Bool := r.anonymous.contains p

def peerCount (r : Router) : Nat := r.table.size

def identity? (r : Router) (p : PipeId) : Option Identity := r.table.identity? p

def link? (r : Router) (p : PipeId) : Option Link := r.pipes.get? p

def modifyLink (r : Router) (p : PipeId) (f : Link → Link) : Router :=
  { r with pipes := r.pipes.modify p f }

def register (r : Router) (p : PipeId) (i : Identity) : Router :=
  let r := r.modifyLink p (·.setIdentity .left i)
  { r with table := (r.table.insert? i p).getD r.table }

/-- Makes up a name for a peer that gave none, or registers the one it gave unless it is taken. -/
def identifyAs (r : Router) (p : PipeId) (i : Identity) : Identified × Router :=
  if i.isEmpty then
    match r.ids.generate r.table.contains with
    | none => (.rejected, r)
    | some (i, ids) => (.known, { r with ids }.register p i)
  else if r.table.contains i then (.rejected, r)
  else (.known, r.register p i)

/-- Takes the first part of a pipe as the identity of its peer. -/
def identify (r : Router) (p : PipeId) : Identified × Router :=
  match r.link? p with
  | none => (.unknown, r)
  | some l =>
    match l.read .left with
    | (none, _) => (.unknown, r)
    | (some part, l) => (r.modifyLink p fun _ => l).identifyAs p ⟨part.data⟩

def attach (r : Router) (l : Link) : Router :=
  let p := l.left.id
  match { r with pipes := r.pipes.insert p l }.identify p with
  | (.known, r) => { r with queue := r.queue.attach p }
  | (.unknown, r) => { r with anonymous := r.anonymous.insert p .pending }
  | (.rejected, r) => { r with anonymous := r.anonymous.insert p .rejected }

def forget (r : Router) (p : PipeId) : Router :=
  if r.isAnonymous p then { r with anonymous := r.anonymous.erase p }
  else { r with table := (r.table.erasePipe p).2, queue := r.queue.remove p }

def abandonInput (r : Router) (p : PipeId) : Router :=
  if r.source = some p then
    { r with source := none, moreIn := false, prefetchedName := none, prefetchedPart := none }
  else r

def detach (r : Router) (p : PipeId) : Option Link × Router :=
  let r := (r.forget p).abandonInput p
  (r.link? p,
    { r with
      target := if r.target = some p then none else r.target
      pipes := r.pipes.erase p })

def onReadable (r : Router) (p : PipeId) : Router :=
  match r.anonymous.get? p with
  | none => { r with queue := r.queue.activate p }
  | some .rejected => r
  | some .pending =>
    match r.identify p with
    | (.known, r) =>
      { r with anonymous := r.anonymous.erase p, queue := r.queue.attach p }
    | (.unknown, r) => r
    | (.rejected, r) => { r with anonymous := r.anonymous.insert p .rejected }

def onWritable (r : Router) (p : PipeId) : Router :=
  { r with table := (r.table.activate? p).getD r.table }

def canWrite (r : Router) (p : PipeId) : Bool :=
  match r.link? p with
  | none => false
  | some l => l.canWrite .left

/-- Begins a message with the name of the peer it is for. A name alone is no message. -/
def address (r : Router) (p : Part) : Except SocketFault Router :=
  if p.hasMore then
    match r.table.route? ⟨p.data⟩ with
    | some route =>
      if r.canWrite route.pipe then .ok { r with moreOut := true, target := some route.pipe }
      else .ok { r with moreOut := true, table := r.table.deactivate ⟨p.data⟩ }
    | none => if r.mandatory then .error (.unroutable p) else .ok { r with moreOut := true }
  else .ok r

/-- Goes on with a message. A part that is refused takes the parts before it along. -/
def sendPart (r : Router) (p : Part) : Router :=
  let r := { r with moreOut := p.hasMore }
  match r.target with
  | none => r
  | some t =>
    match r.link? t with
    | none => { r with target := none }
    | some l =>
      match l.write? .left p with
      | none => { r.modifyLink t (·.rollback .left) with target := none }
      | some l =>
        if p.hasMore then r.modifyLink t fun _ => l
        else { r.modifyLink t fun _ => l.flush .left with target := none }

/-- Sends one part. The first part of a message names the peer. -/
def send (r : Router) (p : Part) : Except SocketFault Router :=
  if r.moreOut then .ok (r.sendPart p) else r.address p

def readPipe (p : PipeId) (pipes : Assoc PipeId Link) : Option Part × Assoc PipeId Link :=
  match pipes.get? p with
  | none => (none, pipes)
  | some l =>
    let (part, l) := l.read .left
    (part, pipes.modify p fun _ => l)

/-- Takes a part from the pipe whose turn it is. -/
def fetch (r : Router) : Option (PipeId × Part) × Router :=
  match r.queue.next readPipe r.pipes with
  | (none, queue, pipes) => (none, { r with queue, pipes })
  | (some (p, part), queue, pipes) => (some (p, part), { r with queue, pipes, source := some p })

/-- The name of the peer behind a pipe, as the first part of a message. -/
def name? (r : Router) (p : PipeId) : Option Part := (r.link? p).map fun l => l.left.identity.toPart

/-- The next part. Every message begins with the name of its peer. -/
def receive (r : Router) : Option Part × Router :=
  match r.prefetchedName, r.prefetchedPart with
  | some name, _ => (some name, { r with prefetchedName := none, moreIn := true })
  | none, some part => (some part, { r with prefetchedPart := none, moreIn := part.hasMore })
  | none, none =>
    match r.fetch with
    | (none, r) => (none, r)
    | (some (p, part), r) =>
      if r.moreIn then (some part, { r with moreIn := part.hasMore })
      else
        match r.name? p with
        | none => (none, r)
        | some name => (some name, { r with prefetchedPart := some part, moreIn := true })

def hasInput (r : Router) : Bool × Router :=
  if r.moreIn || r.prefetchedName.isSome || r.prefetchedPart.isSome then (true, r)
  else
    match r.fetch with
    | (none, r) => (false, r)
    | (some (p, part), r) =>
      match r.name? p with
      | none => (false, r)
      | some name => (true, { r with prefetchedName := some name, prefetchedPart := some part })

/-- Sending never waits: what cannot be delivered is dropped or refused. -/
def hasOutput (_ : Router) : Bool := true

def rollback (r : Router) : Router :=
  match r.target with
  | none => { r with moreOut := false }
  | some t => { r.modifyLink t (·.rollback .left) with target := none, moreOut := false }

def describe (r : Router) : String :=
  "RouterSocket \x7b pipes: " ++ toString r.pipes.size ++
    ", anonymous: " ++ toString r.anonymous.size ++
    ", peers: " ++ toString r.peerCount ++
    ", more_out: " ++ toString r.moreOut ++
    ", more_in: " ++ toString r.moreIn ++ " \x7d"

end Router

end Zmtp
