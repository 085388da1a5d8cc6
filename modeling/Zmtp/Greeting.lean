import Zmtp.Buffer
import Zmtp.Frame.Head
import Zmtp.Settings

namespace Zmtp

/-- What the greeting says of the peer. -/
inductive Negotiated where
  /-- The peer is older than the greeting. What was read belongs to its first frame. -/
  | versionless (prebuffered : Bytes)
  | versioned (revision : Revision) (role : UInt8)
  deriving DecidableEq

/-- The revision in which the frames of the peer are laid out. -/
def Negotiated.revision : Negotiated → Revision
  | .versionless _ => .v1
  | .versioned r _ => r

/-- The last two bytes of our greeting are held back until the peer has shown that it knows them. -/
inductive TailState where
  | held
  | due
  | sent
  deriving DecidableEq

/-- The exchange of the first bytes of a connection. Ours begin with the header of a legacy identity
frame, so that a peer that knows no greeting takes them for one. -/
structure Greeting where
  identitySize : Nat
  role : Role
  received : Buffer
  tail : TailState
  done : Bool
  deriving DecidableEq

namespace Greeting

def size : Nat := 12

/-- The length of the part that is sent at once. -/
def signatureSize : Nat := 10

def new (s : Settings) : Greeting := ⟨s.identity.length, s.role, .new size, .held, false⟩

/-- The bytes that are sent as soon as the connection is up. -/
def signature (g : Greeting) : Bytes :=
  0xff :: Bytes.bigEndian 8 (g.identitySize + 1) ++ [0x7f]

/-- The bytes that only a versioned peer is sent. -/
def tailBytes (g : Greeting) : Bytes := [Revision.announced, g.role.byte]

/-- How many bytes of the peer's greeting are missing. -/
def room (g : Greeting) : Nat := g.received.room

/-- The peer looks versioned: a legacy identity frame never carries the mark that more follows. -/
def looksVersioned (bs : Bytes) : Bool :=
  match bs with
  | 0xff :: rest => match rest[8]? with
    | some b => b &&& 0x01 != 0
    | none => false
  | _ => false

/-- What the bytes received so far decide. -/
def classify (bs : Bytes) : Option Negotiated :=
  match bs with
  | [] => none
  | first :: rest =>
    if first ≠ 0xff then some (.versionless bs)
    else
      match rest[8]? with
      | none => none
      | some mark =>
        if mark &&& 0x01 = 0 then some (.versionless bs)
        else
          match rest[9]?, rest[10]? with
          | some revision, some role => some (.versioned (.ofByte revision) role)
          | _, _ => none

def deposit (g : Greeting) (input : Bytes) : Greeting :=
  { g with received := g.received.deposit input }

/-- Takes `n` more bytes as received and decides what can be decided. -/
def count (g : Greeting) (n : Nat) : Greeting × Option Negotiated :=
  let received := g.received.count n
  let bs := received.bytes
  let verdict := classify bs
  let tail := if g.tail = .held ∧ looksVersioned bs then .due else g.tail
  ({ g with received, tail, done := g.done || verdict.isSome }, verdict)

/-- Receives as much of the input as the greeting has room for. The rest is handed back. -/
def feed (g : Greeting) (input : Bytes) : Greeting × Option Negotiated × Bytes :=
  let taken := input.take g.room
  let (g', verdict) := (g.deposit taken).count taken.length
  (g', verdict, input.drop g.room)

/-- The tail, once, when it is due. -/
def takeTail (g : Greeting) : Option Bytes × Greeting :=
  if g.tail = .due then (some g.tailBytes, { g with tail := .sent }) else (none, g)

@[simp] theorem room_takeTail (g : Greeting) : g.takeTail.2.room = g.room := by
  unfold takeTail
  split <;> rfl

theorem room_count_lt {g : Greeting} {n : Nat} (hn : 0 < n) (hr : 0 < g.room) :
    (g.count n).1.room < g.room := by
  simp only [room, count, Buffer.room_count] at hr ⊢
  omega

end Greeting

end Zmtp
