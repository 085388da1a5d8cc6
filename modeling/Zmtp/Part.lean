import Zmtp.Bytes

namespace Zmtp

/-- The marks that a message part carries. -/
structure Flags where
  bits : UInt8
  deriving DecidableEq

namespace Flags

def empty : Flags := ⟨0⟩

/-- More parts of the same message follow. -/
def more : Flags := ⟨0x01⟩

/-- The part is the identity of a peer and no payload. -/
def identity : Flags := ⟨0x40⟩

def contains (a b : Flags) : Bool := a.bits &&& b.bits == b.bits

def union (a b : Flags) : Flags := ⟨a.bits ||| b.bits⟩

def diff (a b : Flags) : Flags := ⟨a.bits &&& ~~~b.bits⟩

/-- The marks of a part as it comes from the wire, where only `more` is known. -/
def ofMore (m : Bool) : Flags := if m then more else empty

@[simp] theorem contains_ofMore (m : Bool) : (ofMore m).contains more = m := by
  cases m <;> rfl

end Flags

/-- One part of a message. -/
structure Part where
  data : Bytes
  flags : Flags
  deriving DecidableEq

namespace Part

def ofBytes (data : Bytes) : Part := ⟨data, .empty⟩

def ofMore (data : Bytes) (m : Bool) : Part := ⟨data, .ofMore m⟩

def empty : Part := ofBytes []

def size (p : Part) : Nat := p.data.length

def isEmpty (p : Part) : Bool := p.data.isEmpty

def hasMore (p : Part) : Bool := p.flags.contains .more

def isIdentity (p : Part) : Bool := p.flags.contains .identity

def set (p : Part) (f : Flags) : Part := { p with flags := p.flags.union f }

def reset (p : Part) (f : Flags) : Part := { p with flags := p.flags.diff f }

@[simp] theorem hasMore_ofMore (data : Bytes) (m : Bool) : (ofMore data m).hasMore = m :=
  Flags.contains_ofMore m

def describe (p : Part) : String :=
  "Msg \x7b size: " ++ toString p.size ++ ", more: " ++ toString p.hasMore ++
    ", identity: " ++ toString p.isIdentity ++ " \x7d"

end Part

end Zmtp
