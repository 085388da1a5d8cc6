import Zmtp.Part

namespace Zmtp

/-- The routing key of a peer. An empty one means that none has been given yet. -/
structure Identity where
  bytes : Bytes
  deriving DecidableEq

namespace Identity

def empty : Identity := ⟨[]⟩

def isEmpty (i : Identity) : Bool := i.bytes.isEmpty

/-- The part that announces whose message follows. -/
def toPart (i : Identity) : Part := ⟨i.bytes, .more⟩

/-- A visible character of ASCII, the space excluded. -/
def isGraphic (b : UInt8) : Bool := 0x21 ≤ b && b ≤ 0x7e

/-- Text where every byte is visible, and hexadecimal digits otherwise. -/
def describe (i : Identity) : String :=
  if i.bytes.all isGraphic && !i.isEmpty then
    "Identity(" ++ String.ofList (i.bytes.map fun b => Char.ofNat b.toNat) ++ ")"
  else
    "Identity(0x" ++ Bytes.hex i.bytes ++ ")"

end Identity

/-- Gives names to peers that announce an empty identity. The counter wraps. -/
structure IdentitySource where
  next : UInt32
  deriving DecidableEq

namespace IdentitySource

/-- The name with the given number: a zero byte and the number in four bytes. -/
def candidate (n : UInt32) : Identity := ⟨0 :: Bytes.bigEndian 4 n.toNat⟩

/-- Tries at most the given number of candidates. -/
def search (inUse : Identity → Bool) : Nat → IdentitySource → Option (Identity × IdentitySource)
  | 0, _ => none
  | k + 1, s =>
    if inUse (candidate s.next) then search inUse k ⟨s.next + 1⟩
    else some (candidate s.next, ⟨s.next + 1⟩)

/-- The first free name from the counter on, or `none` if every name is in use. -/
def generate (s : IdentitySource) (inUse : Identity → Bool) : Option (Identity × IdentitySource) :=
  search inUse UInt32.size s

end IdentitySource

end Zmtp
