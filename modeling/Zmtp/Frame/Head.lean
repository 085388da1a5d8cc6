import Zmtp.Fault

namespace Zmtp

/-- The two ways in which frames are laid out: `v1` puts the length first and counts the flags byte
in it, `v2` puts the flags first. -/
inductive Revision where
  | v1
  | v2
  deriving DecidableEq

namespace Revision

/-- The revision byte of our own greeting. -/
def announced : UInt8 := 1

/-- The revision that a peer asks for. Zero is legacy, and all that is newer speaks at least `v2`. -/
def ofByte (b : UInt8) : Revision := if b = 0 then v1 else v2

def byte : Revision → UInt8
  | v1 => 0
  | v2 => 1

end Revision

structure Head where
  more : Bool
  size : Nat
  deriving DecidableEq

namespace Head

def ofPart (p : Part) : Head := ⟨p.hasMore, p.size⟩

def moreBit (more : Bool) : UInt8 := if more then 0x01 else 0x00

/-- The length first, in one byte or after `0xff` in eight, and then the flags. -/
def encodeV1 (h : Head) : Bytes :=
  let length := h.size + 1
  (if length < 0xff then [UInt8.ofNat length] else 0xff :: Bytes.bigEndian 8 length) ++
    [moreBit h.more]

/-- The flags first, with a bit that says whether one byte of length follows or eight. -/
def encodeV2 (h : Head) : Bytes :=
  if h.size ≤ 255 then [moreBit h.more, UInt8.ofNat h.size]
  else (moreBit h.more ||| 0x02) :: Bytes.bigEndian 8 h.size

/-- The shortest header with the given meaning. -/
def encode (h : Head) : Revision → Bytes
  | .v1 => h.encodeV1
  | .v2 => h.encodeV2

theorem encode_ne_nil (h : Head) (r : Revision) : h.encode r ≠ [] := by
  cases r
  · simp [encode, encodeV1]
  · simp only [encode, encodeV2]
    split <;> simp

end Head

/-- A part as it stands on the wire. -/
def Part.frame (p : Part) (r : Revision) : Bytes := (Head.ofPart p).encode r ++ p.data

end Zmtp
