import Zmtp.Frame.Head

namespace Zmtp

/-- The field of a header that the next byte belongs to, and what is known from the fields before. -/
inductive HeadReader where
  | v1Size
  | v1LongSize (seen : Bytes)
  | v1Flags (size : Nat)
  | v2Flags
  | v2Size (more : Bool)
  | v2LongSize (more : Bool) (seen : Bytes)
  deriving DecidableEq

namespace HeadReader

def start : Revision → HeadReader
  | .v1 => v1Size
  | .v2 => v2Flags

/-- A header that needs more bytes, or a complete one. -/
inductive Step where
  | pending (next : HeadReader)
  | done (head : Head)
  deriving DecidableEq

def isMore (flags : UInt8) : Bool := flags &&& 0x01 != 0

def isLarge (flags : UInt8) : Bool := flags &&& 0x02 != 0

/-- Refuses sizes above the limit. -/
def checkSize (limit size : Nat) : Except WireFault Nat :=
  if limit < size then .error (.tooLarge size limit) else .ok size

/-- The first length whose top bit is set. -/
def negativeLength : Nat := 0x8000000000000000

/-- The size behind a length field that counts the flags byte and is read as a signed number. -/
def longSizeV1 (limit length : Nat) : Except WireFault Nat :=
  if length = 0 ∨ negativeLength ≤ length then .error .nonPositiveLength
  else checkSize limit (length - 1)

/-- The size in a long length field, whose top bit no conforming peer sets. -/
def longSizeV2 (limit size : Nat) : Except WireFault Nat := do
  checkSize (negativeLength - 1) (← checkSize limit size)

/-- Reads one byte. -/
def push (limit : Nat) : HeadReader → UInt8 → Except WireFault Step
  | v1Size, b =>
    if b = 0xff then .ok (.pending (v1LongSize []))
    else if b = 0 then .error .zeroLength
    else do return .pending (v1Flags (← checkSize limit (b.toNat - 1)))
  | v1LongSize seen, b =>
    let seen := seen ++ [b]
    if seen.length < 8 then .ok (.pending (v1LongSize seen))
    else do return .pending (v1Flags (← longSizeV1 limit (Bytes.toNat seen)))
  | v1Flags size, b => .ok (.done ⟨isMore b, size⟩)
  | v2Flags, b =>
    if b &&& 0xfc != 0 then .error (.reservedBits b)
    else if isLarge b then .ok (.pending (v2LongSize (isMore b) []))
    else .ok (.pending (v2Size (isMore b)))
  | v2Size more, b => do return .done ⟨more, ← checkSize limit b.toNat⟩
  | v2LongSize more seen, b =>
    let seen := seen ++ [b]
    if seen.length < 8 then .ok (.pending (v2LongSize more seen))
    else do return .done ⟨more, ← longSizeV2 limit (Bytes.toNat seen)⟩

end HeadReader

end Zmtp
