import Zmtp.Stream.ByteStream

namespace Zmtp

/-- One direction between two ends. -/
structure Channel where
  /-- Written and not read. -/
  bytes : Bytes
  writerGone : Bool
  readerGone : Bool
  deriving DecidableEq

def Channel.empty : Channel := ⟨[], false, false⟩

/-- What one of two connected ends sees of the connection. -/
structure DuplexEnd where
  inbound : Channel
  outbound : Channel
  /-- How much one write takes at most. -/
  limit : Option Nat
  deriving DecidableEq

namespace DuplexEnd

def peerGone : IoFault := ⟨.other "BrokenPipe", "peer is gone"⟩

def read (e : DuplexEnd) (room : Nat) : ReadOutcome × DuplexEnd :=
  if e.inbound.bytes.isEmpty then
    (if e.inbound.writerGone then .data [] else .failed .wouldBlock, e)
  else
    (.data (e.inbound.bytes.take room),
      { e with inbound := { e.inbound with bytes := e.inbound.bytes.drop room } })

def write (e : DuplexEnd) (slices : List Bytes) : WriteOutcome × DuplexEnd :=
  if e.outbound.readerGone then (.failed peerGone, e)
  else if e.limit = some 0 then (.failed .wouldBlock, e)
  else
    let bytes := slices.flatten
    let taken := match e.limit with
      | none => bytes
      | some n => bytes.take n
    (.accepted taken.length,
      { e with outbound := { e.outbound with bytes := e.outbound.bytes ++ taken } })

def close (e : DuplexEnd) : DuplexEnd :=
  { e with
    inbound := { e.inbound with readerGone := true }
    outbound := { e.outbound with writerGone := true } }

instance : ByteStream DuplexEnd := ⟨read, write, close⟩

end DuplexEnd

end Zmtp
