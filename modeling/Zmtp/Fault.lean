import Zmtp.Part

namespace Zmtp

/-- The kinds of stream faults. Only those that mean something to a connection have a case. -/
inductive IoKind where
  | wouldBlock
  | interrupted
  | timedOut
  | other (name : String)
  deriving DecidableEq

namespace IoKind

def name : IoKind → String
  | wouldBlock => "WouldBlock"
  | interrupted => "Interrupted"
  | timedOut => "TimedOut"
  | other n => n

def ofName (n : String) : IoKind :=
  if n = "WouldBlock" then wouldBlock
  else if n = "Interrupted" then interrupted
  else if n = "TimedOut" then timedOut
  else other n

end IoKind

/-- A failed read or write. -/
structure IoFault where
  kind : IoKind
  text : String
  deriving DecidableEq

namespace IoFault

def wouldBlock : IoFault := ⟨.wouldBlock, "operation would block"⟩

/-- The stream is not ready, and nothing is wrong with it. -/
def isTransient (f : IoFault) : Bool :=
  f.kind == .wouldBlock || f.kind == .interrupted

end IoFault

/-- What can be wrong with the bytes of a peer. -/
inductive WireFault where
  | malformed (reason : String)
  | tooLarge (size limit : Nat)
  | reservedBits (flags : UInt8)
  deriving DecidableEq

namespace WireFault

def zeroLength : WireFault := .malformed "legacy frame length is zero"

def nonPositiveLength : WireFault := .malformed "legacy frame length is not positive"

def identityHeader : WireFault := .malformed "legacy identity header mismatch"

def isSizeLimit : WireFault → Bool
  | tooLarge .. => true
  | _ => false

def message : WireFault → String
  | malformed reason => "Protocol violation: " ++ reason
  | tooLarge size limit =>
    "Message too large: " ++ toString size ++ " bytes (max: " ++ toString limit ++ ")"
  | reservedBits flags =>
    "Protocol violation: reserved flag bits set (0x" ++ Bytes.hex [flags] ++ ")"

end WireFault

/-- What the user of a socket can be told. -/
inductive SocketFault where
  | io (fault : IoFault)
  /-- No peer has the identity that was addressed. The part is handed back. -/
  | unroutable (part : Part)
  deriving DecidableEq

namespace SocketFault

def message : SocketFault → String
  | io f => "IO error: " ++ f.text
  | unroutable _ => "Unroutable message: no peer with the requested identity"

def isRecoverable : SocketFault → Bool
  | io f => f.isTransient || f.kind == .timedOut
  | unroutable _ => true

def part? : SocketFault → Option Part
  | io _ => none
  | unroutable p => some p

end SocketFault

/-- Why a connection ended. -/
inductive Teardown where
  | closed
  | io (fault : IoFault)
  | decode (fault : WireFault)
  | sessionRejected
  deriving DecidableEq

namespace Teardown

def message : Teardown → String
  | closed => "peer closed the connection"
  | io f => "I/O error: " ++ f.text
  | decode f => "decode error: " ++ f.message
  | sessionRejected => "session rejected a message"

end Teardown

end Zmtp
