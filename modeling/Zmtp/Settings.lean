import Zmtp.Bytes
import Zmtp.BodyStore
import Zmtp.Role

namespace Zmtp

/-- The settings of a socket and of its connections. -/
structure Settings where
  role : Role
  /-- The identity sent first on every connection. -/
  identity : Bytes := []
  /-- Larger bodies from a peer end the connection. -/
  maxBodySize : Option Nat := none
  sendBuffer : Option Nat := none
  receiveBuffer : Option Nat := none
  /-- How many bytes are read at a time, and from which size on a body is read in place. -/
  inputBatch : Nat := 8192
  /-- How many bytes are gathered for one write. -/
  outputBatch : Nat := 8192
  /-- Whether the identity of a peer is delivered as its first part. -/
  deliverIdentity : Bool := role == .router
  /-- Whether parts for an unknown peer are refused and not dropped. -/
  mandatory : Bool := false
  highWater : Nat := 1000
  placement : Placement := .heap

namespace Settings

def default : Settings := { role := .router }

/-- The size limit of a body, where none is set the largest length that the wire can carry. -/
def bodyLimit (s : Settings) : Nat := s.maxBodySize.getD (UInt64.size - 1)

end Settings

end Zmtp
