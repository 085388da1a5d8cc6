import Zmtp.Fault

namespace Zmtp

/-- What a read brings. No bytes mean that the stream has ended. -/
inductive ReadOutcome where
  | data (bytes : Bytes)
  | failed (fault : IoFault)
  deriving DecidableEq

inductive WriteOutcome where
  | accepted (n : Nat)
  | failed (fault : IoFault)
  deriving DecidableEq

/-- One end of a connection, as its owner sees it. Nothing waits: a stream that is not ready fails. -/
class ByteStream (τ : Type) where
  /-- Reads at most the given number of bytes. -/
  read : τ → Nat → ReadOutcome × τ
  /-- Writes the slices one after the other, as far as the stream takes them. -/
  write : τ → List Bytes → WriteOutcome × τ
  close : τ → τ

end Zmtp
