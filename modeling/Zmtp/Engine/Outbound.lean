import Zmtp.Engine.Basic
import Zmtp.Engine.Supply

namespace Zmtp.Engine

variable {τ σ : Type} [ByteStream τ] [Session σ]

/-- Gathers a batch to write. A batch has room for one byte at least. -/
def fill (e : Engine τ σ) (codec : Codec) : Engine τ σ :=
  let supply : Supply σ := ⟨codec.writer, e.identitySent, e.session⟩
  let (chunks, supply) := supply.gather e.settings.identity (max e.settings.outputBatch 1)
  { e with
    codec := some { codec with writer := supply.writer }
    identitySent := supply.identitySent
    session := supply.session
    outbox := e.outbox.pushBatch chunks }

/-- Writes as much of the outbox as the stream takes. -/
def write (e : Engine τ σ) : Engine τ σ :=
  match ByteStream.write e.stream e.outbox.slices with
  | (.failed fault, stream) =>
    let e := { e with stream }
    if fault.isTransient then e.update (·.restOutput) else e.tearDown (.io fault)
  | (.accepted n, stream) =>
    { e with stream, outbox := e.outbox.consume n }.update (·.restOutput)

/-- The stream takes bytes. A new batch is gathered only when the one before is written. -/
def onWritable (e : Engine τ σ) : Engine τ σ :=
  if !e.isLive then e
  else if e.outbox.size ≠ 0 then e.write
  else
    match e.codec with
    | none => e.update (·.resetOut)
    | some codec =>
      let e := e.fill codec
      if e.outbox.size = 0 then e.update (·.resetOut) else e.write

/-- The session has parts to send. -/
def resumeOutput (e : Engine τ σ) : Engine τ σ :=
  if e.isLive then (e.update (·.setOut)).onWritable else e

end Zmtp.Engine
