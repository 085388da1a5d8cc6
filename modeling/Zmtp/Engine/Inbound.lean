import Zmtp.Engine.Basic

namespace Zmtp.Engine

variable {τ σ : Type} [ByteStream τ] [Session σ]

def greet (e : Engine τ σ) : Progress × Engine τ σ :=
  match ByteStream.read e.stream e.greeting.room with
  | (.failed fault, stream) =>
    (if fault.isTransient then .pause else .fail (.io fault), { e with stream })
  | (.data bytes, stream) =>
    let input := bytes.take e.greeting.room
    if _h : input = [] then (.fail .closed, { e with stream })
    else
      match _hr : e.receiveGreeting input with
      | (s, none) => greet { toEngineState := s, stream, session := e.session }
      | (s, some n) =>
        match s.settle n with
        | .error reason => (.fail reason, { toEngineState := s, stream, session := e.session })
        | .ok s => (.proceed, { toEngineState := s, stream, session := e.session })
termination_by e.greeting.room
decreasing_by
  exact EngineState.room_receiveGreeting_lt _hr _h (List.length_take_le _ _)

/-- Passes parts on to a session until it has no room. Gives back the parts that were not passed. -/
def passAll (session : σ) : List Part → Progress × List Part × σ
  | [] => (.proceed, [], session)
  | p :: ps =>
    match Session.push session p with
    | (.accepted, session) => passAll session ps
    | (.busy, session) => (.pause, p :: ps, session)
    | (.closed, session) => (.fail .sessionRejected, p :: ps, session)

def passHeld (e : Engine τ σ) : Progress × Engine τ σ :=
  let (progress, held, session) := passAll e.session e.held
  (progress, { e with held, session })

/-- Lets reading rest until the session has room again. -/
def congest (e : Engine τ σ) : Engine τ σ := e.update fun s => { s.resetIn with congested := true }

/-- Decodes what was read and passes it on, until nothing more is complete or the session has no
room. -/
def decode (e : Engine τ σ) (codec : Codec) : Progress × Engine τ σ :=
  match _h : codec.reader.read with
  | ⟨reader, .error fault, _, _⟩ =>
    (.fail (.decode fault), { e with codec := some { codec with reader } })
  | ⟨reader, .ok none, _, _⟩ => (.proceed, { e with codec := some { codec with reader } })
  | ⟨reader, .ok (some p), _, _⟩ =>
    let codec := { codec with reader }
    let e := { e with held := e.held ++ e.expand p, expected := .payload }
    match e.passHeld with
    | (.proceed, e) => e.decode codec
    | (.pause, e) => (.pause, { e.congest with codec := some codec })
    | (.fail reason, e) => (.fail reason, { e with codec := some codec })
termination_by codec.reader.load
decreasing_by exact FrameReader.load_read _h

/-- Reads from the stream, unless there is input that has not been decoded. -/
def refill (e : Engine τ σ) (codec : Codec) : Progress × Codec × Engine τ σ :=
  if codec.reader.hasPending then (.proceed, codec, e)
  else
    let (room, reader) := codec.reader.offer
    match ByteStream.read e.stream room with
    | (.failed fault, stream) =>
      (if fault.isTransient then .pause else .fail (.io fault), { codec with reader }, { e with stream })
    | (.data bytes, stream) =>
      let input := bytes.take room
      if input.isEmpty then (.fail .closed, { codec with reader }, { e with stream })
      else
        (.proceed, { codec with reader := (reader.deposit input).filled input.length },
          { e with stream })

def receive (e : Engine τ σ) (codec : Codec) : Engine τ σ :=
  match e.refill codec with
  | (.fail reason, codec, e) => { e with codec := some codec }.tearDown reason
  | (.pause, codec, e) => { e with codec := some codec }.flush
  | (.proceed, codec, e) =>
    match e.decode codec with
    | (.fail reason, e) => e.tearDown reason
    | (_, e) => e.flush

def readParts (e : Engine τ σ) : Engine τ σ :=
  match e.codec with
  | none => e
  | some codec => if e.congested then e else e.receive codec

/-- The stream has bytes. -/
def onReadable (e : Engine τ σ) : Engine τ σ :=
  if !e.isLive then e
  else if e.isHandshaking then
    match e.greet with
    | (.fail reason, e) => e.tearDown reason
    | (.pause, e) => e
    | (.proceed, e) => e.readParts
  else e.readParts

/-- The session has room again. -/
def resumeInput (e : Engine τ σ) : Engine τ σ :=
  if !e.isLive || !e.congested then e
  else
    match e.passHeld with
    | (.fail reason, e) => e.tearDown reason
    | (.pause, e) => e.flush
    | (.proceed, e) => (e.update fun s => { s.setIn with congested := false }).onReadable

end Zmtp.Engine
