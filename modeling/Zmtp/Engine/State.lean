import Zmtp.Engine.Outbox
import Zmtp.Event
import Zmtp.Frame.FrameReader
import Zmtp.Frame.FrameWriter
import Zmtp.Greeting
import Zmtp.Interest
import Zmtp.Text.Quoted

namespace Zmtp

/-- The life of a connection. A connection that was stopped by its owner is over without a reason. -/
inductive Stage where
  | fresh
  | live
  | over (reason : Option Teardown)
  deriving DecidableEq

/-- What the next part from the peer is. -/
inductive Expected where
  /-- The identity of the peer. If the peer cannot subscribe, a subscription is made up for it. -/
  | identity (subscribe : Bool)
  | payload
  deriving DecidableEq

structure Codec where
  reader : FrameReader
  writer : FrameWriter

/-- How the call that runs an engine goes on. -/
inductive Progress where
  | proceed
  | pause
  | fail (reason : Teardown)
  deriving DecidableEq

/-- What an engine knows of its connection, the stream and the session left out. -/
structure EngineState where
  settings : Settings
  endpoint : String
  /-- Whether somebody listens to the events. -/
  monitored : Bool := true
  /-- The revision to write in, where it is not the negotiated one. -/
  writeRevision : Option Revision := none
  stage : Stage := .fresh
  interest : Interest := .empty
  greeting : Greeting := .new settings
  /-- Present once the greeting is done. -/
  codec : Option Codec := none
  expected : Expected := .identity false
  /-- Parts that the session has not accepted yet. -/
  held : List Part := []
  /-- Reading rests because the session had no room. -/
  congested : Bool := false
  identitySent : Bool := false
  outbox : Outbox := .empty
  /-- What was reported, oldest first. -/
  events : List Event := []

namespace EngineState

def isHandshaking (s : EngineState) : Bool := s.codec.isNone

def isLive (s : EngineState) : Bool := s.stage == .live

def isOver (s : EngineState) : Bool :=
  match s.stage with
  | .over _ => true
  | _ => false

def teardown? (s : EngineState) : Option Teardown :=
  match s.stage with
  | .over reason => reason
  | _ => none

/-- The stream belongs to the engine until the connection is over. -/
def holdsStream (s : EngineState) : Bool := !s.isOver

/-- The session belongs to the engine while the connection is live. -/
def holdsSession (s : EngineState) : Bool := s.isLive

def revision? (s : EngineState) : Option Revision := s.codec.map fun c => c.reader.scanner.revision

def negotiated? (s : EngineState) : Option Negotiated := Greeting.classify s.greeting.received.bytes

def setIn (s : EngineState) : EngineState := { s with interest := s.interest.setIn }

def resetIn (s : EngineState) : EngineState := { s with interest := s.interest.resetIn }

def setOut (s : EngineState) : EngineState := { s with interest := s.interest.setOut }

def resetOut (s : EngineState) : EngineState := { s with interest := s.interest.resetOut }

/-- Waits for the stream to take bytes, unless some are waiting already. -/
def wakeOutput (s : EngineState) : EngineState := if s.outbox.size = 0 then s.setOut else s

/-- During the greeting the stream is waited for only while there is something to write. -/
def restOutput (s : EngineState) : EngineState :=
  if s.isHandshaking ∧ s.outbox.size = 0 then s.resetOut else s

def queue (s : EngineState) (chunk : Bytes) : EngineState := { s with outbox := s.outbox.push chunk }

def report (s : EngineState) (e : Event) : EngineState :=
  if s.monitored then { s with events := s.events ++ [e] } else s

/-- Takes up the connection and sends the part of our greeting that every peer is sent. -/
def begin (s : EngineState) : EngineState :=
  let s := { s with stage := .live, interest := s.interest.register.setIn }
  (s.queue s.greeting.signature).setOut

def release (s : EngineState) (reason : Option Teardown) : EngineState :=
  { s with
    stage := .over reason
    interest := s.interest.deregister
    held := []
    outbox := .empty }

/-- Adds our tail to the outbox when it is due. -/
def queueTail (s : EngineState) : EngineState :=
  match s.greeting.takeTail with
  | (some tail, greeting) => ({ s with greeting }.wakeOutput).queue tail
  | (none, greeting) => { s with greeting }

@[simp] theorem room_queueTail (s : EngineState) : s.queueTail.greeting.room = s.greeting.room := by
  have h := s.greeting.room_takeTail
  unfold queueTail
  split
  · next g heq =>
    rw [heq] at h
    unfold queue wakeOutput
    split <;> exact h
  · next heq =>
    rw [heq] at h
    exact h

/-- Adds bytes of the peer to the greeting, and answers them. -/
def receiveGreeting (s : EngineState) (input : Bytes) : EngineState × Option Negotiated :=
  let (greeting, verdict) := (s.greeting.deposit input).count input.length
  ({ s with greeting }.queueTail, verdict)

theorem room_receiveGreeting_lt {s s' : EngineState} {input : Bytes} {v : Option Negotiated}
    (h : s.receiveGreeting input = (s', v)) (hi : input ≠ [])
    (hl : input.length ≤ s.greeting.room) : s'.greeting.room < s.greeting.room := by
  have hn : 0 < input.length := List.length_pos_iff.2 hi
  obtain ⟨rfl, -⟩ := Prod.mk.inj h
  rw [room_queueTail]
  exact Greeting.room_count_lt (g := s.greeting.deposit input) hn (Nat.lt_of_lt_of_le hn hl)

/-- How long the header of a legacy identity frame is. -/
def identityHeaderSize (identity : Bytes) : Nat := if 255 ≤ identity.length + 1 then 10 else 2

/-- A writer that is in the middle of our identity, because the greeting took the place of its
header. -/
def identityBody? (identity : Bytes) (writer : FrameWriter) : Option FrameWriter :=
  match (writer.load (.ofBytes identity)).emit (identityHeaderSize identity) with
  | some (header, writer) => if header.length = identityHeaderSize identity then some writer else none
  | none => none

/-- A codec for the frames of the connection, all of them still to come. -/
def freshCodec (s : EngineState) (revision : Revision) : Codec where
  reader := .ofSettings revision s.settings
  writer := .new (s.writeRevision.getD revision)

def establish (s : EngineState) (codec : Codec) (revision : UInt8) : EngineState :=
  let s := { s with codec := some codec }.wakeOutput
  s.report (.established s.endpoint revision.toNat)

def settle (s : EngineState) (n : Negotiated) : Except Teardown EngineState :=
  let codec := s.freshCodec n.revision
  match n with
  | .versionless prebuffered =>
    match identityBody? s.settings.identity codec.writer with
    | none => .error (.decode .identityHeader)
    | some writer =>
      let s := { s with identitySent := true, expected := .identity s.settings.role.isPublisher }
      .ok (s.establish ⟨codec.reader.prime prebuffered, writer⟩ 0)
  | .versioned revision _ => .ok (s.establish codec revision.byte)

/-- The parts that a part from the peer stands for. -/
def expand (s : EngineState) (p : Part) : List Part :=
  match s.expected with
  | .payload => [p]
  | .identity subscribe =>
    (if s.settings.deliverIdentity then [p.set .identity] else []) ++
      (if subscribe then [.ofBytes [0x01]] else [])

def describe (s : EngineState) : String :=
  "ZmtpEngine \x7b endpoint: " ++ Quoted.encode s.endpoint ++
    ", handshaking: " ++ toString s.isHandshaking ++
    ", congested: " ++ toString s.congested ++
    ", outsize: " ++ toString s.outbox.size ++
    ", terminated: " ++ toString s.isOver ++ " \x7d"

end EngineState

end Zmtp
