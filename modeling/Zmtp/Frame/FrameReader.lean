import Zmtp.BodyStore
import Zmtp.Frame.Scanner
import Zmtp.Settings

namespace Zmtp

/-- Reads frames from a stream. Input is staged in a buffer, but the transport may write straight
into a body of which a whole buffer or more is missing. The first fault is final. -/
structure FrameReader where
  scanner : Scanner
  store : BodyStore
  /-- From how many missing bytes on a body is written to directly. -/
  threshold : Nat
  staging : Buffer
  /-- Staged input that has not been scanned. -/
  pending : Bytes
  /-- Whether the room that was offered last lies in a body. -/
  direct : Bool
  fault : Option WireFault

structure Reading where
  reader : FrameReader
  outcome : Except WireFault (Option Part)
  rest : Bytes
  requests : List Nat

/-- What came of passing input through a transport. -/
structure Feed where
  reader : FrameReader
  /-- The sizes of the rooms that were offered. -/
  offers : List Nat
  parts : List Part
  fault : Option WireFault
  /-- The input that was not passed on. -/
  rest : Bytes
  requests : List Nat

namespace FrameReader

def new (revision : Revision) (bufferSize limit : Nat) : FrameReader where
  scanner := .new revision limit
  store := .new .heap
  threshold := max bufferSize 1
  staging := .new (max bufferSize 1)
  pending := []
  direct := false
  fault := none

def setStore (r : FrameReader) (store : BodyStore) : FrameReader := { r with store }

def ofSettings (revision : Revision) (s : Settings) : FrameReader :=
  (new revision s.inputBatch s.bodyLimit).setStore (.new s.placement)

def hasPending (r : FrameReader) : Bool := !r.pending.isEmpty

def offerStaging (r : FrameReader) : Nat × FrameReader :=
  let staging := r.staging.rewind
  (staging.room, { r with staging, pending := [], direct := false })

/-- The room for the next transport read. Only meant for a reader without pending input. -/
def offer (r : FrameReader) : Nat × FrameReader :=
  match r.scanner.phase with
  | .head _ => r.offerStaging
  | .body _ buffer =>
    if r.threshold ≤ buffer.room then (buffer.room, { r with direct := true }) else r.offerStaging

def modifyBody (r : FrameReader) (f : Buffer → Buffer) : FrameReader :=
  match r.scanner.phase with
  | .head _ => r
  | .body more buffer => { r with scanner := { r.scanner with phase := .body more (f buffer) } }

def deposit (r : FrameReader) (input : Bytes) : FrameReader :=
  if r.direct then r.modifyBody (·.deposit input)
  else { r with staging := r.staging.deposit input }

/-- Takes `n` bytes of the room that was offered as written. -/
def filled (r : FrameReader) (n : Nat) : FrameReader :=
  if r.direct then { r.modifyBody (·.count n) with direct := false }
  else
    let staging := r.staging.rewind.count n
    { r with staging, pending := staging.bytes }

/-- Stages bytes that were read before the reader existed. -/
def prime (r : FrameReader) (input : Bytes) : FrameReader :=
  let staging := ((r.staging.rewind.grow input.length).deposit input).count input.length
  { r with staging, pending := input }

def advance (r : FrameReader) (scanner : Scanner) (requests : List Nat) : FrameReader :=
  { r with scanner, store := r.store.allocateAll requests }

/-- Remembers a fault for good and drops what is pending. -/
def poison (r : FrameReader) (fault : WireFault) : FrameReader :=
  { r with fault := some fault, pending := [] }

/-- Reads from the given input until a part is complete. -/
def readFrom (r : FrameReader) (input : Bytes) : Reading :=
  match r.fault with
  | some fault => ⟨r, .error fault, input, []⟩
  | none =>
    match r.scanner.run input with
    | ⟨s, .error fault, rest, asked⟩ => ⟨(r.advance s asked).poison fault, .error fault, rest, asked⟩
    | ⟨s, .ok part, rest, asked⟩ => ⟨r.advance s asked, .ok part, rest, asked⟩

/-- Reads from the pending input until a part is complete. -/
def read (r : FrameReader) : Reading :=
  match r.readFrom r.pending with
  | ⟨r, .error fault, rest, asked⟩ => ⟨r, .error fault, rest, asked⟩
  | ⟨r, .ok part, rest, asked⟩ => ⟨{ r with pending := rest }, .ok part, rest, asked⟩

/-- How many parts could come of the pending input, at most. -/
def load (r : FrameReader) : Nat := r.pending.length + r.scanner.weight

theorem load_read {r r' : FrameReader} {p : Part} {rest : Bytes} {asked : List Nat}
    (h : r.read = ⟨r', .ok (some p), rest, asked⟩) : r'.load < r.load := by
  simp only [read, readFrom] at h
  cases hf : r.fault with
  | some fault => rw [hf] at h; cases h
  | none =>
    rw [hf] at h
    cases hs : r.scanner.run r.pending with
    | mk s outcome rest asked =>
      rw [hs] at h
      cases outcome with
      | error fault => cases h
      | ok part =>
        cases h
        exact Scanner.load_run hs

/-- Reads from the given input until it gives no part. -/
def readAllFrom (r : FrameReader) (input : Bytes) : Drain FrameReader :=
  match r.fault with
  | some fault => ⟨r, [], some fault, input, []⟩
  | none =>
    match r.scanner.drain input with
    | ⟨s, parts, some fault, rest, asked⟩ =>
      ⟨(r.advance s asked).poison fault, parts, some fault, rest, asked⟩
    | ⟨s, parts, none, rest, asked⟩ => ⟨r.advance s asked, parts, none, rest, asked⟩

/-- Reads from the pending input until it gives no part. -/
def readAll (r : FrameReader) : Drain FrameReader :=
  match r.readAllFrom r.pending with
  | ⟨r, parts, some fault, rest, asked⟩ => ⟨r, parts, some fault, rest, asked⟩
  | ⟨r, parts, none, rest, asked⟩ => ⟨{ r with pending := rest }, parts, none, rest, asked⟩

/-- Passes input on in rounds, each as large as the room that is offered and at most `limit` bytes.
The results before it come newest first. -/
def feedFrom (limit : Option Nat) (offers : List Nat) (parts : List Part) (requests : List Nat)
    (r : FrameReader) (input : Bytes) : Feed :=
  let (room, offered) := r.offer
  let chunk := input.take (min room (limit.getD room))
  if _h : chunk.length = 0 then
    ⟨r, offers.reverse, parts.reverse, none, input, requests.reverse⟩
  else
    let result := ((offered.deposit chunk).filled chunk.length).readAll
    let offers := room :: offers
    let parts := result.parts.reverseAux parts
    let requests := result.requests.reverseAux requests
    match result.fault with
    | some fault =>
      ⟨result.state, offers.reverse, parts.reverse, some fault, input.drop chunk.length,
        requests.reverse⟩
    | none => feedFrom limit offers parts requests result.state (input.drop chunk.length)
termination_by input.length
decreasing_by
  have hpos : 0 < (input.take (min room (limit.getD room))).length := Nat.pos_of_ne_zero _h
  have hle := List.length_take_le' (min room (limit.getD room)) input
  rw [List.length_drop]
  omega

/-- Passes input on the way a transport does, reading all parts after each round. -/
def feed (r : FrameReader) (limit : Option Nat) (input : Bytes) : Feed :=
  feedFrom limit [] [] [] r input

end FrameReader

end Zmtp
