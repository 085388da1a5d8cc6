import Zmtp.Proofs.Frame.Requests

namespace Zmtp

/-! The reader once more as it lies in memory: positions in arrays in the place of what was taken and
what is left. Each index, difference and copy is checked. -/

/-- What must not happen: an index or a length that does not fit, or a field that is taken before it
is complete. -/
inductive Slip where
  | underflow
  | outOfRange
  | mismatch
  /-- A header field of no bytes or of more than eight. -/
  | width
  | early
  deriving DecidableEq

namespace Slip

variable {bytes source : Bytes} {i j : Nat}

def minus (a b : Nat) : Except Slip Nat := if b ≤ a then .ok (a - b) else .error .underflow

/-- The bytes from `i` on and before `j`. -/
def slice (bytes : Bytes) (i j : Nat) : Except Slip Bytes :=
  if i ≤ j ∧ j ≤ bytes.length then .ok ((bytes.take j).drop i) else .error .outOfRange

/-- Copies a source to the front of the bytes from `i` on and before `j`. -/
def place (bytes : Bytes) (i j : Nat) (source : Bytes) : Except Slip Bytes := do
  let room ← slice bytes i j
  if source.length ≤ room.length then
    .ok (bytes.take i ++ source ++ bytes.drop (i + source.length))
  else .error .outOfRange

theorem minus_of_le {a b : Nat} (h : b ≤ a) : minus a b = .ok (a - b) := if_pos h

theorem slice_of_le (hi : i ≤ j) (hj : j ≤ bytes.length) :
    slice bytes i j = .ok ((bytes.take j).drop i) := if_pos ⟨hi, hj⟩

theorem place_of_le (hi : i ≤ j) (hj : j ≤ bytes.length) (hs : source.length ≤ j - i) :
    place bytes i j source =
      .ok (bytes.take i ++ source ++ bytes.drop (i + source.length)) := by
  have hroom : ((bytes.take j).drop i).length = j - i := by
    rw [List.length_drop, List.length_take_of_le hj]
  rw [place, slice_of_le hi hj]
  exact if_pos (hroom ▸ hs)

end Slip

/-- What the next bytes are for. -/
inductive Target where
  /-- A header field of so many bytes, which the cursor stores itself. -/
  | header (want : Nat)
  | body (bytes : Bytes)
  deriving DecidableEq

/-- How far the current target is filled. -/
structure Cursor where
  /-- Eight bytes in which header fields are stored. -/
  header : Bytes
  target : Target
  got : Nat
  deriving DecidableEq

namespace Cursor

open Slip

def new : Cursor := ⟨List.replicate 8 0, .header 1, 0⟩

def total (c : Cursor) : Nat :=
  match c.target with
  | .header want => want
  | .body bytes => bytes.length

/-- The array that the target lies in. -/
def storage (c : Cursor) : Bytes :=
  match c.target with
  | .header _ => c.header
  | .body bytes => bytes

def withStorage (c : Cursor) (bytes : Bytes) : Cursor :=
  match c.target with
  | .header _ => { c with header := bytes }
  | .body _ => { c with target := .body bytes }

def isBody (c : Cursor) : Bool :=
  match c.target with
  | .header _ => false
  | .body _ => true

def expectHeader (c : Cursor) (want : Nat) : Except Slip Cursor :=
  if 1 ≤ want ∧ want ≤ 8 then .ok { c with target := .header want, got := 0 } else .error .width

def expectBody (c : Cursor) (bytes : Bytes) : Cursor := { c with target := .body bytes, got := 0 }

/-- A header field that is complete. -/
def field (c : Cursor) : Except Slip Bytes :=
  match c.target with
  | .header want => if c.got = want then slice c.header 0 want else .error .early
  | .body _ => .ok []

/-- Takes a body that is filled to its announced size. The count is stale until the next target is
set. -/
def takeBody (c : Cursor) (size : Nat) : Except Slip (Bytes × Cursor) :=
  match c.target with
  | .header _ => .error .early
  | .body bytes =>
    if bytes.length = size ∧ c.got = size then .ok (bytes, { c with target := .header 1 })
    else .error .early

def remaining (c : Cursor) : Except Slip Nat := minus c.total c.got

def unfilled (c : Cursor) : Except Slip Bytes := slice c.storage c.got c.total

/-- Writes to the front of the unfilled part and counts nothing. -/
def write (c : Cursor) (source : Bytes) : Except Slip Cursor := do
  let bytes ← place c.storage c.got c.total source
  .ok (c.withStorage bytes)

def advance (c : Cursor) (n : Nat) : Except Slip Cursor := do
  let left ← c.remaining
  if n ≤ left then .ok { c with got := c.got + n } else .error .outOfRange

/-- Copies as much of the input as the target is short of, and says how much that is. -/
def copyIn (c : Cursor) (input : Bytes) : Except Slip (Nat × Cursor) := do
  let left ← c.remaining
  let source ← slice input 0 (min left input.length)
  let c ← c.write source
  let c ← c.advance (min left input.length)
  .ok (min left input.length, c)

end Cursor

/-- The part of a frame that the cursor is filling. -/
inductive FramePart where
  | oneByteSize
  | eightByteSize
  | flags
  | body
  deriving DecidableEq

/-- What input is given to: the place in the frame, the cursor and the source of storage. -/
structure Machine where
  revision : Revision
  limit : Nat
  part : FramePart
  /-- The size of the body, once it is announced. -/
  size : Nat
  more : Bool
  cursor : Cursor
  store : BodyStore
  deriving DecidableEq

/-- What a machine makes of a target that is complete. -/
structure Turn where
  outcome : Except WireFault (Option Part)
  machine : Machine

/-- What a machine makes of an input: how much of it was used, and the part that is complete. -/
structure Ran where
  outcome : Except WireFault (Nat × Option Part)
  machine : Machine

namespace Machine

open HeadReader Slip

def start : Revision → FramePart
  | .v1 => .oneByteSize
  | .v2 => .flags

def new (revision : Revision) (limit : Nat) (store : BodyStore) : Machine :=
  ⟨revision, limit, start revision, 0, false, .new, store⟩

def firstByte (m : Machine) : Except Slip UInt8 := do
  match ← m.cursor.field with
  | [] => .error .outOfRange
  | b :: _ => .ok b

def eightBytes (m : Machine) : Except Slip Bytes := do
  let field ← m.cursor.field
  if field.length = 8 then .ok field else .error .mismatch

def expectHeader (m : Machine) (want : Nat) (part : FramePart) : Except Slip Turn := do
  let cursor ← m.cursor.expectHeader want
  .ok ⟨.ok none, { m with part, cursor }⟩

def expectBody (m : Machine) : Except Slip Turn :=
  .ok ⟨.ok none,
    { m with
      part := .body
      cursor := m.cursor.expectBody (List.replicate m.size 0)
      store := (m.store.allocate m.size).2 }⟩

/-- Goes on with a size unless it is refused. -/
def announce (m : Machine) (size : Except WireFault Nat) (next : Machine → Except Slip Turn) :
    Except Slip Turn :=
  match size with
  | .error fault => .ok ⟨.error fault, m⟩
  | .ok size => next { m with size }

def oneByteSizeV1 (m : Machine) : Except Slip Turn := do
  let first ← m.firstByte
  if first = 0xff then m.expectHeader 8 .eightByteSize
  else if first = 0 then .ok ⟨.error .zeroLength, m⟩
  else do
    let size ← minus first.toNat 1
    m.announce (checkSize m.limit size) (·.expectHeader 1 .flags)

def eightByteSizeV1 (m : Machine) : Except Slip Turn := do
  let field ← m.eightBytes
  m.announce (longSizeV1 m.limit (Bytes.toNat field)) (·.expectHeader 1 .flags)

def flagsV1 (m : Machine) : Except Slip Turn := do
  let flags ← m.firstByte
  expectBody { m with more := isMore flags }

def flagsV2 (m : Machine) : Except Slip Turn := do
  let flags ← m.firstByte
  if flags &&& 0xfc != 0 then .ok ⟨.error (.reservedBits flags), m⟩
  else if isLarge flags then expectHeader { m with more := isMore flags } 8 .eightByteSize
  else expectHeader { m with more := isMore flags } 1 .oneByteSize

def oneByteSizeV2 (m : Machine) : Except Slip Turn := do
  let first ← m.firstByte
  m.announce (checkSize m.limit first.toNat) expectBody

def eightByteSizeV2 (m : Machine) : Except Slip Turn := do
  let field ← m.eightBytes
  m.announce (longSizeV2 m.limit (Bytes.toNat field)) expectBody

def messageReady (m : Machine) : Except Slip Turn := do
  let (body, cursor) ← m.cursor.takeBody m.size
  let cursor ← cursor.expectHeader 1
  .ok ⟨.ok (some (.ofMore body m.more)), { m with part := start m.revision, cursor }⟩

/-- Looks at a target that is complete and sets the next. -/
def step (m : Machine) : Except Slip Turn :=
  match m.part, m.revision with
  | .oneByteSize, .v1 => m.oneByteSizeV1
  | .oneByteSize, .v2 => m.oneByteSizeV2
  | .eightByteSize, .v1 => m.eightByteSizeV1
  | .eightByteSize, .v2 => m.eightByteSizeV2
  | .flags, .v1 => m.flagsV1
  | .flags, .v2 => m.flagsV2
  | .body, _ => m.messageReady

/-- How many steps may follow that use no input. -/
def rank (m : Machine) : Nat :=
  if m.cursor.got = m.cursor.total then (if m.part = .body then 1 else 2) else 0

/-- Copies input from a position on. -/
def feed (m : Machine) (input : Bytes) (pos : Nat) : Except Slip (Nat × Machine) := do
  let rest ← slice input pos input.length
  let (n, cursor) ← m.cursor.copyIn rest
  .ok (n, { m with cursor })

variable {m m' : Machine} {turn : Turn} {n pos : Nat} {input : Bytes}

theorem bind_eq_ok {α β : Type} {x : Except Slip α} {f : α → Except Slip β} {b : β}
    (h : x >>= f = .ok b) : ∃ a, x = .ok a ∧ f a = .ok b := by
  cases x with
  | error slip => cases h
  | ok a => exact ⟨a, rfl, h⟩

theorem rank_of_body (h : m.part = .body) : m.rank ≤ 1 := by
  rw [rank, if_pos h]
  split
  · exact Nat.le_refl _
  · exact Nat.zero_le _

theorem rank_expectHeader {want : Nat} {part : FramePart}
    (h : m.expectHeader want part = .ok turn) : turn.machine.rank ≤ 1 := by
  obtain ⟨cursor, hcursor, hturn⟩ := bind_eq_ok h
  rw [Cursor.expectHeader] at hcursor
  split at hcursor
  · next hw =>
    cases hcursor
    cases hturn
    have hne : 0 ≠ want := Nat.ne_of_lt hw.1
    exact Nat.le_trans (Nat.le_of_eq (if_neg hne)) (Nat.zero_le _)
  · cases hcursor

theorem rank_expectBody (h : m.expectBody = .ok turn) : turn.machine.rank ≤ 1 := by
  cases h
  exact rank_of_body rfl

theorem rank_announce {size : Except WireFault Nat} {next : Machine → Except Slip Turn}
    (hn : ∀ m turn, next m = .ok turn → turn.machine.rank ≤ 1)
    (h : m.announce size next = .ok turn) (ho : turn.outcome = .ok none) :
    turn.machine.rank ≤ 1 := by
  cases size with
  | error fault =>
    cases h
    cases ho
  | ok size => exact hn _ _ h

theorem rank_oneByteSizeV1 (h : m.oneByteSizeV1 = .ok turn) (ho : turn.outcome = .ok none) :
    turn.machine.rank ≤ 1 := by
  obtain ⟨first, -, h⟩ := bind_eq_ok h
  split at h
  · exact rank_expectHeader h
  · split at h
    · cases h
      cases ho
    · obtain ⟨size, -, h⟩ := bind_eq_ok h
      exact rank_announce (fun _ _ => rank_expectHeader) h ho

theorem rank_flagsV2 (h : m.flagsV2 = .ok turn) (ho : turn.outcome = .ok none) :
    turn.machine.rank ≤ 1 := by
  obtain ⟨flags, -, h⟩ := bind_eq_ok h
  split at h
  · cases h
    cases ho
  · split at h
    · exact rank_expectHeader h
    · exact rank_expectHeader h

theorem rank_step (h : m.step = .ok turn) (ho : turn.outcome = .ok none) :
    m.part ≠ .body ∧ turn.machine.rank ≤ 1 := by
  obtain ⟨revision, limit, part, size, more, cursor, store⟩ := m
  cases part with
  | oneByteSize =>
    refine ⟨nofun, ?_⟩
    cases revision with
    | v1 => exact rank_oneByteSizeV1 h ho
    | v2 =>
      obtain ⟨first, -, h⟩ := bind_eq_ok h
      exact rank_announce (fun _ _ => rank_expectBody) h ho
  | eightByteSize =>
    refine ⟨nofun, ?_⟩
    cases revision with
    | v1 =>
      obtain ⟨field, -, h⟩ := bind_eq_ok h
      exact rank_announce (fun _ _ => rank_expectHeader) h ho
    | v2 =>
      obtain ⟨field, -, h⟩ := bind_eq_ok h
      exact rank_announce (fun _ _ => rank_expectBody) h ho
  | flags =>
    refine ⟨nofun, ?_⟩
    cases revision with
    | v1 =>
      obtain ⟨flags, -, h⟩ := bind_eq_ok h
      exact rank_expectBody h
    | v2 => exact rank_flagsV2 h ho
  | body =>
    obtain ⟨taken, -, h⟩ := bind_eq_ok h
    obtain ⟨cursor, -, h⟩ := bind_eq_ok h
    cases h
    cases ho

/-- A target that is complete is followed by another, and no more than one needs no input. -/
theorem rank_lt (hr : m.cursor.remaining = .ok 0) (h : m.step = .ok ⟨.ok none, m'⟩) :
    m'.rank < m.rank := by
  obtain ⟨hpart, hle⟩ := rank_step h rfl
  have hgot : m.cursor.got = m.cursor.total := by
    rw [Cursor.remaining, minus] at hr
    split at hr
    · next hle =>
      have hzero := Except.ok.inj hr
      omega
    · cases hr
  have hrank : m.rank = 2 := by rw [rank, if_pos hgot, if_neg hpart]
  rw [hrank]
  exact Nat.lt_succ_of_le hle

theorem feed_pos {left : Nat} (hr : m.cursor.remaining = .ok (left + 1)) (hp : pos ≠ input.length)
    (h : m.feed input pos = .ok (n, m')) :
    input.length - (pos + n) < input.length - pos := by
  obtain ⟨rest, hslice, h⟩ := bind_eq_ok h
  obtain ⟨⟨n', cursor⟩, hcopy, h⟩ := bind_eq_ok h
  cases h
  rw [Cursor.copyIn, hr] at hcopy
  obtain ⟨source, -, hcopy⟩ := bind_eq_ok (x := slice _ _ _) hcopy
  obtain ⟨written, -, hcopy⟩ := bind_eq_ok hcopy
  obtain ⟨advanced, -, hcopy⟩ := bind_eq_ok hcopy
  cases hcopy
  rw [slice] at hslice
  split at hslice
  · next hle =>
    cases hslice
    rw [List.length_drop, List.take_length]
    omega
  · cases hslice

/-- Uses the input from a position on until a part is complete or the input runs out. -/
def run (m : Machine) (input : Bytes) (pos : Nat) : Except Slip Ran :=
  match _hr : m.cursor.remaining with
  | .error slip => .error slip
  | .ok 0 =>
    match _hs : m.step with
    | .error slip => .error slip
    | .ok ⟨.error fault, m⟩ => .ok ⟨.error fault, m⟩
    | .ok ⟨.ok (some p), m⟩ => .ok ⟨.ok (pos, some p), m⟩
    | .ok ⟨.ok none, m⟩ => m.run input pos
  | .ok (_ + 1) =>
    if _hp : pos = input.length then .ok ⟨.ok (pos, none), m⟩
    else
      match _hf : m.feed input pos with
      | .error slip => .error slip
      | .ok (n, m) => m.run input (pos + n)
termination_by (input.length - pos, m.rank)
decreasing_by
  · exact Prod.Lex.right _ (rank_lt _hr _hs)
  · exact Prod.Lex.left _ _ (feed_pos _hr _hp _hf)

end Machine

/-- A reader of frames as it lies in memory. -/
structure IndexedReader where
  machine : Machine
  staging : Bytes
  /-- How much of the staged input was scanned. -/
  pos : Nat
  /-- How much input is staged. -/
  len : Nat
  bufferSize : Nat
  direct : Bool
  fault : Option WireFault

/-- What a call of a reader answers. -/
inductive Answer where
  | done
  /-- The room that is offered, as it stands. -/
  | room (bytes : Bytes)
  | read (outcome : Except WireFault (Option Part))
  /-- How much of the input was used stands beside the part. -/
  | used (outcome : Except WireFault (Nat × Option Part))

namespace IndexedReader

open Slip

def new (revision : Revision) (bufferSize limit : Nat) : IndexedReader where
  machine := .new revision limit (.new .heap)
  staging := List.replicate (max bufferSize 1) 0
  pos := 0
  len := 0
  bufferSize := max bufferSize 1
  direct := false
  fault := none

def hasPending (d : IndexedReader) : Bool := d.pos < d.len

def offerStaging (d : IndexedReader) : Except Slip (Bytes × IndexedReader) :=
  .ok (d.staging, { d with direct := false, pos := 0, len := 0 })

def offer (d : IndexedReader) : Except Slip (Bytes × IndexedReader) :=
  if d.machine.cursor.isBody then do
    let left ← d.machine.cursor.remaining
    if d.bufferSize ≤ left then do
      let room ← d.machine.cursor.unfilled
      .ok (room, { d with direct := true })
    else d.offerStaging
  else d.offerStaging

/-- The transport writes to the front of the room that was offered. -/
def deposit (d : IndexedReader) (input : Bytes) : Except Slip IndexedReader :=
  if d.direct then do
    let cursor ← d.machine.cursor.write input
    .ok { d with machine := { d.machine with cursor } }
  else do
    let staging ← place d.staging 0 d.staging.length input
    .ok { d with staging }

def filled (d : IndexedReader) (n : Nat) : Except Slip IndexedReader :=
  if d.direct then do
    let cursor ← d.machine.cursor.advance n
    .ok { d with machine := { d.machine with cursor }, direct := false }
  else .ok { d with pos := 0, len := min n d.staging.length }

/-- Remembers a fault for good and drops what is pending. -/
def poison (d : IndexedReader) (fault : WireFault) : IndexedReader :=
  { d with fault := some fault, pos := d.len }

def readFrom (d : IndexedReader) (input : Bytes) :
    Except Slip (Except WireFault (Nat × Option Part) × IndexedReader) :=
  match d.fault with
  | some fault => .ok (.error fault, d)
  | none => do
    let ran ← d.machine.run input 0
    match ran.outcome with
    | .error fault => .ok (.error fault, { d with machine := ran.machine }.poison fault)
    | .ok used => .ok (.ok used, { d with machine := ran.machine })

def read (d : IndexedReader) : Except Slip (Except WireFault (Option Part) × IndexedReader) :=
  match d.fault with
  | some fault => .ok (.error fault, d)
  | none => do
    let input ← slice d.staging d.pos d.len
    let (outcome, d) ← d.readFrom input
    match outcome with
    | .error fault => .ok (.error fault, d)
    | .ok (used, part) => .ok (.ok part, { d with pos := d.pos + used })

def grow (d : IndexedReader) (n : Nat) : IndexedReader :=
  { d with staging := d.staging ++ List.replicate (n - d.staging.length) 0 }

def prime (d : IndexedReader) (input : Bytes) : Except Slip IndexedReader := do
  let staging ← place (d.grow input.length).staging 0 input.length input
  .ok { d with staging, pos := 0, len := input.length }

def setStore (d : IndexedReader) (store : BodyStore) : IndexedReader :=
  { d with machine := { d.machine with store } }

def call (d : IndexedReader) : FrameReader.Call → Except Slip (Answer × IndexedReader)
  | .read => do
    let (outcome, d) ← d.read
    .ok (.read outcome, d)
  | .readFrom input => do
    let (outcome, d) ← d.readFrom input
    .ok (.used outcome, d)
  | .offer => do
    let (room, d) ← d.offer
    .ok (.room room, d)
  | .deposit input => do
    let d ← d.deposit input
    .ok (.done, d)
  | .filled n => do
    let d ← d.filled n
    .ok (.done, d)
  | .prime input => do
    let d ← d.prime input
    .ok (.done, d)
  | .setStore store => .ok (.done, d.setStore store)

/-- Makes one call after the other, and gives the answers. -/
def perform (d : IndexedReader) : List FrameReader.Call → Except Slip (List Answer × IndexedReader)
  | [] => .ok ([], d)
  | c :: cs => do
    let (answer, d) ← d.call c
    let (answers, d) ← d.perform cs
    .ok (answer :: answers, d)

end IndexedReader

end Zmtp
