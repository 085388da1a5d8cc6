import Zmtp.Proofs.Frame.Cursor

namespace Zmtp

namespace Buffer

variable {b : Buffer} {input : Bytes} {n : Nat}

/-- All that the storage holds, filled or not. -/
def contents (b : Buffer) : Bytes := b.bytes ++ b.peek b.room

/-- What was written past the filled part lies within the buffer. -/
def Tidy (b : Buffer) : Prop := b.beyond.length ≤ b.room

theorem length_bytes (b : Buffer) : b.bytes.length = b.recent.length := List.length_reverse

theorem length_contents (b : Buffer) : b.contents.length = b.size := by
  rw [contents, List.length_append, length_bytes, length_peek, size]

theorem contents_new (n : Nat) : (new n).contents = List.replicate n 0 := by
  simp [contents, peek, new, bytes]

theorem take_peek {k : Nat} (h : k ≤ n) : (b.peek n).take k = b.peek k := by
  have hzeros : min (k - min n b.beyond.length) (n - b.beyond.length) = k - b.beyond.length := by
    omega
  rw [peek, List.take_append, List.take_take, Nat.min_eq_left h, List.take_replicate,
    List.length_take, hzeros, peek]

theorem drop_peek {k : Nat} (h : k ≤ n) :
    (b.peek n).drop k = (Buffer.mk b.recent b.room (b.beyond.drop k)).peek (n - k) := by
  have hzeros : n - b.beyond.length - (k - min n b.beyond.length) =
      n - k - (b.beyond.length - k) := by
    omega
  rw [peek, List.drop_append, List.drop_take, List.drop_replicate, List.length_take, hzeros, peek,
    List.length_drop]

theorem contents_count (b : Buffer) (n : Nat) : (b.count n).contents = b.contents := by
  have hpeek : (b.count n).peek (b.room - min n b.room) = (b.peek b.room).drop (min n b.room) :=
    (drop_peek (Nat.min_le_right n b.room)).symm
  have hroom : (b.count n).room = b.room - min n b.room := rfl
  rw [contents, hroom, hpeek, bytes_count, List.append_assoc, ← take_peek (Nat.min_le_right ..),
    List.take_append_drop, contents]

theorem contents_rewind (b : Buffer) : b.rewind.contents = b.contents := by
  have hlength := b.length_bytes
  have hzeros : b.size - (b.bytes.length + b.beyond.length) = b.room - b.beyond.length := by
    rw [size]
    omega
  have hroom : b.size - b.bytes.length = b.room := by
    rw [size]
    omega
  change [] ++ ((b.bytes ++ b.beyond).take b.size ++
    List.replicate (b.size - (b.bytes ++ b.beyond).length) 0) = _
  rw [List.nil_append, List.length_append, hzeros, List.take_append, hroom,
    List.take_of_length_le (by rw [size]; omega), List.append_assoc, contents, peek]

theorem bytes_count_rewind (b : Buffer) (n : Nat) :
    (b.rewind.count n).bytes = b.contents.take (min n b.size) := by
  have hcontents : b.rewind.peek b.rewind.room = b.contents := b.contents_rewind
  rw [bytes_count, ← take_peek (Nat.min_le_right ..), hcontents]
  rfl

theorem peek_deposit_room (h : input.length ≤ b.room) :
    (b.deposit input).peek b.room = input ++ (b.peek b.room).drop input.length := by
  have htake := take_peek (b := b.deposit input) h
  have hdrop := drop_peek (b := b.deposit input) h
  rw [peek_deposit h] at htake
  rw [← List.take_append_drop input.length ((b.deposit input).peek b.room), htake, hdrop,
    drop_peek h]
  have hbeyond : (b.deposit input).beyond.drop input.length = b.beyond.drop input.length := by
    rw [deposit, List.take_of_length_le h, List.drop_left]
  rw [hbeyond]
  rfl

theorem contents_deposit (h : input.length ≤ b.room) :
    (b.deposit input).contents =
      b.contents.take b.bytes.length ++ input ++ b.contents.drop (b.bytes.length + input.length) := by
  rw [contents, room_deposit, peek_deposit_room h, contents, List.take_left, ← List.drop_drop,
    List.drop_left, bytes_deposit, List.append_assoc]

theorem contents_fill (b : Buffer) (input : Bytes) :
    (b.fill input).contents =
      b.contents.take b.bytes.length ++ input.take b.room ++
        b.contents.drop (b.bytes.length + (input.take b.room).length) := by
  rw [fill, contents_count, contents_deposit (List.length_take_le ..)]

theorem fill_nil (b : Buffer) : b.fill [] = b := by
  simp only [fill_eq, List.take_nil, List.reverse_nil, List.nil_append, List.length_nil,
    Nat.sub_zero, Nat.min_zero, List.drop_zero]

theorem size_fill (b : Buffer) (input : Bytes) : (b.fill input).size = b.size := by
  rw [fill, size_count]
  rfl

theorem size_deposit (b : Buffer) (input : Bytes) : (b.deposit input).size = b.size := rfl

theorem Tidy.rewind (h : b.Tidy) : b.rewind.Tidy := by
  change (b.bytes ++ b.beyond).length ≤ b.size
  rw [List.length_append, length_bytes, size]
  exact Nat.add_le_add_left h _

theorem Tidy.count (h : b.Tidy) (n : Nat) : (b.count n).Tidy := by
  change (b.beyond.drop (min n b.room)).length ≤ b.room - min n b.room
  rw [List.length_drop]
  exact Nat.sub_le_sub_right h _

theorem Tidy.deposit (h : b.Tidy) (input : Bytes) : (b.deposit input).Tidy := by
  change (input.take b.room ++ b.beyond.drop (input.take b.room).length).length ≤ b.room
  have hle : (input.take b.room).length ≤ b.room := List.length_take_le ..
  have hbeyond : b.beyond.length ≤ b.room := h
  rw [List.length_append, List.length_drop]
  omega

theorem Tidy.grow (h : b.Tidy) (n : Nat) : (b.grow n).Tidy :=
  Nat.le_trans h (Nat.le_add_right ..)

theorem Tidy.contents_grow (h : b.Tidy) (n : Nat) :
    (b.grow n).contents = b.contents ++ List.replicate (n - b.size) 0 := by
  have hbeyond : b.beyond.length ≤ b.room := h
  have hzeros : b.room + (n - b.size) - b.beyond.length =
      b.room - b.beyond.length + (n - b.size) := by omega
  change b.bytes ++ (b.beyond.take (b.room + (n - b.size)) ++
    List.replicate (b.room + (n - b.size) - b.beyond.length) 0) = _
  rw [hzeros, ← List.replicate_append_replicate, List.take_of_length_le (by omega), contents, peek,
    List.take_of_length_le hbeyond, List.append_assoc, List.append_assoc]

end Buffer

namespace Cursor

open Slip

variable {c : Cursor} {source input : Bytes} {n : Nat}

/-- No more is filled than there is to fill, and a header field fits into its storage. -/
structure InBounds (c : Cursor) : Prop where
  header : c.header.length = 8
  width : ∀ want, c.target = .header want → 1 ≤ want ∧ want ≤ 8
  got : c.got ≤ c.total

/-- Other bytes in the place of the first unfilled ones. -/
def put (c : Cursor) (source : Bytes) : Cursor :=
  c.withStorage (c.storage.take c.got ++ source ++ c.storage.drop (c.got + source.length))

theorem got_put (c : Cursor) (source : Bytes) : (c.put source).got = c.got := by
  rw [put, withStorage]
  split <;> rfl

theorem InBounds.total_le (h : c.InBounds) : c.total ≤ c.storage.length := by
  obtain ⟨header, target, got⟩ := c
  cases target with
  | header want =>
    change want ≤ header.length
    have hheader : header.length = 8 := h.header
    have hwidth := h.width want rfl
    omega
  | body bytes => exact Nat.le_refl _

theorem InBounds.remaining (h : c.InBounds) : c.remaining = .ok (c.total - c.got) :=
  minus_of_le h.got

theorem total_of_body {buffer : Buffer} (ht : c.target = .body buffer.contents) :
    c.total = buffer.bytes.length + buffer.room := by
  rw [total, ht]
  simp only
  rw [buffer.length_contents, Buffer.size, buffer.length_bytes]

theorem left_of_body {buffer : Buffer} (ht : c.target = .body buffer.contents)
    (hg : c.got = buffer.bytes.length) : c.total - c.got = buffer.room := by
  rw [total_of_body ht, hg, Nat.add_sub_cancel_left]

theorem InBounds.unfilled (h : c.InBounds) :
    c.unfilled = .ok ((c.storage.take c.total).drop c.got) :=
  slice_of_le h.got h.total_le

theorem InBounds.write (h : c.InBounds) (hs : source.length ≤ c.total - c.got) :
    c.write source = .ok (c.put source) := by
  rw [Cursor.write, place_of_le h.got h.total_le hs]
  rfl

theorem InBounds.length_put (h : c.InBounds) (hs : source.length ≤ c.total - c.got) :
    (c.storage.take c.got ++ source ++ c.storage.drop (c.got + source.length)).length =
      c.storage.length := by
  have hle := h.total_le
  have hgot := h.got
  rw [List.length_append, List.length_append, List.length_drop, List.length_take]
  omega

theorem InBounds.put (h : c.InBounds) (hs : source.length ≤ c.total - c.got) :
    (c.put source).InBounds ∧ (c.put source).total = c.total := by
  have hlength := h.length_put hs
  obtain ⟨header, target, got⟩ := c
  cases target with
  | header want => exact ⟨⟨hlength.trans h.header, h.width, h.got⟩, rfl⟩
  | body bytes => exact ⟨⟨h.header, nofun, Nat.le_trans h.got (Nat.le_of_eq hlength.symm)⟩, hlength⟩

theorem InBounds.advance (h : c.InBounds) (hn : n ≤ c.total - c.got) :
    c.advance n = .ok { c with got := c.got + n } := by
  rw [Cursor.advance, h.remaining]
  exact if_pos hn

theorem InBounds.copyIn (h : c.InBounds) (input : Bytes) :
    c.copyIn input = .ok (min (c.total - c.got) input.length,
      { c.put (input.take (min (c.total - c.got) input.length)) with
        got := c.got + min (c.total - c.got) input.length }) := by
  have hn : min (c.total - c.got) input.length ≤ input.length := Nat.min_le_right ..
  have hslice := slice_of_le (Nat.zero_le _) hn
  have hsource : (input.take (min (c.total - c.got) input.length)).length ≤ c.total - c.got := by
    rw [List.length_take_of_le hn]
    exact Nat.min_le_left ..
  obtain ⟨hput, htotal⟩ := h.put hsource
  have hadvance := hput.advance (n := min (c.total - c.got) input.length)
    (by rw [htotal, got_put]; exact Nat.min_le_left ..)
  rw [got_put] at hadvance
  rw [Cursor.copyIn, h.remaining]
  simp only [bind, Except.bind]
  rw [hslice]
  simp only [List.drop_zero]
  rw [h.write hsource]
  simp only
  rw [hadvance]

/-- The cursor has the first bytes of a header field. -/
structure Holds (c : Cursor) (want : Nat) (seen : Bytes) : Prop where
  target : c.target = .header want
  got : c.got = seen.length
  header : c.header.length = 8
  front : c.header.take seen.length = seen
  width : 1 ≤ want ∧ want ≤ 8
  le : seen.length ≤ want

variable {want : Nat} {seen : Bytes}

theorem Holds.total (h : c.Holds want seen) : c.total = want := by rw [Cursor.total, h.target]

theorem Holds.inBounds (h : c.Holds want seen) : c.InBounds := by
  refine ⟨h.header, ?_, ?_⟩
  · intro want' ht
    cases h.target.symm.trans ht
    exact h.width
  · rw [h.got, h.total]
    exact h.le

theorem Holds.remaining (h : c.Holds want seen) : c.remaining = .ok (want - seen.length) := by
  rw [h.inBounds.remaining, h.total, h.got]

theorem Holds.field (h : c.Holds want seen) (hl : seen.length = want) : c.field = .ok seen := by
  have hle : want ≤ c.header.length := h.header ▸ h.width.2
  rw [Cursor.field, h.target]
  simp only
  rw [if_pos (h.got.trans hl), slice_of_le (Nat.zero_le _) hle, List.drop_zero, ← hl, h.front]

theorem Holds.put (h : c.Holds want seen) (hs : source.length ≤ want - seen.length) :
    Holds { c.put source with got := c.got + source.length } want (seen ++ source) := by
  have hle := h.le
  have hlength : (seen ++ source).length = seen.length + source.length := List.length_append
  have hput : c.put source =
      { c with header := seen ++ source ++ c.header.drop (c.got + source.length) } := by
    rw [Cursor.put, withStorage, storage, h.target, h.got, h.front]
  have hheader := h.inBounds.length_put (by rw [h.total, h.got]; exact hs)
  rw [storage, h.target] at hheader
  simp only at hheader
  rw [h.header, h.got, h.front] at hheader
  rw [hput]
  refine ⟨h.target, ?_, ?_, List.take_left, h.width, ?_⟩
  · rw [h.got, hlength]
  · rw [h.got]
    exact hheader
  · omega

end Cursor

namespace Machine

open HeadReader Slip

variable {m m' : Machine} {input : Bytes} {pos left n : Nat}

theorem run_eq (m : Machine) (input : Bytes) (pos : Nat) :
    m.run input pos = match m.cursor.remaining with
      | .error slip => .error slip
      | .ok 0 =>
        match m.step with
        | .error slip => .error slip
        | .ok ⟨.error fault, m⟩ => .ok ⟨.error fault, m⟩
        | .ok ⟨.ok (some p), m⟩ => .ok ⟨.ok (pos, some p), m⟩
        | .ok ⟨.ok none, m⟩ => m.run input pos
      | .ok (_ + 1) =>
        if pos = input.length then .ok ⟨.ok (pos, none), m⟩
        else
          match m.feed input pos with
          | .error slip => .error slip
          | .ok (n, m) => m.run input (pos + n) := by
  rw [run]
  split
  · next h => rw [h]
  · next h =>
    rw [h]
    simp only
    split <;> next h => rw [h]
  · next h =>
    rw [h]
    simp only
    split
    · rfl
    · split <;> next h => rw [h]

/-- The reader waits for a field of so many bytes, of which these are seen. -/
inductive AtField (m : Machine) : HeadReader → Nat → Bytes → Prop where
  | v1Size (hr : m.revision = .v1) (hp : m.part = .oneByteSize) : AtField m .v1Size 1 []
  | v1LongSize {seen : Bytes} (hr : m.revision = .v1) (hp : m.part = .eightByteSize)
      (hs : seen.length < 8) : AtField m (.v1LongSize seen) 8 seen
  | v1Flags (hr : m.revision = .v1) (hp : m.part = .flags) : AtField m (.v1Flags m.size) 1 []
  | v2Flags (hr : m.revision = .v2) (hp : m.part = .flags) : AtField m .v2Flags 1 []
  | v2Size (hr : m.revision = .v2) (hp : m.part = .oneByteSize) : AtField m (.v2Size m.more) 1 []
  | v2LongSize {seen : Bytes} (hr : m.revision = .v2) (hp : m.part = .eightByteSize)
      (hs : seen.length < 8) : AtField m (.v2LongSize m.more seen) 8 seen

/-- The machine is where the scanner is. -/
inductive Stands (m : Machine) : Phase → Prop where
  | head {reader : HeadReader} {want : Nat} {seen : Bytes} (field : m.AtField reader want seen)
      (holds : m.cursor.Holds want seen) : Stands m (.head reader)
  | body {buffer : Buffer} (part : m.part = .body) (size : m.size = buffer.size)
      (target : m.cursor.target = .body buffer.contents)
      (got : m.cursor.got = buffer.bytes.length) : Stands m (.body m.more buffer)

structure Tracks (m : Machine) (s : Scanner) : Prop where
  revision : m.revision = s.revision
  limit : m.limit = s.limit
  header : m.cursor.header.length = 8
  stands : m.Stands s.phase

variable {reader : HeadReader} {want : Nat} {seen : Bytes} {b : UInt8}

theorem AtField.lt (h : m.AtField reader want seen) : seen.length < want ∧ want ≤ 8 := by
  cases h with
  | v1Size => exact ⟨by decide, by decide⟩
  | v1LongSize _ _ hs => exact ⟨hs, Nat.le_refl 8⟩
  | v1Flags => exact ⟨by decide, by decide⟩
  | v2Flags => exact ⟨by decide, by decide⟩
  | v2Size => exact ⟨by decide, by decide⟩
  | v2LongSize _ _ hs => exact ⟨hs, Nat.le_refl 8⟩

theorem AtField.congr (h : m.AtField reader want seen) (hrev : m'.revision = m.revision)
    (hpart : m'.part = m.part) (hsize : m'.size = m.size) (hmore : m'.more = m.more) :
    m'.AtField reader want seen := by
  cases h with
  | v1Size hr hp => exact .v1Size (hrev.trans hr) (hpart.trans hp)
  | v1LongSize hr hp hs => exact .v1LongSize (hrev.trans hr) (hpart.trans hp) hs
  | v1Flags hr hp => rw [← hsize]; exact .v1Flags (hrev.trans hr) (hpart.trans hp)
  | v2Flags hr hp => exact .v2Flags (hrev.trans hr) (hpart.trans hp)
  | v2Size hr hp => rw [← hmore]; exact .v2Size (hrev.trans hr) (hpart.trans hp)
  | v2LongSize hr hp hs => rw [← hmore]; exact .v2LongSize (hrev.trans hr) (hpart.trans hp) hs

theorem AtField.push (h : m.AtField reader want seen) (hl : seen.length + 1 < want) (limit : Nat)
    (b : UInt8) : ∃ next, reader.push limit b = .ok (.pending next) ∧
      m.AtField next want (seen ++ [b]) := by
  have hseen : (seen ++ [b]).length = seen.length + 1 := List.length_append
  cases h with
  | v1Size => exact absurd hl (by decide)
  | v1LongSize hr hp hs =>
    exact ⟨_, Scanner.push_v1LongSize (hseen ▸ hl), .v1LongSize hr hp (hseen ▸ hl)⟩
  | v1Flags => exact absurd hl (by decide)
  | v2Flags => exact absurd hl (by decide)
  | v2Size => exact absurd hl (by decide)
  | v2LongSize hr hp hs =>
    exact ⟨_, Scanner.push_v2LongSize (hseen ▸ hl), .v2LongSize hr hp (hseen ▸ hl)⟩

theorem AtField.runHead {s : Scanner} {front : Bytes} (h : m.AtField reader want seen)
    (hl : seen.length + front.length < want) (rest : Bytes) :
    ∃ next, s.runHead reader (front ++ rest) = s.runHead next rest ∧
      m.AtField next want (seen ++ front) := by
  induction front generalizing reader seen with
  | nil =>
    rw [List.append_nil]
    exact ⟨reader, rfl, h⟩
  | cons b front ih =>
    rw [List.length_cons] at hl
    obtain ⟨next, hpush, hnext⟩ := h.push (by omega) s.limit b
    obtain ⟨last, hrun, hlast⟩ := ih hnext (by
      rw [List.length_append, List.length_singleton]
      omega)
    rw [← List.append_cons] at hlast
    exact ⟨last, (Scanner.runHead_pending hpush).trans hrun, hlast⟩

theorem firstByte_eq (h : m.cursor.Holds 1 [b]) : m.firstByte = .ok b := by
  rw [firstByte, h.field rfl]
  rfl

theorem eightBytes_eq {field : Bytes} (h : m.cursor.Holds 8 field) (hl : field.length = 8) :
    m.eightBytes = .ok field := by
  rw [eightBytes, h.field hl]
  exact if_pos hl

/-- What a machine that holds a header field makes of it is what the reader makes of its last byte. -/
inductive Answers (m : Machine) : Except WireFault Step → Prop where
  | refused {fault : WireFault} (h : m.step = .ok ⟨.error fault, m⟩) : Answers m (.error fault)
  | pending {m' : Machine} {next : HeadReader} (h : m.step = .ok ⟨.ok none, m'⟩)
      (hr : m'.revision = m.revision) (hl : m'.limit = m.limit) (hs : m'.store = m.store)
      (hh : m'.cursor.header = m.cursor.header) (stands : m'.Stands (.head next)) :
      Answers m (.ok (.pending next))
  | done {m' : Machine} {head : Head} (h : m.step = .ok ⟨.ok none, m'⟩)
      (hr : m'.revision = m.revision) (hl : m'.limit = m.limit)
      (hs : m'.store = (m.store.allocate head.size).2) (hh : m'.cursor.header = m.cursor.header)
      (stands : m'.Stands (.body head.more (.new head.size))) : Answers m (.ok (.done head))

theorem answers_expectHeader {part : FramePart} {next : HeadReader} {more : Bool} {size : Nat}
    (hh : m.cursor.header.length = 8) (hw : 1 ≤ want ∧ want ≤ 8)
    (hs : m.step = expectHeader { m with more, size } want part)
    (hf : ∀ cursor, AtField { m with more, size, part, cursor } next want []) :
    m.Answers (.ok (.pending next)) := by
  have hcursor : m.cursor.expectHeader want =
      .ok { m.cursor with target := .header want, got := 0 } := if_pos hw
  rw [expectHeader, hcursor] at hs
  exact .pending hs rfl rfl rfl rfl (.head (hf _) ⟨rfl, rfl, hh, rfl, hw, Nat.zero_le _⟩)

theorem answers_expectBody {more : Bool} {size : Nat}
    (hs : m.step = expectBody { m with more, size }) : m.Answers (.ok (.done ⟨more, size⟩)) := by
  refine .done hs rfl rfl rfl rfl (.body rfl (Buffer.size_new size).symm ?_ rfl)
  rw [Buffer.contents_new]
  rfl

/-- A length of the older revision is announced before the flags. -/
theorem answers_announceFlags {size : Except WireFault Nat} (hh : m.cursor.header.length = 8)
    (hr : m.revision = .v1) (hs : m.step = m.announce size (·.expectHeader 1 .flags)) :
    m.Answers (size.map fun size => .pending (.v1Flags size)) := by
  cases size with
  | error fault => exact .refused hs
  | ok size => exact answers_expectHeader hh (by decide) hs fun cursor => .v1Flags hr rfl

/-- A length of the newer revision is announced before the body. -/
theorem answers_announceBody {size : Except WireFault Nat}
    (hs : m.step = m.announce size expectBody) :
    m.Answers (size.map fun size => .done ⟨m.more, size⟩) := by
  cases size with
  | error fault => exact .refused hs
  | ok size => exact answers_expectBody hs

theorem answers_oneByteSizeV1 (h : m.cursor.Holds 1 [b]) (hr : m.revision = .v1)
    (hp : m.part = .oneByteSize) : m.Answers (HeadReader.v1Size.push m.limit b) := by
  have hstep : m.step = m.oneByteSizeV1 := by rw [step, hp, hr]
  rw [oneByteSizeV1, firstByte_eq h] at hstep
  simp only [bind, Except.bind] at hstep
  by_cases hlong : b = 0xff
  · rw [if_pos hlong] at hstep
    rw [HeadReader.push, if_pos hlong]
    exact answers_expectHeader h.header (by decide) hstep fun cursor => .v1LongSize hr rfl (by decide)
  · rw [if_neg hlong] at hstep
    rw [HeadReader.push, if_neg hlong]
    by_cases hzero : b = 0
    · rw [if_pos hzero] at hstep ⊢
      exact .refused hstep
    · have hpos : 1 ≤ b.toNat := Nat.pos_of_ne_zero fun h0 => hzero (UInt8.toNat_inj.1 h0)
      rw [if_neg hzero, minus_of_le hpos] at hstep
      rw [if_neg hzero]
      exact answers_announceFlags h.header hr hstep

theorem answers_flagsV2 (h : m.cursor.Holds 1 [b]) (hr : m.revision = .v2)
    (hp : m.part = .flags) : m.Answers (HeadReader.v2Flags.push m.limit b) := by
  have hstep : m.step = m.flagsV2 := by rw [step, hp, hr]
  rw [flagsV2, firstByte_eq h] at hstep
  simp only [bind, Except.bind] at hstep
  rw [HeadReader.push]
  by_cases hreserved : b &&& 0xfc != 0
  · rw [if_pos hreserved] at hstep ⊢
    exact .refused hstep
  · rw [if_neg hreserved] at hstep ⊢
    by_cases hlarge : isLarge b = true
    · rw [if_pos hlarge] at hstep ⊢
      exact answers_expectHeader h.header (by decide) hstep fun cursor => .v2LongSize hr rfl (by decide)
    · rw [if_neg hlarge] at hstep ⊢
      exact answers_expectHeader h.header (by decide) hstep fun cursor => .v2Size hr rfl

/-- A header field that is complete comes to the same, whether its bytes were taken one by one or
together. -/
theorem AtField.answers (hf : m.AtField reader want seen) (h : m.cursor.Holds want (seen ++ [b]))
    (hl : (seen ++ [b]).length = want) : m.Answers (reader.push m.limit b) := by
  cases hf with
  | v1Size hr hp => exact answers_oneByteSizeV1 h hr hp
  | v1LongSize hr hp hs =>
    have hstep : m.step = m.eightByteSizeV1 := by rw [step, hp, hr]
    rw [eightByteSizeV1, eightBytes_eq h hl] at hstep
    rw [HeadReader.push, if_neg (Nat.not_lt.2 (Nat.le_of_eq hl.symm))]
    exact answers_announceFlags h.header hr hstep
  | v1Flags hr hp =>
    have hstep : m.step = m.flagsV1 := by rw [step, hp, hr]
    rw [flagsV1, firstByte_eq h] at hstep
    exact answers_expectBody hstep
  | v2Flags hr hp => exact answers_flagsV2 h hr hp
  | v2Size hr hp =>
    have hstep : m.step = m.oneByteSizeV2 := by rw [step, hp, hr]
    rw [oneByteSizeV2, firstByte_eq h] at hstep
    exact answers_announceBody hstep
  | v2LongSize hr hp hs =>
    have hstep : m.step = m.eightByteSizeV2 := by rw [step, hp, hr]
    rw [eightByteSizeV2, eightBytes_eq h hl] at hstep
    rw [HeadReader.push, if_neg (Nat.not_lt.2 (Nat.le_of_eq hl.symm))]
    exact answers_announceBody hstep

theorem Stands.inBounds {phase : Phase} (h : m.Stands phase) (hh : m.cursor.header.length = 8) :
    m.cursor.InBounds := by
  cases h with
  | head field holds => exact holds.inBounds
  | body part size target got =>
    refine ⟨hh, ?_, ?_⟩
    · intro want hw
      cases target.symm.trans hw
    · rw [got, Cursor.total_of_body target]
      exact Nat.le_add_right ..

theorem feed_eq (h : m.cursor.InBounds) (hp : pos ≤ input.length) :
    m.feed input pos = .ok (min (m.cursor.total - m.cursor.got) (input.drop pos).length,
      { m with cursor :=
        { m.cursor.put ((input.drop pos).take
            (min (m.cursor.total - m.cursor.got) (input.drop pos).length)) with
          got := m.cursor.got + min (m.cursor.total - m.cursor.got) (input.drop pos).length } }) := by
  rw [feed, slice_of_le hp (Nat.le_refl _), List.take_length]
  simp only [bind, Except.bind]
  rw [h.copyIn]

theorem feed_head (h : m.cursor.Holds want seen) (hp : pos ≤ input.length) :
    ∃ cursor : Cursor,
      m.feed input pos =
        .ok (min (want - seen.length) (input.drop pos).length, { m with cursor }) ∧
      cursor.Holds want
        (seen ++ (input.drop pos).take (min (want - seen.length) (input.drop pos).length)) := by
  have hfeed := feed_eq h.inBounds hp
  rw [h.total, h.got] at hfeed
  have hsource : ((input.drop pos).take (min (want - seen.length) (input.drop pos).length)).length =
      min (want - seen.length) (input.drop pos).length :=
    List.length_take_of_le (Nat.min_le_right ..)
  have hholds := h.put (Nat.le_trans (Nat.le_of_eq hsource) (Nat.min_le_left ..))
  rw [hsource, h.got] at hholds
  exact ⟨_, hfeed, hholds⟩

theorem feed_body {buffer : Buffer} (ht : m.cursor.target = .body buffer.contents)
    (hg : m.cursor.got = buffer.bytes.length) (hb : m.cursor.InBounds) (hp : pos ≤ input.length) :
    m.feed input pos = .ok (min buffer.room (input.drop pos).length,
      { m with cursor := ⟨m.cursor.header, .body (buffer.fill (input.drop pos)).contents,
        (buffer.fill (input.drop pos)).bytes.length⟩ }) := by
  have hroom := Cursor.left_of_body ht hg
  have hstorage : m.cursor.storage = buffer.contents := by rw [Cursor.storage, ht]
  have htake : (input.drop pos).take (min buffer.room (input.drop pos).length) =
      (input.drop pos).take buffer.room := by
    rw [Nat.min_comm, ← List.take_take]
    exact List.take_of_length_le (List.length_take_le' ..)
  rw [feed_eq hb hp, hroom, htake, Cursor.put, Cursor.withStorage, ht, hstorage, hg]
  simp only
  rw [Buffer.contents_fill, Buffer.bytes_fill, List.length_append, List.length_take]

/-- A run ends as the scan of the same input does. After a fault the machine is not used again. -/
inductive Ends (m : Machine) (input : Bytes) : Ran → Scan → Prop where
  | refused {m' : Machine} {s : Scanner} {reader : HeadReader} {fault : WireFault} {rest : Bytes}
      {asked : List Nat} (phase : s.phase = .head reader) (target : m'.cursor.isBody = false)
      (bounds : m'.cursor.InBounds) (store : m'.store = m.store.allocateAll asked) :
      Ends m input ⟨.error fault, m'⟩ ⟨s, .error fault, rest, asked⟩
  | scanned {m' : Machine} {s : Scanner} {part : Option Part} {used : Nat} {asked : List Nat}
      (within : used ≤ input.length) (tracks : m'.Tracks s)
      (store : m'.store = m.store.allocateAll asked) :
      Ends m input ⟨.ok (used, part), m'⟩ ⟨s, .ok part, input.drop used, asked⟩

variable {s : Scanner} {buffer : Buffer}

theorem Ends.congr {ran : Ran} {scan : Scan} (h : m'.Ends input ran scan)
    (hs : m'.store = m.store) : m.Ends input ran scan := by
  cases h with
  | refused phase target bounds store => exact .refused phase target bounds (hs ▸ store)
  | scanned within tracks store => exact .scanned within tracks (hs ▸ store)

theorem Ends.announced {ran : Ran} {scan : Scan} {size : Nat} (h : m'.Ends input ran scan)
    (hs : m'.store = (m.store.allocate size).2) (hr : scan.requests = []) :
    m.Ends input ran { scan with requests := [size] } := by
  cases h with
  | refused phase target bounds store =>
    cases hr
    exact .refused phase target bounds (store.trans hs)
  | scanned within tracks store =>
    cases hr
    exact .scanned within tracks (store.trans hs)

theorem remaining_body (ht : m.cursor.target = .body buffer.contents)
    (hg : m.cursor.got = buffer.bytes.length) : m.cursor.remaining = .ok buffer.room := by
  rw [Cursor.remaining, Cursor.total_of_body ht, hg, minus_of_le (Nat.le_add_right ..),
    Nat.add_sub_cancel_left]

theorem step_body (hp : m.part = .body) (hsize : m.size = buffer.size)
    (ht : m.cursor.target = .body buffer.contents) (hg : m.cursor.got = buffer.bytes.length)
    (hr : buffer.room = 0) :
    m.step = .ok ⟨.ok (some (.ofMore buffer.bytes m.more)),
      { m with
        part := start m.revision
        cursor := ⟨m.cursor.header, .header 1, 0⟩ }⟩ := by
  have hcontents : buffer.contents = buffer.bytes := by
    rw [Buffer.contents, hr]
    simp [Buffer.peek]
  have hlength : buffer.bytes.length = buffer.size := by
    rw [← hcontents, buffer.length_contents]
  have htake : m.cursor.takeBody m.size =
      .ok (buffer.bytes, { m.cursor with target := .header 1 }) := by
    rw [Cursor.takeBody, ht, hcontents, hg, hsize]
    simp only
    rw [if_pos ⟨hlength, hlength⟩, hg]
  have hstep : m.step = m.messageReady := by rw [step, hp]
  rw [hstep, messageReady, htake]
  rfl

/-- The same machine at the start of the next frame. -/
def atStart (m : Machine) : Machine :=
  { m with part := start m.revision, cursor := ⟨m.cursor.header, .header 1, 0⟩ }

theorem tracks_atStart (hr : m.revision = s.revision) (hl : m.limit = s.limit)
    (hh : m.cursor.header.length = 8) :
    m.atStart.Tracks { s with phase := .head (.start s.revision) } := by
  refine ⟨hr, hl, hh, ?_⟩
  rw [← hr, atStart]
  cases m.revision with
  | v1 => exact .head (.v1Size rfl rfl) ⟨rfl, rfl, hh, rfl, by decide, by decide⟩
  | v2 => exact .head (.v2Flags rfl rfl) ⟨rfl, rfl, hh, rfl, by decide, by decide⟩

theorem run_full (hp : m.part = .body) (hsize : m.size = buffer.size)
    (ht : m.cursor.target = .body buffer.contents) (hg : m.cursor.got = buffer.bytes.length)
    (hr : buffer.room = 0) :
    m.run input pos = .ok ⟨.ok (pos, some (.ofMore buffer.bytes m.more)), m.atStart⟩ := by
  rw [run_eq, remaining_body ht hg, hr]
  simp only [step_body hp hsize ht hg hr]
  rfl

theorem run_of_end (hr : m.cursor.remaining = .ok (left + 1)) :
    m.run input input.length = .ok ⟨.ok (input.length, none), m⟩ := by
  rw [run_eq, hr]
  exact if_pos rfl

theorem run_of_feed (hr : m.cursor.remaining = .ok (left + 1)) (hp : pos < input.length)
    (hf : m.feed input pos = .ok (n, m')) : m.run input pos = m'.run input (pos + n) := by
  rw [run_eq, hr]
  simp only
  rw [if_neg (Nat.ne_of_lt hp), hf]

theorem ends_nil (h : m.Tracks s) (hr : m.cursor.remaining = .ok (left + 1)) :
    ∃ ran, m.run input input.length = .ok ran ∧ m.Ends input ran ⟨s, .ok none, [], []⟩ := by
  have hends : m.Ends input ⟨.ok (input.length, none), m⟩
      ⟨s, .ok none, input.drop input.length, []⟩ := .scanned (Nat.le_refl _) h rfl
  rw [List.drop_length] at hends
  exact ⟨_, run_of_end hr, hends⟩

theorem ends_full {more : Bool} (h : m.Tracks { s with phase := .body more buffer })
    (hr : buffer.room = 0) (hpos : pos ≤ input.length) :
    ∃ ran, m.run input pos = .ok ran ∧
      m.Ends input ran ⟨{ s with phase := .head (.start s.revision) },
        .ok (some (.ofMore buffer.bytes more)), input.drop pos, []⟩ := by
  cases h.stands with
  | body part size target got =>
    exact ⟨_, run_full part size target got hr,
      .scanned hpos (tracks_atStart h.revision h.limit h.header) rfl⟩

theorem ends_unfilled {more : Bool} (h : m.Tracks { s with phase := .body more buffer })
    (hr : buffer.room ≠ 0) (input : Bytes) :
    ∃ ran, m.run input input.length = .ok ran ∧
      m.Ends input ran ⟨{ s with phase := .body more buffer }, .ok none, [], []⟩ := by
  cases h.stands with
  | body part size target got =>
    obtain ⟨left, hleft⟩ := Nat.exists_eq_succ_of_ne_zero hr
    exact ends_nil h ((remaining_body target got).trans (congrArg _ hleft))

theorem ends_body {more : Bool} (h : m.Tracks { s with phase := .body more buffer })
    (hpos : pos ≤ input.length) :
    ∃ ran, m.run input pos = .ok ran ∧
      m.Ends input ran (s.runBody more buffer (input.drop pos)) := by
  have hb := h.stands.inBounds h.header
  by_cases hroom : buffer.room = 0
  · rw [Scanner.runBody_of_room (hroom ▸ Nat.zero_le _), hroom, Buffer.bytes_fill, hroom,
      List.take_zero, List.append_nil, List.drop_zero]
    exact ends_full h hroom hpos
  · obtain rfl | hlt := Nat.eq_or_lt_of_le hpos
    · have hempty : ([] : Bytes).length < buffer.room := Nat.pos_of_ne_zero hroom
      rw [List.drop_length, Scanner.runBody_of_lt hempty, Buffer.fill_nil]
      exact ends_unfilled h hroom input
    · cases h.stands with
      | body part size target got =>
        obtain ⟨left, hleft⟩ := Nat.exists_eq_succ_of_ne_zero hroom
        have hremaining := (remaining_body target got).trans (congrArg _ hleft)
        rw [run_of_feed hremaining hlt (feed_body target got hb hpos)]
        generalize hrest : input.drop pos = rest
        have hlength : rest.length = input.length - pos := by rw [← hrest, List.length_drop]
        have htracks : Tracks { m with cursor := ⟨m.cursor.header,
            .body (buffer.fill rest).contents, (buffer.fill rest).bytes.length⟩ }
            { s with phase := .body m.more (buffer.fill rest) } :=
          ⟨h.revision, h.limit, h.header,
            .body part (size.trans (Buffer.size_fill ..).symm) rfl rfl⟩
        by_cases hle : buffer.room ≤ rest.length
        · have hfull : (buffer.fill rest).room = 0 := by
            rw [Buffer.room_fill, Nat.sub_eq_zero_of_le hle]
          have hused : rest.drop buffer.room = input.drop (pos + buffer.room) := by
            rw [← hrest, List.drop_drop]
          have hpos' : pos + buffer.room ≤ input.length := by omega
          obtain ⟨ran, hran, hends⟩ := ends_full htracks hfull hpos'
          rw [Nat.min_eq_left hle, Scanner.runBody_of_room hle, hused]
          exact ⟨ran, hran, hends.congr rfl⟩
        · have hshort : rest.length < buffer.room := Nat.lt_of_not_le hle
          have hend : pos + rest.length = input.length := by omega
          have hunfilled : (buffer.fill rest).room ≠ 0 := by
            rw [Buffer.room_fill]
            omega
          obtain ⟨ran, hran, hends⟩ := ends_unfilled htracks hunfilled input
          rw [Nat.min_eq_right (Nat.le_of_lt hshort), hend, Scanner.runBody_of_lt hshort]
          exact ⟨ran, hran, hends.congr rfl⟩

theorem take_succ {bytes : Bytes} (h : n + 1 ≤ bytes.length) :
    ∃ front b, front.length = n ∧ bytes.take (n + 1) = front ++ [b] :=
  ⟨bytes.take n, bytes[n], List.length_take_of_le (Nat.le_of_succ_le h),
    (List.take_append_getElem h).symm⟩

theorem ends_field {rest : Bytes} (hf : m.AtField reader want seen)
    (h : m.cursor.Holds want (seen ++ [b])) (hfull : (seen ++ [b]).length = want)
    (hr : m.revision = s.revision) (hl : m.limit = s.limit) (hpos : pos ≤ input.length)
    (ih : ∀ (m' : Machine) (next : HeadReader), m'.revision = s.revision → m'.limit = s.limit →
      m'.Stands (.head next) →
      ∃ ran, m'.run input pos = .ok ran ∧ m'.Ends input ran (s.runHead next (input.drop pos)))
    (hrest : input.drop pos = rest) :
    ∃ ran, m.run input pos = .ok ran ∧ m.Ends input ran (s.runHead reader (b :: rest)) := by
  have hremaining : m.cursor.remaining = .ok 0 := by
    rw [h.remaining, hfull, Nat.sub_self]
  have hanswers := hf.answers h hfull
  rw [hl] at hanswers
  generalize hpush : reader.push s.limit b = answer at hanswers
  cases hanswers with
  | @refused fault hstep =>
    have hbody : m.cursor.isBody = false := by rw [Cursor.isBody, h.target]
    refine ⟨⟨.error fault, m⟩, ?_, ?_⟩
    · rw [run_eq, hremaining]
      simp only [hstep]
    · rw [Scanner.runHead, hpush]
      exact .refused rfl hbody h.inBounds rfl
  | @pending m' next hstep hr' hl' hs hh stands =>
    obtain ⟨ran, hran, hends⟩ := ih m' next (hr'.trans hr) (hl'.trans hl) stands
    refine ⟨ran, ?_, ?_⟩
    · rw [run_eq, hremaining]
      simp only [hstep]
      exact hran
    · rw [Scanner.runHead_pending hpush, ← hrest]
      exact hends.congr hs
  | @done m' head hstep hr' hl' hs hh stands =>
    have htracks : m'.Tracks { s with phase := .body head.more (.new head.size) } :=
      ⟨hr'.trans hr, hl'.trans hl, (congrArg _ hh).trans h.header, stands⟩
    obtain ⟨ran, hran, hends⟩ := ends_body htracks hpos
    refine ⟨ran, ?_, ?_⟩
    · rw [run_eq, hremaining]
      simp only [hstep]
      exact hran
    · rw [Scanner.runHead_done hpush, ← hrest]
      exact hends.announced hs (Scanner.requests_runBody ..)

theorem ends_pending (hf : m.AtField reader want seen) (h : m.cursor.Holds want seen)
    (hlt : seen.length < want) (hr : m.revision = s.revision) (hl : m.limit = s.limit) :
    ∃ ran, m.run input input.length = .ok ran ∧ m.Ends input ran (s.runHead reader []) := by
  have htracks : m.Tracks { s with phase := .head reader } := ⟨hr, hl, h.header, .head hf h⟩
  obtain ⟨left, hleft⟩ := Nat.exists_eq_succ_of_ne_zero (Nat.sub_ne_zero_of_lt hlt)
  exact ends_nil htracks (h.remaining.trans (congrArg _ hleft))

theorem ends_head (hr : m.revision = s.revision) (hl : m.limit = s.limit)
    (h : m.Stands (.head reader)) (hpos : pos ≤ input.length) :
    ∃ ran, m.run input pos = .ok ran ∧ m.Ends input ran (s.runHead reader (input.drop pos)) := by
  induction hn : input.length - pos using Nat.strongRecOn generalizing m reader pos with
  | ind n ih =>
    cases h with
    | @head reader want seen field holds =>
      obtain ⟨hlt, -⟩ := field.lt
      obtain rfl | hinput := Nat.eq_or_lt_of_le hpos
      · rw [List.drop_length]
        exact ends_pending field holds hlt hr hl
      · obtain ⟨left, hleft⟩ : ∃ left, want - seen.length = left + 1 :=
          Nat.exists_eq_succ_of_ne_zero (Nat.sub_ne_zero_of_lt hlt)
        obtain ⟨cursor, hfeed, holds'⟩ := feed_head holds hpos
        rw [run_of_feed (holds.remaining.trans (congrArg _ hleft)) hinput hfeed]
        have hfield : AtField { m with cursor } reader want seen := field.congr rfl rfl rfl rfl
        generalize hrest : input.drop pos = rest at holds' ⊢
        have hlength : rest.length = input.length - pos := by rw [← hrest, List.length_drop]
        by_cases hle : want - seen.length ≤ rest.length
        · rw [Nat.min_eq_left hle] at holds' ⊢
          obtain ⟨front, b, hfront, htake⟩ := take_succ (hleft ▸ hle)
          rw [← hleft] at htake
          have hsplit : rest = front ++ b :: rest.drop (want - seen.length) := by
            rw [List.append_cons, ← htake, List.take_append_drop]
          have hshort : seen.length + front.length < want := by omega
          have hfull : (seen ++ front ++ [b]).length = want := by
            rw [List.length_append, List.length_append, List.length_singleton]
            omega
          have hdrop : input.drop (pos + (want - seen.length)) =
              rest.drop (want - seen.length) := by
            rw [← hrest, List.drop_drop]
          have hpos' : pos + (want - seen.length) ≤ input.length := by omega
          rw [htake, ← List.append_assoc] at holds'
          obtain ⟨last, hrun, hfield'⟩ :=
            hfield.runHead (s := s) hshort (b :: rest.drop (want - seen.length))
          obtain ⟨ran, hran, hends⟩ := ends_field hfield' holds' hfull hr hl hpos'
            (fun m' next hr' hl' hs' => ih _ (by omega) hr' hl' hs' hpos' rfl) hdrop
          rw [hsplit, hrun]
          exact ⟨ran, hran, hends.congr rfl⟩
        · have hshort : seen.length + rest.length < want := by omega
          have hend : pos + rest.length = input.length := by omega
          rw [Nat.min_eq_right (Nat.le_of_not_le hle), List.take_length] at holds'
          rw [Nat.min_eq_right (Nat.le_of_not_le hle), hend]
          obtain ⟨next, hrun, hfield'⟩ := hfield.runHead (s := s) hshort []
          rw [List.append_nil] at hrun
          obtain ⟨ran, hran, hends⟩ :=
            ends_pending hfield' holds' (List.length_append ▸ hshort) hr hl
          rw [hrun]
          exact ⟨ran, hran, hends.congr rfl⟩

/-- What a machine makes of an input is what the scanner makes of it. -/
theorem ends_run (h : m.Tracks s) (input : Bytes) :
    ∃ ran, m.run input 0 = .ok ran ∧ m.Ends input ran (s.run input) := by
  have hstands := h.stands
  rw [Scanner.run]
  cases hp : s.phase with
  | head reader =>
    rw [hp] at hstands
    exact ends_head h.revision h.limit hstands (Nat.zero_le _)
  | body more buffer => exact ends_body (hp ▸ h) (Nat.zero_le _)

end Machine

end Zmtp
