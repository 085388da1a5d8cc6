import Zmtp.Proofs.Frame.Machine

namespace Zmtp

namespace Scanner

variable {s s' : Scanner} {used input rest : Bytes} {asked : List Nat} {part : Option Part}

/-- What is filled of a body was used last. -/
def Kept (s : Scanner) (used : Bytes) : Prop :=
  ∀ more buffer, s.phase = .body more buffer → buffer.bytes <:+ used

theorem kept_of_head {reader : HeadReader} (hp : s.phase = .head reader) (used : Bytes) :
    s.Kept used := by
  intro more buffer hb
  cases hp.symm.trans hb

theorem exists_kept (s : Scanner) : ∃ used, s.Kept used := by
  cases hp : s.phase with
  | head reader => exact ⟨[], kept_of_head hp []⟩
  | body more buffer =>
    refine ⟨buffer.bytes, ?_⟩
    intro more' buffer' hb
    cases hp.symm.trans hb
    exact List.suffix_rfl

theorem kept_runBody {more : Bool} {buffer : Buffer} (hk : buffer.bytes <:+ used)
    (h : s.runBody more buffer input = ⟨s', .ok part, rest, asked⟩) :
    ∃ taken, input = taken ++ rest ∧ s'.Kept (used ++ taken) ∧
      ∀ p, part = some p → p.data <:+ used ++ taken := by
  by_cases hr : buffer.room ≤ input.length
  · rw [runBody_of_room hr] at h
    cases h
    refine ⟨input.take buffer.room, (List.take_append_drop ..).symm, kept_of_head rfl _, ?_⟩
    rintro p ⟨⟩
    change (buffer.fill input).bytes <:+ _
    rw [Buffer.bytes_fill]
    exact List.suffix_append_self_iff.2 hk
  · have hlt : input.length < buffer.room := Nat.lt_of_not_le hr
    rw [runBody_of_lt hlt] at h
    cases h
    refine ⟨input, (List.append_nil _).symm, ?_, nofun⟩
    rintro more' buffer' ⟨⟩
    rw [Buffer.bytes_fill, List.take_of_length_le (Nat.le_of_lt hlt)]
    exact List.suffix_append_self_iff.2 hk

theorem kept_runHead (used : Bytes) {reader : HeadReader}
    (h : s.runHead reader input = ⟨s', .ok part, rest, asked⟩) :
    ∃ taken, input = taken ++ rest ∧ s'.Kept (used ++ taken) ∧
      ∀ p, part = some p → p.data <:+ used ++ taken := by
  induction input generalizing reader used with
  | nil =>
    cases h
    exact ⟨[], rfl, kept_of_head rfl _, nofun⟩
  | cons b input ih =>
    have hcons {taken : Bytes} : used ++ b :: taken = used ++ [b] ++ taken := List.append_cons ..
    cases hpush : reader.push s.limit b with
    | error fault =>
      rw [runHead, hpush] at h
      cases h
    | ok step =>
      cases step with
      | pending next =>
        rw [runHead_pending hpush] at h
        obtain ⟨taken, rfl, hk, hp⟩ := ih (used ++ [b]) h
        exact ⟨b :: taken, rfl, hcons ▸ hk, hcons ▸ hp⟩
      | done head =>
        rw [runHead_done hpush] at h
        cases hb : s.runBody head.more (.new head.size) input with
        | mk t outcome behind new =>
          rw [hb] at h
          cases h
          have hnil : (Buffer.new head.size).bytes <:+ used ++ [b] := List.nil_suffix
          obtain ⟨taken, rfl, hk, hp⟩ := kept_runBody hnil hb
          exact ⟨b :: taken, rfl, hcons ▸ hk, hcons ▸ hp⟩

theorem Kept.run (hk : s.Kept used) (h : s.run input = ⟨s', .ok part, rest, asked⟩) :
    ∃ taken, input = taken ++ rest ∧ s'.Kept (used ++ taken) ∧
      ∀ p, part = some p → p.data <:+ used ++ taken := by
  rw [Scanner.run] at h
  cases hp : s.phase with
  | head reader =>
    rw [hp] at h
    exact kept_runHead used h
  | body more buffer =>
    rw [hp] at h
    exact kept_runBody (hk more buffer hp) h

end Scanner

namespace FrameReader

/-- The room that was offered last, as it stands. -/
def room (r : FrameReader) : Bytes :=
  if r.direct then
    match r.scanner.phase with
    | .head _ => []
    | .body _ buffer => buffer.peek buffer.room
  else r.staging.peek r.staging.room

variable {r : FrameReader} {input room used : Bytes} {part : Option Part}

/-- A room was offered, and so it stands. -/
structure Offered (r : FrameReader) (room : Bytes) : Prop where
  room : r.room = room
  pending : r.pending = []
  body : r.direct = true → ∃ more buffer, r.scanner.phase = .body more buffer
  clean : r.direct = false → r.staging.recent = []

theorem offered_offerStaging (r : FrameReader) :
    Offered r.offerStaging.2 r.offerStaging.2.room :=
  ⟨rfl, rfl, nofun, fun _ => rfl⟩

theorem offered_offer (hp : r.pending = []) : Offered r.offer.2 r.offer.2.room := by
  rw [FrameReader.offer]
  cases hs : r.scanner.phase with
  | head reader => exact offered_offerStaging r
  | body more buffer =>
    simp only
    split
    · exact ⟨rfl, hp, fun _ => ⟨more, buffer, hs⟩, Bool.noConfusion⟩
    · exact offered_offerStaging r

theorem Offered.of_direct (ho : Offered r room) (hd : r.direct = true) :
    ∃ more buffer, r.scanner.phase = .body more buffer ∧ room = buffer.peek buffer.room := by
  obtain ⟨more, buffer, hp⟩ := ho.body hd
  refine ⟨more, buffer, hp, ?_⟩
  rw [← ho.room, FrameReader.room, if_pos hd, hp]

theorem Offered.of_staging (ho : Offered r room) (hd : r.direct = false) :
    room = r.staging.peek r.staging.room ∧ r.staging.bytes = [] := by
  constructor
  · rw [← ho.room, FrameReader.room, hd]
    rfl
  · rw [Buffer.bytes, ho.clean hd]
    rfl

theorem modifyBody_rest (r : FrameReader) (f : Buffer → Buffer) :
    (r.modifyBody f).staging = r.staging ∧ (r.modifyBody f).threshold = r.threshold ∧
      (r.modifyBody f).direct = r.direct := by
  rw [FrameReader.modifyBody]
  split <;> exact ⟨rfl, rfl, rfl⟩

theorem Offered.deposit (ho : Offered r room) (hl : input.length ≤ room.length) :
    Offered (r.deposit input) (input ++ room.drop input.length) := by
  rw [FrameReader.deposit]
  by_cases hd : r.direct = true
  · obtain ⟨more, buffer, hp, rfl⟩ := ho.of_direct hd
    rw [Buffer.length_peek] at hl
    obtain ⟨-, hpending⟩ := r.modifyBody_frame (·.deposit input)
    obtain ⟨-, -, hdirect⟩ := r.modifyBody_rest (·.deposit input)
    have hphase : (r.modifyBody (·.deposit input)).scanner.phase =
        .body more (buffer.deposit input) := by rw [FrameReader.modifyBody, hp]
    rw [if_pos hd]
    refine ⟨?_, hpending.trans ho.pending, fun _ => ⟨_, _, hphase⟩, fun hf => ?_⟩
    · rw [FrameReader.room, if_pos (hdirect.trans hd), hphase]
      exact Buffer.peek_deposit_room hl
    · cases (hdirect.trans hd).symm.trans hf
  · have hd' : r.direct = false := eq_false_of_ne_true hd
    obtain ⟨rfl, hbytes⟩ := ho.of_staging hd'
    rw [Buffer.length_peek] at hl
    rw [if_neg hd]
    refine ⟨?_, ho.pending, ho.body, ho.clean⟩
    rw [FrameReader.room, if_neg hd]
    exact Buffer.peek_deposit_room hl

theorem readFrom_rest (r : FrameReader) (input : Bytes) :
    (r.readFrom input).reader.staging = r.staging ∧
      (r.readFrom input).reader.threshold = r.threshold ∧
        (r.readFrom input).reader.direct = r.direct := by
  rw [FrameReader.readFrom]
  cases r.fault with
  | some fault => exact ⟨rfl, rfl, rfl⟩
  | none =>
    cases r.scanner.run input with
    | mk s outcome rest asked => cases outcome <;> exact ⟨rfl, rfl, rfl⟩

theorem readFrom_of_ok (ho : (r.readFrom input).outcome = .ok part) :
    (r.readFrom input).reader.fault = none ∧ (r.readFrom input).reader.pending = r.pending ∧
      ∀ used, r.scanner.Kept used → ∃ taken, input = taken ++ (r.readFrom input).rest ∧
        (r.readFrom input).reader.scanner.Kept (used ++ taken) ∧
          ∀ p, part = some p → p.data <:+ used ++ taken := by
  cases hf : r.fault with
  | some fault =>
    rw [FrameReader.readFrom, hf] at ho
    cases ho
  | none =>
    rw [readFrom_eq hf] at ho ⊢
    cases hs : r.scanner.run input with
    | mk s outcome rest asked =>
      rw [hs] at ho
      cases outcome with
      | error fault => cases ho
      | ok part =>
        cases ho
        exact ⟨hf, rfl, fun used hk => hk.run hs⟩

theorem read_of_error {fault : WireFault} (ho : (r.readFrom r.pending).outcome = .error fault) :
    r.read = r.readFrom r.pending := by
  rw [FrameReader.read]
  cases hr : r.readFrom r.pending with
  | mk r' outcome rest asked =>
    rw [hr] at ho
    cases ho
    rfl

theorem read_of_ok (ho : (r.readFrom r.pending).outcome = .ok part) :
    r.read.outcome = .ok part ∧ r.read.reader =
      { (r.readFrom r.pending).reader with pending := (r.readFrom r.pending).rest } := by
  rw [FrameReader.read]
  cases hr : r.readFrom r.pending with
  | mk r' outcome rest asked =>
    rw [hr] at ho
    cases ho
    exact ⟨rfl, rfl⟩

theorem read_ok (ho : r.read.outcome = .ok part) (hk : r.scanner.Kept used) :
    ∃ taken, r.pending = taken ++ r.read.reader.pending ∧
      r.read.reader.scanner.Kept (used ++ taken) ∧
        ∀ p, part = some p → p.data <:+ used ++ taken := by
  cases hfrom : (r.readFrom r.pending).outcome with
  | error fault =>
    rw [read_of_error hfrom, hfrom] at ho
    cases ho
  | ok part' =>
    obtain ⟨hout, hreader⟩ := read_of_ok hfrom
    obtain rfl : part' = part := Except.ok.inj (hout.symm.trans ho)
    obtain ⟨taken, hpending, hkept, hpart⟩ := (readFrom_of_ok hfrom).2.2 used hk
    rw [hreader]
    exact ⟨taken, hpending, hkept, hpart⟩

theorem pending_readFrom_suffix (r : FrameReader) (input : Bytes) :
    (r.readFrom input).reader.pending <:+ r.pending := by
  cases ho : (r.readFrom input).outcome with
  | ok part => exact (readFrom_of_ok ho).2.1 ▸ List.suffix_rfl
  | error fault =>
    cases hf : r.fault with
    | none =>
      rw [((scans_readFrom hf input).poisoned fault ho).2]
      exact List.nil_suffix
    | some fault => exact (refuses_of_fault hf).readFrom input ▸ List.suffix_rfl

theorem pending_read_suffix (r : FrameReader) : r.read.reader.pending <:+ r.pending := by
  cases ho : (r.readFrom r.pending).outcome with
  | error fault =>
    rw [read_of_error ho]
    exact pending_readFrom_suffix r r.pending
  | ok part =>
    obtain ⟨used, hk⟩ := r.scanner.exists_kept
    obtain ⟨taken, hpending, -⟩ := read_ok (read_of_ok ho).1 hk
    exact ⟨taken, hpending.symm⟩

theorem scanner_offer (r : FrameReader) : r.offer.2.scanner = r.scanner := by
  rw [FrameReader.offer]
  split
  · rfl
  · split <;> rfl

theorem kept_modifyBody {f : Buffer → Buffer} {behind : Bytes}
    (hk : r.scanner.Kept used)
    (hf : ∀ more buffer, r.scanner.phase = .body more buffer →
      (f buffer).bytes = buffer.bytes ++ behind) :
    (r.modifyBody f).scanner.Kept (used ++ behind) := by
  rw [FrameReader.modifyBody]
  cases hp : r.scanner.phase with
  | head reader => exact Scanner.kept_of_head hp _
  | body more buffer =>
    rintro more' buffer' ⟨⟩
    rw [hf more buffer hp]
    exact List.suffix_append_self_iff.2 (hk more buffer hp)

variable {fault : WireFault}

theorem fault_of_readFrom_error (ho : (r.readFrom input).outcome = .error fault) :
    (r.readFrom input).reader.fault = some fault := by
  cases hf : r.fault with
  | none => exact ((scans_readFrom hf input).poisoned fault ho).1
  | some fault' =>
    rw [(refuses_of_fault hf).readFrom] at ho ⊢
    cases ho
    exact hf

theorem fault_of_read_error (ho : r.read.outcome = .error fault) :
    r.read.reader.fault = some fault := by
  cases hfrom : (r.readFrom r.pending).outcome with
  | error fault' =>
    rw [read_of_error hfrom] at ho ⊢
    exact fault_of_readFrom_error ho
  | ok part =>
    rw [(read_of_ok hfrom).1] at ho
    cases ho

end FrameReader

namespace IndexedReader

open FrameReader Slip

/-- The machine is as the reader tells. After a fault all that matters is that no body is written
to. -/
structure Serves (m : Machine) (r : FrameReader) : Prop where
  tracks : r.fault = none → m.Tracks r.scanner
  failed : ∀ fault, r.fault = some fault → (∃ reader, r.scanner.phase = .head reader) ∧
    m.cursor.isBody = false ∧ m.cursor.InBounds
  store : m.store = r.store

/-- The staged input is what the reader has pending. -/
structure Staged (d : IndexedReader) (r : FrameReader) : Prop where
  contents : d.staging = r.staging.contents
  tidy : r.staging.Tidy
  nonempty : 0 < d.staging.length
  pos : d.pos ≤ d.len
  len : d.len ≤ d.staging.length
  pending : r.pending = (d.staging.take d.len).drop d.pos

/-- The reader in memory is as the other tells. -/
structure Mirrors (d : IndexedReader) (r : FrameReader) : Prop where
  serves : Serves d.machine r
  staged : d.Staged r
  bufferSize : d.bufferSize = r.threshold
  positive : 0 < d.bufferSize
  direct : d.direct = r.direct
  fault : d.fault = r.fault

variable {d : IndexedReader} {m : Machine} {r r' : FrameReader} {input room : Bytes} {n : Nat}

theorem mirrors_new (revision : Revision) (bufferSize limit : Nat) :
    (new revision bufferSize limit).Mirrors (.new revision bufferSize limit) := by
  have hpos : 0 < max bufferSize 1 := Nat.lt_of_lt_of_le Nat.one_pos (Nat.le_max_right ..)
  have hlength : (List.replicate (max bufferSize 1) (0 : UInt8)).length = max bufferSize 1 :=
    List.length_replicate
  have hstands : (Machine.new revision limit (.new .heap)).Stands (.head (.start revision)) := by
    cases revision with
    | v1 => exact .head (.v1Size rfl rfl) ⟨rfl, rfl, rfl, rfl, by decide, by decide⟩
    | v2 => exact .head (.v2Flags rfl rfl) ⟨rfl, rfl, rfl, rfl, by decide, by decide⟩
  refine ⟨⟨fun _ => ⟨rfl, rfl, rfl, hstands⟩, nofun, rfl⟩, ?_, rfl, hpos, rfl, rfl⟩
  exact ⟨(Buffer.contents_new _).symm, Nat.zero_le _, hlength ▸ hpos, Nat.le_refl 0, Nat.zero_le _,
    rfl⟩

theorem Serves.inBounds (h : Serves m r) : m.cursor.InBounds := by
  cases hf : r.fault with
  | none => exact (h.tracks hf).stands.inBounds (h.tracks hf).header
  | some fault => exact (h.failed fault hf).2.2

theorem Serves.isBody_of_head (h : Serves m r) {reader : HeadReader}
    (hp : r.scanner.phase = .head reader) : m.cursor.isBody = false := by
  cases hf : r.fault with
  | none =>
    have hstands := (h.tracks hf).stands
    rw [hp] at hstands
    cases hstands with
    | head field holds => rw [Cursor.isBody, holds.target]
  | some fault => exact (h.failed fault hf).2.1

theorem Serves.of_body (h : Serves m r) {more : Bool} {buffer : Buffer}
    (hp : r.scanner.phase = .body more buffer) :
    m.Tracks r.scanner ∧ m.cursor.target = .body buffer.contents ∧
      m.cursor.got = buffer.bytes.length ∧ m.part = .body ∧ m.size = buffer.size ∧
        m.more = more := by
  cases hf : r.fault with
  | none =>
    have htracks := h.tracks hf
    have hstands := htracks.stands
    rw [hp] at hstands
    cases hstands with
    | body part size target got => exact ⟨htracks, target, got, part, size, rfl⟩
  | some fault =>
    obtain ⟨reader, hhead⟩ := (h.failed fault hf).1
    cases hhead.symm.trans hp

theorem Serves.congr (h : Serves m r) (hf : r'.fault = r.fault) (hs : r'.scanner = r.scanner)
    (ht : r'.store = r.store) : Serves m r' where
  tracks := by rw [hf, hs]; exact h.tracks
  failed := by rw [hf, hs]; exact h.failed
  store := by rw [ht]; exact h.store

theorem Staged.congr {d' : IndexedReader} (h : d.Staged r)
    (hs : d'.staging = d.staging) (hp : d'.pos = d.pos) (hl : d'.len = d.len)
    (hs' : r'.staging = r.staging) (hp' : r'.pending = r.pending) : d'.Staged r' where
  contents := by rw [hs, hs', h.contents]
  tidy := by rw [hs']; exact h.tidy
  nonempty := by rw [hs]; exact h.nonempty
  pos := by rw [hp, hl]; exact h.pos
  len := by rw [hs, hl]; exact h.len
  pending := by rw [hs, hp, hl, hp', h.pending]

theorem Mirrors.offerStaging (h : d.Mirrors r) :
    ∃ d', d.offerStaging = .ok (r.offerStaging.2.room, d') ∧ d'.Mirrors r.offerStaging.2 ∧
      0 < r.offerStaging.2.room.length := by
  have hcontents : r.staging.rewind.contents = d.staging :=
    (Buffer.contents_rewind _).trans h.staged.contents.symm
  have hroom : r.offerStaging.2.room = d.staging := hcontents
  rw [hroom]
  exact ⟨_, rfl, ⟨h.serves.congr rfl rfl rfl,
    ⟨hcontents.symm, h.staged.tidy.rewind, h.staged.nonempty, Nat.le_refl 0, Nat.zero_le _, rfl⟩,
    h.bufferSize, h.positive, rfl, h.fault⟩, h.staged.nonempty⟩

theorem Mirrors.offer (h : d.Mirrors r) :
    ∃ d', d.offer = .ok (r.offer.2.room, d') ∧ d'.Mirrors r.offer.2 ∧
      0 < r.offer.2.room.length := by
  rw [IndexedReader.offer, FrameReader.offer]
  cases hp : r.scanner.phase with
  | head reader =>
    rw [h.serves.isBody_of_head hp]
    exact h.offerStaging
  | body more buffer =>
    obtain ⟨-, target, got, -⟩ := h.serves.of_body hp
    have hbody : d.machine.cursor.isBody = true := by rw [Cursor.isBody, target]
    simp only
    rw [if_pos hbody, Machine.remaining_body target got]
    simp only [bind, Except.bind]
    by_cases hle : r.threshold ≤ buffer.room
    · have hunfilled : d.machine.cursor.unfilled = .ok (buffer.peek buffer.room) := by
        have htotal : d.machine.cursor.total = buffer.contents.length := by
          rw [Cursor.total, target]
        have hstorage : d.machine.cursor.storage = buffer.contents := by
          rw [Cursor.storage, target]
        rw [h.serves.inBounds.unfilled, htotal, hstorage, List.take_length, got, Buffer.contents,
          List.drop_left]
      have hroom : FrameReader.room { r with direct := true } = buffer.peek buffer.room := by
        rw [FrameReader.room, if_pos rfl]
        simp only
        rw [hp]
      rw [if_pos hle, if_pos (h.bufferSize ▸ hle), hunfilled]
      simp only
      rw [hroom, Buffer.length_peek]
      exact ⟨_, rfl, ⟨h.serves.congr rfl rfl rfl,
        h.staged.congr rfl rfl rfl rfl rfl, h.bufferSize, h.positive, rfl, h.fault⟩,
        Nat.lt_of_lt_of_le (h.bufferSize ▸ h.positive) hle⟩
    · rw [if_neg hle, if_neg (h.bufferSize ▸ hle)]
      exact h.offerStaging

theorem Mirrors.setStore (h : d.Mirrors r) (store : BodyStore) :
    (d.setStore store).Mirrors (r.setStore store) := by
  refine ⟨⟨fun hf => ?_, h.serves.failed, rfl⟩,
    h.staged.congr rfl rfl rfl rfl rfl, h.bufferSize, h.positive, h.direct, h.fault⟩
  have htracks := h.serves.tracks hf
  refine ⟨htracks.revision, htracks.limit, htracks.header, ?_⟩
  have hstands := htracks.stands
  change Machine.Stands _ r.scanner.phase
  cases hp : r.scanner.phase with
  | head reader =>
    rw [hp] at hstands
    cases hstands with
    | head field holds => exact .head (field.congr rfl rfl rfl rfl) holds
  | body more buffer =>
    rw [hp] at hstands
    cases hstands with
    | body part size target got => exact .body part size target got

theorem Serves.modifyBody {cursor : Cursor} {f : Buffer → Buffer} {more : Bool} {buffer : Buffer}
    (h : Serves m r) (hp : r.scanner.phase = .body more buffer)
    (hh : cursor.header = m.cursor.header) (ht : cursor.target = .body (f buffer).contents)
    (hg : cursor.got = (f buffer).bytes.length) (hs : (f buffer).size = buffer.size) :
    Serves { m with cursor } (r.modifyBody f) := by
  obtain ⟨htracks, -, -, part, size, rfl⟩ := h.of_body hp
  have hmodify : r.modifyBody f =
      { r with scanner := { r.scanner with phase := .body m.more (f buffer) } } := by
    rw [FrameReader.modifyBody, hp]
  rw [hmodify]
  refine ⟨fun _ => ?_, fun fault hf => ?_, h.store⟩
  · exact ⟨htracks.revision, htracks.limit, (congrArg _ hh).trans htracks.header,
      .body part (size.trans hs.symm) ht hg⟩
  · obtain ⟨reader, hhead⟩ := (h.failed fault hf).1
    cases hhead.symm.trans hp

/-- Where nothing is pending, what lies in the staging buffer may change. -/
theorem Staged.write {staging : Bytes} {buffer : Buffer} (h : d.Staged r) (hp : r.pending = [])
    (hc : staging = buffer.contents) (ht : buffer.Tidy) (hl : staging.length = d.staging.length) :
    Staged { d with staging } { r with staging := buffer } := by
  have hend : d.pos = d.len := by
    have hlength := congrArg List.length (hp.symm.trans h.pending)
    rw [List.length_drop, List.length_take_of_le h.len, List.length_nil] at hlength
    have hle := h.pos
    omega
  refine ⟨hc, ht, hl ▸ h.nonempty, h.pos, hl ▸ h.len, ?_⟩
  change r.pending = (staging.take d.len).drop d.pos
  rw [hp, hend]
  exact (List.drop_of_length_le (List.length_take_le ..)).symm

theorem Mirrors.deposit (h : d.Mirrors r) (ho : Offered r room) (hl : input.length ≤ room.length) :
    ∃ d', d.deposit input = .ok d' ∧ d'.Mirrors (r.deposit input) := by
  rw [IndexedReader.deposit, FrameReader.deposit]
  by_cases hd : r.direct = true
  · obtain ⟨more, buffer, hp, rfl⟩ := ho.of_direct hd
    obtain ⟨-, target, got, -⟩ := h.serves.of_body hp
    rw [Buffer.length_peek] at hl
    obtain ⟨hfault, hpending⟩ := r.modifyBody_frame (·.deposit input)
    obtain ⟨hstaging, hthreshold, hdirect⟩ := r.modifyBody_rest (·.deposit input)
    rw [if_pos hd, if_pos (h.direct.trans hd),
      h.serves.inBounds.write (Cursor.left_of_body target got ▸ hl)]
    refine ⟨_, rfl, ⟨?_, h.staged.congr rfl rfl rfl hstaging hpending,
      h.bufferSize.trans hthreshold.symm, h.positive, h.direct.trans hdirect.symm,
      h.fault.trans hfault.symm⟩⟩
    apply h.serves.modifyBody hp
    · rw [Cursor.put, Cursor.withStorage, target]
    · rw [Cursor.put, Cursor.withStorage, target, Cursor.storage, target, got]
      simp only
      rw [Buffer.contents_deposit hl]
    · rw [Cursor.got_put, got, Buffer.bytes_deposit]
    · exact Buffer.size_deposit ..
  · have hd' : r.direct = false := eq_false_of_ne_true hd
    obtain ⟨rfl, hbytes⟩ := ho.of_staging hd'
    rw [Buffer.length_peek] at hl
    have hlength : d.staging.length = r.staging.room := by
      rw [h.staged.contents, r.staging.length_contents, Buffer.size, ← r.staging.length_bytes,
        hbytes, List.length_nil, Nat.zero_add]
    have hplace := place_of_le (Nat.zero_le _) (Nat.le_refl d.staging.length)
      (Nat.le_trans hl (Nat.le_of_eq hlength.symm))
    have hcontents := Buffer.contents_deposit hl
    rw [hbytes, List.length_nil, ← h.staged.contents] at hcontents
    rw [if_neg hd, if_neg (by rw [h.direct]; exact hd), hplace, ← hcontents]
    refine ⟨_, rfl, ⟨h.serves.congr rfl rfl rfl, ?_, h.bufferSize,
      h.positive, h.direct, h.fault⟩⟩
    apply h.staged.write ho.pending rfl (h.staged.tidy.deposit input)
    rw [Buffer.length_contents, Buffer.size_deposit, ← Buffer.length_contents, h.staged.contents]

theorem Mirrors.filled (h : d.Mirrors r) (ho : Offered r room) (hn : n ≤ room.length) :
    ∃ d', d.filled n = .ok d' ∧ d'.Mirrors (r.filled n) := by
  rw [IndexedReader.filled, FrameReader.filled]
  by_cases hd : r.direct = true
  · obtain ⟨more, buffer, hp, rfl⟩ := ho.of_direct hd
    obtain ⟨-, target, got, -⟩ := h.serves.of_body hp
    rw [Buffer.length_peek] at hn
    obtain ⟨hfault, hpending⟩ := r.modifyBody_frame (·.count n)
    obtain ⟨hstaging, hthreshold, hdirect⟩ := r.modifyBody_rest (·.count n)
    rw [if_pos hd, if_pos (h.direct.trans hd),
      h.serves.inBounds.advance (Cursor.left_of_body target got ▸ hn)]
    have hserves : Serves { d.machine with cursor := { d.machine.cursor with
        got := d.machine.cursor.got + n } } (r.modifyBody (·.count n)) := by
      apply h.serves.modifyBody hp
      · rfl
      · rw [Buffer.contents_count]
        exact target
      · rw [Buffer.bytes_count, List.length_append, Buffer.length_peek, Nat.min_eq_left hn, got]
      · exact Buffer.size_count ..
    exact ⟨_, rfl, ⟨hserves.congr rfl rfl rfl,
      h.staged.congr rfl rfl rfl hstaging hpending, h.bufferSize.trans hthreshold.symm, h.positive,
      rfl, h.fault.trans hfault.symm⟩⟩
  · rw [if_neg hd, if_neg (by rw [h.direct]; exact hd)]
    have hcontents : (r.staging.rewind.count n).contents = d.staging := by
      rw [Buffer.contents_count, Buffer.contents_rewind, h.staged.contents]
    have hpending : (r.staging.rewind.count n).bytes = d.staging.take (min n d.staging.length) := by
      rw [Buffer.bytes_count_rewind, h.staged.contents, Buffer.length_contents]
    refine ⟨_, rfl, ⟨h.serves.congr rfl rfl rfl, ?_, h.bufferSize,
      h.positive, h.direct, h.fault⟩⟩
    exact ⟨hcontents.symm, h.staged.tidy.rewind.count n, h.staged.nonempty, Nat.zero_le _,
      Nat.min_le_right .., hpending⟩

theorem Mirrors.prime (h : d.Mirrors r) (input : Bytes) :
    ∃ d', d.prime input = .ok d' ∧ d'.Mirrors (r.prime input) := by
  have hsize : r.staging.rewind.size = d.staging.length := by
    rw [Buffer.size_rewind, h.staged.contents, Buffer.length_contents]
  have hgrown : (r.staging.rewind.grow input.length).contents = (d.grow input.length).staging := by
    rw [h.staged.tidy.rewind.contents_grow, hsize, Buffer.contents_rewind, ← h.staged.contents,
      IndexedReader.grow]
  have hroom : input.length ≤ (r.staging.rewind.grow input.length).room := by
    change _ ≤ r.staging.size + (input.length - r.staging.rewind.size)
    rw [Buffer.size_rewind]
    omega
  have hlength : input.length ≤ (d.grow input.length).staging.length := by
    rw [IndexedReader.grow, List.length_append, List.length_replicate]
    omega
  have hcontents :
      (((r.staging.rewind.grow input.length).deposit input).count input.length).contents =
        input ++ (d.grow input.length).staging.drop input.length := by
    rw [Buffer.contents_count, Buffer.contents_deposit hroom, hgrown]
    change [] ++ input ++ (d.grow input.length).staging.drop (0 + input.length) = _
    rw [Nat.zero_add, List.nil_append]
  rw [IndexedReader.prime, place_of_le (Nat.zero_le _) hlength (Nat.le_refl _), Nat.zero_add]
  refine ⟨_, rfl, ⟨h.serves.congr rfl rfl rfl, ?_, h.bufferSize,
    h.positive, h.direct, h.fault⟩⟩
  have hstaging : (input ++ (d.grow input.length).staging.drop input.length).length =
      (d.grow input.length).staging.length := by
    rw [List.length_append, List.length_drop]
    omega
  refine ⟨hcontents.symm, ?_, ?_, Nat.zero_le _, ?_, ?_⟩
  · exact ((h.staged.tidy.rewind.grow _).deposit input).count _
  · change 0 < (input ++ (d.grow input.length).staging.drop input.length).length
    rw [hstaging, IndexedReader.grow, List.length_append]
    exact Nat.lt_of_lt_of_le h.staged.nonempty (Nat.le_add_right ..)
  · change input.length ≤ (input ++ (d.grow input.length).staging.drop input.length).length
    rw [List.length_append]
    exact Nat.le_add_right ..
  · exact List.take_left.symm

/-- What the machine makes of an input is what the reader makes of it. -/
theorem Serves.run (h : Serves m r) (hf : r.fault = none) (input : Bytes) :
    ∃ ran, m.run input 0 = .ok ran ∧
      ran.outcome = ((r.readFrom input).outcome.map fun part =>
        (input.length - (r.readFrom input).rest.length, part)) ∧
      Serves ran.machine (r.readFrom input).reader := by
  obtain ⟨ran, hran, hends⟩ := Machine.ends_run (h.tracks hf) input
  refine ⟨ran, hran, ?_⟩
  rw [FrameReader.readFrom_eq hf]
  cases hs : r.scanner.run input with
  | mk s outcome rest asked =>
    rw [hs] at hends
    cases hends with
    | refused phase target bounds store =>
      exact ⟨rfl, nofun, fun _ _ => ⟨⟨_, phase⟩, target, bounds⟩, by rw [store, h.store]; rfl⟩
    | @scanned m' _ part used _ within tracks store =>
      have hused : input.length - (input.drop used).length = used := by
        rw [List.length_drop]
        omega
      refine ⟨?_, fun _ => tracks, fun fault hfault => ?_, by rw [store, h.store]; rfl⟩
      · simp only [Except.map, hused]
      · cases hf.symm.trans hfault

theorem Mirrors.readFrom (h : d.Mirrors r) (input : Bytes) :
    ∃ d', d.readFrom input = .ok ((r.readFrom input).outcome.map fun part =>
        (input.length - (r.readFrom input).rest.length, part), d') ∧
      d'.Mirrors (r.readFrom input).reader := by
  rw [IndexedReader.readFrom, h.fault]
  cases hf : r.fault with
  | some fault =>
    rw [(refuses_of_fault hf).readFrom]
    exact ⟨d, rfl, h⟩
  | none =>
    obtain ⟨ran, hran, hout, hserves⟩ := h.serves.run hf input
    obtain ⟨hstaging, hthreshold, hdirect⟩ := readFrom_rest r input
    simp only [bind, Except.bind]
    rw [hran]
    simp only
    rw [hout]
    cases ho : (r.readFrom input).outcome with
    | error fault =>
      obtain ⟨hfault, hpending⟩ := (scans_readFrom hf input).poisoned fault ho
      refine ⟨_, rfl, ⟨hserves, ?_, h.bufferSize.trans hthreshold.symm, h.positive,
        h.direct.trans hdirect.symm, hfault.symm⟩⟩
      refine ⟨h.staged.contents.trans (congrArg _ hstaging.symm), hstaging ▸ h.staged.tidy,
        h.staged.nonempty, Nat.le_refl _, h.staged.len, ?_⟩
      rw [hpending]
      exact (List.drop_of_length_le (List.length_take_le ..)).symm
    | ok part =>
      obtain ⟨hfault, hpending, -⟩ := readFrom_of_ok ho
      exact ⟨_, rfl, ⟨hserves, h.staged.congr rfl rfl rfl hstaging hpending,
        h.bufferSize.trans hthreshold.symm, h.positive, h.direct.trans hdirect.symm,
        hfault.symm⟩⟩

theorem Staged.skip {d' : IndexedReader} {taken rest : Bytes}
    (h : d'.Staged r') (hp : r'.pending = taken ++ rest) :
    Staged { d' with pos := d'.pos + taken.length } { r' with pending := rest } := by
  have hlength := congrArg List.length (hp.symm.trans h.pending)
  rw [List.length_drop, List.length_take_of_le h.len, List.length_append] at hlength
  have hpos := h.pos
  refine ⟨h.contents, h.tidy, h.nonempty, ?_, h.len, ?_⟩
  · change d'.pos + taken.length ≤ d'.len
    omega
  · change rest = (d'.staging.take d'.len).drop (d'.pos + taken.length)
    rw [← List.drop_drop, ← h.pending, hp, List.drop_left]

theorem Mirrors.read (h : d.Mirrors r) :
    ∃ d', d.read = .ok (r.read.outcome, d') ∧ d'.Mirrors r.read.reader := by
  rw [IndexedReader.read, h.fault]
  cases hf : r.fault with
  | some fault =>
    rw [(refuses_of_fault hf).read]
    exact ⟨d, rfl, h⟩
  | none =>
    obtain ⟨d', hd', hm⟩ := h.readFrom r.pending
    simp only [bind, Except.bind]
    rw [slice_of_le h.staged.pos h.staged.len, ← h.staged.pending]
    simp only
    rw [hd']
    cases ho : (r.readFrom r.pending).outcome with
    | error fault =>
      rw [read_of_error ho, ho]
      exact ⟨d', rfl, hm⟩
    | ok part =>
      obtain ⟨hout, hreader⟩ := read_of_ok ho
      obtain ⟨-, hpending, hkept⟩ := readFrom_of_ok ho
      obtain ⟨used, hk⟩ := r.scanner.exists_kept
      obtain ⟨taken, hinput, -⟩ := hkept used hk
      have hused : r.pending.length - (r.readFrom r.pending).rest.length = taken.length := by
        have hlength := congrArg List.length hinput
        rw [List.length_append] at hlength
        omega
      rw [hout, hreader]
      simp only [Except.map, hused]
      exact ⟨_, rfl, ⟨hm.serves.congr rfl rfl rfl,
        hm.staged.skip (hpending.trans hinput), hm.bufferSize, hm.positive, hm.direct, hm.fault⟩⟩

/-- Between two calls all positions lie within what they count in. -/
structure InBounds (d : IndexedReader) : Prop where
  cursor : d.machine.cursor.InBounds
  pos : d.pos ≤ d.len
  len : d.len ≤ d.staging.length

theorem Mirrors.inBounds (h : d.Mirrors r) : d.InBounds :=
  ⟨h.serves.inBounds, h.staged.pos, h.staged.len⟩

theorem Mirrors.hasPending (h : d.Mirrors r) : d.hasPending = r.hasPending := by
  have hlength : r.pending.length = d.len - d.pos := by
    rw [h.staged.pending, List.length_drop, List.length_take_of_le h.staged.len]
  rw [IndexedReader.hasPending, FrameReader.hasPending]
  cases hp : r.pending with
  | nil =>
    rw [hp] at hlength
    exact decide_eq_false (Nat.not_lt.2 (Nat.sub_eq_zero_iff_le.1 hlength.symm))
  | cons b pending =>
    rw [hp] at hlength
    exact decide_eq_true (Nat.lt_of_sub_pos (hlength ▸ Nat.succ_pos _))

theorem kept_of_fault (hm : d.Mirrors r) {fault : WireFault} (hf : r.fault = some fault)
    (used : Bytes) : r.scanner.Kept used := by
  obtain ⟨reader, hp⟩ := (hm.serves.failed fault hf).1
  exact Scanner.kept_of_head hp used

end IndexedReader

end Zmtp
