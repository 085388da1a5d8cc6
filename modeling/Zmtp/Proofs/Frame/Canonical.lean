import Zmtp.Proofs.Frame.Chunking
import Zmtp.Proofs.Frame.Grammar
import Zmtp.Proofs.Frame.RoundTrip

namespace Zmtp

theorem Part.onWire_ofMore (data : Bytes) (more : Bool) :
    (Part.ofMore data more).onWire = .ofMore data more :=
  congrArg (Part.ofMore data) (Part.hasMore_ofMore data more)

theorem Bytes.bigEndian_toNat {bytes : Bytes} (hl : bytes.length = 8) :
    bigEndian 8 (toNat bytes) = bytes := by
  have hlt := Grammar.toNat_lt bytes
  rw [hl] at hlt
  exact eq_of_toNat_eq ((length_bigEndian ..).trans hl.symm) (toNat_bigEndian_eight hlt)

namespace Head

open HeadReader Scanner

variable {head : Head} {header : Bytes}

/-- The two ways in which a header of the newer revision may be spelled. The longer way is open to
all sizes. -/
inductive SpelledV2 (head : Head) : Bytes → Prop where
  | short (h : head.size ≤ 255) : SpelledV2 head [moreBit head.more, UInt8.ofNat head.size]
  | long : SpelledV2 head ((moreBit head.more ||| 0x02) :: Bytes.bigEndian 8 head.size)

/-- A header that is taken for what it says, though it need not be the shortest. -/
def Spelled (head : Head) : Revision → Bytes → Prop
  | .v1 => SpelledV1 head
  | .v2 => SpelledV2 head

/-- A header that spends no byte and no bit without need. The longer way of the older revision is for
lengths that do not fit into one byte, and of its flags one is used; the newer revision says that a
length takes eight bytes where it would not fit into one. -/
def Canonical (revision : Revision) (header : Bytes) : Prop :=
  match revision, header with
  | .v1, length :: behind =>
    (length = 0xff → 255 ≤ Bytes.toNat (behind.take 8)) ∧
      (behind.getLast? = some 0 ∨ behind.getLast? = some 1)
  | .v2, flags :: length => Grammar.bit flags 1 = true → 255 < Bytes.toNat length
  | _, [] => False

theorem eq_moreBit_iff {flags : UInt8} {more : Bool} (h : isMore flags = more) :
    flags = moreBit more ↔ flags = 0 ∨ flags = 1 := by
  constructor
  · rintro rfl
    cases more with
    | true => exact .inr rfl
    | false => exact .inl rfl
  · rintro (rfl | rfl)
    · rw [← h]
      rfl
    · rw [← h]
      rfl

theorem SpelledV1.length_encode (h : SpelledV1 head header) :
    (head.encode .v1).length ≤ header.length := by
  rw [encode, encodeV1]
  cases h with
  | short hlt hf =>
    rw [if_pos hlt]
    exact Nat.le_refl _
  | long hf =>
    split
    · exact Nat.le_add_left ..
    · exact Nat.le_refl _

theorem SpelledV2.length_encode (h : SpelledV2 head header) :
    (head.encode .v2).length ≤ header.length := by
  rw [encode, encodeV2]
  cases h with
  | short hle => exact Nat.le_of_eq (congrArg _ (if_pos hle))
  | long =>
    rw [List.length_cons, Bytes.length_bigEndian]
    split
    · exact Nat.le_add_left ..
    · exact Nat.le_of_eq (congrArg Nat.succ (Bytes.length_bigEndian ..))

theorem Spelled.length_encode {revision : Revision} (h : head.Spelled revision header) :
    (head.encode revision).length ≤ header.length :=
  match revision, h with
  | .v1, h => SpelledV1.length_encode h
  | .v2, h => SpelledV2.length_encode h

theorem SpelledV1.eq_encode_iff (h : SpelledV1 head header) (hc : Revision.v1.carries head.size) :
    header = head.encode .v1 ↔ Canonical .v1 header := by
  rw [encode, encodeV1]
  cases h with
  | @short flags hlt hf =>
    have hlast : [flags].getLast? = some flags := rfl
    rw [if_pos hlt, List.singleton_append, List.cons_inj_right, List.singleton_inj,
      eq_moreBit_iff hf, Canonical, hlast, Option.some_inj, Option.some_inj]
    exact (and_iff_right fun he => absurd he (shortLength_ne hlt)).symm
  | @long flags hf =>
    have hlength := Bytes.length_bigEndian 8 (head.size + 1)
    have htake : (Bytes.bigEndian 8 (head.size + 1) ++ [flags]).take 8 =
        Bytes.bigEndian 8 (head.size + 1) := List.take_left' hlength
    have hnat : Bytes.toNat (Bytes.bigEndian 8 (head.size + 1)) = head.size + 1 :=
      Bytes.toNat_bigEndian_eight (Nat.lt_trans hc (by decide))
    rw [List.cons_append, Canonical, htake, hnat, List.getLast?_concat, Option.some_inj,
      Option.some_inj, ← eq_moreBit_iff hf]
    split
    · next hlt =>
      refine iff_of_false (fun he => ?_) fun hcan => absurd (hcan.1 rfl) (Nat.not_le.2 hlt)
      have hlengths := congrArg List.length he
      rw [List.length_cons, List.length_append, hlength] at hlengths
      cases hlengths
    · next hge =>
      rw [List.cons_append, List.cons_inj_right, List.append_cancel_left_eq, List.singleton_inj]
      exact (and_iff_right fun _ => Nat.le_of_not_lt hge).symm

theorem SpelledV2.eq_encode_iff (h : SpelledV2 head header) (hc : Revision.v2.carries head.size) :
    header = head.encode .v2 ↔ Canonical .v2 header := by
  rw [encode, encodeV2]
  cases h with
  | short hle =>
    have hbit : Grammar.bit (moreBit head.more) 1 ≠ true := by
      cases head.more <;> decide
    rw [if_pos hle]
    exact iff_of_true rfl fun hb => absurd hb hbit
  | long =>
    have hbit : Grammar.bit (moreBit head.more ||| 0x02) 1 = true := by
      cases head.more <;> decide
    have hnat : Bytes.toNat (Bytes.bigEndian 8 head.size) = head.size :=
      Bytes.toNat_bigEndian_eight (Nat.lt_trans hc (by decide))
    rw [Canonical, hnat]
    split
    · next hle =>
      refine iff_of_false (fun he => ?_) fun hcan => absurd (hcan hbit) (Nat.not_lt.2 hle)
      have hlengths := congrArg List.length he
      rw [List.length_cons, Bytes.length_bigEndian] at hlengths
      cases hlengths
    · next hlt => exact iff_of_true rfl fun _ => Nat.lt_of_not_le hlt

theorem Spelled.eq_encode_iff {revision : Revision} (h : head.Spelled revision header)
    (hc : revision.carries head.size) : header = head.encode revision ↔ Canonical revision header :=
  match revision, h with
  | .v1, h => SpelledV1.eq_encode_iff h hc
  | .v2, h => SpelledV2.eq_encode_iff h hc

end Head

namespace Grammar

open HeadReader Scanner

variable {input behind rest : Bytes} {limit : Nat} {h : Head}

theorem eq_of_byte {b : UInt8} (hb : byte input = .read b rest) : input = b :: rest := by
  cases input with
  | nil => cases hb
  | cons x input =>
    cases hb
    rfl

theorem eq_of_eightBytes {bytes : Bytes} (hb : eightBytes input = .read bytes rest) :
    input = bytes ++ rest ∧ bytes.length = 8 := by
  rw [eightBytes] at hb
  split at hb
  · cases hb
  · next hl =>
    cases hb
    exact ⟨(List.take_append_drop ..).symm, List.length_take_of_le (Nat.le_of_not_lt hl)⟩

theorem eq_of_lengthV1 {length : Nat} (hl : lengthV1 input = .read length behind) :
    0 < length ∧ length < negativeLength ∧
      ((length < 0xff ∧ input = UInt8.ofNat length :: behind) ∨
        input = 0xff :: Bytes.bigEndian 8 length ++ behind) := by
  obtain ⟨b, rest, hbyte, hlength⟩ := Field.bind_eq_read hl
  obtain rfl := eq_of_byte hbyte
  split at hlength
  · next hmark =>
    obtain ⟨bytes, rest', hbytes, hread⟩ := Field.bind_eq_read hlength
    obtain ⟨rfl, hw⟩ := eq_of_eightBytes hbytes
    split at hread
    · cases hread
    · next hpos =>
      cases hread
      have hlt : Bytes.toNat bytes < negativeLength :=
        Nat.lt_of_not_le fun hle => hpos (Int.le_of_lt (signed_of_le hw hle))
      have hsigned := signed_of_lt hw hlt
      rw [hsigned, Int.toNat_natCast]
      refine ⟨by omega, hlt, .inr ?_⟩
      rw [hmark, Bytes.bigEndian_toNat hw]
      rfl
  · next hmark =>
    split at hlength
    · cases hlength
    · next hzero =>
      cases hlength
      have hne : b.toNat ≠ 0 := fun h0 => hzero (UInt8.toNat_inj.1 h0)
      have hne' : b.toNat ≠ 0xff := fun h255 => hmark (UInt8.toNat_inj.1 h255)
      have hlt := b.toNat_lt
      have hn : negativeLength = 2 ^ 63 := rfl
      refine ⟨by omega, by omega, .inl ⟨by omega, ?_⟩⟩
      rw [UInt8.ofNat_toNat]

theorem spelled_of_headV1 (hh : headV1 limit input = .read h rest) :
    ∃ header, input = header ++ rest ∧ SpelledV1 h header ∧ Revision.v1.carries h.size := by
  obtain ⟨length, behind, hlength, hflags⟩ := Field.bind_eq_read hh
  obtain ⟨hpos, hlt, hinput⟩ := eq_of_lengthV1 hlength
  rw [flagsV1] at hflags
  split at hflags
  · cases hflags
  · obtain ⟨flags, rest', hbyte, hread⟩ := Field.bind_eq_read hflags
    obtain rfl := eq_of_byte hbyte
    cases hread
    have hsucc : length - 1 + 1 = length := Nat.sub_add_cancel hpos
    have hcarries : Revision.v1.carries (length - 1) := by
      rw [Revision.carries, hsucc]
      exact hlt
    obtain ⟨hshort, rfl⟩ | rfl := hinput
    · refine ⟨[UInt8.ofNat length, flags], rfl, ?_, hcarries⟩
      have hlt : length - 1 + 1 < 0xff := hsucc ▸ hshort
      have hspelled : SpelledV1 ⟨bit flags 0, length - 1⟩
          [UInt8.ofNat (length - 1 + 1), flags] := .short hlt (bit_zero flags).symm
      rw [hsucc] at hspelled
      exact hspelled
    · refine ⟨0xff :: Bytes.bigEndian 8 length ++ [flags], (List.append_cons ..), ?_, hcarries⟩
      have hspelled : SpelledV1 ⟨bit flags 0, length - 1⟩
          (0xff :: Bytes.bigEndian 8 (length - 1 + 1) ++ [flags]) := .long (bit_zero flags).symm
      rw [hsucc] at hspelled
      exact hspelled

theorem eq_moreBit {flags : UInt8} (hr : ¬[2, 3, 4, 5, 6, 7].any (bit flags) = true) :
    flags = Head.moreBit (bit flags 0) ||| if bit flags 1 then 0x02 else 0 := by
  obtain ⟨⟨n⟩⟩ := flags
  revert n
  decide +kernel

theorem spelled_of_headV2 (hh : headV2 limit input = .read h rest) :
    ∃ header, input = header ++ rest ∧ Head.SpelledV2 h header ∧ Revision.v2.carries h.size := by
  obtain ⟨flags, behind, hbyte, hlength⟩ := Field.bind_eq_read hh
  obtain rfl := eq_of_byte hbyte
  split at hlength
  · cases hlength
  · next hr =>
    have hflags := eq_moreBit hr
    obtain ⟨size, rest', hsize, hread⟩ := Field.bind_eq_read hlength
    rw [sizedV2] at hread
    split at hread
    · cases hread
    · split at hread
      · cases hread
      · next hmax =>
        cases hread
        have hcarries : Revision.v2.carries size := Nat.lt_succ_of_le (Nat.le_of_not_lt hmax)
        rw [lengthV2] at hsize
        split at hsize
        · next hlong =>
          obtain ⟨bytes, rest'', hbytes, hread⟩ := Field.bind_eq_read hsize
          obtain ⟨rfl, hw⟩ := eq_of_eightBytes hbytes
          cases hread
          rw [if_pos hlong] at hflags
          refine ⟨flags :: bytes, rfl, ?_, hcarries⟩
          have hspelled : Head.SpelledV2 ⟨bit flags 0, Bytes.toNat bytes⟩
              ((Head.moreBit (bit flags 0) ||| 0x02) :: Bytes.bigEndian 8 (Bytes.toNat bytes)) :=
            .long
          rw [Bytes.bigEndian_toNat hw, ← hflags] at hspelled
          exact hspelled
        · next hlong =>
          obtain ⟨b, rest'', hb, hread⟩ := Field.bind_eq_read hsize
          obtain rfl := eq_of_byte hb
          cases hread
          rw [if_neg hlong, UInt8.or_zero] at hflags
          refine ⟨[flags, b], rfl, ?_, hcarries⟩
          have hspelled : Head.SpelledV2 ⟨bit flags 0, b.toNat⟩
              [Head.moreBit (bit flags 0), UInt8.ofNat b.toNat] :=
            .short (Nat.le_of_lt_succ b.toNat_lt)
          rw [UInt8.ofNat_toNat, ← hflags] at hspelled
          exact hspelled

theorem spelled_of_head {revision : Revision} (hh : head revision limit input = .read h rest) :
    ∃ header, input = header ++ rest ∧ h.Spelled revision header ∧ revision.carries h.size :=
  match revision, hh with
  | .v1, hh => spelled_of_headV1 hh
  | .v2, hh => spelled_of_headV2 hh

/-- A frame as it was found on the wire. -/
structure Frame where
  header : Bytes
  /-- What the header says of the frames behind. -/
  more : Bool
  body : Bytes
  deriving DecidableEq

namespace Frame

def head (f : Frame) : Head := ⟨f.more, f.body.length⟩

def part (f : Frame) : Part := .ofMore f.body f.more

def bytes (f : Frame) : Bytes := f.header ++ f.body

/-- The header is a spelling of what it says. -/
structure Sound (f : Frame) (revision : Revision) (limit : Nat) : Prop where
  spelled : f.head.Spelled revision f.header
  carries : revision.carries f.body.length
  within : f.body.length ≤ limit

theorem frame_part (f : Frame) (revision : Revision) :
    f.part.frame revision = f.head.encode revision ++ f.body := by
  rw [Part.frame, Head.ofPart, part, Part.hasMore_ofMore]
  rfl

variable {f : Frame} {revision : Revision} {limit : Nat}

theorem Sound.length_frame (h : f.Sound revision limit) :
    (f.part.frame revision).length ≤ f.bytes.length := by
  rw [frame_part, bytes, List.length_append, List.length_append]
  exact Nat.add_le_add_right h.spelled.length_encode _

theorem Sound.frame_eq_iff (h : f.Sound revision limit) :
    f.part.frame revision = f.bytes ↔ Head.Canonical revision f.header := by
  rw [frame_part, bytes, List.append_cancel_right_eq, eq_comm]
  exact h.spelled.eq_encode_iff h.carries

end Frame

/-- The frames that are complete, up to the first field that is refused. -/
def frames (revision : Revision) (limit : Nat) (input : Bytes) : List Frame :=
  match _h : head revision limit input with
  | .short => []
  | .refused _ => []
  | .read head rest =>
    if rest.length < head.size then []
    else
      ⟨input.take (input.length - rest.length), head.more, rest.take head.size⟩ ::
        frames revision limit (rest.drop head.size)
termination_by input.length
decreasing_by
  have hlt := length_of_head _h
  rw [List.length_drop]
  omega

theorem frames_of_short {revision : Revision} (hh : head revision limit input = .short) :
    frames revision limit input = [] := by
  rw [frames, hh]

theorem frames_of_read {revision : Revision} {header : Bytes}
    (hh : head revision limit (header ++ rest) = .read h rest) (hl : h.size ≤ rest.length) :
    frames revision limit (header ++ rest) =
      ⟨header, h.more, rest.take h.size⟩ :: frames revision limit (rest.drop h.size) := by
  have hheader : (header ++ rest).take ((header ++ rest).length - rest.length) = header := by
    rw [List.length_append, Nat.add_sub_cancel, List.take_left]
  rw [frames, hh]
  simp only
  rw [if_neg (Nat.not_lt.2 hl), hheader]

end Grammar

namespace Scanner

open HeadReader Grammar

variable {s : Scanner} {input : Bytes}

theorem ne_start_of_bind {size : Except WireFault Nat} {f : Nat → Step} {next : HeadReader}
    {revision : Revision} (hf : ∀ n, f n ≠ .pending (.start revision))
    (h : (size >>= fun n => pure (f n)) = Except.ok (Step.pending next)) :
    next ≠ .start revision := by
  cases size with
  | error fault => cases h
  | ok n =>
    have hn : f n = .pending next := Except.ok.inj h
    rintro rfl
    exact hf n hn

theorem push_ne_start {limit : Nat} {reader next : HeadReader} {b : UInt8} (revision : Revision)
    (h : reader.push limit b = .ok (.pending next)) : next ≠ .start revision := by
  cases reader with
  | v1Size =>
    rw [push] at h
    split at h
    · cases h
      cases revision <;> rintro ⟨⟩
    · split at h
      · cases h
      · exact ne_start_of_bind (fun n => by cases revision <;> rintro ⟨⟩) h
  | v1LongSize seen =>
    rw [push] at h
    split at h
    · cases h
      cases revision <;> rintro ⟨⟩
    · exact ne_start_of_bind (fun n => by cases revision <;> rintro ⟨⟩) h
  | v1Flags size => cases h
  | v2Flags =>
    rw [push] at h
    split at h
    · cases h
    · split at h
      · cases h
        cases revision <;> rintro ⟨⟩
      · cases h
        cases revision <;> rintro ⟨⟩
  | v2Size more => exact ne_start_of_bind (f := fun n => .done ⟨more, n⟩) (by rintro n ⟨⟩) h
  | v2LongSize more seen =>
    rw [push] at h
    split at h
    · cases h
      cases revision <;> rintro ⟨⟩
    · exact ne_start_of_bind (f := fun n => .done ⟨more, n⟩) (by rintro n ⟨⟩) h

theorem eq_nil_of_runHead {reader : HeadReader} {revision : Revision}
    (hn : (s.runHead reader input).outcome = .ok none)
    (hp : (s.runHead reader input).scanner.phase = .head (.start revision)) :
    input = [] ∧ reader = .start revision := by
  induction input generalizing reader with
  | nil => exact ⟨rfl, by cases hp; rfl⟩
  | cons b input ih =>
    rw [runHead] at hn hp
    cases hpush : reader.push s.limit b with
    | error fault =>
      rw [hpush] at hn
      cases hn
    | ok step =>
      rw [hpush] at hn hp
      cases step with
      | pending next => exact absurd (ih hn hp).2 (push_ne_start revision hpush)
      | done head =>
        simp only [runBody] at hn hp
        split at hn
        · cases hn
        · next hroom =>
          rw [if_neg hroom] at hp
          cases hp

theorem run_of_head (hs : s.phase = .head (.start s.revision)) (input : Bytes) :
    s.run input = s.runHead (.start s.revision) input := by
  rw [run, hs]

theorem run_of_read {head : Head} {rest : Bytes} (hs : s.phase = .head (.start s.revision))
    (hh : Grammar.head s.revision s.limit input = .read head rest)
    (hl : head.size ≤ rest.length) :
    s.run input = ⟨s, .ok (some (.ofMore (rest.take head.size) head.more)),
      rest.drop head.size, [head.size]⟩ := by
  have hself : { s with phase := .head (.start s.revision) } = s := by rw [← hs]
  have hroom : (Buffer.new head.size).room ≤ rest.length := hl
  have hbytes : ((Buffer.new head.size).fill rest).bytes = rest.take head.size := by
    rw [Buffer.bytes_fill]
    rfl
  have hm := meets_head s input
  rw [hh] at hm
  rw [run_of_head hs]
  refine hm.trans ?_
  rw [runBody_of_room hroom, hself, hbytes]
  rfl

theorem outcome_of_short (hs : s.phase = .head (.start s.revision))
    (hh : Grammar.head s.revision s.limit input = .short) : (s.run input).outcome = .ok none := by
  have hm := meets_head s input
  rw [hh, ← run_of_head hs] at hm
  exact hm.1

theorem outcome_of_refused {fault : WireFault} (hs : s.phase = .head (.start s.revision))
    (hh : Grammar.head s.revision s.limit input = .refused fault) :
    (s.run input).outcome = .error fault := by
  have hm := meets_head s input
  rw [hh, ← run_of_head hs] at hm
  exact hm.1

theorem drain_of_short (hs : s.phase = .head (.start s.revision))
    (hh : Grammar.head s.revision s.limit input = .short)
    (hc : (s.drain input).state.phase = .head (.start s.revision)) :
    input = [] ∧ (s.drain input).parts = [] := by
  have hnone := outcome_of_short hs hh
  cases hr : s.run input with
  | mk s' outcome rest asked =>
    obtain rfl : outcome = .ok none := by rw [← hnone, hr]
    rw [drain_of_none hr] at hc ⊢
    have hphase : (s.run input).scanner.phase = .head (.start s.revision) := by rw [hr, ← hc]
    rw [run_of_head hs] at hnone hphase
    exact ⟨(eq_nil_of_runHead hnone hphase).1, rfl⟩

theorem le_of_drain {head : Head} {rest : Bytes} (hs : s.phase = .head (.start s.revision))
    (hh : Grammar.head s.revision s.limit input = .read head rest)
    (hc : (s.drain input).state.phase = .head (.start s.revision)) : head.size ≤ rest.length := by
  by_contra hlt
  have hm := meets_head s input
  rw [hh, ← run_of_head hs] at hm
  have hbody := hm.trans (by rw [runBody_of_lt (Nat.lt_of_not_le hlt)])
  rw [drain_of_none hbody] at hc
  cases hc

/-- A scanner that is between frames before and after an input was given whole frames. -/
theorem frames_of_drain (hs : s.phase = .head (.start s.revision))
    (hf : (s.drain input).fault = none)
    (hc : (s.drain input).state.phase = .head (.start s.revision)) :
    (frames s.revision s.limit input).flatMap Frame.bytes = input ∧
      (s.drain input).parts = (frames s.revision s.limit input).map Frame.part ∧
        ∀ f ∈ frames s.revision s.limit input, f.Sound s.revision s.limit := by
  induction hn : input.length using Nat.strongRecOn generalizing input with
  | ind n ih =>
    cases hh : head s.revision s.limit input with
    | short =>
      obtain ⟨rfl, hparts⟩ := drain_of_short hs hh hc
      rw [frames_of_short hh]
      exact ⟨rfl, hparts, List.forall_mem_nil _⟩
    | refused fault =>
      have herror := outcome_of_refused hs hh
      cases hr : s.run input with
      | mk s' outcome rest asked =>
        obtain rfl : outcome = .error fault := by rw [← herror, hr]
        rw [drain_of_error hr] at hf
        cases hf
    | read head rest =>
      have hle := le_of_drain hs hh hc
      have hlt := length_of_head hh
      rw [drain_of_some (run_of_read hs hh hle)] at hf hc ⊢
      obtain ⟨hflat, hparts, hsound⟩ := ih (rest.drop head.size).length
        (by rw [List.length_drop]; omega) hf hc rfl
      obtain ⟨header, rfl, hspelled, hcarries⟩ := spelled_of_head hh
      have hsize : (rest.take head.size).length = head.size := List.length_take_of_le hle
      have hframe : Frame.Sound ⟨header, head.more, rest.take head.size⟩ s.revision s.limit := by
        refine ⟨?_, hsize.symm ▸ hcarries, hsize.symm ▸ size_of_head hh⟩
        rw [Frame.head, hsize]
        exact hspelled
      rw [frames_of_read hh hle]
      refine ⟨?_, ?_, List.forall_mem_cons.2 ⟨hframe, hsound⟩⟩
      · rw [List.flatMap_cons, hflat, Frame.bytes, List.append_assoc, List.take_append_drop]
      · simp only
        rw [hparts]
        rfl

end Scanner

namespace Grammar

variable {revision : Revision} {limit : Nat}

/-- The frames that are written for the parts of others. -/
def rewritten (revision : Revision) (fs : List Frame) : Bytes :=
  (fs.map Frame.part).flatMap (·.frame revision)

theorem rewritten_cons (f : Frame) (fs : List Frame) :
    rewritten revision (f :: fs) = f.part.frame revision ++ rewritten revision fs :=
  List.flatMap_cons

theorem length_rewritten {fs : List Frame} (h : ∀ f ∈ fs, f.Sound revision limit) :
    (rewritten revision fs).length ≤ (fs.flatMap Frame.bytes).length := by
  induction fs with
  | nil => exact Nat.le_refl _
  | cons f fs ih =>
    obtain ⟨hf, hfs⟩ := List.forall_mem_cons.1 h
    rw [rewritten_cons, List.flatMap_cons, List.length_append, List.length_append]
    exact Nat.add_le_add hf.length_frame (ih hfs)

/-- No frame becomes longer, so that the bytes are the same only if they are so frame by frame. -/
theorem rewritten_eq_iff {fs : List Frame} (h : ∀ f ∈ fs, f.Sound revision limit) :
    rewritten revision fs = fs.flatMap Frame.bytes ↔
      ∀ f ∈ fs, Head.Canonical revision f.header := by
  induction fs with
  | nil => exact iff_of_true rfl (List.forall_mem_nil _)
  | cons f fs ih =>
    obtain ⟨hf, hfs⟩ := List.forall_mem_cons.1 h
    have hfirst := hf.length_frame
    have hbehind := length_rewritten hfs
    rw [rewritten_cons, List.flatMap_cons, List.forall_mem_cons, ← hf.frame_eq_iff, ← ih hfs]
    constructor
    · intro he
      have hlengths := congrArg List.length he
      rw [List.length_append, List.length_append] at hlengths
      exact List.append_inj he (by omega)
    · rintro ⟨he, hes⟩
      rw [he, hes]

end Grammar

namespace FrameReader

open Grammar

variable {revision : Revision} {limit bufferSize : Nat} {store : BodyStore} {input : Bytes}

/-- What a new reader makes of an input. -/
def decode (revision : Revision) (bufferSize limit : Nat) (store : BodyStore) (input : Bytes) :
    Drain FrameReader :=
  ((new revision bufferSize limit).setStore store).readEach input

/-- A new reader is left without a fault and between frames. -/
structure Whole (revision : Revision) (bufferSize limit : Nat) (store : BodyStore) (input : Bytes) :
    Prop where
  fault : (decode revision bufferSize limit store input).fault = none
  scanner : (decode revision bufferSize limit store input).state.scanner = .new revision limit

theorem Whole.frames (h : Whole revision bufferSize limit store input) :
    (frames revision limit input).flatMap Frame.bytes = input ∧
      (decode revision bufferSize limit store input).parts =
        (Grammar.frames revision limit input).map Frame.part ∧
          ∀ f ∈ Grammar.frames revision limit input, f.Sound revision limit := by
  have hstate := scanner_readEach (r := (new revision bufferSize limit).setStore store) rfl input
  obtain ⟨hparts, hfault, -⟩ :=
    readEach_drain (r := (new revision bufferSize limit).setStore store) rfl input
  have hframes := Scanner.frames_of_drain (s := .new revision limit) rfl (hfault.symm.trans h.fault)
    (congrArg Scanner.phase (hstate.symm.trans h.scanner))
  exact ⟨hframes.1, hparts.trans hframes.2.1, hframes.2.2⟩

theorem decode_rewritten (bufferSize : Nat) (store : BodyStore) {fs : List Frame}
    (h : ∀ f ∈ fs, f.Sound revision limit) :
    Whole revision bufferSize limit store (rewritten revision fs) ∧
      (decode revision bufferSize limit store (rewritten revision fs)).parts =
        fs.map Frame.part := by
  have hfits : ∀ p ∈ fs.map Frame.part, p.size ≤ limit ∧ revision.carries p.size := by
    intro p hp
    obtain ⟨f, hf, rfl⟩ := List.mem_map.1 hp
    exact ⟨(h f hf).within, (h f hf).carries⟩
  have hread : decode revision bufferSize limit store (rewritten revision fs) = _ :=
    readEach_frames (r := (new revision bufferSize limit).setStore store) rfl rfl _ hfits
  have hparts : (fs.map Frame.part).map Part.onWire = fs.map Frame.part := by
    rw [List.map_map]
    exact List.map_congr_left fun f _ => Part.onWire_ofMore f.body f.more
  refine ⟨⟨?_, ?_⟩, ?_⟩
  · rw [hread]
  · rw [hread]
    rfl
  · rw [hread]
    exact hparts

/-- A stream that is read to its end and written again is no longer than it was, is read as the same
parts, and is the same stream if and only if each of its frames is canonical. To write it once more
makes no difference, and of the canonical streams no two are read as the same parts. -/
theorem pourAll_decode (h : Whole revision bufferSize limit store input)
    {ms : List (Part × Pacing)}
    (hms : ms.map Prod.fst = (decode revision bufferSize limit store input).parts) :
    let written := ((FrameWriter.new revision).pourAll ms).1.flatten
    written.length ≤ input.length ∧
    (Whole revision bufferSize limit store written ∧
      (decode revision bufferSize limit store written).parts =
        (decode revision bufferSize limit store input).parts) ∧
    ((frames revision limit input).flatMap Frame.bytes = input ∧
      (frames revision limit input).map Frame.part =
        (decode revision bufferSize limit store input).parts) ∧
    (written = input ↔ ∀ f ∈ frames revision limit input, Head.Canonical revision f.header) ∧
    (∀ ms' : List (Part × Pacing),
      ms'.map Prod.fst = (decode revision bufferSize limit store written).parts →
      ((FrameWriter.new revision).pourAll ms').1.flatten = written) ∧
    (∀ (bufferSize' limit' : Nat) (store' : BodyStore) (input' : Bytes),
      Whole revision bufferSize' limit' store' input' →
      (∀ f ∈ frames revision limit input, Head.Canonical revision f.header) →
      (∀ f ∈ frames revision limit' input', Head.Canonical revision f.header) →
      (decode revision bufferSize' limit' store' input').parts =
        (decode revision bufferSize limit store input).parts →
      input' = input) := by
  intro written
  obtain ⟨hinput, hparts, hsound⟩ := h.frames
  have hwritten : written = rewritten revision (frames revision limit input) := by
    have hflat := (FrameWriter.flatten_pourAll (.new revision) ms).1
    rw [hms, hparts] at hflat
    exact hflat
  obtain ⟨hwhole, hagain⟩ := decode_rewritten bufferSize store hsound
  have hle := length_rewritten hsound
  have hiff := rewritten_eq_iff hsound
  rw [← hwritten] at hwhole hagain hle hiff
  rw [hinput] at hle hiff
  refine ⟨hle, ⟨hwhole, hagain.trans hparts.symm⟩, ⟨hinput, hparts.symm⟩, hiff, ?_, ?_⟩
  · intro ms' hms'
    have hflat := (FrameWriter.flatten_pourAll (.new revision) ms').1
    rw [hms', hagain] at hflat
    exact hflat.trans hwritten.symm
  · intro bufferSize' limit' store' input' h' hcan hcan' hsame
    obtain ⟨hinput', hparts', hsound'⟩ := h'.frames
    rw [hparts, hparts'] at hsame
    calc input' = rewritten revision (frames revision limit' input') := by
          rw [(rewritten_eq_iff hsound').2 hcan', hinput']
      _ = rewritten revision (frames revision limit input) := by rw [rewritten, rewritten, hsame]
      _ = input := by rw [(rewritten_eq_iff hsound).2 hcan, hinput]

/-- A length that is told in nine bytes without need, flags of which some have no meaning, and a
frame that is canonical. -/
def wordy : Bytes := [0xff, 0, 0, 0, 0, 0, 0, 0, 3, 0x81, 7, 8, 1, 0]

theorem pourAll_decode_wordy :
    let part (data : Bytes) (more : Bool) : Part × Pacing :=
      (.ofMore data more, ⟨fun _ => 3, fun _ => by decide⟩)
    let written := ((FrameWriter.new .v1).pourAll [part [7, 8] true, part [] false]).1.flatten
    Whole .v1 0 4 (.new .heap) wordy ∧ written.length ≤ wordy.length ∧ written ≠ wordy ∧
      (decode .v1 0 4 (.new .heap) written).parts = [.ofMore [7, 8] true, .ofMore [] false] := by
  intro part written
  have hwhole : Whole .v1 0 4 (.new .heap) wordy := by constructor <;> decide +kernel
  have hparts : (decode .v1 0 4 (.new .heap) wordy).parts =
      [.ofMore [7, 8] true, .ofMore [] false] := by decide +kernel
  have hms : [part [7, 8] true, part [] false].map Prod.fst =
      (decode .v1 0 4 (.new .heap) wordy).parts := hparts.symm
  obtain ⟨hle, hagain, -, hiff, -, -⟩ := pourAll_decode hwhole hms
  refine ⟨hwhole, hle, fun he => ?_, hagain.2.trans hparts⟩
  have hframes : frames .v1 4 wordy = [⟨[0xff, 0, 0, 0, 0, 0, 0, 0, 3, 0x81], true, [7, 8]⟩,
      ⟨[1, 0], false, []⟩] := by decide +kernel
  have hcanonical := hiff.1 he ⟨[0xff, 0, 0, 0, 0, 0, 0, 0, 3, 0x81], true, [7, 8]⟩
    (by rw [hframes]; exact List.mem_cons_self)
  exact absurd (hcanonical.1 rfl) (by decide)

end FrameReader

end Zmtp
