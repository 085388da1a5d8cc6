import Mathlib.Algebra.Group.Nat.Defs
import Mathlib.Data.List.Induction
import Zmtp.Proofs.Frame.Encoding
import Zmtp.Proofs.Frame.Pieces

namespace Zmtp

/-- What the front of an input is as a field: the input may end before the field does, the field may
be refused, and otherwise its value and the input behind it are known. -/
inductive Field (α : Type) where
  | short
  | refused (fault : WireFault)
  | read (value : α) (rest : Bytes)

namespace Field

def bind {α β : Type} (field : Field α) (next : α → Bytes → Field β) : Field β :=
  match field with
  | short => short
  | refused fault => refused fault
  | read value rest => next value rest

theorem bind_eq_read {α β : Type} {field : Field α} {next : α → Bytes → Field β} {value : β}
    {rest : Bytes} (h : field.bind next = read value rest) :
    ∃ a behind, field = read a behind ∧ next a behind = read value rest := by
  cases field with
  | short => cases h
  | refused fault => cases h
  | read a behind => exact ⟨a, behind, rfl, h⟩

end Field

namespace Grammar

/-! The frames of both revisions as their layout is written down, read from left to right. -/

def bit (flags : UInt8) (i : Nat) : Bool := flags.toNat.testBit i

/-- The largest size that a signed number of eight bytes can tell. -/
def maxSize : Nat := 2 ^ 63 - 1

/-- The number that eight bytes spell in two's complement, most significant byte first. -/
def signed (bytes : Bytes) : Int := (BitVec.ofNat 64 (Bytes.toNat bytes)).toInt

def byte : Bytes → Field UInt8
  | [] => .short
  | b :: rest => .read b rest

def eightBytes (input : Bytes) : Field Bytes :=
  if input.length < 8 then .short else .read (input.take 8) (input.drop 8)

/-- A length in one byte from 1 to 254, or behind `0xff` in eight bytes as a signed number that must
be positive. -/
def lengthV1 (input : Bytes) : Field Nat :=
  (byte input).bind fun b rest =>
    if b = 0xff then
      (eightBytes rest).bind fun bytes rest =>
        if signed bytes ≤ 0 then .refused .nonPositiveLength
        else .read (signed bytes).toNat rest
    else if b = 0 then .refused .zeroLength
    else .read b.toNat rest

/-- The flags, of which one bit has a meaning, behind a length that counts them. -/
def flagsV1 (limit length : Nat) (input : Bytes) : Field Head :=
  if limit < length - 1 then .refused (.tooLarge (length - 1) limit)
  else (byte input).bind fun flags rest => .read ⟨bit flags 0, length - 1⟩ rest

def headV1 (limit : Nat) (input : Bytes) : Field Head := (lengthV1 input).bind (flagsV1 limit)

/-- A length in eight bytes or in one, as the flags say. -/
def lengthV2 (long : Bool) (input : Bytes) : Field Nat :=
  if long then (eightBytes input).bind fun bytes rest => .read (Bytes.toNat bytes) rest
  else (byte input).bind fun b rest => .read b.toNat rest

/-- A header that is complete, unless its size is too large. -/
def sizedV2 (limit : Nat) (more : Bool) (size : Nat) (rest : Bytes) : Field Head :=
  if limit < size then .refused (.tooLarge size limit)
  else if maxSize < size then .refused (.tooLarge size maxSize)
  else .read ⟨more, size⟩ rest

/-- The flags, all of whose upper six bits must be zero, and then the length. -/
def headV2 (limit : Nat) (input : Bytes) : Field Head :=
  (byte input).bind fun flags rest =>
    if [2, 3, 4, 5, 6, 7].any (bit flags) then .refused (.reservedBits flags)
    else (lengthV2 (bit flags 1) rest).bind (sizedV2 limit (bit flags 0))

def head (revision : Revision) (limit : Nat) (input : Bytes) : Field Head :=
  match revision with
  | .v1 => headV1 limit input
  | .v2 => headV2 limit input

theorem length_of_byte {input rest : Bytes} {b : UInt8} (h : byte input = .read b rest) :
    rest.length < input.length := by
  cases input with
  | nil => cases h
  | cons x input =>
    cases h
    exact Nat.lt_succ_self _

theorem length_of_eightBytes {input bytes rest : Bytes} (h : eightBytes input = .read bytes rest) :
    rest.length ≤ input.length := by
  rw [eightBytes] at h
  split at h
  · cases h
  · cases h
    rw [List.length_drop]
    exact Nat.sub_le ..

theorem length_of_lengthV1 {input rest : Bytes} {length : Nat}
    (h : lengthV1 input = .read length rest) : rest.length < input.length := by
  obtain ⟨b, behind, hbyte, hlength⟩ := Field.bind_eq_read h
  have hlt := length_of_byte hbyte
  split at hlength
  · obtain ⟨bytes, _, hbytes, hread⟩ := Field.bind_eq_read hlength
    have hle := length_of_eightBytes hbytes
    split at hread
    · cases hread
    · cases hread
      exact Nat.lt_of_le_of_lt hle hlt
  · split at hlength
    · cases hlength
    · cases hlength
      exact hlt

theorem length_of_lengthV2 {long : Bool} {input rest : Bytes} {size : Nat}
    (h : lengthV2 long input = .read size rest) : rest.length ≤ input.length := by
  rw [lengthV2] at h
  split at h
  · obtain ⟨bytes, _, hbytes, hread⟩ := Field.bind_eq_read h
    cases hread
    exact length_of_eightBytes hbytes
  · obtain ⟨b, _, hbyte, hread⟩ := Field.bind_eq_read h
    cases hread
    exact Nat.le_of_lt (length_of_byte hbyte)

theorem length_of_head {revision : Revision} {limit : Nat} {input rest : Bytes} {h : Head}
    (hh : head revision limit input = .read h rest) : rest.length < input.length := by
  cases revision with
  | v1 =>
    obtain ⟨length, behind, hlength, hflags⟩ := Field.bind_eq_read hh
    have hlt := length_of_lengthV1 hlength
    rw [flagsV1] at hflags
    split at hflags
    · cases hflags
    · obtain ⟨flags, _, hbyte, hread⟩ := Field.bind_eq_read hflags
      cases hread
      exact Nat.lt_trans (length_of_byte hbyte) hlt
  | v2 =>
    obtain ⟨flags, behind, hbyte, hlength⟩ := Field.bind_eq_read hh
    have hlt := length_of_byte hbyte
    split at hlength
    · cases hlength
    · obtain ⟨size, _, hsize, hread⟩ := Field.bind_eq_read hlength
      have hle := length_of_lengthV2 hsize
      rw [sizedV2] at hread
      split at hread
      · cases hread
      · split at hread
        · cases hread
        · cases hread
          exact Nat.lt_of_le_of_lt hle hlt

/-- What the frames of an input are, from the first on. -/
structure Parsed where
  parts : List Part
  fault : Option WireFault

/-- Reads frame after frame. The first field that is refused is the end of it, and so is a frame
that is not complete. -/
def parse (revision : Revision) (limit : Nat) (input : Bytes) : Parsed :=
  match _h : head revision limit input with
  | .short => ⟨[], none⟩
  | .refused fault => ⟨[], some fault⟩
  | .read head rest =>
    if rest.length < head.size then ⟨[], none⟩
    else
      let behind := parse revision limit (rest.drop head.size)
      { behind with parts := .ofMore (rest.take head.size) head.more :: behind.parts }
termination_by input.length
decreasing_by
  have hlt := length_of_head _h
  rw [List.length_drop]
  omega

/-- The headers that are complete and not refused. The last of them may announce more than there
is. -/
def heads (revision : Revision) (limit : Nat) (input : Bytes) : List Head :=
  match _h : head revision limit input with
  | .short => []
  | .refused _ => []
  | .read head rest => head :: heads revision limit (rest.drop head.size)
termination_by input.length
decreasing_by
  have hlt := length_of_head _h
  rw [List.length_drop]
  omega

theorem heads_nil (revision : Revision) (limit : Nat) : heads revision limit [] = [] := by
  cases revision <;> rw [heads] <;> rfl

theorem size_of_head {revision : Revision} {limit : Nat} {input rest : Bytes} {h : Head}
    (hh : head revision limit input = .read h rest) : h.size ≤ limit := by
  cases revision with
  | v1 =>
    obtain ⟨length, behind, -, hflags⟩ := Field.bind_eq_read hh
    rw [flagsV1] at hflags
    split at hflags
    · cases hflags
    · next hle =>
      obtain ⟨flags, _, -, hread⟩ := Field.bind_eq_read hflags
      cases hread
      exact Nat.le_of_not_lt hle
  | v2 =>
    obtain ⟨flags, behind, -, hlength⟩ := Field.bind_eq_read hh
    split at hlength
    · cases hlength
    · obtain ⟨size, _, -, hread⟩ := Field.bind_eq_read hlength
      rw [sizedV2] at hread
      split at hread
      · cases hread
      · next hle =>
        split at hread
        · cases hread
        · cases hread
          exact Nat.le_of_not_lt hle

theorem size_le_of_mem_heads {revision : Revision} {limit : Nat} {input : Bytes} {h : Head}
    (hm : h ∈ heads revision limit input) : h.size ≤ limit := by
  induction hn : input.length using Nat.strongRecOn generalizing input with
  | ind n ih =>
    rw [heads] at hm
    cases hh : head revision limit input with
    | short =>
      rw [hh] at hm
      cases hm
    | refused fault =>
      rw [hh] at hm
      cases hm
    | read first rest =>
      rw [hh] at hm
      rcases List.mem_cons.1 hm with rfl | hm
      · exact size_of_head hh
      · have hlt := length_of_head hh
        exact ih (rest.drop first.size).length (by rw [List.length_drop]; omega) hm rfl

theorem heads_of_fault {revision : Revision} {limit : Nat} {input : Bytes} {fault : WireFault}
    (hf : (parse revision limit input).fault = some fault) :
    (heads revision limit input).map Head.size =
      (parse revision limit input).parts.map Part.size := by
  induction hn : input.length using Nat.strongRecOn generalizing input with
  | ind n ih =>
    rw [parse] at hf
    rw [heads, parse]
    cases hh : head revision limit input with
    | short => rfl
    | refused fault => rfl
    | read first rest =>
      rw [hh] at hf
      simp only at hf ⊢
      split at hf
      · cases hf
      · next hle =>
        have hlt := length_of_head hh
        have hrest := ih (rest.drop first.size).length (by rw [List.length_drop]; omega) hf rfl
        have hsize : (Part.ofMore (rest.take first.size) first.more).size = first.size :=
          List.length_take_of_le (Nat.le_of_not_lt hle)
        rw [if_neg hle, List.map_cons, List.map_cons, hsize, hrest]

theorem toNat_lt (bytes : Bytes) : Bytes.toNat bytes < 256 ^ bytes.length := by
  induction bytes using List.reverseRecOn with
  | nil => decide
  | append_singleton bytes b ih =>
    have hb := b.toNat_lt
    rw [Bytes.toNat_append_singleton, List.length_append, List.length_singleton, Nat.pow_succ]
    omega

theorem bit_zero (b : UInt8) : bit b 0 = HeadReader.isMore b := by
  obtain ⟨⟨n⟩⟩ := b
  revert n
  decide +kernel

theorem bit_one (b : UInt8) : bit b 1 = HeadReader.isLarge b := by
  obtain ⟨⟨n⟩⟩ := b
  revert n
  decide +kernel

theorem any_reserved (b : UInt8) : [2, 3, 4, 5, 6, 7].any (bit b) = (b &&& 0xfc != 0) := by
  obtain ⟨⟨n⟩⟩ := b
  revert n
  decide +kernel

theorem toNat_word {bytes : Bytes} (hl : bytes.length = 8) :
    (BitVec.ofNat 64 (Bytes.toNat bytes)).toNat = Bytes.toNat bytes := by
  have hlt := toNat_lt bytes
  rw [hl] at hlt
  rw [BitVec.toNat_ofNat]
  exact Nat.mod_eq_of_lt hlt

theorem signed_of_lt {bytes : Bytes} (hl : bytes.length = 8)
    (h : Bytes.toNat bytes < HeadReader.negativeLength) : signed bytes = Bytes.toNat bytes := by
  have hn : HeadReader.negativeLength = 2 ^ 63 := rfl
  have hw := toNat_word hl
  rw [signed, BitVec.toInt_eq_toNat_of_lt (by omega), hw]

theorem signed_of_le {bytes : Bytes} (hl : bytes.length = 8)
    (h : HeadReader.negativeLength ≤ Bytes.toNat bytes) : signed bytes < 0 := by
  have hn : HeadReader.negativeLength = 2 ^ 63 := rfl
  have hw := toNat_word hl
  rw [signed, BitVec.toInt_neg_iff]
  omega

theorem eightBytes_cases (input : Bytes) :
    (input.length < 8 ∧ eightBytes input = .short) ∨
      ∃ front b rest, front.length = 7 ∧ input = front ++ b :: rest ∧
        eightBytes input = .read (front ++ [b]) rest := by
  rw [eightBytes]
  by_cases hl : input.length < 8
  · exact .inl ⟨hl, if_pos hl⟩
  · rw [if_neg hl]
    have hlt : 7 < input.length := by omega
    have hfront : (input.take 7).length = 7 := List.length_take_of_le (Nat.le_of_lt hlt)
    have hinput : input = input.take 7 ++ input[7] :: input.drop 8 := by
      rw [← List.drop_eq_getElem_cons hlt, List.take_append_drop]
    have htake : input.take 8 = input.take 7 ++ [input[7]] := (List.take_append_getElem hlt).symm
    exact .inr ⟨_, _, _, hfront, hinput, by rw [htake]⟩

end Grammar

namespace Scanner

open HeadReader Grammar

variable {s : Scanner} {input rest : Bytes}

/-- A scan of a header comes to what the grammar says of its bytes. Storage is asked for when the
header is complete, and not before. -/
def Meets (s : Scanner) (scan : Scan) : Field Head → Prop
  | .short => scan.outcome = .ok none ∧ scan.requests = []
  | .refused fault => scan.outcome = .error fault ∧ scan.requests = []
  | .read head rest =>
    scan = { s.runBody head.more (.new head.size) rest with requests := [head.size] }

theorem meets_refused {reader : HeadReader} {b : UInt8} {fault : WireFault}
    (h : reader.push s.limit b = .error fault) (rest : Bytes) :
    s.Meets (s.runHead reader (b :: rest)) (.refused fault) := by
  rw [Meets, runHead, h]
  exact ⟨rfl, rfl⟩

theorem meets_v1Flags (s : Scanner) (size : Nat) (input : Bytes) :
    s.Meets (s.runHead (.v1Flags size) input)
      ((byte input).bind fun flags rest => .read ⟨bit flags 0, size⟩ rest) := by
  cases input with
  | nil => exact ⟨rfl, rfl⟩
  | cons flags rest =>
    change s.runHead (.v1Flags size) (flags :: rest) = _
    rw [bit_zero]
    exact runHead_done rfl

theorem meets_flagsV1 {reader : HeadReader} {b : UInt8} {length : Nat}
    (h : reader.push s.limit b =
      (checkSize s.limit (length - 1)).map fun size => .pending (.v1Flags size)) (rest : Bytes) :
    s.Meets (s.runHead reader (b :: rest)) (flagsV1 s.limit length rest) := by
  rw [flagsV1]
  by_cases hl : s.limit < length - 1
  · rw [checkSize, if_pos hl] at h
    rw [if_pos hl]
    exact meets_refused h rest
  · rw [checkSize, if_neg hl] at h
    rw [if_neg hl, runHead_pending h]
    exact meets_v1Flags s (length - 1) rest

theorem meets_v1LongSize (s : Scanner) (input : Bytes) :
    s.Meets (s.runHead (.v1LongSize []) input)
      ((lengthV1 (0xff :: input)).bind (flagsV1 s.limit)) := by
  change s.Meets _ (((eightBytes input).bind _).bind _)
  rcases eightBytes_cases input with ⟨hlt, he⟩ | ⟨front, b, rest, hl, rfl, he⟩
  · have hrun : s.runHead (.v1LongSize []) (input ++ []) = s.runHead (.v1LongSize input) [] :=
      runHead_long push_v1LongSize hlt []
    rw [List.append_nil] at hrun
    rw [he, hrun]
    exact ⟨rfl, rfl⟩
  · have hlen : (front ++ [b]).length = 8 := by rw [List.length_append, hl]; rfl
    rw [he, runHead_long push_v1LongSize (by omega)]
    simp only [Field.bind]
    have hpush : (HeadReader.v1LongSize front).push s.limit b =
        (longSizeV1 s.limit (Bytes.toNat (front ++ [b]))).map
          fun size => .pending (.v1Flags size) := by
      rw [push, if_neg (by omega)]
      rfl
    by_cases hpos : Bytes.toNat (front ++ [b]) = 0 ∨ negativeLength ≤ Bytes.toNat (front ++ [b])
    · have hle : signed (front ++ [b]) ≤ 0 := by
        rcases hpos with hz | hle
        · rw [signed_of_lt hlen (by rw [hz]; decide), hz]
          exact Int.le_refl 0
        · exact Int.le_of_lt (signed_of_le hlen hle)
      rw [longSizeV1, if_pos hpos] at hpush
      rw [if_pos hle]
      exact meets_refused hpush rest
    · have hsigned := signed_of_lt hlen (Nat.lt_of_not_le fun hle => hpos (.inr hle))
      rw [longSizeV1, if_neg hpos] at hpush
      rw [if_neg (by omega), hsigned]
      exact meets_flagsV1 hpush rest

theorem meets_headV1 (s : Scanner) (input : Bytes) :
    s.Meets (s.runHead .v1Size input) (headV1 s.limit input) := by
  cases input with
  | nil => exact ⟨rfl, rfl⟩
  | cons b input =>
    by_cases hlong : b = 0xff
    · subst b
      have hpush : HeadReader.v1Size.push s.limit 0xff = .ok (.pending (.v1LongSize [])) := by
        rw [push, if_pos rfl]
      rw [runHead_pending hpush]
      exact meets_v1LongSize s input
    · rw [headV1, lengthV1]
      simp only [byte, Field.bind, if_neg hlong]
      by_cases hzero : b = 0
      · rw [if_pos hzero]
        apply meets_refused
        rw [push, if_neg hlong, if_pos hzero]
      · rw [if_neg hzero]
        apply meets_flagsV1
        rw [push, if_neg hlong, if_neg hzero]
        rfl

theorem meets_sizedV2 {reader : HeadReader} {b : UInt8} {more : Bool} {size : Nat}
    (h : reader.push s.limit b = (longSizeV2 s.limit size).map fun size => .done ⟨more, size⟩)
    (rest : Bytes) :
    s.Meets (s.runHead reader (b :: rest)) (sizedV2 s.limit more size rest) := by
  rw [sizedV2]
  by_cases hl : s.limit < size
  · rw [longSizeV2, checkSize, if_pos hl] at h
    rw [if_pos hl]
    exact meets_refused h rest
  · rw [longSizeV2, checkSize, if_neg hl] at h
    rw [if_neg hl]
    by_cases hm : maxSize < size
    · have hcheck : checkSize (negativeLength - 1) size = .error (.tooLarge size maxSize) :=
        if_pos hm
      change _ = (checkSize (negativeLength - 1) size).map _ at h
      rw [hcheck] at h
      rw [if_pos hm]
      exact meets_refused h rest
    · have hcheck : checkSize (negativeLength - 1) size = .ok size := if_neg hm
      change _ = (checkSize (negativeLength - 1) size).map _ at h
      rw [hcheck] at h
      rw [if_neg hm]
      exact runHead_done h

theorem meets_v2LongSize (s : Scanner) (more : Bool) (input : Bytes) :
    s.Meets (s.runHead (.v2LongSize more []) input)
      ((lengthV2 true input).bind (sizedV2 s.limit more)) := by
  rw [lengthV2, if_pos rfl]
  rcases eightBytes_cases input with ⟨hlt, he⟩ | ⟨front, b, rest, hl, rfl, he⟩
  · have hrun :
        s.runHead (.v2LongSize more []) (input ++ []) = s.runHead (.v2LongSize more input) [] :=
      runHead_long push_v2LongSize hlt []
    rw [List.append_nil] at hrun
    rw [he, hrun]
    exact ⟨rfl, rfl⟩
  · have hlen : (front ++ [b]).length = 8 := by rw [List.length_append, hl]; rfl
    rw [he, runHead_long push_v2LongSize (by omega)]
    apply meets_sizedV2
    rw [push, if_neg (by omega)]
    rfl

theorem meets_v2Size (s : Scanner) (more : Bool) (input : Bytes) :
    s.Meets (s.runHead (.v2Size more) input)
      ((lengthV2 false input).bind (sizedV2 s.limit more)) := by
  cases input with
  | nil => exact ⟨rfl, rfl⟩
  | cons b rest =>
    apply meets_sizedV2
    have hb := b.toNat_lt
    have hmax : checkSize (negativeLength - 1) b.toNat = .ok b.toNat := by
      apply checkSize_of_le
      have hn : negativeLength = 2 ^ 63 := rfl
      omega
    rw [push, longSizeV2]
    cases hc : checkSize s.limit b.toNat with
    | error fault => rfl
    | ok size =>
      rw [checkSize] at hc
      split at hc
      · cases hc
      · cases hc
        change _ = (checkSize (negativeLength - 1) b.toNat).map _
        rw [hmax]
        rfl

theorem meets_headV2 (s : Scanner) (input : Bytes) :
    s.Meets (s.runHead .v2Flags input) (headV2 s.limit input) := by
  cases input with
  | nil => exact ⟨rfl, rfl⟩
  | cons flags input =>
    rw [headV2]
    simp only [byte, Field.bind, any_reserved, bit_zero, bit_one]
    by_cases hr : flags &&& 0xfc != 0
    · rw [if_pos hr]
      apply meets_refused
      rw [push, if_pos hr]
    · rw [if_neg hr]
      cases hl : isLarge flags with
      | true =>
        have hpush : HeadReader.v2Flags.push s.limit flags =
            .ok (.pending (.v2LongSize (isMore flags) [])) := by
          rw [push, if_neg hr, if_pos hl]
        rw [runHead_pending hpush]
        exact meets_v2LongSize s (isMore flags) input
      | false =>
        have hpush : HeadReader.v2Flags.push s.limit flags =
            .ok (.pending (.v2Size (isMore flags))) := by
          rw [push, if_neg hr, hl]
          rfl
        rw [runHead_pending hpush]
        exact meets_v2Size s (isMore flags) input

theorem meets_head (s : Scanner) (input : Bytes) :
    s.Meets (s.runHead (.start s.revision) input) (head s.revision s.limit input) := by
  cases hr : s.revision with
  | v1 => exact meets_headV1 s input
  | v2 => exact meets_headV2 s input

/-- A scanner that is between frames tells the parts of its input and asks for storage for the frames
whose headers are complete, up to the first field that is refused. -/
theorem drain_eq_grammar (hs : s.phase = .head (.start s.revision)) (input : Bytes) :
    (s.drain input).parts = (parse s.revision s.limit input).parts ∧
      (s.drain input).fault = (parse s.revision s.limit input).fault ∧
        (s.drain input).requests = (heads s.revision s.limit input).map Head.size := by
  have hrun (input : Bytes) : s.run input = s.runHead (.start s.revision) input := by
    rw [run, hs]
  have hself : { s with phase := .head (.start s.revision) } = s := by rw [← hs]
  induction hn : input.length using Nat.strongRecOn generalizing input with
  | ind n ih =>
    have hm := meets_head s input
    rw [← hrun] at hm
    rw [parse, heads]
    cases hh : head s.revision s.limit input with
    | short =>
      rw [hh] at hm
      cases hr : s.run input with
      | mk s' outcome rest asked =>
        rw [hr] at hm
        obtain ⟨rfl, rfl⟩ := hm
        rw [drain_of_none hr]
        exact ⟨rfl, rfl, rfl⟩
    | refused fault =>
      rw [hh] at hm
      cases hr : s.run input with
      | mk s' outcome rest asked =>
        rw [hr] at hm
        obtain ⟨rfl, rfl⟩ := hm
        rw [drain_of_error hr]
        exact ⟨rfl, rfl, rfl⟩
    | read head rest =>
      rw [hh] at hm
      simp only
      by_cases hl : rest.length < head.size
      · have hbody := hm.trans (by rw [runBody_of_lt hl])
        rw [if_pos hl, drain_of_none hbody, List.drop_of_length_le (Nat.le_of_lt hl), heads_nil]
        exact ⟨rfl, rfl, rfl⟩
      · have hroom : (Buffer.new head.size).room ≤ rest.length := Nat.le_of_not_lt hl
        have hbody := hm.trans (by rw [runBody_of_room hroom, hself])
        have hlt : (rest.drop head.size).length < n := by
          have := length_of_head hh
          rw [List.length_drop]
          omega
        obtain ⟨hp, hf, ha⟩ := ih _ hlt _ rfl
        have hbytes : ((Buffer.new head.size).fill rest).bytes = rest.take head.size := by
          rw [Buffer.bytes_fill]
          rfl
        rw [if_neg hl, drain_of_some hbody, hbytes]
        exact ⟨congrArg _ hp, hf, congrArg _ ha⟩

theorem drain_eq_parse (hs : s.phase = .head (.start s.revision)) (input : Bytes) :
    (s.drain input).parts = (parse s.revision s.limit input).parts ∧
      (s.drain input).fault = (parse s.revision s.limit input).fault :=
  have hd := drain_eq_grammar hs input
  ⟨hd.1, hd.2.1⟩

end Scanner

namespace FrameReader

/-- What a new reader makes of an input, part after part, is what the layout of its frames says, and
so is the fault that ends it. That fault is final. -/
theorem readEach_eq_parse (revision : Revision) (bufferSize limit : Nat) (store : BodyStore)
    (input : Bytes) :
    let d := ((new revision bufferSize limit).setStore store).readEach input
    let parsed := Grammar.parse revision limit input
    d.parts = parsed.parts ∧ d.fault = parsed.fault ∧
      ∀ fault, parsed.fault = some fault →
        ∀ more, d.state.readFrom more = ⟨d.state, .error fault, more, []⟩ := by
  intro d parsed
  obtain ⟨hp, hf⟩ := Scanner.drain_eq_parse (s := .new revision limit) rfl input
  obtain ⟨hparts, hfault, hfinal⟩ :=
    readEach_drain (r := (new revision bufferSize limit).setStore store) rfl input
  refine ⟨hparts.trans hp, hfault.trans hf, ?_⟩
  intro fault h more
  rw [readFrom, hfinal.trans (hf.trans h)]

theorem readEach_eq_parse_zeroLength :
    let input := [0xff, 0, 0, 0, 0, 0, 0, 0, 3, 0x81, 7, 8, 1, 0, 0, 9]
    let d := ((new .v1 0 4).setStore (.new .heap)).readEach input
    Grammar.parse .v1 4 input = ⟨[.ofMore [7, 8] true, .ofBytes []], some .zeroLength⟩ ∧
      d.parts = [.ofMore [7, 8] true, .ofBytes []] ∧ d.fault = some .zeroLength ∧
        d.state.readFrom [1, 0] = ⟨d.state, .error .zeroLength, [1, 0], []⟩ := by
  intro input d
  have hp : Grammar.parse .v1 4 input =
      ⟨[.ofMore [7, 8] true, .ofBytes []], some .zeroLength⟩ := by cbv
  obtain ⟨hparts, hfault, hfinal⟩ := readEach_eq_parse .v1 0 4 (.new .heap) input
  rw [hp] at hparts hfault hfinal
  exact ⟨hp, hparts, hfault, hfinal .zeroLength rfl [1, 0]⟩

example : Grammar.parse .v2 300 [0x02, 0, 0, 0, 0, 0, 0, 0, 1, 9, 0x01, 0, 0x80, 1] =
    ⟨[.ofBytes [9], .ofMore [] true], some (.reservedBits 0x80)⟩ := by cbv

end FrameReader

end Zmtp
