import Zmtp.Proofs.Frame.Scan

namespace Zmtp

/-- The sizes that a header can tell. A length field of eight bytes is signed, and the older revision
counts the flags byte in it. -/
def Revision.carries (r : Revision) (size : Nat) : Prop :=
  match r with
  | .v1 => size + 1 < HeadReader.negativeLength
  | .v2 => size < HeadReader.negativeLength

instance (r : Revision) (size : Nat) : Decidable (r.carries size) :=
  match r with
  | .v1 => inferInstanceAs (Decidable (_ < _))
  | .v2 => inferInstanceAs (Decidable (_ < _))

/-- What the wire keeps of a part: its body, and whether more follows. -/
def Part.onWire (p : Part) : Part := .ofMore p.data p.hasMore

@[simp] theorem Part.onWire_ofBytes (data : Bytes) : (Part.ofBytes data).onWire = .ofBytes data :=
  congrArg (Part.ofMore data) (Part.hasMore_ofMore data false)

theorem Head.toNat_shortLength {length : Nat} (h : length < 0xff) :
    (UInt8.ofNat length).toNat = length := by
  rw [UInt8.toNat_ofNat']
  exact Nat.mod_eq_of_lt (Nat.lt_trans h (by decide))

theorem Head.shortLength_ne {length : Nat} (h : length < 0xff) : UInt8.ofNat length ≠ 0xff := by
  intro he
  have hnat := toNat_shortLength h
  rw [he] at hnat
  change 255 = length at hnat
  omega

namespace HeadReader

@[simp] theorem isMore_moreBit (more : Bool) : isMore (Head.moreBit more) = more := by
  cases more <;> rfl

theorem checkSize_of_le {limit size : Nat} (h : size ≤ limit) :
    checkSize limit size = .ok size := by
  rw [checkSize, if_neg (Nat.not_lt.2 h)]

theorem longSizeV1_succ {limit size : Nat} (h : size ≤ limit) (hc : Revision.v1.carries size) :
    longSizeV1 limit (size + 1) = .ok size := by
  rw [longSizeV1, if_neg (not_or.2 ⟨Nat.succ_ne_zero size, Nat.not_le.2 hc⟩)]
  exact checkSize_of_le h

theorem longSizeV2_of_le {limit size : Nat} (h : size ≤ limit) (hc : Revision.v2.carries size) :
    longSizeV2 limit size = .ok size := by
  have hmax : checkSize (negativeLength - 1) size = .ok size :=
    checkSize_of_le (Nat.le_pred_of_lt hc)
  rw [longSizeV2, checkSize_of_le h]
  exact hmax

end HeadReader

theorem Bytes.toNat_bigEndian_eight {n : Nat} (h : n < UInt64.size) :
    toNat (bigEndian 8 n) = n := by
  rw [toNat_bigEndian]
  exact Nat.mod_eq_of_lt h

namespace Scanner

open HeadReader

variable {s : Scanner} {seen bytes rest : Bytes} {size : Nat}

theorem runHead_pending {reader next : HeadReader} {b : UInt8}
    (h : reader.push s.limit b = .ok (.pending next)) :
    s.runHead reader (b :: rest) = s.runHead next rest := by
  rw [runHead, h]

theorem runHead_done {reader : HeadReader} {b : UInt8} {head : Head}
    (h : reader.push s.limit b = .ok (.done head)) :
    s.runHead reader (b :: rest) =
      { s.runBody head.more (.new head.size) rest with requests := [head.size] } := by
  rw [runHead, h]

theorem push_v1LongSize {limit : Nat} {b : UInt8} (h : (seen ++ [b]).length < 8) :
    (HeadReader.v1LongSize seen).push limit b = .ok (.pending (.v1LongSize (seen ++ [b]))) :=
  if_pos h

theorem push_v2LongSize {limit : Nat} {more : Bool} {b : UInt8} (h : (seen ++ [b]).length < 8) :
    (HeadReader.v2LongSize more seen).push limit b =
      .ok (.pending (.v2LongSize more (seen ++ [b]))) :=
  if_pos h

/-- A field of eight bytes takes all but the last of them without a look at what they are. -/
theorem runHead_long {field : Bytes → HeadReader}
    (hf : ∀ {seen b}, (seen ++ [b]).length < 8 →
      (field seen).push s.limit b = .ok (.pending (field (seen ++ [b]))))
    {front : Bytes} (hl : front.length < 8) (rest : Bytes) :
    s.runHead (field []) (front ++ rest) = s.runHead (field front) rest := by
  have hseen (seen : Bytes) (h : (seen ++ front).length < 8) :
      s.runHead (field seen) (front ++ rest) = s.runHead (field (seen ++ front)) rest := by
    clear hl
    induction front generalizing seen with
    | nil => rw [List.append_nil, List.nil_append]
    | cons b front ih =>
      rw [List.append_cons] at h ⊢
      have hlt : (seen ++ [b]).length < 8 := by
        rw [List.length_append] at h
        omega
      rw [← ih _ h]
      exact runHead_pending (hf hlt)
  exact hseen [] hl

theorem runHead_v1LongSize {front : Bytes} {b : UInt8} (hl : front.length = 7)
    (hs : longSizeV1 s.limit (Bytes.toNat (front ++ [b])) = .ok size) :
    s.runHead (.v1LongSize []) (front ++ b :: rest) = s.runHead (.v1Flags size) rest := by
  rw [runHead_long push_v1LongSize (by omega)]
  apply runHead_pending
  rw [push, if_neg (by rw [List.length_append, hl]; exact Nat.lt_irrefl 8), hs]
  rfl

theorem runHead_v2LongSize {more : Bool} {front : Bytes} {b : UInt8} (hl : front.length = 7)
    (hs : longSizeV2 s.limit (Bytes.toNat (front ++ [b])) = .ok size) :
    s.runHead (.v2LongSize more []) (front ++ b :: rest) =
      { s.runBody more (.new size) rest with requests := [size] } := by
  rw [runHead_long push_v2LongSize (by omega)]
  have hdone : (HeadReader.v2LongSize more front).push s.limit b =
      .ok (.done ⟨more, size⟩) := by
    rw [push, if_neg (by rw [List.length_append, hl]; exact Nat.lt_irrefl 8), hs]
    rfl
  exact runHead_done hdone

/-- The two ways in which a header of the older revision may be spelled. The flags tell no more than
whether more follows, and the longer way is open to all sizes. -/
inductive SpelledV1 (head : Head) : Bytes → Prop where
  | short {flags : UInt8} (h : head.size + 1 < 0xff) (hf : isMore flags = head.more) :
      SpelledV1 head [UInt8.ofNat (head.size + 1), flags]
  | long {flags : UInt8} (hf : isMore flags = head.more) :
      SpelledV1 head (0xff :: Bytes.bigEndian 8 (head.size + 1) ++ [flags])

theorem spelledV1_encodeV1 (head : Head) : SpelledV1 head head.encodeV1 := by
  rw [Head.encodeV1]
  split
  · next hlt => exact .short hlt (isMore_moreBit head.more)
  · exact .long (isMore_moreBit head.more)

theorem runHead_spelledV1 {head : Head} {spelling : Bytes} (hw : SpelledV1 head spelling)
    (h : head.size ≤ s.limit) (hc : Revision.v1.carries head.size) (rest : Bytes) :
    s.runHead .v1Size (spelling ++ rest) =
      { s.runBody head.more (.new head.size) rest with requests := [head.size] } := by
  have hflags {flags : UInt8} (hf : isMore flags = head.more) :
      s.runHead (.v1Flags head.size) (flags :: rest) =
        { s.runBody head.more (.new head.size) rest with requests := [head.size] } :=
    runHead_done (by rw [push, hf])
  cases hw with
  | @short flags hlt hf =>
    have hnat := Head.toNat_shortLength hlt
    have hzero : UInt8.ofNat (head.size + 1) ≠ 0 := fun he => by
      rw [he] at hnat
      cases hnat
    rw [← hflags hf]
    apply runHead_pending
    rw [push, if_neg (Head.shortLength_ne hlt), if_neg hzero, hnat, Nat.add_sub_cancel,
      checkSize_of_le h]
    rfl
  | @long flags hf =>
    have hnat : Bytes.toNat (Bytes.bigEndian 8 (head.size + 1)) = head.size + 1 :=
      Bytes.toNat_bigEndian_eight (Nat.lt_trans hc (by decide))
    rw [← hflags hf]
    rw [Bytes.bigEndian] at hnat ⊢
    rw [List.append_assoc, List.cons_append, List.append_assoc]
    have hlong : HeadReader.v1Size.push s.limit 0xff = .ok (.pending (.v1LongSize [])) := by
      rw [push, if_pos rfl]
    apply (runHead_pending hlong).trans
    apply runHead_v1LongSize (Bytes.length_bigEndian ..)
    rw [hnat]
    exact longSizeV1_succ h hc

theorem runHead_encodeV2 {head : Head} (h : head.size ≤ s.limit)
    (hc : Revision.v2.carries head.size) :
    s.runHead .v2Flags (head.encodeV2 ++ rest) =
      { s.runBody head.more (.new head.size) rest with requests := [head.size] } := by
  rw [Head.encodeV2]
  split
  · next hle =>
    have hflags : HeadReader.v2Flags.push s.limit (Head.moreBit head.more) =
        .ok (.pending (.v2Size head.more)) := by
      cases head.more <;> rfl
    have hnat : (UInt8.ofNat head.size).toNat = head.size := by
      rw [UInt8.toNat_ofNat']
      exact Nat.mod_eq_of_lt (by omega)
    refine (runHead_pending hflags).trans (runHead_done ?_)
    rw [push, hnat, checkSize_of_le h]
    rfl
  · have hflags : HeadReader.v2Flags.push s.limit (Head.moreBit head.more ||| 0x02) =
        .ok (.pending (.v2LongSize head.more [])) := by
      cases head.more <;> rfl
    have hnat : Bytes.toNat (Bytes.bigEndian 8 head.size) = head.size :=
      Bytes.toNat_bigEndian_eight (Nat.lt_trans hc (by decide))
    rw [Bytes.bigEndian] at hnat ⊢
    rw [List.cons_append, List.append_assoc]
    apply (runHead_pending hflags).trans
    apply runHead_v2LongSize (Bytes.length_bigEndian ..)
    rw [hnat]
    exact longSizeV2_of_le h hc

theorem runHead_encode (head : Head) (h : head.size ≤ s.limit)
    (hc : s.revision.carries head.size) :
    s.runHead (.start s.revision) (head.encode s.revision ++ rest) =
      { s.runBody head.more (.new head.size) rest with requests := [head.size] } := by
  cases hr : s.revision with
  | v1 => exact runHead_spelledV1 (spelledV1_encodeV1 head) h (hr ▸ hc) rest
  | v2 => exact runHead_encodeV2 h (hr ▸ hc)

theorem run_of_runHead (hs : s.phase = .head (.start s.revision)) {header data : Bytes} {more : Bool}
    (h : s.runHead (.start s.revision) (header ++ (data ++ rest)) =
      { s.runBody more (.new data.length) (data ++ rest) with requests := [data.length] }) :
    s.run (header ++ data ++ rest) =
      ⟨s, .ok (some (.ofMore data more)), rest, [data.length]⟩ := by
  have hroom : (Buffer.new data.length).room ≤ (data ++ rest).length := by
    rw [List.length_append]
    exact Nat.le_add_right ..
  have hbytes : ((Buffer.new data.length).fill (data ++ rest)).bytes = data := by
    rw [Buffer.bytes_fill]
    exact List.take_left
  have hrest : (data ++ rest).drop (Buffer.new data.length).room = rest := List.drop_left
  have hself : { s with phase := .head (.start s.revision) } = s := by rw [← hs]
  rw [run, hs, List.append_assoc]
  simp only
  rw [h, runBody_of_room hroom, hbytes, hrest, hself]

theorem run_frame (hs : s.phase = .head (.start s.revision)) {p : Part} (h : p.size ≤ s.limit)
    (hc : s.revision.carries p.size) :
    s.run (p.frame s.revision ++ rest) = ⟨s, .ok (some p.onWire), rest, [p.size]⟩ :=
  run_of_runHead hs (runHead_encode (.ofPart p) h hc)

theorem run_spelledV1 (hr : s.revision = .v1) (hs : s.phase = .head (.start s.revision))
    {header data : Bytes} {more : Bool} (hw : SpelledV1 ⟨more, data.length⟩ header)
    (h : data.length ≤ s.limit) (hc : Revision.v1.carries data.length) :
    s.run (header ++ data ++ rest) =
      ⟨s, .ok (some (.ofMore data more)), rest, [data.length]⟩ := by
  apply run_of_runHead hs
  rw [hr]
  exact runHead_spelledV1 hw h hc (data ++ rest)

theorem drain_frames_eq (hs : s.phase = .head (.start s.revision)) (ps : List Part)
    (h : ∀ p ∈ ps, p.size ≤ s.limit ∧ s.revision.carries p.size) :
    s.drain (ps.flatMap (·.frame s.revision)) =
      ⟨s, ps.map Part.onWire, none, [], ps.map Part.size⟩ := by
  induction ps with
  | nil =>
    have hself : { s with phase := .head (.start s.revision) } = s := by rw [← hs]
    have hr : s.run [] = ⟨s, .ok none, [], []⟩ := by
      rw [run, hs]
      simp only [runHead, hself]
    rw [List.flatMap_nil, drain_of_none hr]
    rfl
  | cons p ps ih =>
    obtain ⟨hp, hps⟩ := List.forall_mem_cons.1 h
    rw [List.flatMap_cons, drain_of_some (run_frame hs hp.1 hp.2), ih hps]
    rfl

theorem drain_frames (hs : s.phase = .head (.start s.revision)) (ps : List Part)
    (h : ∀ p ∈ ps, p.size ≤ s.limit ∧ s.revision.carries p.size) :
    (s.drain (ps.flatMap (·.frame s.revision))).parts = ps.map Part.onWire ∧
      (s.drain (ps.flatMap (·.frame s.revision))).fault = none := by
  rw [drain_frames_eq hs ps h]
  exact ⟨rfl, rfl⟩

end Scanner

end Zmtp
