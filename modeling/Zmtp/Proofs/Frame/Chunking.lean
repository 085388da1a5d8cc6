import Mathlib.Algebra.Group.Nat.Defs
import Mathlib.Data.List.Induction
import Zmtp.Proofs.Engine.Supply
import Zmtp.Proofs.Frame.Encoding

namespace Zmtp

theorem Bytes.eq_of_toNat_eq {as bs : Bytes} (hl : as.length = bs.length)
    (hn : toNat as = toNat bs) : as = bs := by
  induction as using List.reverseRecOn generalizing bs with
  | nil => exact (List.length_eq_zero_iff.1 hl.symm).symm
  | append_singleton as a ih =>
    cases bs using List.reverseRecOn with
    | nil =>
      rw [List.length_append] at hl
      cases hl
    | append_singleton bs b =>
      rw [List.length_append, List.length_append, List.length_singleton, List.length_singleton,
        Nat.add_right_cancel_iff] at hl
      rw [toNat_append_singleton, toNat_append_singleton] at hn
      have ha := a.toNat_lt
      have hb := b.toNat_lt
      have hlast : a = b := UInt8.toNat_inj.1 (by omega)
      rw [ih hl (by omega), hlast]

namespace Head

/-- The bytes that stand before a body. Sizes come in one byte or in eight, and of the flags only
that more follows is told. -/
inductive Written (head : Head) : Revision → Bytes → Prop where
  | v1Short {length : UInt8} (h : head.size + 1 < 255) (hl : length.toNat = head.size + 1) :
      Written head .v1 [length, if head.more then 1 else 0]
  | v1Long {field : Bytes} (h : 255 ≤ head.size + 1) (hw : field.length = 8)
      (hl : Bytes.toNat field = (head.size + 1) % 2 ^ 64) :
      Written head .v1 (0xff :: (field ++ [if head.more then 1 else 0]))
  | v2Short {length : UInt8} (h : head.size ≤ 255) (hl : length.toNat = head.size) :
      Written head .v2 [if head.more then 1 else 0, length]
  | v2Long {field : Bytes} (h : 255 < head.size) (hw : field.length = 8)
      (hl : Bytes.toNat field = head.size % 2 ^ 64) :
      Written head .v2 ((if head.more then 3 else 2) :: field)

theorem written_encode (head : Head) (r : Revision) : head.Written r (head.encode r) := by
  cases r with
  | v1 =>
    rw [encode, encodeV1]
    split
    · next h => exact .v1Short h (toNat_shortLength h)
    · next h =>
      have hw := Bytes.length_bigEndian 8 (head.size + 1)
      exact .v1Long (Nat.le_of_not_lt h) hw (Bytes.toNat_bigEndian ..)
  | v2 =>
    rw [encode, encodeV2]
    split
    · next h =>
      refine .v2Short h ?_
      rw [UInt8.toNat_ofNat']
      exact Nat.mod_eq_of_lt (Nat.lt_succ_of_le h)
    · next h =>
      have hmark : moreBit head.more ||| 0x02 = if head.more then 3 else 2 := by
        cases head.more <;> rfl
      rw [hmark]
      exact .v2Long (Nat.lt_of_not_le h) (Bytes.length_bigEndian ..) (Bytes.toNat_bigEndian ..)

end Head

namespace FrameWriter

variable {w w' : FrameWriter} {limit : Nat} {chunk : Bytes}

theorem emit_zero (w : FrameWriter) : w.emit 0 = none := rfl

theorem length_of_emit (h : w.emit limit = some (chunk, w')) : chunk.length ≤ limit := by
  unfold emit at h
  split at h
  · cases h
  · split at h
    · cases h
      exact List.length_take_le ..
    · split at h
      · cases h
        exact List.length_take_le ..
      · cases h

theorem emit_eq_none_iff : w.emit limit = none ↔ limit = 0 ∨ w.hasData = false := by
  constructor
  · intro h
    exact Decidable.or_iff_not_imp_left.2 fun hl => left_eq_nil_iff.1 (left_of_emit_none h hl)
  · rintro (rfl | hd)
    · exact w.emit_zero
    · cases he : w.emit limit with
      | none => rfl
      | some given =>
        have hleft := (left_of_emit he).1
        rw [left_eq_nil_iff.2 hd, List.nil_eq_append_iff] at hleft
        have hpos := emit_length_pos he
        rw [hleft.1] at hpos
        cases hpos

/-- One use of a writer. -/
inductive Use where
  | load (part : Part)
  | emit (limit : Nat)
  deriving DecidableEq

/-- A writer, the parts that it was loaded with, and the chunks that it gave. -/
structure Spool where
  writer : FrameWriter
  loaded : List Part
  /-- The chunks since a part was loaded last. -/
  current : List Bytes
  /-- The chunks of the parts before it. -/
  earlier : List Bytes
  deriving DecidableEq

namespace Spool

variable {s : Spool} {revision : Revision}

def start (revision : Revision) : Spool := ⟨.new revision, [], [], []⟩

def play (s : Spool) : Use → Spool
  | .load part =>
    { writer := s.writer.load part
      loaded := s.loaded ++ [part]
      current := []
      earlier := s.earlier ++ s.current }
  | .emit limit =>
    match s.writer.emit limit with
    | none => s
    | some (chunk, writer) => { s with writer, current := s.current ++ [chunk] }

def run (s : Spool) (us : List Use) : Spool := us.foldl play s

/-- A part is loaded only when nothing is left of the part before it. -/
def Admits (s : Spool) : Use → Prop
  | .load _ => s.writer.hasData = false
  | .emit _ => True

instance (s : Spool) : DecidablePred s.Admits
  | .load _ => inferInstanceAs (Decidable (_ = _))
  | .emit _ => inferInstanceAs (Decidable True)

def AdmitsAll (s : Spool) : List Use → Prop
  | [] => True
  | u :: us => s.Admits u ∧ (s.play u).AdmitsAll us

instance decidableAdmitsAll : ∀ (us : List Use) (s : Spool), Decidable (s.AdmitsAll us)
  | [], _ => inferInstanceAs (Decidable True)
  | u :: us, s =>
    have := decidableAdmitsAll us (s.play u)
    inferInstanceAs (Decidable (s.Admits u ∧ (s.play u).AdmitsAll us))

/-- All that was given so far. -/
def wire (s : Spool) : Bytes := (s.earlier ++ s.current).flatten

/-- The frames before the current one are on the wire, and the current one is partly there and
partly left. -/
structure Winds (s : Spool) (revision : Revision) : Prop where
  speaks : s.writer.revision = revision
  earlier : s.earlier.flatten = s.loaded.dropLast.flatMap (·.frame revision)
  current : s.current.flatten ++ s.writer.left = s.loaded.getLast?.toList.flatMap (·.frame revision)

theorem winds_start (revision : Revision) : (start revision).Winds revision := ⟨rfl, rfl, rfl⟩

theorem Winds.frames (h : s.Winds revision) :
    s.wire ++ s.writer.left = s.loaded.flatMap (·.frame revision) := by
  have hsplit : s.loaded.dropLast ++ s.loaded.getLast?.toList = s.loaded := by
    cases hl : s.loaded.getLast? with
    | none =>
      rw [List.getLast?_eq_none_iff.1 hl]
      rfl
    | some part =>
      obtain ⟨parts, hparts⟩ := List.getLast?_eq_some_iff.1 hl
      rw [hparts, List.dropLast_concat]
      rfl
  rw [wire, List.flatten_append, List.append_assoc, h.earlier, h.current, ← List.flatMap_append,
    hsplit]

theorem Winds.play {u : Use} (h : s.Winds revision) (hu : s.Admits u) :
    (s.play u).Winds revision := by
  cases u with
  | load part =>
    have hleft : s.writer.left = [] := left_eq_nil_iff.2 hu
    have hwire := h.frames
    rw [hleft, List.append_nil] at hwire
    refine ⟨h.speaks, ?_, ?_⟩
    · change (s.earlier ++ s.current).flatten = (s.loaded ++ [part]).dropLast.flatMap _
      rw [List.dropLast_concat]
      exact hwire
    · change (s.writer.load part).left = (s.loaded ++ [part]).getLast?.toList.flatMap _
      rw [List.getLast?_concat, left_load, h.speaks]
      exact (List.append_nil _).symm
  | emit limit =>
    rw [Spool.play]
    cases he : s.writer.emit limit with
    | none => exact h
    | some given =>
      obtain ⟨chunk, writer⟩ := given
      obtain ⟨hleft, hrevision⟩ := left_of_emit he
      refine ⟨hrevision.trans h.speaks, h.earlier, ?_⟩
      rw [List.flatten_append, List.flatten_singleton, List.append_assoc, ← hleft]
      exact h.current

theorem Winds.run {us : List Use} (h : s.Winds revision) (hus : s.AdmitsAll us) :
    (s.run us).Winds revision := by
  induction us generalizing s with
  | nil => exact h
  | cons u us ih => exact ih (h.play hus.1) hus.2

theorem length_left_emit (s : Spool) {limit : Nat} (hl : 0 < limit) :
    (s.play (.emit limit)).writer.left.length ≤ s.writer.left.length - 1 := by
  rw [play]
  cases he : s.writer.emit limit with
  | none =>
    rw [left_of_emit_none he (Nat.ne_of_gt hl)]
    exact Nat.zero_le _
  | some given =>
    obtain ⟨chunk, writer⟩ := given
    have hpos := emit_length_pos he
    rw [(left_of_emit he).1, List.length_append]
    change writer.left.length ≤ _
    omega

theorem drained_of_le {limits : List Nat}
    (h : s.writer.left.length ≤ limits.countP (0 < ·)) :
    (s.run (limits.map .emit)).writer.hasData = false := by
  induction limits generalizing s with
  | nil => exact left_eq_nil_iff.1 (List.length_eq_zero_iff.1 (Nat.le_zero.1 h))
  | cons limit limits ih =>
    apply ih (s := s.play (.emit limit))
    rw [List.countP_cons] at h
    cases limit with
    | zero => exact h
    | succ limit =>
      have hlt := s.length_left_emit (Nat.succ_pos limit)
      rw [if_pos (decide_eq_true (Nat.succ_pos limit))] at h
      exact Nat.le_trans hlt (Nat.sub_le_of_le_add h)

/-- However the chunks are cut, those of the part that was loaded last and what is left of it are
its header and its body, and those of all parts are their frames one after the other. No chunk is
empty or longer than its limit, there is one exactly as long as bytes are left and some may be
given, and asking for none changes nothing. -/
theorem chunks_run (revision : Revision) {us : List Use} (h : (start revision).AdmitsAll us) :
    let s := (start revision).run us
    (∀ part : Part, ∃ header, (Head.mk part.hasMore part.data.length).Written revision header ∧
      part.frame revision = header ++ part.data) ∧
    (∀ limit chunk writer, s.writer.emit limit = some (chunk, writer) →
      chunk ≠ [] ∧ chunk.length ≤ limit) ∧
    (s.writer.emit 0 = none ∧ s.play (.emit 0) = s) ∧
    (∀ limit, 0 < limit → (s.writer.emit limit = none ↔ s.writer.hasData = false)) ∧
    (s.loaded = [] → s.writer.hasData = false) ∧
    (∀ part ∈ s.loaded.getLast?,
      s.current.flatten ++ s.writer.left = part.frame revision ∧
      (s.writer.hasData = true ↔ s.current.flatten.length < (part.frame revision).length) ∧
      ∀ limit, 0 < limit → s.writer.emit limit = none →
        s.current.flatten = part.frame revision) ∧
    s.wire ++ s.writer.left = s.loaded.flatMap (·.frame revision) ∧
    (s.writer.hasData = false → s.wire = s.loaded.flatMap (·.frame revision)) ∧
    (∀ limits : List Nat, s.writer.left.length ≤ limits.countP (0 < ·) →
      (s.run (limits.map .emit)).writer.hasData = false) := by
  intro s
  have hw : s.Winds revision := (winds_start revision).run h
  have hdrained (hd : s.writer.hasData = false) : s.writer.left = [] := left_eq_nil_iff.2 hd
  refine ⟨fun part => ⟨_, Head.written_encode _ revision, rfl⟩, ?chunk, ⟨s.writer.emit_zero, rfl⟩,
    ?none, ?idle, ?last, hw.frames, ?all, fun limits hl => drained_of_le hl⟩
  case chunk =>
    intro limit chunk writer he
    exact ⟨List.length_pos_iff.1 (emit_length_pos he), length_of_emit he⟩
  case none =>
    intro limit hl
    rw [emit_eq_none_iff]
    exact or_iff_right (Nat.ne_of_gt hl)
  case idle =>
    intro hn
    have hframes := hw.frames
    rw [hn, List.flatMap_nil, List.append_eq_nil_iff] at hframes
    exact left_eq_nil_iff.1 hframes.2
  case last =>
    intro part hp
    have hcurrent := hw.current
    rw [Option.mem_def.1 hp, Option.toList_some, List.flatMap_singleton] at hcurrent
    refine ⟨hcurrent, ?_, ?_⟩
    · rw [← hcurrent, List.length_append, Nat.lt_add_right_iff_pos, List.length_pos_iff, ne_eq,
        left_eq_nil_iff, Bool.not_eq_false]
    · intro limit hl he
      rw [left_of_emit_none he (Nat.ne_of_gt hl), List.append_nil] at hcurrent
      exact hcurrent
  case all =>
    intro hd
    have hframes := hw.frames
    rw [hdrained hd, List.append_nil] at hframes
    exact hframes

/-- A part with a mark that is not told, cut inside its header and inside its body, and one without
a body. -/
def twoParts : List Use :=
  [.load ⟨[97, 98], ⟨0x41⟩⟩, .emit 1, .emit 0, .emit 7, .emit 1, .emit 9, .load .empty, .emit 1,
    .emit 3]

theorem chunks_run_twoParts :
    (start .v1).AdmitsAll twoParts ∧ ((start .v1).run twoParts).wire = [3, 1, 97, 98, 1, 0] := by
  have h : (start .v1).AdmitsAll twoParts := by decide
  obtain ⟨-, -, -, -, -, -, -, hall, -⟩ := chunks_run .v1 h
  refine ⟨h, (hall (by decide)).trans ?_⟩
  decide

end Spool

end FrameWriter

end Zmtp
