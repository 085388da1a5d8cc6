import Mathlib.Algebra.Group.Nat.Defs
import Zmtp.Proofs.Engine.Supply
import Zmtp.Proofs.Frame.Encoding
import Zmtp.Proofs.Frame.Pieces

namespace Zmtp

/-- How much may be taken at a time, which is never nothing. -/
structure Pacing where
  limit : Nat → Nat
  positive : ∀ n, 0 < limit n

/-- The pace from the second time on. -/
def Pacing.next (pacing : Pacing) : Pacing where
  limit n := pacing.limit (n + 1)
  positive n := pacing.positive (n + 1)

namespace FrameWriter

variable {w w' : FrameWriter} {pacing : Pacing} {chunk : Bytes}

/-- Takes chunk after chunk until nothing is left. -/
def pour (w : FrameWriter) (pacing : Pacing) : List Bytes × FrameWriter :=
  match _h : w.emit (pacing.limit 0) with
  | none => ([], w)
  | some (chunk, w) =>
    let (chunks, w) := w.pour pacing.next
    (chunk :: chunks, w)
termination_by w.head.length + w.body.length
decreasing_by
  have := emit_length_pos _h
  have := emit_length _h
  omega

/-- Writes one part after the other, each at its own pace. -/
def pourAll (w : FrameWriter) : List (Part × Pacing) → List Bytes × FrameWriter
  | [] => ([], w)
  | (part, pacing) :: rest =>
    let (chunks, w) := (w.load part).pour pacing
    let (chunks', w) := w.pourAll rest
    (chunks ++ chunks', w)

theorem pour_of_none (h : w.emit (pacing.limit 0) = none) : w.pour pacing = ([], w) := by
  rw [pour]
  split
  · rfl
  · next h' => cases h.symm.trans h'

theorem pour_of_some (h : w.emit (pacing.limit 0) = some (chunk, w')) :
    w.pour pacing = (chunk :: (w'.pour pacing.next).1, (w'.pour pacing.next).2) := by
  rw [pour]
  split
  · next h' => cases h.symm.trans h'
  · next h' =>
    cases h.symm.trans h'
    rfl

theorem flatten_pour (w : FrameWriter) (pacing : Pacing) :
    (w.pour pacing).1.flatten = w.left ∧ (w.pour pacing).2.hasData = false ∧
      (w.pour pacing).2.revision = w.revision := by
  induction w, pacing using pour.induct with
  | case1 w pacing h =>
    have hleft := left_of_emit_none h (Nat.ne_of_gt (pacing.positive 0))
    rw [pour_of_none h]
    exact ⟨hleft.symm, left_eq_nil_iff.1 hleft, rfl⟩
  | case2 w pacing chunk w' h chunks w'' hpour ih =>
    obtain ⟨hleft, hrevision⟩ := left_of_emit h
    rw [pour_of_some h]
    refine ⟨?_, ih.2.1, ih.2.2.trans hrevision⟩
    rw [List.flatten_cons, ih.1, hleft]

theorem flatten_pourAll (w : FrameWriter) (ms : List (Part × Pacing)) :
    (w.pourAll ms).1.flatten = (ms.map Prod.fst).flatMap (·.frame w.revision) ∧
      (w.hasData = false → (w.pourAll ms).2.hasData = false) ∧
      (w.pourAll ms).2.revision = w.revision := by
  induction ms generalizing w with
  | nil => exact ⟨rfl, id, rfl⟩
  | cons m ms ih =>
    obtain ⟨part, pacing⟩ := m
    obtain ⟨hflat, hdata, hrevision⟩ := flatten_pour (w.load part) pacing
    obtain ⟨ihflat, ihdata, ihrevision⟩ := ih ((w.load part).pour pacing).2
    refine ⟨?_, fun _ => ihdata hdata, ihrevision.trans hrevision⟩
    rw [pourAll, List.flatten_append, hflat, ihflat, hrevision, left_load]
    rfl

end FrameWriter

theorem Revision.carries_of_lt (r : Revision) {size : Nat} (h : size < 2 ^ 63 - 1) :
    r.carries size := by
  cases r with
  | v1 =>
    change size + 1 < 2 ^ 63
    omega
  | v2 =>
    change size < 2 ^ 63
    omega

namespace FrameReader

theorem readEach_frames {r : FrameReader} {revision : Revision} {limit : Nat} (hf : r.fault = none)
    (hs : r.scanner = .new revision limit) (ps : List Part)
    (h : ∀ p ∈ ps, p.size ≤ limit ∧ revision.carries p.size) :
    r.readEach (ps.flatMap (·.frame revision)) =
      ⟨r.advance (.new revision limit) (ps.map Part.size), ps.map Part.onWire, none, [],
        ps.map Part.size⟩ := by
  have hdrain := Scanner.drain_frames_eq (s := .new revision limit) rfl ps h
  change (Scanner.new revision limit).drain (ps.flatMap (·.frame revision)) = _ at hdrain
  rw [readEach_eq, readAllFrom, hf, hs]
  simp only
  rw [hdrain]

/-- However the parts are cut on their way out and however the bytes are cut on their way in, the same
bodies arrive, with the mark that more follows where it was set and no other mark. Every byte is used
up, and no frame is begun. -/
theorem readPieces_pourAll (revision : Revision) (bufferSize limit : Nat) (store : BodyStore)
    (ms : List (Part × Pacing)) (hsize : ∀ m ∈ ms, m.1.size ≤ limit ∧ m.1.size < 2 ^ 63 - 1)
    (pieces : List Bytes)
    (hpieces : pieces.flatten = ((FrameWriter.new revision).pourAll ms).1.flatten) :
    let drain := ((new revision bufferSize limit).setStore store).readPieces pieces
    drain.fault = none ∧ drain.parts = ms.map (fun m => .ofMore m.1.data m.1.hasMore) ∧
      drain.rest = [] ∧ drain.state.scanner = .new revision limit := by
  intro drain
  let reader := (new revision bufferSize limit).setStore store
  have hfits : ∀ p ∈ ms.map Prod.fst, p.size ≤ limit ∧ revision.carries p.size := by
    intro p hp
    obtain ⟨m, hm, rfl⟩ := List.mem_map.1 hp
    exact ⟨(hsize m hm).1, revision.carries_of_lt (hsize m hm).2⟩
  have hwire : pieces.flatten = (ms.map Prod.fst).flatMap (·.frame revision) :=
    hpieces.trans (FrameWriter.flatten_pourAll (.new revision) ms).1
  have hagrees := readPieces_of_idle (r := reader) ⟨rfl, rfl⟩ pieces
  rw [hwire, readEach_frames rfl rfl _ hfits] at hagrees
  refine ⟨hagrees.fault, ?_, rest_readPieces hagrees.fault, ?_⟩
  · rw [hagrees.parts]
    exact List.map_map
  · rw [hagrees.state]
    rfl

/-- A body for which the length field of the older revision just grows, and one without bytes. -/
def boundary : List (Part × Pacing) :=
  [(⟨List.replicate 254 7, .more⟩, ⟨fun n => n + 1, Nat.succ_pos⟩),
    (.empty, ⟨fun _ => 1, fun _ => Nat.one_pos⟩)]

theorem readPieces_boundary :
    let wire := ((FrameWriter.new .v1).pourAll boundary).1.flatten
    let drain := ((new .v1 8 254).setStore (.new .heap)).readPieces
      [wire.take 5, [], wire.drop 5]
    drain.fault = none ∧ drain.parts = [⟨List.replicate 254 7, .more⟩, .empty] ∧
      drain.rest = [] ∧ drain.state.scanner = .new .v1 254 := by
  intro wire drain
  have hpieces : [wire.take 5, [], wire.drop 5].flatten = wire := by simp
  exact readPieces_pourAll .v1 8 254 (.new .heap) boundary (by decide +kernel) _ hpieces

end FrameReader

end Zmtp
