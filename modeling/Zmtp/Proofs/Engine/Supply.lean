import Zmtp.Proofs.Engine.Tap

namespace Zmtp

namespace FrameWriter

variable {w w' : FrameWriter} {limit : Nat} {chunk : Bytes}

/-- The bytes that are left to write. -/
def left (w : FrameWriter) : Bytes := w.head ++ w.body

theorem left_eq_nil_iff : w.left = [] ↔ w.hasData = false := by
  simp [left, hasData]

@[simp] theorem left_load (w : FrameWriter) (p : Part) : (w.load p).left = p.frame w.revision := rfl

theorem left_of_emit (h : w.emit limit = some (chunk, w')) :
    w.left = chunk ++ w'.left ∧ w'.revision = w.revision := by
  unfold emit at h
  split at h
  · cases h
  · split at h
    · cases h
      refine ⟨?_, rfl⟩
      simp only [left]
      rw [← List.append_assoc, List.take_append_drop]
    · next hh =>
      rw [ne_eq, Decidable.not_not] at hh
      split at h
      · cases h
        refine ⟨?_, rfl⟩
        simp only [left, hh, List.nil_append, List.take_append_drop]
      · cases h

theorem left_of_emit_none (h : w.emit limit = none) (hl : limit ≠ 0) : w.left = [] := by
  unfold emit at h
  rw [if_neg hl] at h
  split at h
  · cases h
  · next hh =>
    split at h
    · cases h
    · next hb =>
      rw [ne_eq, Decidable.not_not] at hh hb
      rw [left, hh, hb, List.append_nil]

end FrameWriter

namespace Supply

variable {σ : Type} [Session σ]

/-- The bytes that were gathered so far and those that are left of the current part are `lead`, then
the opening, if it was begun, and then the frames of what the session gave. The opening is either the
frame of our identity, or else was begun already. -/
structure Balanced (lead opening identity : Bytes) (revision : Revision) (gathered : Bytes)
    (s : Supply (Ledger σ)) : Prop where
  speaks : s.writer.revision = revision
  fresh : s.identitySent = false →
    s.writer.left = [] ∧ s.session.given = [] ∧ opening = (Part.ofBytes identity).frame revision
  bytes : gathered ++ s.writer.left =
    lead ++ ((if s.identitySent then opening else []) ++ s.session.given.flatMap (·.frame revision))

variable {lead opening identity gathered : Bytes} {revision : Revision} {s : Supply (Ledger σ)}

theorem Balanced.advance (h : s.Balanced lead opening identity revision gathered) :
    (s.advance identity).Balanced lead opening identity revision gathered ∧
      (s.advance identity).identitySent = true := by
  rw [Supply.advance]
  cases hd : s.writer.hasData with
  | true =>
    refine ⟨h, ?_⟩
    cases hi : s.identitySent with
    | true => exact hi
    | false =>
      have hl := FrameWriter.left_eq_nil_iff.1 (h.fresh hi).1
      rw [hd] at hl
      cases hl
  | false =>
    have hl : s.writer.left = [] := FrameWriter.left_eq_nil_iff.2 hd
    have hb := h.bytes
    rw [hl, List.append_nil] at hb
    cases hi : s.identitySent with
    | true =>
      rw [hi, if_pos rfl] at hb
      simp only [Bool.false_eq_true, if_false, if_true]
      cases hp : Session.pull s.session with
      | mk o session =>
        cases o with
        | none =>
          obtain ⟨hg, -⟩ := Ledger.of_pull_none hp
          refine ⟨⟨h.speaks, (absurd ·.symm Bool.false_ne_true), ?_⟩, rfl⟩
          simp only [hl, List.append_nil, hg, if_true]
          exact hb
        | some p =>
          obtain ⟨hg, -⟩ := Ledger.of_pull_some hp
          refine ⟨⟨h.speaks, (absurd ·.symm Bool.false_ne_true), ?_⟩, rfl⟩
          simp only [FrameWriter.left_load, hg, if_true, List.flatMap_append, List.flatMap_cons,
            List.flatMap_nil, List.append_nil, h.speaks]
          rw [hb, List.append_assoc, List.append_assoc]
    | false =>
      obtain ⟨-, hg, ho⟩ := h.fresh hi
      rw [hi, hg] at hb
      refine ⟨⟨h.speaks, (absurd ·.symm Bool.false_ne_true), ?_⟩, rfl⟩
      simp only [Bool.false_eq_true, if_false, FrameWriter.left_load, hg, if_true, h.speaks, ho]
      simpa using hb

omit [Session σ] in
theorem Balanced.emit (h : s.Balanced lead opening identity revision gathered)
    {limit : Nat} {chunk : Bytes} {writer : FrameWriter} (hi : s.identitySent = true)
    (he : s.writer.emit limit = some (chunk, writer)) :
    Supply.Balanced lead opening identity revision (gathered ++ chunk) { s with writer } := by
  obtain ⟨hl, hr⟩ := FrameWriter.left_of_emit he
  refine ⟨hr.trans h.speaks, ?_, ?_⟩
  · intro hi'
    cases hi.symm.trans hi'
  · have hb := h.bytes
    rw [hl, ← List.append_assoc] at hb
    exact hb

/-- A batch takes up what was left, and goes on with the identity and the parts of the session. -/
theorem Balanced.gatherFrom (chunks : List Bytes) (room : Nat)
    (h : s.Balanced lead opening identity revision (gathered ++ chunks.reverse.flatten)) :
    (s.gatherFrom identity chunks room).2.Balanced lead opening identity revision
        (gathered ++ (s.gatherFrom identity chunks room).1.flatten) ∧
      ((s.identitySent = true ∨ room ≠ 0) →
        (s.gatherFrom identity chunks room).2.identitySent = true) := by
  -- no chunk is empty, so that less room is left for the next
  induction hn : room using Nat.strongRecOn generalizing chunks room s with
  | ind n ih =>
    subst hn
    rw [Supply.gatherFrom]
    split
    · next hz => exact ⟨h, fun hs => hs.resolve_right (not_not_intro hz)⟩
    · next hz =>
      obtain ⟨ha, hi⟩ := h.advance
      simp only
      split
      · exact ⟨ha, fun _ => hi⟩
      · next chunk writer he =>
        have hlt : room - chunk.length < room := by
          have := FrameWriter.emit_length_pos he
          omega
        have hb := ha.emit hi he
        rw [List.append_assoc] at hb
        have hb' : Supply.Balanced lead opening identity revision
            (gathered ++ (chunk :: chunks).reverse.flatten)
            { s.advance identity with writer } := by
          simpa using hb
        obtain ⟨hres, hsent⟩ := ih _ hlt (chunk :: chunks) _ hb' rfl
        exact ⟨hres, fun _ => hsent (.inl hi)⟩

theorem gatherFrom_induction {σ : Type} [Session σ] {identity : Bytes} {P : Supply σ → Prop}
    (hadvance : ∀ s, P s → P (s.advance identity))
    (hemit : ∀ s room chunk writer, P s → s.writer.emit room = some (chunk, writer) →
      P { s with writer })
    (chunks : List Bytes) (room : Nat) {s : Supply σ} (h : P s) :
    P (s.gatherFrom identity chunks room).2 := by
  induction hn : room using Nat.strongRecOn generalizing chunks room s with
  | ind n ih =>
    subst hn
    rw [gatherFrom]
    split
    · exact h
    · simp only
      split
      · exact hadvance s h
      · next chunk writer he =>
        have hlt : room - chunk.length < room := by
          have := FrameWriter.emit_length_pos he
          omega
        exact ih _ hlt (chunk :: chunks) _ (hemit _ room chunk writer (hadvance s h) he) rfl

theorem session_gatherFrom {σ : Type} [Session σ] {P : σ → Prop}
    (hpull : ∀ u, P u → P (Session.pull u).2) (identity : Bytes) (chunks : List Bytes) (room : Nat)
    {s : Supply σ} (h : P s.session) : P (s.gatherFrom identity chunks room).2.session := by
  apply gatherFrom_induction (P := fun s => P s.session) ?_ ?_ chunks room h
  · intro s h
    rw [advance]
    split
    · exact h
    · split
      · have hp := hpull _ h
        split
        · next he => rwa [he] at hp
        · next he => rwa [he] at hp
      · exact h
  · intro s room chunk writer h _
    exact h

theorem revision_gatherFrom {σ : Type} [Session σ] (identity : Bytes) (chunks : List Bytes)
    (room : Nat) (s : Supply σ) :
    (s.gatherFrom identity chunks room).2.writer.revision = s.writer.revision := by
  apply gatherFrom_induction (P := fun s' => s'.writer.revision = s.writer.revision) ?_ ?_ chunks
    room rfl
  · intro s' h
    rw [advance]
    split
    · exact h
    · split
      · split <;> exact h
      · exact h
  · intro s' room chunk writer h he
    exact (FrameWriter.left_of_emit he).2.trans h

section Dry

variable {σ : Type} [Session σ] {s : Supply σ} {identity : Bytes} {room : Nat}

theorem chunks_gatherFrom (identity : Bytes) (chunks : List Bytes) (room : Nat) (s : Supply σ) :
    chunks.reverse <+: (s.gatherFrom identity chunks room).1 := by
  induction hn : room using Nat.strongRecOn generalizing chunks room s with
  | ind n ih =>
    subst hn
    rw [Supply.gatherFrom]
    split
    · exact List.prefix_rfl
    · simp only
      split
      · exact List.prefix_rfl
      · next chunk writer he =>
        have hlt : room - chunk.length < room := by
          have := FrameWriter.emit_length_pos he
          omega
        have hi := ih _ hlt (chunk :: chunks) _ { s.advance identity with writer } rfl
        rw [List.reverse_cons] at hi
        exact (List.prefix_append ..).trans hi

theorem dry_of_advance (h : (s.advance identity).writer.left = []) :
    (s.advance identity).identitySent = true ∧
      ∃ u, Session.pull u = (none, (s.advance identity).session) := by
  have hframe (w : FrameWriter) (p : Part) : (w.load p).left ≠ [] := fun he =>
    Head.encode_ne_nil _ _ (List.append_eq_nil_iff.1 he).1
  rw [Supply.advance] at h ⊢
  split at h
  · next hd =>
    rw [FrameWriter.left_eq_nil_iff, hd] at h
    cases h
  · next hd =>
    rw [if_neg hd]
    split at h
    · next hi =>
      rw [if_pos hi]
      split at h
      · exact absurd h (hframe _ _)
      · next session hp => exact ⟨hi, _, hp⟩
    · exact absurd h (hframe _ _)

theorem dry_of_gather (hroom : room ≠ 0) (h : (s.gather identity room).1.flatten = []) :
    (s.gather identity room).2.writer.left = [] ∧
      (s.gather identity room).2.identitySent = true ∧
        ∃ u, Session.pull u = (none, (s.gather identity room).2.session) := by
  rw [gather, gatherFrom, dif_neg hroom] at h ⊢
  simp only at h ⊢
  split at h
  · next he =>
    have hl := FrameWriter.left_of_emit_none he hroom
    exact ⟨hl, dry_of_advance hl⟩
  · next chunk writer he =>
    obtain ⟨rest, hr⟩ := chunks_gatherFrom identity [chunk] (room - chunk.length)
      { s.advance identity with writer }
    rw [← hr, List.flatten_append, List.append_eq_nil_iff] at h
    have hpos := FrameWriter.emit_length_pos he
    have hnil : chunk = [] := by simpa using h.1
    rw [hnil] at hpos
    cases hpos

end Dry

end Supply

end Zmtp
