import Mathlib.Data.List.Perm.Basic
import Zmtp.FairQueue

namespace Zmtp

theorem swapRemove_perm {α : Type} {l : List α} {i : Nat} (hi : i < l.length) :
    (swapRemove l i).Perm (l.eraseIdx i) := by
  cases hl : l.getLast? with
  | none => rw [List.getLast?_eq_none_iff.1 hl] at hi; cases hi
  | some x =>
    have he := List.dropLast_append_getLast? x hl
    simp only [swapRemove, hl]
    rw [← he] at hi ⊢
    rw [List.set_append, List.eraseIdx_append]
    by_cases hd : i < l.dropLast.length
    · simp only [if_pos hd, List.dropLast_concat]
      exact (List.set_perm_cons_eraseIdx hd x).trans (List.perm_append_singleton _ _).symm
    · have h0 : i - l.dropLast.length = 0 := by
        rw [List.length_append, List.length_singleton] at hi
        omega
      simp only [if_neg hd, h0]
      simp

theorem getElem?_swapRemove {α : Type} {l : List α} {i j : Nat} (hj : j + 1 < l.length) :
    (swapRemove l i)[j]? = if j = i then l.getLast? else l[j]? := by
  cases hl : l.getLast? with
  | none => rw [List.getLast?_eq_none_iff.1 hl] at hj; cases hj
  | some x =>
    simp only [swapRemove, hl, List.getElem?_dropLast, List.length_set, List.getElem?_set]
    have h1 : j < l.length - 1 := by omega
    have h2 : j < l.length := by omega
    by_cases hij : i = j
    · simp [hij, h1, h2]
    · simp [hij, Ne.symm hij, h1]

namespace FairQueue

variable {q q' : FairQueue} {p c : PipeId}

/-- The pipe that is asked next. -/
def current? (q : FairQueue) : Option PipeId := q.ready[q.cursor]?

/-- The pipes of the queue, the ready ones first. -/
def members (q : FairQueue) : List PipeId := q.ready ++ q.idle

/-- No pipe is in the queue twice, and the cursor is at a ready pipe if there is one. -/
structure WellFormed (q : FairQueue) : Prop where
  nodup : q.members.Nodup
  cursor : q.cursor = 0 ∨ q.cursor < q.ready.length

theorem wellFormed_empty : WellFormed .empty := ⟨List.nodup_nil, .inl rfl⟩

theorem WellFormed.nodup_ready (h : q.WellFormed) : q.ready.Nodup :=
  (List.nodup_append.1 h.nodup).1

theorem WellFormed.ready_eq_nil (h : q.WellFormed) (hc : q.current? = none) : q.ready = [] := by
  rw [current?, List.getElem?_eq_none_iff] at hc
  apply List.eq_nil_of_length_eq_zero
  rcases h.cursor with h0 | hlt
  · omega
  · omega

/-- The cursor is at a ready pipe, or at the first place where none is ready. -/
def InBounds (q : FairQueue) : Prop :=
  q.cursor < q.ready.length ∨ q.cursor = 0 ∧ q.ready = []

theorem WellFormed.inBounds (h : q.WellFormed) : q.InBounds := by
  cases hc : q.current? with
  | none =>
    have hr := h.ready_eq_nil hc
    refine .inr ⟨?_, hr⟩
    rcases h.cursor with h0 | hlt
    · exact h0
    · rw [hr] at hlt
      cases hlt
  | some p => exact .inl (List.getElem?_eq_some_iff.1 hc).1

theorem mem_ready_of_current? (h : q.current? = some p) : p ∈ q.ready := List.mem_of_getElem? h

theorem cursor_lt (h : q.current? = some p) : q.cursor < q.ready.length :=
  (List.getElem?_eq_some_iff.1 h).1

@[simp] theorem midMessage_served (q : FairQueue) (p : PipeId) (part : Part) :
    (q.served p part).midMessage = if part.hasMore then some p else none := by
  unfold served
  split <;> rfl

@[simp] theorem members_served (q : FairQueue) (p : PipeId) (part : Part) :
    (q.served p part).members = q.members := by
  unfold served members
  split <;> rfl

@[simp] theorem ready_served (q : FairQueue) (p : PipeId) (part : Part) :
    (q.served p part).ready = q.ready := by
  rw [served]
  split <;> rfl

theorem current?_served {part : Part} (hm : part.hasMore = true) :
    (q.served p part).current? = q.current? := by
  simp [served, hm, current?]

theorem WellFormed.served (h : q.WellFormed) (hc : q.current? = some p) (part : Part) :
    (q.served c part).WellFormed := by
  refine ⟨by rw [members_served]; exact h.nodup, ?_⟩
  have hlt := cursor_lt hc
  unfold FairQueue.served
  split
  · exact .inr hlt
  · exact .inr (Nat.mod_lt _ (Nat.zero_lt_of_lt hlt))

theorem members_attach (q : FairQueue) (p : PipeId) :
    (q.attach p).members.Perm (p :: q.members) := by
  simp only [members, attach, List.append_assoc, List.singleton_append]
  exact List.perm_middle

theorem current?_attach (h : q.current? = some c) : (q.attach p).current? = some c := by
  simp only [current?, attach]
  rw [List.getElem?_append_left (cursor_lt h)]
  exact h

theorem WellFormed.attach (h : q.WellFormed) (hp : p ∉ q.members) : (q.attach p).WellFormed := by
  refine ⟨(members_attach q p).nodup_iff.2 (List.nodup_cons.2 ⟨hp, h.nodup⟩), ?_⟩
  rcases h.cursor with h0 | hlt
  · exact .inl h0
  · exact .inr (by simp only [FairQueue.attach, List.length_append]; omega)

@[simp] theorem midMessage_activate (q : FairQueue) (p : PipeId) :
    (q.activate p).midMessage = q.midMessage := by
  unfold activate
  split <;> rfl

theorem members_activate (q : FairQueue) (p : PipeId) : (q.activate p).members.Perm q.members := by
  unfold activate
  split
  · next h =>
    simp only [members, List.append_assoc, List.singleton_append]
    exact (List.perm_cons_erase h.2).symm.append_left _
  · exact .refl _

theorem mem_ready_activate (hp : p ∈ q.members) : p ∈ (q.activate p).ready := by
  rw [activate]
  by_cases hr : p ∈ q.ready
  · rw [if_neg fun h => h.1 hr]
    exact hr
  · rw [if_pos ⟨hr, (List.mem_append.1 hp).resolve_left hr⟩]
    exact List.mem_append_right _ (List.mem_singleton.2 rfl)

theorem mem_ready_activate_iff {x : PipeId} :
    x ∈ (q.activate p).ready ↔ x ∈ q.ready ∨ x = p ∧ p ∈ q.members := by
  constructor
  · intro hx
    rw [activate] at hx
    split at hx
    · next h =>
      rcases List.mem_append.1 hx with hx | hx
      · exact .inl hx
      · exact .inr ⟨List.mem_singleton.1 hx, List.mem_append_right _ h.2⟩
    · exact .inl hx
  · rintro (hx | ⟨rfl, hp⟩)
    · rw [activate]
      split
      · exact List.mem_append_left _ hx
      · exact hx
    · exact mem_ready_activate hp

theorem current?_activate (h : q.current? = some c) : (q.activate p).current? = some c := by
  unfold activate
  split
  · exact current?_attach h
  · exact h

theorem WellFormed.activate (h : q.WellFormed) : (q.activate p).WellFormed := by
  refine ⟨(members_activate q p).nodup_iff.2 h.nodup, ?_⟩
  unfold FairQueue.activate
  split
  · rcases h.cursor with h0 | hlt
    · exact .inl h0
    · exact .inr (by simp only [List.length_append]; omega)
  · exact h.cursor

theorem cursor_leave (h : q.cursor = 0 ∨ q.cursor < q.ready.length) (i : Nat) :
    (q.leave i).cursor = 0 ∨ (q.leave i).cursor < (q.leave i).ready.length := by
  simp only [leave, length_swapRemove]
  split
  · exact .inl rfl
  · omega

theorem remove_of_mem_ready (hp : p ∈ q.ready) :
    q.remove p = { q.leave (q.ready.idxOf p) with midMessage := (q.remove p).midMessage } := by
  simp only [remove, hp, true_or, if_true]
  split <;> rfl

theorem remove_of_not_mem_ready (hp : p ∉ q.ready) :
    q.remove p = { q with idle := q.idle.erase p, midMessage := (q.remove p).midMessage } := by
  by_cases hi : p ∈ q.idle
  · simp only [remove, hp, hi, or_true, if_true]
    split <;> rfl
  · simp only [remove, hp, hi, or_self, if_false, List.erase_of_not_mem hi]

theorem remove_of_not_mem (hp : p ∉ q.members) : q.remove p = q := by
  rw [members, List.mem_append] at hp
  rw [remove, if_neg hp]

theorem members_remove (q : FairQueue) (p : PipeId) :
    (q.remove p).members.Perm (q.members.erase p) := by
  by_cases hp : p ∈ q.ready
  · rw [remove_of_mem_ready hp, members, members, List.erase_append_left _ hp,
      List.erase_eq_eraseIdx_of_idxOf rfl]
    exact (swapRemove_perm (List.idxOf_lt_length_of_mem hp)).append_right _
  · rw [remove_of_not_mem_ready hp, members, members, List.erase_append_right _ hp]

theorem WellFormed.remove (h : q.WellFormed) (p : PipeId) : (q.remove p).WellFormed := by
  refine ⟨(members_remove q p).nodup_iff.2 (h.nodup.erase p), ?_⟩
  by_cases hp : p ∈ q.ready
  · rw [remove_of_mem_ready hp]
    exact cursor_leave h.cursor _
  · rw [remove_of_not_mem_ready hp]
    exact h.cursor

theorem WellFormed.mem_ready_remove (h : q.WellFormed) {x : PipeId} :
    x ∈ (q.remove p).ready ↔ x ∈ q.ready ∧ x ≠ p := by
  by_cases hp : p ∈ q.ready
  · rw [remove_of_mem_ready hp]
    change x ∈ swapRemove q.ready (q.ready.idxOf p) ↔ _
    rw [(swapRemove_perm (List.idxOf_lt_length_of_mem hp)).mem_iff,
      ← List.erase_eq_eraseIdx_of_idxOf rfl, h.nodup_ready.mem_erase_iff, and_comm]
  · rw [remove_of_not_mem_ready hp]
    refine ⟨fun hx => ⟨hx, ?_⟩, And.left⟩
    rintro rfl
    exact hp hx

theorem midMessage_remove (hm : ∀ c, q.midMessage = some c → c ∈ q.members) :
    (q.remove p).midMessage = if q.midMessage = some p then none else q.midMessage := by
  by_cases hc : q.midMessage = some p
  · have hp := List.mem_append.1 (hm p hc)
    simp only [remove, if_pos hp, if_pos hc]
    split <;> rfl
  · simp only [remove, if_neg hc]
    split
    · split <;> rfl
    · rfl

/-- Removing the pipe takes the turn away from another pipe in the middle of a message: that one is
the last of the ready pipes, and the place that it is moved to is not the first. -/
def Displaces (q : FairQueue) (p : PipeId) : Prop :=
  ∃ c, q.midMessage = some c ∧ q.ready.getLast? = some c ∧ p ≠ c ∧ p ∈ q.ready ∧
    q.ready.head? ≠ some p

instance (q : FairQueue) (p : PipeId) : Decidable (q.Displaces p) :=
  decidable_of_iff (∃ c ∈ q.midMessage, q.ready.getLast? = some c ∧ p ≠ c ∧ p ∈ q.ready ∧
    q.ready.head? ≠ some p) Iff.rfl

theorem current?_leave (hc : q.current? = some c) {i : Nat} (hi : i < q.ready.length)
    (hne : i ≠ q.cursor) :
    (q.leave i).current? =
      if q.cursor + 1 < q.ready.length ∨ i = 0 then some c else q.ready.head? := by
  have hlt := cursor_lt hc
  simp only [current?, leave, length_swapRemove]
  by_cases hlast : q.cursor + 1 < q.ready.length
  · rw [if_neg (by omega), if_pos (.inl hlast), getElem?_swapRemove hlast, if_neg hne.symm]
    exact hc
  · have hcur : q.cursor = q.ready.length - 1 := by omega
    rw [if_pos hcur, getElem?_swapRemove (by omega)]
    by_cases h0 : i = 0
    · rw [if_pos h0.symm, if_pos (.inr h0), List.getLast?_eq_getElem?, ← hcur]
      exact hc
    · rw [if_neg (Ne.symm h0), if_neg (by omega), List.head?_eq_getElem?]

theorem current?_eq_getLast? (h : q.WellFormed) (hc : q.current? = some c) :
    q.ready.getLast? = some c ↔ q.cursor + 1 = q.ready.length := by
  have hlt := cursor_lt hc
  rw [List.getLast?_eq_getElem?]
  constructor
  · intro hl
    have := (List.getElem?_inj hlt h.nodup_ready).1 (hc.trans hl.symm)
    omega
  · intro hl
    rw [← hl]
    exact hc

/-- A pipe in the middle of a message keeps its turn when another is removed, unless that one
displaces it. -/
theorem current?_remove (h : q.WellFormed) (hm : q.midMessage = some c) (hc : q.current? = some c)
    (hp : p ≠ c) : (q.remove p).current? = some c ↔ ¬ q.Displaces p := by
  by_cases hr : p ∈ q.ready
  · have hi := List.idxOf_lt_length_of_mem hr
    have hpi : q.ready[q.ready.idxOf p]? = some p := by
      rw [List.getElem?_eq_getElem hi, List.getElem_idxOf]
    have hne : q.ready.idxOf p ≠ q.cursor := by
      intro he
      rw [he] at hpi
      exact hp (Option.some.inj (hpi.symm.trans hc))
    have hlt := cursor_lt hc
    have hinj {j k : Nat} (hj : j < q.ready.length) (he : q.ready[j]? = q.ready[k]?) : j = k :=
      (List.getElem?_inj hj h.nodup_ready).1 he
    rw [remove_of_mem_ready hr]
    change (q.leave _).current? = some c ↔ _
    rw [current?_leave hc hi hne]
    -- the last ready pipe moves to where `p` stood, and the cursor returns to the first
    by_cases hk : q.cursor + 1 < q.ready.length ∨ q.ready.idxOf p = 0
    · apply iff_of_true (if_pos hk)
      rintro ⟨d, hd, hl, -, -, hh⟩
      cases hm.symm.trans hd
      rw [current?_eq_getLast? h hc] at hl
      rw [List.head?_eq_getElem?] at hh
      rcases hk with hk | hk
      · omega
      · rw [hk] at hpi
        exact hh hpi
    · have hl : q.cursor + 1 = q.ready.length := by omega
      refine iff_of_false ?_ (not_not_intro ⟨c, hm, (current?_eq_getLast? h hc).2 hl, hp, hr, ?_⟩)
      · rw [if_neg hk, List.head?_eq_getElem?]
        intro hh
        have := hinj hlt (hc.trans hh.symm)
        omega
      · rw [List.head?_eq_getElem?]
        intro hh
        have := hinj hi (hpi.trans hh.symm)
        omega
  · rw [remove_of_not_mem_ready hr]
    exact iff_of_true hc fun ⟨_, _, _, _, hd, _⟩ => hr hd

/-- The first of the ready pipes gets the turn of a pipe that is displaced. -/
theorem current?_remove_of_displaces (h : q.WellFormed) (hm : q.midMessage = q.current?)
    (hd : q.Displaces p) : (q.remove p).current? = q.ready.head? := by
  obtain ⟨c, hmid, hlast, hne, hr, hh⟩ := hd
  have hc : q.current? = some c := hm.symm.trans hmid
  have hi := List.idxOf_lt_length_of_mem hr
  have hp : q.ready[q.ready.idxOf p]? = some p := by
    rw [List.getElem?_eq_getElem hi, List.getElem_idxOf]
  have hcursor : q.ready.idxOf p ≠ q.cursor := by
    intro he
    rw [he] at hp
    exact hne (Option.some.inj (hp.symm.trans hc))
  rw [remove_of_mem_ready hr]
  change (q.leave _).current? = _
  rw [current?_leave hc hi hcursor, if_neg]
  rintro (hlt | hz)
  · have := (current?_eq_getLast? h hc).1 hlast
    omega
  · rw [List.head?_eq_getElem?, ← hz] at hh
    exact hh hp

theorem perm_ready_park (hc : q.current? = some p) :
    (p :: (q.park q.cursor p).ready).Perm q.ready := by
  obtain ⟨hlt, hp⟩ := List.getElem?_eq_some_iff.1 hc
  have he : (swapRemove q.ready q.cursor).Perm (q.ready.eraseIdx q.cursor) := swapRemove_perm hlt
  apply (he.cons p).trans
  rw [← hp]
  exact List.getElem_cons_eraseIdx_perm hlt

theorem members_park (hc : q.current? = some p) : (q.park q.cursor p).members.Perm q.members := by
  simp only [members]
  apply List.perm_middle.trans
  rw [← List.cons_append]
  exact (perm_ready_park hc).append_right _

theorem WellFormed.park (h : q.WellFormed) (hc : q.current? = some p) :
    (q.park q.cursor p).WellFormed :=
  ⟨(members_park hc).nodup_iff.2 h.nodup, cursor_leave h.cursor _⟩

/-- The queue puts aside pipes that have nothing to read. -/
inductive Passes (dry : PipeId → Prop) : FairQueue → FairQueue → Prop where
  | refl (q : FairQueue) : Passes dry q q
  | park {q q' : FairQueue} {p : PipeId} (hc : q.current? = some p) (hd : dry p)
      (h : Passes dry (q.park q.cursor p) q') : Passes dry q q'

namespace Passes

variable {dry : PipeId → Prop}

theorem mono {dry' : PipeId → Prop} (h : Passes dry q q') (hd : ∀ p, dry p → dry' p) :
    Passes dry' q q' := by
  induction h with
  | refl => exact .refl _
  | park hc hp h ih => exact .park hc (hd _ hp) ih

theorem midMessage (h : Passes dry q q') : q'.midMessage = q.midMessage := by
  induction h with
  | refl => rfl
  | park hc hd h ih => exact ih

theorem members (h : Passes dry q q') : q'.members.Perm q.members := by
  induction h with
  | refl => exact .refl _
  | park hc hd h ih => exact ih.trans (members_park hc)

theorem wellFormed (h : Passes dry q q') (hq : q.WellFormed) : q'.WellFormed := by
  induction h with
  | refl => exact hq
  | park hc hd h ih => exact ih (hq.park hc)

theorem eq_of_current? (h : Passes dry q q') (hc : q.current? = some c) (hd : ¬ dry c) :
    q' = q := by
  cases h with
  | refl => rfl
  | park hc' hd' h => exact absurd (Option.some.inj (hc'.symm.trans hc) ▸ hd') hd

theorem mem_ready (h : Passes dry q q') (hp : p ∈ q.ready) (hd : ¬ dry p) : p ∈ q'.ready := by
  induction h with
  | refl => exact hp
  | park hc hdry h ih =>
    apply ih
    have hmem := (perm_ready_park hc).mem_iff.2 hp
    rcases List.mem_cons.1 hmem with rfl | hmem
    · exact absurd hdry hd
    · exact hmem

end Passes

section Next

variable {σ : Type} {read : PipeId → σ → Option Part × σ} {s s' : σ} {part : Part}

theorem next_of_none (hc : q.current? = none) : next read q s = (none, q, s) := by
  rw [next]
  split
  · rfl
  · next h => cases hc.symm.trans h

theorem next_of_part (hc : q.current? = some p) (hr : read p s = (some part, s')) :
    next read q s = (some (p, part), q.served p part, s') := by
  rw [next]
  split
  · next h => cases hc.symm.trans h
  · next h =>
    cases hc.symm.trans h
    rw [hr]

theorem next_of_dry (hc : q.current? = some p) (hr : read p s = (none, s')) :
    next read q s = next read (q.park q.cursor p) s' := by
  rw [next]
  split
  · next h => cases hc.symm.trans h
  · next h =>
    cases hc.symm.trans h
    rw [hr]

theorem next_inv {β : Type} (f : σ → β) (hread : ∀ p s, f (read p s).2 = f s) (q : FairQueue)
    (s : σ) : f (next read q s).2.2 = f s := by
  induction q, s using next.induct read with
  | case1 q s hc => rw [next_of_none hc]
  | case2 q s p hc part s' hr => rw [next_of_part hc hr, ← hread p s, hr]
  | case3 q s p hc s' hr ih => rw [next_of_dry hc hr, ih, ← hread p s, hr]

end Next

/-- What comes next comes from the pipe whose turn it is, once the empty ones are put aside. Asking
an empty pipe must change nothing. -/
theorem next_spec {σ : Type} {read : PipeId → σ → Option Part × σ} (q : FairQueue) (s : σ)
    (hread : ∀ p, (read p s).1 = none → (read p s).2 = s) :
    ∃ q', Passes (fun p => (read p s).1 = none) q q' ∧
      ((q'.current? = none ∧ next read q s = (none, q', s)) ∨
        ∃ p part s', q'.current? = some p ∧ read p s = (some part, s') ∧
          next read q s = (some (p, part), q'.served p part, s')) := by
  induction hn : q.ready.length using Nat.strongRecOn generalizing q with
  | ind n ih =>
    rw [next]
    split
    · next hc => exact ⟨q, .refl q, .inl ⟨hc, rfl⟩⟩
    · next p hc =>
      split
      · next part s' hr => exact ⟨q, .refl q, .inr ⟨p, part, s', hc, hr, rfl⟩⟩
      · next s' hr =>
        have hs : s' = s := by simpa [hr] using hread p (by rw [hr])
        have hd : (read p s).1 = none := by rw [hr]
        have hlt := cursor_lt hc
        have hlen : (q.park q.cursor p).ready.length < n := by
          simp only [park, length_ready_leave]
          omega
        obtain ⟨q', hq', hres⟩ := ih _ hlen (q.park q.cursor p) rfl
        rw [hs]
        exact ⟨q', .park hc hd hq', hres⟩

end FairQueue

end Zmtp
