import Mathlib.Algebra.Order.BigOperators.Group.List
import Mathlib.Algebra.Order.Ring.Nat
import Mathlib.Data.List.Perm.Subperm
import Zmtp.Proofs.FairQueue.Turn

namespace Zmtp

namespace FairQueue

open Function (update)

variable {q q' : FairQueue} {p x : PipeId} {l : List PipeId}

/-- The pipes that had their turn since the cursor was at the first place. -/
def passed (q : FairQueue) : List PipeId := q.ready.take q.cursor

theorem take_append_current (h : q.current? = some x) :
    q.ready.take (q.cursor + 1) = q.passed ++ [x] := by
  obtain ⟨hlt, rfl⟩ := List.getElem?_eq_some_iff.1 h
  exact (List.take_append_getElem hlt).symm

theorem WellFormed.passed_attach (h : q.WellFormed) (p : PipeId) :
    (q.attach p).passed = q.passed := by
  have hle : q.cursor ≤ q.ready.length := by
    rcases h.cursor with h0 | hlt
    · omega
    · omega
  simp only [passed, FairQueue.attach]
  exact List.take_append_of_le_length hle

theorem WellFormed.passed_activate (h : q.WellFormed) (p : PipeId) :
    (q.activate p).passed = q.passed := by
  rw [FairQueue.activate]
  split
  · exact h.passed_attach p
  · rfl

theorem passed_park (h : q.current? = some x) :
    (q.park q.cursor x).passed = if q.cursor + 1 < q.ready.length then q.passed else [] := by
  have hlt := cursor_lt h
  simp only [passed, park, leave, length_swapRemove]
  by_cases hl : q.cursor + 1 < q.ready.length
  · rw [if_pos hl, if_neg (by omega)]
    apply List.ext_getElem?
    intro j
    rw [List.getElem?_take, List.getElem?_take]
    by_cases hj : j < q.cursor
    · rw [if_pos hj, if_pos hj, getElem?_swapRemove (by omega), if_neg (by omega)]
    · rw [if_neg hj, if_neg hj]
  · rw [if_neg hl, if_pos (by omega), List.take_zero]

theorem passed_served (h : q.current? = some x) (part : Part) :
    (q.served x part).passed =
      if part.hasMore then q.passed
      else if q.cursor + 1 < q.ready.length then q.passed ++ [x] else [] := by
  have hlt := cursor_lt h
  rw [served]
  split
  · rfl
  · simp only [passed]
    by_cases hl : q.cursor + 1 < q.ready.length
    · rw [if_pos hl, Nat.mod_eq_of_lt hl]
      exact take_append_current h
    · have he : q.cursor + 1 = q.ready.length := by omega
      rw [if_neg hl, he, Nat.mod_self, List.take_zero]

theorem ready_eq_passed (h : q.current? = some x) (hl : ¬ q.cursor + 1 < q.ready.length) :
    q.ready = q.passed ++ [x] := by
  have hlt := cursor_lt h
  rw [← take_append_current h, List.take_of_length_le (by omega)]

theorem WellFormed.count_passed_le (h : q.WellFormed) (x : PipeId) : q.passed.count x ≤ 1 :=
  List.nodup_iff_count_le_one.1 (h.nodup_ready.sublist (List.take_sublist ..)) x

/-- How often a message of each other pipe has ended while one has waited: once if it had its turn
in this round, and once more if the round began meanwhile. In that case the one that waits has not
had its turn. -/
def Bypassed (q : FairQueue) (p : PipeId) (l : List PipeId) : Prop :=
  (∀ x ≠ p, l.count x ≤ q.passed.count x) ∨
    p ∉ q.passed ∧ ∀ x ≠ p, l.count x ≤ 1 + q.passed.count x

theorem bypassed_nil (q : FairQueue) (p : PipeId) : q.Bypassed p [] :=
  .inl fun _ _ => Nat.zero_le _

theorem Bypassed.congr (h : q.Bypassed p l) (hq : q'.passed = q.passed) :
    q'.Bypassed p l := by
  rw [Bypassed, hq]
  exact h

theorem Bypassed.count_le_two (h : q.Bypassed p l) (hq : q.WellFormed) (hx : x ≠ p) :
    l.count x ≤ 2 := by
  have hone := hq.count_passed_le x
  rcases h with h | ⟨-, h⟩
  · have := h x hx
    omega
  · have := h x hx
    omega

/-- A new round begins. The pipe that waits had its turn in the last one, or else it would be asked
before. -/
theorem Bypassed.wrap (h : q.Bypassed p l) (hq : q.WellFormed) (hp : p ∈ q.ready)
    (hc : q.current? = some x) (hx : x ≠ p) (hl : ¬ q.cursor + 1 < q.ready.length)
    (hq' : q'.passed = []) : q'.Bypassed p l ∧ q'.Bypassed p (l ++ [x]) := by
  have hready := ready_eq_passed hc hl
  have hnodup := hready ▸ hq.nodup_ready
  rcases h with h | ⟨hpassed, -⟩
  · have hcount {y : PipeId} (hy : y ≠ p) : (l ++ [x]).count y ≤ 1 := by
      have hone := List.nodup_iff_count_le_one.1 hnodup y
      have hle := h y hy
      rw [List.count_append] at hone ⊢
      omega
    rw [Bypassed, Bypassed, hq']
    refine ⟨.inr ⟨List.not_mem_nil, ?_⟩, .inr ⟨List.not_mem_nil, ?_⟩⟩
    · intro y hy
      have := hcount hy
      rw [List.count_append] at this
      omega
    · intro y hy
      exact Nat.le_add_right_of_le (hcount hy)
  · rw [hready] at hp
    rcases List.mem_append.1 hp with hp | hp
    · exact absurd hp hpassed
    · exact absurd (List.mem_singleton.1 hp).symm hx

theorem Bypassed.park (h : q.Bypassed p l) (hq : q.WellFormed) (hp : p ∈ q.ready)
    (hc : q.current? = some x) (hx : x ≠ p) : (q.park q.cursor x).Bypassed p l := by
  have hpassed := passed_park hc
  by_cases hl : q.cursor + 1 < q.ready.length
  · rw [if_pos hl] at hpassed
    exact h.congr hpassed
  · rw [if_neg hl] at hpassed
    exact (h.wrap hq hp hc hx hl hpassed).1

theorem Bypassed.passes {dry : PipeId → Prop} (h : q.Bypassed p l) (hq : q.WellFormed)
    (hp : p ∈ q.ready) (hd : ¬ dry p) (hs : Passes dry q q') : q'.Bypassed p l := by
  induction hs with
  | refl => exact h
  | @park q q' x hc hdry hs ih =>
    have hx : p ≠ x := by
      rintro rfl
      exact hd hdry
    exact ih (h.park hq hp hc hx.symm) (hq.park hc) ((hq.mem_ready_park hc).2 ⟨hp, hx⟩)

theorem Bypassed.served (h : q.Bypassed p l) (hq : q.WellFormed) (hp : p ∈ q.ready)
    (hc : q.current? = some x) (part : Part) :
    (part.hasMore = true → (q.served x part).Bypassed p l) ∧
      (part.hasMore = false → x ≠ p → (q.served x part).Bypassed p (l ++ [x])) := by
  have hpassed := passed_served hc part
  constructor
  · intro hm
    rw [if_pos hm] at hpassed
    exact h.congr hpassed
  · intro hm hx
    rw [hm, if_neg Bool.false_ne_true] at hpassed
    by_cases hl : q.cursor + 1 < q.ready.length
    · rw [if_pos hl] at hpassed
      rw [Bypassed, hpassed]
      simp only [List.count_append, List.mem_append, List.mem_singleton]
      rcases h with h | ⟨hnot, h⟩
      · left
        intro y hy
        exact Nat.add_le_add_right (h y hy) _
      · right
        refine ⟨?_, ?_⟩
        · rintro (hmem | rfl)
          · exact hnot hmem
          · exact hx rfl
        · intro y hy
          rw [← Nat.add_assoc]
          exact Nat.add_le_add_right (h y hy) _
    · rw [if_neg hl] at hpassed
      exact (h.wrap hq hp hc hx hl hpassed).2

namespace Desk

variable {d : Desk Inboxes} {ps : List PipeId}

/-- The pipe of which a message ends. -/
def ended (d : Desk Inboxes) : Act → Option PipeId
  | .next => d.answer.bind fun a => if a.2.hasMore then none else some a.1
  | _ => none

/-- The pipes of which a message ends, in order. -/
def finished : Desk Inboxes → List Act → List PipeId
  | _, [] => []
  | d, a :: as => (d.ended a).toList ++ finished (d.play a.use) as

/-- The pipe is ready and has the end of a message to read. -/
structure Waiting (p : PipeId) (d : Desk Inboxes) : Prop where
  ready : p ∈ d.queue.ready
  whole : ∃ part ∈ d.world p, part.hasMore = false

theorem Waiting.ne_nil (h : Waiting p d) : d.world p ≠ [] := by
  obtain ⟨part, hmem, -⟩ := h.whole
  exact List.ne_nil_of_mem hmem

theorem eq_of_pop_none {s : Inboxes} (h : (pop p s).1 = none) : (pop p s).2 = s ∧ s p = [] := by
  cases hs : s p with
  | nil =>
    rw [pop_of_nil hs]
    exact ⟨rfl, rfl⟩
  | cons part rest =>
    rw [pop_of_cons hs] at h
    cases h

theorem Waiting.exists_answer (h : Waiting p d) (hk : d.Keeps ps) :
    ∃ q x part rest, Passes (fun y => d.world y = []) d.queue q ∧ q.WellFormed ∧ p ∈ q.ready ∧
      q.current? = some x ∧ d.world x = part :: rest ∧ d.answer = some (x, part) ∧
        d.play (.next pop) = ⟨q.served x part, update d.world x rest⟩ := by
  obtain ⟨q, hs, hres⟩ := @next_spec Inboxes pop d.queue d.world fun y hy => (eq_of_pop_none hy).1
  have hs := hs.mono fun y hy => (eq_of_pop_none hy).2
  have hq := hs.wellFormed hk.wellFormed
  have hp := hs.mem_ready h.ready h.ne_nil
  rcases hres with ⟨hc, -⟩ | ⟨x, part, s', hc, hpop, hnext⟩
  · rw [hq.ready_eq_nil hc] at hp
    cases hp
  · cases hx : d.world x with
    | nil =>
      rw [pop_of_nil hx] at hpop
      cases hpop
    | cons part' rest =>
      rw [pop_of_cons hx] at hpop
      cases hpop
      refine ⟨q, x, part, rest, hs, hq, hp, hc, hx, ?_, ?_⟩
      · rw [answer, hnext]
      · simp only [Desk.play, hnext]

theorem ended_next {part : Part} (h : d.answer = some (x, part)) :
    d.ended .next = if part.hasMore then none else some x := by
  rw [ended, h]
  rfl

theorem Waiting.play {a : Act} (h : Waiting p d) (hk : d.Keeps ps) (hr : ∀ x, a ≠ .remove x)
    (he : d.ended a ≠ some p) : Waiting p (d.play a.use) := by
  obtain ⟨hready, part, hmem, hm⟩ := h
  cases a with
  | attach x => exact ⟨List.mem_append_left _ hready, part, hmem, hm⟩
  | activate x => exact ⟨mem_ready_activate_iff.2 (.inl hready), part, hmem, hm⟩
  | remove x => exact absurd rfl (hr x)
  | push x new =>
    refine ⟨hready, part, ?_, hm⟩
    change part ∈ update d.world x (d.world x ++ [new]) p
    rw [Function.update_apply]
    split
    · next hp => exact List.mem_append_left _ (hp ▸ hmem)
    · exact hmem
  | next =>
    obtain ⟨q, x, first, rest, -, -, hp, -, hx, ha, hplay⟩ :=
      Waiting.exists_answer ⟨hready, part, hmem, hm⟩ hk
    rw [ended_next ha] at he
    rw [Act.use, hplay]
    refine ⟨by rwa [ready_served], part, ?_, hm⟩
    simp only [Function.update_apply]
    split
    · next hpx =>
      -- the part that was given did not end the message, so the end is still there
      subst hpx
      rw [hx] at hmem
      rcases List.mem_cons.1 hmem with rfl | hmem
      · rw [hm] at he
        exact absurd rfl he
      · exact hmem
    · exact hmem

theorem Waiting.bypassed {a : Act} (h : Waiting p d) (hk : d.Keeps ps)
    (hr : ∀ x, a ≠ .remove x) (he : d.ended a ≠ some p) (hb : d.queue.Bypassed p l) :
    (d.play a.use).queue.Bypassed p (l ++ (d.ended a).toList) := by
  cases a with
  | attach x =>
    change (d.queue.attach x).Bypassed p (l ++ [])
    rw [List.append_nil]
    exact hb.congr (hk.wellFormed.passed_attach x)
  | activate x =>
    change (d.queue.activate x).Bypassed p (l ++ [])
    rw [List.append_nil]
    exact hb.congr (hk.wellFormed.passed_activate x)
  | remove x => exact absurd rfl (hr x)
  | push x new =>
    change d.queue.Bypassed p (l ++ [])
    rw [List.append_nil]
    exact hb
  | next =>
    obtain ⟨q, x, part, rest, hs, hq, hp, hc, hx, ha, hplay⟩ := h.exists_answer hk
    rw [ended_next ha] at he ⊢
    rw [Act.use, hplay]
    obtain ⟨hgoes, hends⟩ := (hb.passes hk.wellFormed h.ready h.ne_nil hs).served hq hp hc part
    cases hm : part.hasMore with
    | true =>
      rw [if_pos rfl, Option.toList_none, List.append_nil]
      exact hgoes hm
    | false =>
      rw [hm, if_neg Bool.false_ne_true] at he
      rw [if_neg Bool.false_ne_true]
      apply hends hm
      rintro rfl
      exact he rfl

theorem Waiting.perform {as : List Act} (h : Waiting p d) (hk : d.Keeps ps)
    (hf : Fresh ps (as.map Act.use)) (hr : ∀ x, .remove x ∉ as) (he : p ∉ d.finished as)
    (hb : d.queue.Bypassed p l) :
    Waiting p (d.perform as) ∧ (d.perform as).queue.Bypassed p (l ++ d.finished as) := by
  induction as generalizing d ps l with
  | nil =>
    rw [finished, List.append_nil]
    exact ⟨h, hb⟩
  | cons a as ih =>
    rw [finished, List.mem_append, not_or, Option.mem_toList] at he
    have hr' (x : PipeId) : a ≠ .remove x := by
      rintro rfl
      exact hr x List.mem_cons_self
    have hfirst := h.play hk hr' he.1
    have hbypassed := h.bypassed hk hr' he.1 hb
    rw [finished, ← List.append_assoc]
    exact ih hfirst (hk.play hf.1) hf.2 (fun x hx => hr x (List.mem_cons_of_mem _ hx)) he.2 hbypassed

theorem mem_members_of_ended {a : Act} (h : d.ended a = some x) : x ∈ d.queue.members := by
  cases a with
  | next =>
    obtain ⟨⟨y, part⟩, ha, hy⟩ := Option.bind_eq_some_iff.1 h
    split at hy
    · cases hy
    · cases hy
      exact List.mem_append_left _ (mem_ready_of_asked (next_eq_some_iff.1 ha))
  | _ => cases h

theorem mem_members_of_finished {as : List Act} (hk : d.Keeps ps)
    (hf : Fresh ps (as.map Act.use)) (hr : ∀ x, .remove x ∉ as)
    (h : x ∈ d.queue.members ∨ x ∈ d.finished as) : x ∈ (d.perform as).queue.members := by
  induction as generalizing d ps with
  | nil => exact h.resolve_right List.not_mem_nil
  | cons a as ih =>
    apply ih (hk.play hf.1) hf.2 fun y hy => hr y (List.mem_cons_of_mem _ hy)
    have hstays (hx : x ∈ d.queue.members) : x ∈ (d.play a.use).queue.members := by
      by_contra hgone
      have hremove := (hk.moves a.use).forgotten x hx hgone
      cases a with
      | remove y => exact hr y List.mem_cons_self
      | _ => cases hremove
    rw [finished, List.mem_append, Option.mem_toList] at h
    rcases h with hx | hx | hx
    · exact .inl (hstays hx)
    · exact .inl (hstays (mem_members_of_ended hx))
    · exact .inr hx

/-- How many parts are left to read. -/
def unread (d : Desk Inboxes) : Nat := (d.queue.members.map fun x => (d.world x).length).sum

theorem Waiting.unread_lt (h : Waiting p d) (hk : d.Keeps ps) :
    (d.play (.next pop)).unread < d.unread := by
  obtain ⟨q, x, part, rest, hs, -, -, hc, hx, -, hplay⟩ := h.exists_answer hk
  have hmem : x ∈ q.members := List.mem_append_left _ (mem_ready_of_current? hc)
  have hlt : (update d.world x rest x).length < (d.world x).length := by
    rw [Function.update_self, hx]
    exact Nat.lt_succ_self _
  rw [hplay, unread, members_served, unread,
    ← (hs.members.map fun y => (d.world y).length).sum_eq]
  apply List.sum_lt_sum _ _ _ ⟨x, hmem, hlt⟩
  intro y _
  by_cases hy : y = x
  · rw [hy]
    exact hlt.le
  · simp only [Function.update_of_ne hy, le_refl]

theorem Waiting.exists_finished (h : Waiting p d) (hk : d.Keeps ps) :
    ∃ n, p ∈ d.finished (List.replicate n .next) := by
  induction hu : d.unread using Nat.strongRecOn generalizing d with
  | ind u ih =>
    by_cases he : d.ended .next = some p
    · refine ⟨1, ?_⟩
      rw [List.replicate_one, finished, he]
      exact List.mem_append_left _ (List.mem_singleton.2 rfl)
    · have hplay := h.play hk (a := .next) (fun x => nofun) he
      obtain ⟨n, hn⟩ := ih _ (hu ▸ h.unread_lt hk) hplay (hk.play (u := .next pop) trivial) rfl
      refine ⟨n + 1, ?_⟩
      rw [List.replicate_succ, finished]
      exact List.mem_append_right _ hn

/-- While a pipe is ready and has a whole message to read, and no pipe is removed, at most two
messages of each other pipe end before one of its own does, and `next` always gives something. If
`next` is called often enough, a message of it does end. Pipes may even be empty in the middle of a
message. -/
theorem bypass_run (as bs : List Act) (hf : Fresh [] ((as ++ bs).map Act.use))
    (hr : ∀ x, .remove x ∉ bs) (hw : Waiting p (empty.perform as))
    (he : p ∉ (empty.perform as).finished bs) :
    (∀ x ≠ p, ((empty.perform as).finished bs).count x ≤ 2) ∧
      ((empty.perform as).finished bs).length ≤
        2 * ((enrolled [] ((as ++ bs).map Act.use)).length - 1) ∧
      p ∈ (empty.perform (as ++ bs)).queue.ready ∧
      (empty.perform (as ++ bs)).answer.isSome ∧
      ∃ n, p ∈ (empty.perform (as ++ bs)).finished (List.replicate n .next) := by
  have hall : (empty.perform (as ++ bs)).Keeps _ := keeps_run _ hf
  rw [List.map_append, fresh_append] at hf
  have hk : (empty.perform as).Keeps _ := keeps_run _ hf.1
  obtain ⟨hwaits, hbypassed⟩ := hw.perform hk hf.2 hr he (bypassed_nil _ p)
  have hmem {x : PipeId} (hx : x ∈ (empty.perform as).finished bs) :=
    mem_members_of_finished hk hf.2 hr (.inr hx)
  rw [← perform_append] at hwaits hbypassed hmem
  have hcount {x : PipeId} (hx : x ≠ p) : ((empty.perform as).finished bs).count x ≤ 2 :=
    hbypassed.count_le_two hall.wellFormed hx
  obtain ⟨q, x, part, rest, -, -, -, -, -, ha, -⟩ := hwaits.exists_answer hall
  refine ⟨fun x hx => hcount hx, ?_, hwaits.ready, by rw [ha]; rfl, hwaits.exists_finished hall⟩
  have hp : p ∈ (empty.perform (as ++ bs)).queue.members := List.mem_append_left _ hwaits.ready
  have htwice : ((empty.perform as).finished bs).Subperm
      ((empty.perform (as ++ bs)).queue.members.erase p ++
        (empty.perform (as ++ bs)).queue.members.erase p) := by
    apply List.subperm_ext_iff.2
    intro x hx
    have hne : x ≠ p := by
      rintro rfl
      exact he hx
    rw [List.count_append, List.count_erase_of_ne hne,
      List.count_eq_one_of_mem hall.wellFormed.nodup (hmem hx)]
    exact hcount hne
  calc
    ((empty.perform as).finished bs).length ≤ _ := htwice.length_le
    _ = 2 * ((empty.perform (as ++ bs)).queue.members.length - 1) := by
      rw [List.length_append, List.length_erase_of_mem hp, Nat.two_mul]
    _ = 2 * ((enrolled [] ((as ++ bs).map Act.use)).length - 1) := by
      rw [hall.members.length_eq]

/-- The second of three pipes has had its turn, and so has the first, which is empty now. -/
def emptyFirst : List Act :=
  [.attach ⟨1⟩, .attach ⟨2⟩, .attach ⟨3⟩, .push ⟨1⟩ (.ofBytes [1]), .push ⟨2⟩ (.ofBytes [2]),
    .push ⟨2⟩ (.ofBytes [2, 2]), .push ⟨3⟩ (.ofBytes [3]), .push ⟨3⟩ (.ofBytes [3, 3]), .next, .next]

/-- While the second pipe waits, the third is served twice in a row, as it takes the place of the
first. The second one is served then. -/
theorem bypass_run_emptyFirst :
    (empty.perform emptyFirst).finished [.next, .next] = [⟨3⟩, ⟨3⟩] ∧
      ((empty.perform emptyFirst).finished [.next, .next]).count ⟨3⟩ ≤ 2 ∧
      (empty.perform (emptyFirst ++ [.next, .next])).answer = some (⟨2⟩, .ofBytes [2, 2]) ∧
      ∃ n, ⟨2⟩ ∈
        (empty.perform (emptyFirst ++ [.next, .next])).finished (List.replicate n .next) := by
  have hended : (empty.perform emptyFirst).finished [.next, .next] = [⟨3⟩, ⟨3⟩] := by
    decide +kernel
  have hwaits : Waiting ⟨2⟩ (empty.perform emptyFirst) :=
    ⟨by decide +kernel, .ofBytes [2, 2], by decide +kernel, rfl⟩
  obtain ⟨hcount, -, -, -, hserved⟩ := bypass_run emptyFirst [.next, .next] (by decide +kernel)
    (by intro x; simp) hwaits (by rw [hended]; decide)
  exact ⟨hended, hcount ⟨3⟩ (by decide), by decide +kernel, hserved⟩

end Desk

end FairQueue

end Zmtp
