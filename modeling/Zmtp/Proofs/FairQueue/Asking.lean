import Mathlib.Data.List.Nodup
import Zmtp.Proofs.FairQueue

namespace Zmtp

namespace FairQueue

variable {σ : Type} {read : PipeId → σ → Option Part × σ} {q : FairQueue} {s s' : σ} {p : PipeId}
  {part : Part}

/-- Asks as `read` does, and notes whom and what came of it. -/
def noting (read : PipeId → σ → Option Part × σ) (p : PipeId)
    (s : List (PipeId × Option Part) × σ) : Option Part × List (PipeId × Option Part) × σ :=
  ((read p s.2).1, s.1 ++ [(p, (read p s.2).1)], (read p s.2).2)

/-- The pipes that `next` asks, in order, and what each of them gives. -/
def asked (read : PipeId → σ → Option Part × σ) (q : FairQueue) (s : σ) :
    List (PipeId × Option Part) :=
  (next (noting read) q ([], s)).2.2.1

theorem noting_eq {o : Option Part} (hr : read p s = (o, s'))
    (notes : List (PipeId × Option Part)) :
    noting read p (notes, s) = (o, notes ++ [(p, o)], s') := by
  simp only [noting, hr]

theorem next_noting (read : PipeId → σ → Option Part × σ) (q : FairQueue) (s : σ)
    (notes : List (PipeId × Option Part)) :
    next (noting read) q (notes, s) =
      ((next read q s).1, (next read q s).2.1, notes ++ asked read q s, (next read q s).2.2) := by
  induction q, s using next.induct read generalizing notes with
  | case1 q s hc =>
    rw [asked, next_of_none hc, next_of_none hc, next_of_none hc, List.append_nil]
  | case2 q s p hc part s' hr =>
    rw [asked, next_of_part hc (noting_eq hr notes), next_of_part hc (noting_eq hr []),
      next_of_part hc hr, List.nil_append]
  | case3 q s p hc s' hr ih =>
    rw [asked, next_of_dry hc (noting_eq hr notes), next_of_dry hc (noting_eq hr []),
      next_of_dry hc hr, ih, ih, List.nil_append, List.append_assoc]

theorem asked_of_none (hc : q.current? = none) : asked read q s = [] := by
  rw [asked, next_of_none hc]

theorem asked_of_part (hc : q.current? = some p) (hr : read p s = (some part, s')) :
    asked read q s = [(p, some part)] := by
  rw [asked, next_of_part hc (noting_eq hr []), List.nil_append]

theorem asked_of_dry (hc : q.current? = some p) (hr : read p s = (none, s')) :
    asked read q s = (p, none) :: asked read (q.park q.cursor p) s' := by
  rw [asked, next_of_dry hc (noting_eq hr []), next_noting, List.nil_append, List.singleton_append]

theorem head?_asked (read : PipeId → σ → Option Part × σ) (q : FairQueue) (s : σ) :
    (asked read q s).head?.map Prod.fst = q.current? := by
  cases hc : q.current? with
  | none =>
    rw [asked_of_none hc]
    rfl
  | some p =>
    cases hr : read p s with
    | mk o s' =>
      cases o with
      | none =>
        rw [asked_of_dry hc hr]
        rfl
      | some part =>
        rw [asked_of_part hc hr]
        rfl

/-- The queue puts the empty pipes aside that it asks, and gives what the next one has. -/
theorem exists_passes_next (read : PipeId → σ → Option Part × σ) (q : FairQueue) (s : σ) :
    ∃ q', Passes (fun p => (p, none) ∈ asked read q s) q q' ∧
      (q'.current? = none ∧ (next read q s).1 = none ∧ (next read q s).2.1 = q' ∨
        ∃ p part, q'.current? = some p ∧ (next read q s).1 = some (p, part) ∧
          (next read q s).2.1 = q'.served p part) := by
  induction q, s using next.induct read with
  | case1 q s hc =>
    rw [next_of_none hc]
    exact ⟨q, .refl q, .inl ⟨hc, rfl, rfl⟩⟩
  | case2 q s p hc part s' hr =>
    rw [next_of_part hc hr]
    exact ⟨q, .refl q, .inr ⟨p, part, hc, rfl, rfl⟩⟩
  | case3 q s p hc s' hr ih =>
    obtain ⟨q', hq', hres⟩ := ih
    rw [next_of_dry hc hr, asked_of_dry hc hr]
    refine ⟨q', .park hc List.mem_cons_self (hq'.mono ?_), hres⟩
    intro x hx
    exact List.mem_cons_of_mem _ hx

theorem WellFormed.next (h : q.WellFormed) (read : PipeId → σ → Option Part × σ) (s : σ) :
    (next read q s).2.1.WellFormed := by
  obtain ⟨q', hs, ⟨-, -, hq⟩ | ⟨p, part, hc, -, hq⟩⟩ := exists_passes_next read q s
  · rw [hq]
    exact hs.wellFormed h
  · rw [hq]
    exact (hs.wellFormed h).served hc part

theorem members_next (read : PipeId → σ → Option Part × σ) (q : FairQueue) (s : σ) :
    (next read q s).2.1.members.Perm q.members := by
  obtain ⟨q', hs, ⟨-, -, hq⟩ | ⟨p, part, -, -, hq⟩⟩ := exists_passes_next read q s
  · rw [hq]
    exact hs.members
  · rw [hq, members_served]
    exact hs.members

theorem mem_ready_of_asked {a : PipeId × Option Part} (ha : a ∈ asked read q s) :
    a.1 ∈ q.ready := by
  induction q, s using next.induct read with
  | case1 q s hc =>
    rw [asked_of_none hc] at ha
    cases ha
  | case2 q s p hc part s' hr =>
    rw [asked_of_part hc hr, List.mem_singleton] at ha
    rw [ha]
    exact mem_ready_of_current? hc
  | case3 q s p hc s' hr ih =>
    rw [asked_of_dry hc hr, List.mem_cons] at ha
    apply (perm_ready_park hc).mem_iff.1
    rcases ha with rfl | ha
    · exact List.mem_cons_self
    · exact List.mem_cons_of_mem _ (ih ha)

theorem WellFormed.mem_ready_park (h : q.WellFormed) (hc : q.current? = some p) {x : PipeId} :
    x ∈ (q.park q.cursor p).ready ↔ x ∈ q.ready ∧ x ≠ p := by
  have hperm := perm_ready_park hc
  have hnodup := List.nodup_cons.1 (hperm.nodup_iff.2 h.nodup_ready)
  rw [← hperm.mem_iff, List.mem_cons]
  constructor
  · intro hx
    refine ⟨.inr hx, ?_⟩
    rintro rfl
    exact hnodup.1 hx
  · rintro ⟨rfl | hx, hne⟩
    · exact absurd rfl hne
    · exact hx

theorem WellFormed.nodup_asked (h : q.WellFormed) :
    ((asked read q s).map Prod.fst).Nodup := by
  induction q, s using next.induct read with
  | case1 q s hc =>
    rw [asked_of_none hc]
    exact List.nodup_nil
  | case2 q s p hc part s' hr =>
    rw [asked_of_part hc hr]
    exact List.nodup_singleton p
  | case3 q s p hc s' hr ih =>
    rw [asked_of_dry hc hr, List.map_cons, List.nodup_cons]
    refine ⟨?_, ih (h.park hc)⟩
    intro hmem
    obtain ⟨a, ha, rfl⟩ := List.mem_map.1 hmem
    exact ((h.mem_ready_park hc).1 (mem_ready_of_asked ha)).2 rfl

theorem WellFormed.mem_ready_next (h : q.WellFormed) {x : PipeId} :
    x ∈ (FairQueue.next read q s).2.1.ready ↔ x ∈ q.ready ∧ (x, none) ∉ asked read q s := by
  induction q, s using next.induct read with
  | case1 q s hc =>
    rw [next_of_none hc, asked_of_none hc]
    simp
  | case2 q s p hc part s' hr =>
    rw [next_of_part hc hr, asked_of_part hc hr]
    simp
  | case3 q s p hc s' hr ih =>
    rw [next_of_dry hc hr, asked_of_dry hc hr, ih (h.park hc), h.mem_ready_park hc,
      List.mem_cons, not_or, and_assoc]
    simp

theorem next_eq_some_iff :
    (next read q s).1 = some (p, part) ↔ (p, some part) ∈ asked read q s := by
  induction q, s using next.induct read with
  | case1 q s hc =>
    rw [next_of_none hc, asked_of_none hc]
    simp
  | case2 q s c hc part' s' hr =>
    rw [next_of_part hc hr, asked_of_part hc hr]
    simp [eq_comm]
  | case3 q s c hc s' hr ih =>
    rw [next_of_dry hc hr, asked_of_dry hc hr, ih]
    simp

theorem WellFormed.next_eq_none_iff (h : q.WellFormed) :
    (FairQueue.next read q s).1 = none ↔ ∀ p ∈ q.ready, (p, none) ∈ asked read q s := by
  induction q, s using next.induct read with
  | case1 q s hc =>
    rw [next_of_none hc, h.ready_eq_nil hc]
    simp
  | case2 q s p hc part s' hr =>
    rw [next_of_part hc hr, asked_of_part hc hr]
    refine iff_of_false (Option.some_ne_none _) ?_
    intro hdry
    have hp := hdry p (mem_ready_of_current? hc)
    simp at hp
  | case3 q s p hc s' hr ih =>
    rw [next_of_dry hc hr, asked_of_dry hc hr, ih (h.park hc)]
    constructor
    · intro hdry x hx
      by_cases hp : x = p
      · rw [hp]
        exact List.mem_cons_self
      · exact List.mem_cons_of_mem _ (hdry x ((h.mem_ready_park hc).2 ⟨hx, hp⟩))
    · intro hdry x hx
      obtain ⟨hx, hp⟩ := (h.mem_ready_park hc).1 hx
      rcases List.mem_cons.1 (hdry x hx) with he | hmem
      · exact absurd (congrArg Prod.fst he) hp
      · exact hmem

end FairQueue

end Zmtp
