import Zmtp.Proofs.FairQueue.Asking

namespace Zmtp

namespace FairQueue

/-- One use of a fair queue whose pipes are read from a state. -/
inductive Use (σ : Type) where
  | attach (p : PipeId)
  | activate (p : PipeId)
  | remove (p : PipeId)
  | next (read : PipeId → σ → Option Part × σ)
  /-- What the pipes are read from changes between two calls. -/
  | tend (change : σ → σ)

namespace Use

variable {σ : Type}

/-- Keeps the list of the pipes that were attached and not removed since. -/
def enrol (ps : List PipeId) : Use σ → List PipeId
  | attach p => p :: ps
  | remove p => ps.erase p
  | _ => ps

/-- Only a pipe that is not attached is attached. -/
def Fresh (ps : List PipeId) : Use σ → Prop
  | attach p => p ∉ ps
  | _ => True

instance (ps : List PipeId) : DecidablePred (Fresh ps : Use σ → Prop)
  | attach _ => inferInstanceAs (Decidable (_ ∉ _))
  | activate _ | remove _ | next _ | tend _ => inferInstanceAs (Decidable True)

end Use

/-- The pipes that are attached after the given uses. -/
def enrolled {σ : Type} (ps : List PipeId) (us : List (Use σ)) : List PipeId :=
  us.foldl Use.enrol ps

def Fresh {σ : Type} : List PipeId → List (Use σ) → Prop
  | _, [] => True
  | ps, u :: us => u.Fresh ps ∧ Fresh (u.enrol ps) us

instance decidableFresh {σ : Type} : ∀ ps (us : List (Use σ)), Decidable (Fresh ps us)
  | _, [] => inferInstanceAs (Decidable True)
  | ps, u :: us =>
    have := decidableFresh (u.enrol ps) us
    inferInstanceAs (Decidable (u.Fresh ps ∧ Fresh (u.enrol ps) us))

theorem fresh_append {σ : Type} {ps : List PipeId} {us vs : List (Use σ)} :
    Fresh ps (us ++ vs) ↔ Fresh ps us ∧ Fresh (enrolled ps us) vs := by
  induction us generalizing ps with
  | nil => exact (and_iff_right trivial).symm
  | cons u us ih =>
    rw [List.cons_append, Fresh, Fresh, ih, and_assoc]
    rfl

/-- A fair queue, and what its pipes are read from. -/
structure Desk (σ : Type) where
  queue : FairQueue
  world : σ

namespace Desk

variable {σ : Type} {d : Desk σ} {ps : List PipeId} {p : PipeId}

def start (world : σ) : Desk σ := ⟨.empty, world⟩

def play (d : Desk σ) : Use σ → Desk σ
  | .attach p => { d with queue := d.queue.attach p }
  | .activate p => { d with queue := d.queue.activate p }
  | .remove p => { d with queue := d.queue.remove p }
  | .next read => ⟨(d.queue.next read d.world).2.1, (d.queue.next read d.world).2.2⟩
  | .tend change => { d with world := change d.world }

def run (d : Desk σ) (us : List (Use σ)) : Desk σ := us.foldl play d

/-- The queue holds the given pipes, each of them once, and its cursor is in order. -/
structure Keeps (d : Desk σ) (ps : List PipeId) : Prop where
  wellFormed : d.queue.WellFormed
  members : d.queue.members.Perm ps

theorem keeps_start (world : σ) : (start world).Keeps [] := ⟨wellFormed_empty, .refl _⟩

theorem Keeps.play {u : Use σ} (h : d.Keeps ps) (hu : u.Fresh ps) :
    (d.play u).Keeps (u.enrol ps) := by
  obtain ⟨hq, hm⟩ := h
  cases u with
  | attach p =>
    exact ⟨hq.attach fun hp => hu (hm.mem_iff.1 hp), (members_attach d.queue p).trans (hm.cons p)⟩
  | activate p => exact ⟨hq.activate, (members_activate d.queue p).trans hm⟩
  | remove p => exact ⟨hq.remove p, (members_remove d.queue p).trans (hm.erase p)⟩
  | next read => exact ⟨hq.next read d.world, (members_next read d.queue d.world).trans hm⟩
  | tend change => exact ⟨hq, hm⟩

theorem Keeps.run {us : List (Use σ)} (h : d.Keeps ps) (hu : Fresh ps us) :
    (d.run us).Keeps (enrolled ps us) := by
  induction us generalizing d ps with
  | nil => exact h
  | cons u us ih => exact ih (h.play hu.1) hu.2

theorem keeps_run (world : σ) {us : List (Use σ)} (hu : Fresh [] us) :
    ((start world).run us).Keeps (enrolled [] us) :=
  (keeps_start world).run hu

/-- What one call of `next` asks, gives and puts aside. -/
structure Answers (d : Desk σ) (read : PipeId → σ → Option Part × σ) : Prop where
  ready : ∀ a ∈ asked read d.queue d.world, a.1 ∈ d.queue.ready
  once : ((asked read d.queue d.world).map Prod.fst).Nodup
  gives : ∀ p part, (d.queue.next read d.world).1 = some (p, part) ↔
    (p, some part) ∈ asked read d.queue d.world
  dry : (d.queue.next read d.world).1 = none ↔
    ∀ p ∈ d.queue.ready, (p, none) ∈ asked read d.queue d.world
  exhausted : (d.queue.next read d.world).1 = none → (d.play (.next read)).queue.ready = []
  parked : ∀ p ∈ d.queue.ready,
    p ∉ (d.play (.next read)).queue.ready ↔ (p, none) ∈ asked read d.queue d.world
  search : ∃ q, Passes (fun p => (p, none) ∈ asked read d.queue d.world) d.queue q ∧
    (q.current? = none ∧ (d.queue.next read d.world).1 = none ∧
        (d.play (.next read)).queue = q ∨
      ∃ p part, q.current? = some p ∧ (d.queue.next read d.world).1 = some (p, part) ∧
        (d.play (.next read)).queue = q.served p part)
  /-- At every moment of the search, there is a pipe to ask or none is ready. -/
  inBounds : ∀ q, Passes (fun p => (p, none) ∈ asked read d.queue d.world) d.queue q → q.InBounds

/-- How pipes become ready, cease to be so and are forgotten. -/
structure Moves (d : Desk σ) (u : Use σ) : Prop where
  readied : ∀ p ∉ d.queue.ready, p ∈ (d.play u).queue.ready → u = .attach p ∨ u = .activate p
  unreadied : ∀ p ∈ d.queue.ready, p ∉ (d.play u).queue.ready →
    u = .remove p ∨ ∃ read, u = .next read ∧ (p, none) ∈ asked read d.queue d.world
  forgotten : ∀ p ∈ d.queue.members, p ∉ (d.play u).queue.members → u = .remove p

/-- The queue of the given pipes is in order, and whatever is done next keeps to the rules. -/
structure Orderly (d : Desk σ) (ps : List PipeId) : Prop where
  members : d.queue.members.Perm ps
  nodup : d.queue.members.Nodup
  ready_le : d.queue.ready.length ≤ d.queue.size
  inBounds : d.queue.InBounds
  attached : ∀ p, p ∈ (d.play (.attach p)).queue.ready
  activated : ∀ p ∈ d.queue.members, p ∈ (d.play (.activate p)).queue.ready
  moves : ∀ u : Use σ, d.Moves u
  answers : ∀ read, d.Answers read

theorem Keeps.answers (h : d.Keeps ps) (read : PipeId → σ → Option Part × σ) : d.Answers read where
  ready a ha := mem_ready_of_asked ha
  once := h.wellFormed.nodup_asked
  gives p part := next_eq_some_iff
  dry := h.wellFormed.next_eq_none_iff
  exhausted hn := by
    apply List.eq_nil_iff_forall_not_mem.2
    intro p hp
    obtain ⟨hr, hdry⟩ := h.wellFormed.mem_ready_next.1 hp
    exact hdry (h.wellFormed.next_eq_none_iff.1 hn p hr)
  parked p hp := by
    change p ∉ (d.queue.next read d.world).2.1.ready ↔ _
    rw [h.wellFormed.mem_ready_next, not_and_not_right]
    exact ⟨fun hdry => hdry hp, fun hdry _ => hdry⟩
  search := exists_passes_next read d.queue d.world
  inBounds q hq := (hq.wellFormed h.wellFormed).inBounds

theorem Keeps.moves (h : d.Keeps ps) (u : Use σ) : d.Moves u := by
  cases u with
  | attach x =>
    refine ⟨?_, ?_, ?_⟩
    · intro p hp hp'
      rcases List.mem_append.1 hp' with hp' | hp'
      · exact absurd hp' hp
      · exact .inl (by rw [List.mem_singleton.1 hp'])
    · intro p hp hp'
      exact absurd (List.mem_append_left _ hp) hp'
    · intro p hp hp'
      exact absurd ((members_attach d.queue x).mem_iff.2 (List.mem_cons_of_mem _ hp)) hp'
  | activate x =>
    refine ⟨?_, ?_, ?_⟩
    · intro p hp hp'
      rcases mem_ready_activate_iff.1 hp' with hp' | ⟨rfl, -⟩
      · exact absurd hp' hp
      · exact .inr rfl
    · intro p hp hp'
      exact absurd (mem_ready_activate_iff.2 (.inl hp)) hp'
    · intro p hp hp'
      exact absurd ((members_activate d.queue x).mem_iff.2 hp) hp'
  | remove x =>
    have hgone {p : PipeId} (hp : p ∈ d.queue.members)
        (hp' : p ∉ (d.play (.remove x)).queue.members) : p = x := by
      by_contra hne
      exact hp' ((members_remove d.queue x).mem_iff.2 ((List.mem_erase_of_ne hne).2 hp))
    refine ⟨?_, ?_, ?_⟩
    · intro p hp hp'
      exact absurd (h.wellFormed.mem_ready_remove.1 hp').1 hp
    · intro p hp hp'
      have hx : p = x := by
        by_contra hne
        exact hp' (h.wellFormed.mem_ready_remove.2 ⟨hp, hne⟩)
      exact .inl (by rw [hx])
    · intro p hp hp'
      rw [hgone hp hp']
  | next read =>
    refine ⟨?_, ?_, ?_⟩
    · intro p hp hp'
      exact absurd (h.wellFormed.mem_ready_next.1 hp').1 hp
    · intro p hp hp'
      exact .inr ⟨read, rfl, ((h.answers read).parked p hp).1 hp'⟩
    · intro p hp hp'
      exact absurd ((members_next read d.queue d.world).mem_iff.2 hp) hp'
  | tend change =>
    exact ⟨fun p hp hp' => absurd hp' hp, fun p hp hp' => absurd hp hp',
      fun p hp hp' => absurd hp hp'⟩

/-- However a queue is used and whatever its pipes give, it holds the pipes that are attached and
keeps to the rules. -/
theorem orderly_run (world : σ) (us : List (Use σ)) (hu : Fresh [] us) :
    ((start world).run us).Orderly (enrolled [] us) := by
  have h := keeps_run world hu
  exact
    { members := h.members
      nodup := h.wellFormed.nodup
      ready_le := Nat.le_add_right ..
      inBounds := h.wellFormed.inBounds
      attached := fun p => List.mem_append_right _ (List.mem_singleton.2 rfl)
      activated := fun p hp => mem_ready_activate hp
      moves := h.moves
      answers := h.answers }

/-- Pipes whose answers are known beforehand, whichever of them is asked. -/
def foretold (_ : PipeId) (answers : List (Option Part)) : Option Part × List (Option Part) :=
  (answers.headD none, answers.tail)

def foretoldUses : List (Use (List (Option Part))) :=
  [.attach ⟨1⟩, .attach ⟨2⟩, .attach ⟨3⟩, .next foretold, .next foretold, .activate ⟨1⟩,
    .next foretold, .tend fun _ => [none, some (.ofBytes [3])], .remove ⟨2⟩, .activate ⟨3⟩,
    .activate ⟨1⟩]

/-- All pipes were put aside, then one left and two came back, of which the first has nothing and is
put aside again. -/
theorem orderly_run_foretold :
    let last := (start [none, some (.ofMore [1] true), some (.ofBytes [2])]).run foretoldUses
    last.queue = ⟨[⟨3⟩, ⟨1⟩], [], 0, none⟩ ∧ last.Orderly [⟨3⟩, ⟨1⟩] ∧
      asked foretold last.queue last.world = [(⟨3⟩, none), (⟨1⟩, some (.ofBytes [3]))] ∧
      ⟨3⟩ ∉ (last.play (.next foretold)).queue.ready := by
  intro last
  have h : last.Orderly [⟨3⟩, ⟨1⟩] := orderly_run _ foretoldUses (by decide)
  have hasked : asked foretold last.queue last.world =
      [(⟨3⟩, none), (⟨1⟩, some (.ofBytes [3]))] := by
    decide +kernel
  have hready : ⟨3⟩ ∈ last.queue.ready := by decide +kernel
  refine ⟨by decide +kernel, h, hasked, ?_⟩
  apply ((h.answers foretold).parked ⟨3⟩ hready).2
  rw [hasked]
  exact List.mem_cons_self

end Desk

end FairQueue

end Zmtp
