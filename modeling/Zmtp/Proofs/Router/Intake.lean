import Mathlib.Logic.Function.Basic
import Zmtp.Proofs.FairQueue
import Zmtp.Router

namespace Zmtp

open Function (update)

namespace Assoc

variable {κ ν : Type} [DecidableEq κ]

theorem find_eq_of_mem {es : List (κ × ν)} (hd : (es.map Prod.fst).Nodup) {e : κ × ν}
    (he : e ∈ es) : find es e.1 = some e.2 := by
  induction es with
  | nil => cases he
  | cons d es ih =>
    rw [List.map_cons, List.nodup_cons] at hd
    rcases List.mem_cons.1 he with rfl | hm
    · simp [find]
    · have hne : d.1 ≠ e.1 := by
        intro h
        exact hd.1 (h ▸ List.mem_map_of_mem hm)
      rw [find, if_neg hne]
      exact ih hd.2 hm

theorem modify_eq_self {m : Assoc κ ν} {k : κ} {f : ν → ν}
    (h : ∀ v, m.get? k = some v → f v = v) : m.modify k f = m := by
  apply Assoc.ext
  refine (List.map_congr_left ?_).trans (List.map_id _)
  intro e he
  split
  · next hk =>
    have hv := find_eq_of_mem m.nodup he
    rw [hk] at hv
    rw [h _ hv]
    rfl
  · rfl

end Assoc

/-- The near end of a link, as far as the far end can change it: what is staged at the near end is
left out. -/
def Link.front (l : Link) : LinkEnd := { l.left with staged := [] }

namespace Link

@[simp] theorem front_setIdentity (l : Link) (i : Identity) :
    (l.setIdentity .left i).front = { l.front with identity := i } := rfl

@[simp] theorem front_rollback (l : Link) (s : Side) : (l.rollback s).front = l.front := by
  cases s <;> rfl

theorem front_write? {l l' : Link} {s : Side} {p : Part} (h : l.write? s p = some l') :
    l'.front = l.front := by
  unfold write? at h
  split at h
  · cases h
    cases s <;> rfl
  · cases h

@[simp] theorem front_flush_left (l : Link) : (l.flush .left).front = l.front := by
  simp only [flush]
  split <;> rfl

theorem read_left_of_nil {l : Link} (h : l.front.inbox = []) : l.read .left = (none, l) := by
  simp only [read, get, show l.left.inbox = [] from h]

theorem read_left_of_cons {l : Link} {part : Part} {rest : List Part}
    (h : l.front.inbox = part :: rest) :
    ∃ l', l.read .left = (some part, l') ∧ l'.front = { l.front with inbox := rest } := by
  simp only [read, get, show l.left.inbox = part :: rest from h]
  exact ⟨_, rfl, rfl⟩

end Link

/-- What receiving depends on. -/
@[ext] structure Intake where
  front : PipeId → Option LinkEnd
  anonymous : PipeId → Option Anonymous
  /-- Under which name the peer behind a pipe is known. -/
  name : PipeId → Option Identity
  /-- Whose name it is. -/
  owner : Identity → Option PipeId
  queue : FairQueue
  source : Option PipeId
  moreIn : Bool
  prefetchedName : Option Part
  prefetchedPart : Option Part

def Router.intake (r : Router) : Intake where
  front := fun p => (r.link? p).map Link.front
  anonymous := r.anonymous.get?
  name := r.identity?
  owner := fun i => (r.table.route? i).map Route.pipe
  queue := r.queue
  source := r.source
  moreIn := r.moreIn
  prefetchedName := r.prefetchedName
  prefetchedPart := r.prefetchedPart

namespace Intake

/-- Every attached pipe is either anonymous or known by a name of its own, and those known are the
ones that the queue serves. -/
structure Consistent (v : Intake) : Prop where
  attached : ∀ p, (v.front p).isSome ↔ (v.anonymous p).isSome ∨ (v.name p).isSome
  apart : ∀ p, (v.anonymous p).isSome → v.name p = none
  inverse : ∀ p i, v.name p = some i ↔ v.owner i = some p
  queue : v.queue.WellFormed
  queued : ∀ p, p ∈ v.queue.members ↔ (v.name p).isSome
  /-- The link itself has the name of its peer. -/
  labelled : ∀ p e i, v.front p = some e → v.name p = some i → e.identity = i
  /-- What was taken last came from a peer that is still there. -/
  sourced : ∀ p, v.source = some p → (v.name p).isSome
  midway : ∀ p, v.queue.midMessage = some p → v.source = some p

variable {v : Intake} {p : PipeId}

theorem Consistent.front_of_name (h : v.Consistent) (hn : (v.name p).isSome) :
    ∃ e, v.front p = some e :=
  Option.isSome_iff_exists.1 ((h.attached p).2 (.inr hn))

theorem Consistent.detached (h : v.Consistent) (hf : v.front p = none) :
    v.anonymous p = none ∧ v.name p = none := by
  have ha := mt (h.attached p).2 (by rw [hf]; exact Bool.false_ne_true)
  rw [not_or, Option.not_isSome_iff_eq_none, Option.not_isSome_iff_eq_none] at ha
  exact ha

end Intake

end Zmtp
