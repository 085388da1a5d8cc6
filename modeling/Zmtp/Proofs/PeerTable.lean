import Mathlib.Data.List.Nodup
import Mathlib.Data.List.Perm.Basic
import Zmtp.Proofs.Router.Moves

namespace Zmtp

open Function (update update_apply update_of_ne)

namespace Assoc

variable {κ ν : Type} [DecidableEq κ]

theorem mem_of_find {es : List (κ × ν)} {k : κ} {v : ν} (h : find es k = some v) :
    (k, v) ∈ es := by
  induction es with
  | nil => cases h
  | cons e es ih =>
    rw [find] at h
    split at h
    · next he =>
      cases h
      cases he
      exact List.mem_cons_self
    · exact List.mem_cons_of_mem e (ih h)

theorem mem_entries_iff {m : Assoc κ ν} {e : κ × ν} : e ∈ m.entries ↔ m.get? e.1 = some e.2 :=
  ⟨find_eq_of_mem m.nodup, mem_of_find⟩

theorem mem_keys_iff {m : Assoc κ ν} {k : κ} :
    k ∈ m.entries.map Prod.fst ↔ m.contains k = true := by
  rw [contains, Option.isSome_iff_exists, List.mem_map]
  constructor
  · rintro ⟨e, he, rfl⟩
    exact ⟨e.2, mem_entries_iff.1 he⟩
  · rintro ⟨v, hv⟩
    exact ⟨(k, v), mem_entries_iff.2 hv, rfl⟩

end Assoc

namespace PeerTable

/-- One change of a table. -/
inductive Change where
  | insert (i : Identity) (p : PipeId)
  | erasePipe (p : PipeId)
  | activate (p : PipeId)
  | deactivate (i : Identity)
  deriving DecidableEq

variable {t : PeerTable} {i j : Identity} {p q : PipeId} {c : Change} {cs : List Change}

/-- A change that is refused leaves the table as it is. -/
def play (t : PeerTable) : Change → PeerTable
  | .insert i p => (t.insert? i p).getD t
  | .erasePipe p => (t.erasePipe p).2
  | .activate p => (t.activate? p).getD t
  | .deactivate i => t.deactivate i

def run (t : PeerTable) (cs : List Change) : PeerTable := cs.foldl play t

/-- The pipe that an identity leads to. -/
def pipe? (t : PeerTable) (i : Identity) : Option PipeId := (t.route? i).map Route.pipe

/-- The two indexes are inverse to each other. -/
def Consistent (t : PeerTable) : Prop := ∀ i p, t.pipe? i = some p ↔ t.identity? p = some i

/-- A pipe that has an identity is given no other. -/
def Fresh (t : PeerTable) : Change → Prop
  | .insert i p => t.contains i = true ∨ t.containsPipe p = false
  | _ => True

instance (t : PeerTable) : DecidablePred t.Fresh
  | .insert _ _ => inferInstanceAs (Decidable (_ ∨ _))
  | .erasePipe _ | .activate _ | .deactivate _ => inferInstanceAs (Decidable True)

def AllFresh (t : PeerTable) : List Change → Prop
  | [] => True
  | c :: cs => t.Fresh c ∧ (t.play c).AllFresh cs

instance decidableAllFresh : ∀ (cs : List Change) (t : PeerTable), Decidable (t.AllFresh cs)
  | [], _ => inferInstanceAs (Decidable True)
  | c :: cs, t =>
    have := decidableAllFresh cs (t.play c)
    inferInstanceAs (Decidable (t.Fresh c ∧ (t.play c).AllFresh cs))

theorem pipe?_eq_none_iff : t.pipe? i = none ↔ t.contains i = false := by
  rw [pipe?, Option.map_eq_none_iff, contains, Assoc.contains, Option.isSome_eq_false_iff,
    Option.isNone_iff_eq_none]
  rfl

theorem identity?_eq_none_iff : t.identity? p = none ↔ t.containsPipe p = false := by
  rw [containsPipe, Assoc.contains, Option.isSome_eq_false_iff, Option.isNone_iff_eq_none]
  rfl

/-- What a change does to the two indexes. -/
inductive Effect (t t' : PeerTable) : Change → Prop where
  | kept {c : Change} (hp : t'.pipe? = t.pipe?) (hi : t'.identity? = t.identity?) : Effect t t' c
  | inserted {i : Identity} {p : PipeId} (h : t.pipe? i = none)
      (hp : t'.pipe? = update t.pipe? i (some p))
      (hi : t'.identity? = update t.identity? p (some i)) : Effect t t' (.insert i p)
  | erased {i : Identity} {p : PipeId} (h : t.identity? p = some i)
      (hp : t'.pipe? = update t.pipe? i none) (hi : t'.identity? = update t.identity? p none) :
      Effect t t' (.erasePipe p)

theorem route?_setActive (t : PeerTable) (i j : Identity) (active : Bool) :
    (t.setActive i active).route? j =
      if j = i then (t.route? j).map (fun r => ⟨r.pipe, active⟩) else t.route? j :=
  Assoc.get?_modify ..

theorem pipe?_setActive (t : PeerTable) (i : Identity) (active : Bool) :
    (t.setActive i active).pipe? = t.pipe? :=
  funext fun j => Router.owner_setActive t i j active

theorem activate?_of_taken (hi : t.identity? p = some i) (hc : t.contains i = true) :
    t.activate? p = some (t.setActive i true) := by
  rw [activate?, hi]
  exact if_pos hc

theorem activate?_of_free (hi : t.identity? p = some i) (hc : t.contains i = false) :
    t.activate? p = none := by
  rw [activate?, hi]
  exact if_neg (Bool.eq_false_iff.1 hc)

theorem activate?_of_none (hi : t.identity? p = none) : t.activate? p = none := by
  rw [activate?, hi]

theorem play_insert_of_taken (h : t.contains i = true) : t.play (.insert i p) = t := by
  rw [play, insert?, if_pos h]
  rfl

theorem play_insert_of_free (h : t.contains i = false) :
    t.play (.insert i p) = ⟨t.routes.insert i ⟨p, true⟩, t.byPipe.insert p i⟩ := by
  rw [play, insert?, h]
  rfl

theorem pipe?_insert (h : t.contains i = false) :
    (t.play (.insert i p)).pipe? = update t.pipe? i (some p) := by
  funext j
  rw [play_insert_of_free h, pipe?, route?, Assoc.get?_insert, update_apply]
  split <;> rfl

theorem identity?_insert (h : t.contains i = false) :
    (t.play (.insert i p)).identity? = update t.identity? p (some i) := by
  funext q
  rw [play_insert_of_free h, identity?, Assoc.get?_insert, update_apply]
  rfl

theorem effect_insert (t : PeerTable) (i : Identity) (p : PipeId) :
    t.Effect (t.play (.insert i p)) (.insert i p) := by
  cases hc : t.contains i with
  | true =>
    rw [play_insert_of_taken hc]
    exact .kept rfl rfl
  | false => exact .inserted (pipe?_eq_none_iff.2 hc) (pipe?_insert hc) (identity?_insert hc)

theorem effect_erasePipe (t : PeerTable) (p : PipeId) :
    t.Effect (t.play (.erasePipe p)) (.erasePipe p) := by
  rw [play, erasePipe]
  cases hi : t.identity? p with
  | none => exact .kept rfl rfl
  | some i =>
    refine .erased hi ?_ ?_
    · funext j
      simp only [pipe?, route?, Assoc.get?_erase, update_apply]
      split <;> rfl
    · funext q
      simp only [identity?, Assoc.get?_erase, update_apply]

theorem effect_activate (t : PeerTable) (p : PipeId) :
    t.Effect (t.play (.activate p)) (.activate p) := by
  rw [play]
  cases hi : t.identity? p with
  | none =>
    rw [activate?_of_none hi]
    exact .kept rfl rfl
  | some i =>
    cases hc : t.contains i with
    | true =>
      rw [activate?_of_taken hi hc]
      exact .kept (pipe?_setActive t i true) rfl
    | false =>
      rw [activate?_of_free hi hc]
      exact .kept rfl rfl

theorem effect_play (t : PeerTable) (c : Change) : t.Effect (t.play c) c := by
  cases c with
  | insert i p => exact t.effect_insert i p
  | erasePipe p => exact t.effect_erasePipe p
  | activate p => exact t.effect_activate p
  | deactivate i => exact .kept (pipe?_setActive t i false) rfl

/-- What is found by a pipe is found by the identity as well. -/
def Backed (t : PeerTable) : Prop := ∀ p i, t.identity? p = some i → t.pipe? i = some p

theorem Consistent.backed (h : t.Consistent) : t.Backed := fun p i => (h i p).2

theorem Backed.play (h : t.Backed) (c : Change) : (t.play c).Backed := by
  intro q j hq
  cases t.effect_play c with
  | kept hp hi =>
    rw [hi] at hq
    rw [hp]
    exact h q j hq
  | @inserted i p hn hp hi =>
    rw [hi, update_apply] at hq
    rw [hp, update_apply]
    split at hq
    · next he =>
      cases hq
      rw [if_pos rfl, he]
    · have hj := h q j hq
      have hne : j ≠ i := by
        rintro rfl
        cases hn.symm.trans hj
      rw [if_neg hne]
      exact hj
  | @erased i p hs hp hi =>
    rw [hi, update_apply] at hq
    rw [hp, update_apply]
    split at hq
    · cases hq
    · next hne =>
      have hj := h q j hq
      have hnot : j ≠ i := by
        rintro rfl
        exact hne (Option.some_inj.1 (hj.symm.trans (h p j hs)))
      rw [if_neg hnot]
      exact hj

/-- A route to a pipe behind which its identity is not found. -/
structure Stale (t : PeerTable) (j : Identity) (q : PipeId) : Prop where
  leads : t.pipe? j = some q
  lost : ∀ p, t.identity? p ≠ some j

/-- Such a route leads on to its pipe whatever is done, even when the pipe is erased. -/
theorem Stale.play (h : t.Stale j q) (c : Change) : (t.play c).Stale j q := by
  cases t.effect_play c with
  | kept hp hi => exact ⟨(congrFun hp j).trans h.leads, fun p he => h.lost p (by rwa [← hi])⟩
  | @inserted i p hn hp hi =>
    have hne : j ≠ i := by
      rintro rfl
      cases hn.symm.trans h.leads
    refine ⟨?_, fun p' he => ?_⟩
    · rw [hp, update_of_ne hne]
      exact h.leads
    · rw [hi, update_apply] at he
      split at he
      · exact hne (Option.some_inj.1 he).symm
      · exact h.lost p' he
  | @erased i p hs hp hi =>
    have hne : j ≠ i := by
      rintro rfl
      exact h.lost p hs
    refine ⟨?_, fun p' he => ?_⟩
    · rw [hp, update_of_ne hne]
      exact h.leads
    · rw [hi, update_apply] at he
      split at he
      · cases he
      · exact h.lost p' he

theorem Stale.run (h : t.Stale j q) (cs : List Change) : (t.run cs).Stale j q := by
  induction cs generalizing t with
  | nil => exact h
  | cons c cs ih => exact ih (h.play c)

theorem Stale.not_consistent (h : t.Stale j q) : ¬ t.Consistent :=
  fun hc => h.lost q ((hc j q).1 h.leads)

theorem Backed.stale (h : t.Backed) (hi : t.contains i = false) (hp : t.identity? p = some j) :
    (t.play (.insert i p)).Stale j p := by
  have hj := h p j hp
  have hne : j ≠ i := by
    rintro rfl
    cases (pipe?_eq_none_iff.2 hi).symm.trans hj
  refine ⟨?_, fun q hq => ?_⟩
  · rw [pipe?_insert hi, update_of_ne hne]
    exact hj
  · rw [identity?_insert hi, update_apply] at hq
    split at hq
    · exact hne (Option.some_inj.1 hq).symm
    · next hnot => exact hnot (Option.some_inj.1 ((h q j hq).symm.trans hj))

theorem Consistent.play (h : t.Consistent) (hc : t.Fresh c) : (t.play c).Consistent := by
  refine fun j q => ⟨fun hq => ?_, h.backed.play c q j⟩
  cases t.effect_play c with
  | kept hp hi =>
    rw [hp] at hq
    rw [hi]
    exact (h j q).1 hq
  | @inserted i p hn hp hi =>
    rw [hp, update_apply] at hq
    rw [hi, update_apply]
    have hfree : t.identity? p = none := by
      refine identity?_eq_none_iff.2 (hc.resolve_left ?_)
      rw [pipe?_eq_none_iff.1 hn]
      exact Bool.false_ne_true
    split at hq
    · next he =>
      cases hq
      rw [if_pos rfl, he]
    · have hj := (h j q).1 hq
      have hne : q ≠ p := by
        rintro rfl
        cases hfree.symm.trans hj
      rw [if_neg hne]
      exact hj
  | @erased i p hs hp hi =>
    rw [hp, update_apply] at hq
    rw [hi, update_apply]
    split at hq
    · cases hq
    · next hne =>
      have hj := (h j q).1 hq
      have hnot : q ≠ p := by
        rintro rfl
        exact hne (Option.some_inj.1 (hj.symm.trans hs))
      rw [if_neg hnot]
      exact hj

theorem Consistent.run (h : t.Consistent) (hcs : t.AllFresh cs) : (t.run cs).Consistent := by
  induction cs generalizing t with
  | nil => exact h
  | cons c cs ih => exact ih (h.play hcs.1) hcs.2

theorem Backed.stale_of_not_fresh (h : t.Backed) (hc : ¬ t.Fresh c) :
    ∃ j q, (t.play c).Stale j q := by
  cases c with
  | insert i p =>
    obtain ⟨hi, hp⟩ := not_or.1 hc
    rw [Bool.not_eq_true] at hi
    rw [← identity?_eq_none_iff] at hp
    obtain ⟨j, hj⟩ := Option.ne_none_iff_exists'.1 hp
    exact ⟨j, p, h.stale hi hj⟩
  | erasePipe p => exact absurd trivial hc
  | activate p => exact absurd trivial hc
  | deactivate i => exact absurd trivial hc

/-- The indexes stay inverse to each other exactly as long as no pipe that has an identity is given
another one. -/
theorem consistent_run_iff (h : t.Consistent) : (t.run cs).Consistent ↔ t.AllFresh cs := by
  refine ⟨fun hcs => ?_, h.run⟩
  induction cs generalizing t with
  | nil => trivial
  | cons c cs ih =>
    by_cases hc : t.Fresh c
    · exact ⟨hc, ih (h.play hc) hcs⟩
    · obtain ⟨j, q, hj⟩ := h.backed.stale_of_not_fresh hc
      exact absurd hcs (hj.run cs).not_consistent

theorem consistent_empty : empty.Consistent := fun _ _ => ⟨nofun, nofun⟩

/-- The pipes that have an identity. -/
def pipes (t : PeerTable) : List PipeId := t.byPipe.entries.map Prod.fst

theorem mem_pipes_iff : p ∈ t.pipes ↔ t.containsPipe p = true := Assoc.mem_keys_iff

theorem Consistent.size_eq (h : t.Consistent) : t.size = t.pipes.length := by
  have hback {e : PipeId × Identity} (he : e ∈ t.byPipe.entries) : t.pipe? e.2 = some e.1 :=
    h.backed e.1 e.2 (Assoc.mem_entries_iff.1 he)
  have hnodup : (t.byPipe.entries.map Prod.snd).Nodup := by
    refine List.Nodup.map_on ?_ (List.Nodup.of_map Prod.fst t.byPipe.nodup)
    intro e he d hd hsnd
    have hfst := hback he
    rw [hsnd, hback hd] at hfst
    exact Prod.ext (Option.some_inj.1 hfst).symm hsnd
  have hperm : (t.routes.entries.map Prod.fst).Perm (t.byPipe.entries.map Prod.snd) := by
    rw [List.perm_ext_iff_of_nodup t.routes.nodup hnodup]
    intro i
    rw [List.mem_map, List.mem_map]
    constructor
    · rintro ⟨⟨i, r⟩, he, rfl⟩
      have hp : t.pipe? i = some r.pipe :=
        congrArg (Option.map Route.pipe) (Assoc.mem_entries_iff.1 he)
      exact ⟨(r.pipe, i), Assoc.mem_entries_iff.2 ((h i r.pipe).1 hp), rfl⟩
    · rintro ⟨e, he, rfl⟩
      obtain ⟨r, hr, -⟩ := Option.map_eq_some_iff.1 (hback he)
      exact ⟨(e.2, r), Assoc.mem_entries_iff.2 hr, rfl⟩
  have hlength := hperm.length_eq
  rw [List.length_map, List.length_map] at hlength
  rw [size, Assoc.size, pipes, List.length_map, hlength]

theorem identity?_erasePipe (t : PeerTable) (p : PipeId) :
    (t.play (.erasePipe p)).identity? p = none := by
  rw [play, erasePipe]
  cases hi : t.identity? p with
  | none => exact hi
  | some i => exact (Assoc.get?_erase ..).trans (if_pos rfl)

theorem Consistent.pipe?_erasePipe (h : t.Consistent) (p : PipeId) (i : Identity) :
    (t.play (.erasePipe p)).pipe? i ≠ some p := by
  intro hi
  have hp := ((h.play (c := .erasePipe p) trivial) i p).1 hi
  rw [t.identity?_erasePipe p] at hp
  cases hp

theorem route?_activate :
    (t.play (.activate p)).route? j =
      if t.identity? p = some j then (t.route? j).map (fun r => ⟨r.pipe, true⟩)
      else t.route? j := by
  rw [play]
  cases hi : t.identity? p with
  | none =>
    rw [activate?_of_none hi]
    rfl
  | some i =>
    simp only [Option.some.injEq, eq_comm (a := i)]
    cases hc : t.contains i with
    | true =>
      rw [activate?_of_taken hi hc]
      exact t.route?_setActive i j true
    | false =>
      rw [activate?_of_free hi hc]
      have hr : t.route? i = none := Option.map_eq_none_iff.1 (pipe?_eq_none_iff.2 hc)
      split
      · next he =>
        rw [he, hr]
        exact hr
      · rfl

theorem identity?_activate : (t.play (.activate p)).identity? = t.identity? := by
  cases t.effect_activate p with
  | kept hp hi => exact hi

/-- While no pipe that has an identity is given another one, an identity leads to a pipe exactly if
it is the identity of that pipe, there are as many routes as pipes, and an erased pipe is left by
all routes. A refused change changes nothing, and no more than the mark of one route is changed by
marking. -/
theorem indexes_run {cs : List Change} (h : empty.AllFresh cs) :
    let t := empty.run cs
    (∀ i p, t.pipe? i = some p ↔ t.identity? p = some i) ∧
    (t.pipes.Nodup ∧ (∀ p, p ∈ t.pipes ↔ t.containsPipe p = true) ∧ t.size = t.pipes.length) ∧
    (∀ p i, (t.play (.erasePipe p)).pipe? i ≠ some p) ∧
    (∀ i p, (t.insert? i p = none ↔ t.contains i = true) ∧
      (t.insert? i p = none → t.play (.insert i p) = t)) ∧
    (∀ p, (t.activate? p = none ↔ t.containsPipe p = false) ∧
      (t.play (.activate p)).identity? = t.identity? ∧
      ∀ j, (t.play (.activate p)).route? j =
        if t.identity? p = some j then (t.route? j).map (fun r => ⟨r.pipe, true⟩)
        else t.route? j) ∧
    ∀ i, (t.play (.deactivate i)).identity? = t.identity? ∧
      ∀ j, (t.play (.deactivate i)).route? j =
        if j = i then (t.route? j).map (fun r => ⟨r.pipe, false⟩) else t.route? j := by
  intro t
  have hc : t.Consistent := (consistent_run_iff consistent_empty).2 h
  refine ⟨hc, ⟨t.byPipe.nodup, fun _ => mem_pipes_iff, hc.size_eq⟩, hc.pipe?_erasePipe, ?insert,
    fun p => ⟨?taken, identity?_activate, fun _ => route?_activate⟩,
    fun i => ⟨rfl, fun j => t.route?_setActive i j false⟩⟩
  case insert =>
    intro i p
    refine ⟨?_, fun hn => by rw [play, hn]; rfl⟩
    rw [insert?]
    split
    · next hi => exact iff_of_true rfl hi
    · next hi => exact iff_of_false nofun hi
  case taken =>
    rw [← identity?_eq_none_iff]
    refine ⟨fun hn => ?_, activate?_of_none⟩
    cases hi : t.identity? p with
    | none => rfl
    | some i =>
      have hi' : t.contains i = true := by
        rw [← Bool.not_eq_false, ← pipe?_eq_none_iff, hc.backed p i hi]
        exact nofun
      rw [activate?_of_taken hi hi'] at hn
      cases hn

/-- A peer comes, is marked, goes, and its pipe comes back under another identity, while the
identity that is taken is refused to a second pipe. -/
def visits : List Change :=
  [.insert ⟨[120]⟩ ⟨0⟩, .insert ⟨[120]⟩ ⟨1⟩, .deactivate ⟨[120]⟩, .insert ⟨[121]⟩ ⟨2⟩,
    .activate ⟨0⟩, .erasePipe ⟨0⟩, .insert ⟨[122]⟩ ⟨0⟩]

theorem indexes_run_visits :
    empty.AllFresh visits ∧ (empty.run visits).pipe? ⟨[122]⟩ = some ⟨0⟩ ∧
      (empty.run visits).size = (empty.run visits).pipes.length := by
  have h : empty.AllFresh visits := by decide
  obtain ⟨hc, ⟨-, -, hsize⟩, -⟩ := indexes_run h
  refine ⟨h, (hc ⟨[122]⟩ ⟨0⟩).2 ?_, hsize⟩
  decide

/-- A pipe is given a second identity, and then it is erased. -/
def rebound : List Change := [.insert ⟨[120]⟩ ⟨0⟩, .insert ⟨[121]⟩ ⟨0⟩, .erasePipe ⟨0⟩]

/-- The first identity of a pipe that was given a second one goes on leading to it, so that there is
a route more than there are pipes, also after the pipe is erased. -/
theorem not_indexes_rebound :
    ¬ (∀ i p, (empty.run (rebound.take 2)).pipe? i = some p ↔
      (empty.run (rebound.take 2)).identity? p = some i) ∧
    (empty.run (rebound.take 2)).size = 2 ∧ (empty.run (rebound.take 2)).pipes = [⟨0⟩] ∧
    (empty.run rebound).pipe? ⟨[120]⟩ = some ⟨0⟩ ∧ (empty.run rebound).pipes = [] ∧
    (empty.run rebound).insert? ⟨[120]⟩ ⟨1⟩ = none := by
  refine ⟨fun h => ?_, by decide, by decide, by decide, by decide, by rfl⟩
  have hi := (h ⟨[120]⟩ ⟨0⟩).1 (by decide)
  revert hi
  decide

end PeerTable

end Zmtp
