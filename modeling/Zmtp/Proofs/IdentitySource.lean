import Mathlib.Data.FinEnum
import Mathlib.Data.Fintype.Card
import Mathlib.Data.Nat.Find
import Mathlib.Logic.Function.Basic
import Zmtp.Proofs.PeerTable

namespace Zmtp

open Function (update)

namespace IdentitySource

variable {s : IdentitySource} {inUse : Identity → Bool} {k n : Nat}
  {r : Identity × IdentitySource}

theorem candidate_injective : Function.Injective candidate := by
  intro a b h
  have hbytes : Bytes.bigEndian 4 a.toNat = Bytes.bigEndian 4 b.toNat :=
    (List.cons.inj (Identity.mk.inj h)).2
  have ha := Bytes.toNat_bigEndian 4 a.toNat
  have hb := Bytes.toNat_bigEndian 4 b.toNat
  rw [hbytes, hb, Nat.mod_eq_of_lt b.toNat_lt, Nat.mod_eq_of_lt a.toNat_lt] at ha
  exact UInt32.toNat_inj.1 ha.symm

/-- After so many trials a free name is found. There is no bound on the trials: the candidate under
the counter is tried, and as long as it is in use, the one after it. -/
inductive Draws (inUse : Identity → Bool) :
    IdentitySource → Nat → Identity × IdentitySource → Prop where
  | free {s : IdentitySource} (h : inUse (candidate s.next) = false) :
      Draws inUse s 1 (candidate s.next, ⟨s.next + 1⟩)
  | taken {s : IdentitySource} {n : Nat} {r : Identity × IdentitySource}
      (h : inUse (candidate s.next) = true) (hd : Draws inUse ⟨s.next + 1⟩ n r) :
      Draws inUse s (n + 1) r

theorem Draws.search (h : Draws inUse s n r) (hk : n ≤ k) : search inUse k s = some r := by
  induction h generalizing k with
  | free hf =>
    obtain ⟨k, rfl⟩ := Nat.exists_eq_add_one.2 hk
    rw [IdentitySource.search, hf]
    rfl
  | taken ht hd ih =>
    obtain ⟨k, rfl⟩ := Nat.exists_eq_add_one.2 (Nat.lt_of_lt_of_le (Nat.succ_pos _) hk)
    rw [IdentitySource.search, if_pos ht]
    exact ih (Nat.le_of_succ_le_succ hk)

/-- The number of candidates that are in use. -/
def occupied (inUse : Identity → Bool) : Nat :=
  (Finset.univ.filter fun n : UInt32 => inUse (candidate n) = true).card

/-- The counter so many candidates further on. -/
def ahead (s : IdentitySource) (k : Nat) : IdentitySource := ⟨s.next + UInt32.ofNat k⟩

theorem ahead_zero (s : IdentitySource) : s.ahead 0 = s :=
  congrArg IdentitySource.mk (UInt32.add_zero s.next)

theorem ahead_succ (s : IdentitySource) (k : Nat) :
    s.ahead (k + 1) = (IdentitySource.mk (s.next + 1)).ahead k := by
  rw [ahead, ahead, Nat.add_comm k 1, UInt32.ofNat_add, UInt32.add_assoc]
  rfl

theorem next_ahead_injOn (s : IdentitySource) :
    Set.InjOn (fun k => (s.ahead k).next) {k | k < UInt32.size} := by
  intro a ha b hb h
  have hn := congrArg UInt32.toNat ((UInt32.add_right_inj _).1 h)
  rwa [UInt32.toNat_ofNat_of_lt' ha, UInt32.toNat_ofNat_of_lt' hb] at hn

theorem exists_ahead (s : IdentitySource) (n : UInt32) :
    ∃ k < UInt32.size, (s.ahead k).next = n := by
  refine ⟨(n - s.next).toNat, UInt32.toNat_lt _, ?_⟩
  rw [ahead, UInt32.ofNat_toNat, UInt32.add_comm, UInt32.sub_add_cancel]

theorem draws_of_first (ht : ∀ j < k, inUse (candidate (s.ahead j).next) = true)
    (hf : inUse (candidate (s.ahead k).next) = false) :
    Draws inUse s (k + 1) (candidate (s.ahead k).next, s.ahead (k + 1)) := by
  induction k generalizing s with
  | zero =>
    rw [ahead_zero] at hf
    rw [ahead_zero, ahead_succ, ahead_zero]
    exact .free hf
  | succ k ih =>
    have hfirst := ht 0 (Nat.succ_pos k)
    rw [ahead_zero] at hfirst
    rw [ahead_succ] at hf
    rw [ahead_succ, ahead_succ s (k + 1)]
    refine .taken hfirst (ih (fun j hj => ?_) hf)
    rw [← ahead_succ]
    exact ht (j + 1) (Nat.succ_lt_succ hj)

theorem le_occupied (hk : k < UInt32.size)
    (ht : ∀ j < k, inUse (candidate (s.ahead j).next) = true) : k ≤ occupied inUse := by
  have hcard := Finset.card_le_card_of_injOn (s := Finset.range k)
    (t := Finset.univ.filter fun n : UInt32 => inUse (candidate n) = true)
    (fun j => (s.ahead j).next)
  rw [Finset.card_range] at hcard
  apply hcard
  · intro j hj
    exact Finset.mem_filter.2 ⟨Finset.mem_univ _, ht j (Finset.mem_range.1 hj)⟩
  · intro a ha b hb
    exact s.next_ahead_injOn (Nat.lt_trans (Finset.mem_range.1 ha) hk)
      (Nat.lt_trans (Finset.mem_range.1 hb) hk)

/-- Where a candidate is free, the first free one from the counter on is drawn. -/
theorem exists_draws (s : IdentitySource) (hf : ∃ n, inUse (candidate n) = false) :
    ∃ k ≤ occupied inUse, k < UInt32.size ∧
      (∀ j < k, inUse (candidate (s.ahead j).next) = true) ∧
      inUse (candidate (s.ahead k).next) = false ∧
      Draws inUse s (k + 1) (candidate (s.ahead k).next, s.ahead (k + 1)) := by
  obtain ⟨n, hn⟩ := hf
  obtain ⟨d, hd, rfl⟩ := s.exists_ahead n
  have hex : ∃ k, inUse (candidate (s.ahead k).next) = false := ⟨d, hn⟩
  have hlt : Nat.find hex < UInt32.size := Nat.lt_of_le_of_lt (Nat.find_min' hex hn) hd
  have ht (j : Nat) (hj : j < Nat.find hex) : inUse (candidate (s.ahead j).next) = true :=
    Bool.eq_true_of_not_eq_false (Nat.find_min hex hj)
  have hfree := Nat.find_spec hex
  exact ⟨Nat.find hex, le_occupied hlt ht, hlt, ht, hfree, draws_of_first ht hfree⟩

/-- What may be done while names are made up. -/
inductive Act where
  | register (i : Identity)
  | remove (i : Identity)
  | draw
  deriving DecidableEq

/-- A name that was made up, and what was in use then. -/
structure Grant where
  name : Identity
  inUse : Identity → Bool

/-- A source, what is in use, and the names that were made up, oldest first. -/
structure Registry where
  source : IdentitySource
  inUse : Identity → Bool
  grants : List Grant

namespace Registry

variable {g : Registry}

def play (g : Registry) : Act → Registry
  | .register i => { g with inUse := update g.inUse i true }
  | .remove i => { g with inUse := update g.inUse i false }
  | .draw =>
    match g.source.generate g.inUse with
    | none => g
    | some (name, source) => { g with source, grants := g.grants ++ [⟨name, g.inUse⟩] }

def run (g : Registry) (as : List Act) : Registry := as.foldl play g

/-- A name is made up only where a candidate is free. -/
def Admits (g : Registry) : Act → Prop
  | .draw => ∃ n, g.inUse (candidate n) = false
  | _ => True

def AdmitsAll (g : Registry) : List Act → Prop
  | [] => True
  | a :: as => g.Admits a ∧ (g.play a).AdmitsAll as

/-- No name was in use when it was made up. -/
def Fresh (g : Registry) : Prop := ∀ e ∈ g.grants, e.inUse e.name = false

/-- Whenever a name was made up, all names before it were in use. -/
def Kept (g : Registry) : Prop :=
  g.grants.Pairwise fun earlier later => later.inUse earlier.name = true

theorem play_draw (h : g.Admits .draw) : ∃ name source, g.inUse name = false ∧
    g.play .draw = { g with source, grants := g.grants ++ [⟨name, g.inUse⟩] } := by
  obtain ⟨k, -, hk, -, hfree, hdraws⟩ := g.source.exists_draws h
  have hgenerate : g.source.generate g.inUse = _ := hdraws.search (Nat.succ_le_of_lt hk)
  refine ⟨candidate (g.source.ahead k).next, g.source.ahead (k + 1), hfree, ?_⟩
  rw [play, hgenerate]

instance (g : Registry) : Decidable g.Kept := inferInstanceAs (Decidable (List.Pairwise _ _))

theorem Fresh.play {a : Act} (h : g.Fresh) (ha : g.Admits a) : (g.play a).Fresh := by
  cases a with
  | register i => exact h
  | remove i => exact h
  | draw =>
    obtain ⟨name, source, hname, heq⟩ := play_draw ha
    rw [heq]
    intro e he
    rcases List.mem_append.1 he with he | he
    · exact h e he
    · rw [List.mem_singleton.1 he]
      exact hname

theorem Fresh.run {as : List Act} (h : g.Fresh) (has : g.AdmitsAll as) : (g.run as).Fresh := by
  induction as generalizing g with
  | nil => exact h
  | cons a as ih => exact ih (h.play has.1) has.2

theorem length_grants {as : List Act} (has : g.AdmitsAll as) :
    (g.run as).grants.length = g.grants.length + as.count .draw := by
  induction as generalizing g with
  | nil => rfl
  | cons a as ih =>
    refine (ih has.2).trans ?_
    cases a with
    | register i => rfl
    | remove i => rfl
    | draw =>
      obtain ⟨name, source, -, heq⟩ := play_draw has.1
      rw [heq, List.length_append, List.length_singleton, List.count_cons_self]
      omega

theorem Fresh.nodup (h : g.Fresh) (hk : g.Kept) : (g.grants.map Grant.name).Nodup := by
  refine List.pairwise_map.2 (List.Pairwise.imp_of_mem ?_ hk)
  intro earlier later _ hlater hused hname
  rw [hname, h later hlater] at hused
  cases hused

end Registry

/-- As long as a candidate is free, the first free one from the counter on is found, and the counter
comes to stand behind it. No more are tried than are in use and one. So no name is in use when it is
made up, whatever is registered and removed in between, and if all names are kept in use no two of
them are the same, however often the counter wraps. -/
theorem names_run (start : IdentitySource) (inUse : Identity → Bool) {as : List Act}
    (h : (Registry.mk start inUse []).AdmitsAll as) :
    let g := (Registry.mk start inUse []).run as
    (∀ (s : IdentitySource) (used : Identity → Bool), (∃ n, used (candidate n) = false) →
      ∃ k ≤ occupied used,
        (∀ j < k, used (candidate (s.next + UInt32.ofNat j)) = true) ∧
        used (candidate (s.next + UInt32.ofNat k)) = false ∧
        Draws used s (k + 1)
          (candidate (s.next + UInt32.ofNat k), ⟨s.next + UInt32.ofNat (k + 1)⟩) ∧
        s.generate used =
          some (candidate (s.next + UInt32.ofNat k), ⟨s.next + UInt32.ofNat (k + 1)⟩)) ∧
    g.grants.length = as.count .draw ∧
    (∀ e ∈ g.grants, e.inUse e.name = false) ∧
    (g.Kept → (g.grants.map Grant.name).Nodup) := by
  intro g
  have hfresh : g.Fresh := Registry.Fresh.run (fun _ he => absurd he List.not_mem_nil) h
  refine ⟨fun s used hfree => ?_, ?_, hfresh, hfresh.nodup⟩
  · obtain ⟨k, hle, hk, ht, hf, hdraws⟩ := s.exists_draws hfree
    exact ⟨k, hle, ht, hf, hdraws, hdraws.search (Nat.succ_le_of_lt hk)⟩
  · exact (Registry.length_grants h).trans (Nat.zero_add _)

/-- The counter wraps, and the first number behind it is that of a name that a peer chose. -/
def wrapping : List Act :=
  [.register (candidate 0), .draw, .register (candidate 0xffffffff), .draw,
    .register (candidate 1), .remove (candidate 0), .draw]

theorem names_run_wrapping :
    let g := (Registry.mk ⟨0xffffffff⟩ (fun _ => false) []).run wrapping
    (Registry.mk ⟨0xffffffff⟩ (fun _ => false) []).AdmitsAll wrapping ∧
      g.grants.map Grant.name = [candidate 0xffffffff, candidate 1, candidate 2] ∧
      (g.grants.map Grant.name).Nodup := by
  intro g
  have h : (Registry.mk ⟨0xffffffff⟩ (fun _ => false) []).AdmitsAll wrapping :=
    ⟨trivial, ⟨9, rfl⟩, trivial, ⟨9, rfl⟩, trivial, trivial, ⟨9, rfl⟩, trivial⟩
  have hnames : g.grants.map Grant.name = [candidate 0xffffffff, candidate 1, candidate 2] := by rfl
  have hkept : g.Kept := by decide +kernel
  obtain ⟨-, -, -, hnodup⟩ := names_run ⟨0xffffffff⟩ (fun _ => false) h
  exact ⟨h, hnames, hnodup hkept⟩

end IdentitySource

open IdentitySource (candidate ahead)

/-- Names that are made up are not used up while fewer peers are registered than there are numbers. -/
theorem PeerTable.exists_free_candidate {t : PeerTable} (h : t.size < UInt32.size) :
    ∃ n, t.contains (candidate n) = false := by
  by_contra hnone
  have hused (n : UInt32) : candidate n ∈ t.routes.entries.map Prod.fst :=
    Assoc.mem_keys_iff.2 (Bool.eq_true_of_not_eq_false fun hn => hnone ⟨n, hn⟩)
  have hcard := Finset.card_le_card_of_injOn (s := Finset.range UInt32.size)
    (t := (t.routes.entries.map Prod.fst).toFinset) (fun k => candidate (ahead ⟨0⟩ k).next)
    (fun k _ => List.mem_toFinset.2 (hused _))
    (fun a ha b hb he => IdentitySource.next_ahead_injOn ⟨0⟩ (Finset.mem_range.1 ha)
      (Finset.mem_range.1 hb) (IdentitySource.candidate_injective he))
  have hlength := (List.toFinset_card_le (t.routes.entries.map Prod.fst)).trans_eq (List.length_map _)
  rw [Finset.card_range] at hcard
  exact absurd h (Nat.not_lt.2 (hcard.trans hlength))

/-- A router finds a name for a peer that gives none. -/
theorem Router.identifyAs_empty (r : Router) (p : PipeId) (h : r.peerCount < UInt32.size) :
    ∃ i ids, r.table.contains i = false ∧
      r.identifyAs p .empty = (.known, { r with ids }.register p i) := by
  obtain ⟨k, -, hk, -, hfree, hdraws⟩ := r.ids.exists_draws (PeerTable.exists_free_candidate h)
  have hgenerate : r.ids.generate r.table.contains = _ := hdraws.search (Nat.succ_le_of_lt hk)
  refine ⟨candidate (r.ids.ahead k).next, r.ids.ahead (k + 1), hfree, ?_⟩
  have hempty : Identity.empty.isEmpty = true := rfl
  rw [identifyAs, if_pos hempty, hgenerate]

end Zmtp
