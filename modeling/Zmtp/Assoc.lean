namespace Zmtp

/-- Values under keys, at most one value under each key. -/
structure Assoc (κ ν : Type) where
  entries : List (κ × ν)
  nodup : (entries.map Prod.fst).Nodup

namespace Assoc

variable {κ ν : Type}

@[ext] theorem ext {m m' : Assoc κ ν} (h : m.entries = m'.entries) : m = m' := by
  cases m
  cases m'
  cases h
  rfl

def empty : Assoc κ ν := ⟨[], List.nodup_nil⟩

variable [DecidableEq κ]

/-- The value of the first entry with the given key. -/
def find : List (κ × ν) → κ → Option ν
  | [], _ => none
  | e :: es, k => if e.1 = k then some e.2 else find es k

def get? (m : Assoc κ ν) (k : κ) : Option ν := find m.entries k

def contains (m : Assoc κ ν) (k : κ) : Bool := (m.get? k).isSome

def size (m : Assoc κ ν) : Nat := m.entries.length

def erase (m : Assoc κ ν) (k : κ) : Assoc κ ν where
  entries := m.entries.filter fun e => e.1 ≠ k
  nodup := (List.filter_sublist.map Prod.fst).nodup m.nodup

/-- Puts a value under a key, in place of what was there. -/
def insert (m : Assoc κ ν) (k : κ) (v : ν) : Assoc κ ν where
  entries := (k, v) :: (m.erase k).entries
  nodup := by
    rw [List.map_cons, List.nodup_cons]
    refine ⟨?_, (m.erase k).nodup⟩
    simp [erase]

/-- Changes the value under a key, if there is one. -/
def modify (m : Assoc κ ν) (k : κ) (f : ν → ν) : Assoc κ ν where
  entries := m.entries.map fun e => if e.1 = k then (e.1, f e.2) else e
  nodup := by
    have h : ((fun e => if e.1 = k then (e.1, f e.2) else e : κ × ν → κ × ν)) =
        fun e => (e.1, if e.1 = k then f e.2 else e.2) := by
      funext e
      split <;> rfl
    rw [h, List.map_map]
    exact m.nodup

theorem get?_erase (m : Assoc κ ν) (k k' : κ) :
    (m.erase k).get? k' = if k' = k then none else m.get? k' := by
  simp only [get?, erase]
  induction m.entries with
  | nil => simp [find]
  | cons e es ih =>
    by_cases he : e.1 = k
    · by_cases hk : k' = k <;> simp_all [find, eq_comm]
    · by_cases hk : k' = k <;> simp_all [find]

theorem get?_insert (m : Assoc κ ν) (k k' : κ) (v : ν) :
    (m.insert k v).get? k' = if k' = k then some v else m.get? k' := by
  have h := get?_erase m k k'
  simp only [get?, insert, find] at h ⊢
  by_cases hk : k' = k
  · simp [hk]
  · simp [hk, Ne.symm hk, h]

theorem get?_modify (m : Assoc κ ν) (k k' : κ) (f : ν → ν) :
    (m.modify k f).get? k' = if k' = k then (m.get? k').map f else m.get? k' := by
  simp only [get?, modify]
  induction m.entries with
  | nil => simp [find]
  | cons e es ih =>
    by_cases he : e.1 = k
    · by_cases hk : k' = k
      · simp [find, he, hk]
      · simp_all [find, Ne.symm hk]
    · by_cases hk : e.1 = k'
      · have hne : k' ≠ k := hk ▸ he
        simp [find, hk, hne]
      · simp only [List.map_cons, if_neg he, find, if_neg hk]
        exact ih

end Assoc

end Zmtp
