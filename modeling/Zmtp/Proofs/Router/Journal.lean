import Zmtp.Proofs.Router.Consistency

namespace Zmtp

/-- All parts but the last say that another follows. -/
def IsMessage (parts : List Part) : Prop :=
  ∃ init last, parts = init ++ [last] ∧ (∀ x ∈ init, x.hasMore = true) ∧ last.hasMore = false

/-- The parts are those of whole messages, one after another. -/
def Whole (parts : List Part) : Prop := ∀ x, parts.getLast? = some x → x.hasMore = false

instance (parts : List Part) : Decidable (Whole parts) :=
  decidable_of_iff (∀ x ∈ parts.getLast?, x.hasMore = false) Iff.rfl

namespace Whole

variable {a b : List Part} {x : Part}

theorem append (ha : Whole a) (hb : Whole b) : Whole (a ++ b) := by
  intro x hx
  rw [List.getLast?_append, Option.or_eq_some_iff] at hx
  rcases hx with hx | ⟨-, hx⟩
  · exact hb x hx
  · exact ha x hx

theorem tail (h : Whole (x :: a)) : Whole a := by
  intro y hy
  exact h y (by rw [List.getLast?_cons, hy]; rfl)

theorem tail_ne_nil (h : Whole (x :: a)) (hx : x.hasMore = true) : a ≠ [] := by
  rintro rfl
  rw [h x rfl] at hx
  cases hx

end Whole

/-- One message as the application gets it. -/
structure Envelope where
  /-- Whose name it was that came first. -/
  sender : Option PipeId
  name : Part
  parts : List Part
  /-- The sender was given up before the last part. -/
  cut : Bool
  deriving DecidableEq

/-- What the application has received. -/
structure Journal where
  done : List Envelope
  /-- The message whose last part has not come yet. -/
  current : Option Envelope

namespace Journal

def empty : Journal := ⟨[], none⟩

def envelopes (j : Journal) : List Envelope := j.done ++ j.current.toList

/-- The messages of one sender. -/
def of (j : Journal) (p : PipeId) : List Envelope :=
  j.envelopes.filter fun e => decide (e.sender = some p)

/-- All parts that came from one sender. -/
def parts (j : Journal) (p : PipeId) : List Part := (j.of p).flatMap Envelope.parts

/-- A part goes on with the current message, or else it is the name that a message begins with. -/
def note (owner : Identity → Option PipeId) (part : Part) (j : Journal) : Journal :=
  match j.current with
  | none => { j with current := some ⟨owner ⟨part.data⟩, part, [], false⟩ }
  | some e =>
    if part.hasMore then { j with current := some { e with parts := e.parts ++ [part] } }
    else ⟨j.done ++ [{ e with parts := e.parts ++ [part] }], none⟩

/-- What was received is noted, if anything was. -/
def record (owner : Identity → Option PipeId) (o : Option Part) (j : Journal) : Journal :=
  match o with
  | none => j
  | some part => j.note owner part

/-- A sender is given up, and its message ends where it is. -/
def cut (p : PipeId) (j : Journal) : Journal :=
  match j.current with
  | none => j
  | some e => if e.sender = some p then ⟨j.done ++ [{ e with cut := true }], none⟩ else j

variable {j : Journal} {e : Envelope} {p : PipeId} {part : Part}
  {owner : Identity → Option PipeId}

theorem envelopes_note_none (hc : j.current = none) :
    (j.note owner part).envelopes = j.envelopes ++ [⟨owner ⟨part.data⟩, part, [], false⟩] := by
  simp only [note, hc, envelopes, Option.toList_none, List.append_nil, Option.toList_some]

theorem envelopes_note_some (hc : j.current = some e) :
    (j.note owner part).envelopes = j.done ++ [{ e with parts := e.parts ++ [part] }] := by
  simp only [note, hc, envelopes]
  split
  · rfl
  · rw [Option.toList_none, List.append_nil]

theorem envelopes_of_some (hc : j.current = some e) : j.envelopes = j.done ++ [e] := by
  rw [envelopes, hc, Option.toList_some]

theorem envelopes_cut (hc : j.current = some e) (he : e.sender = some p) :
    (j.cut p).envelopes = j.done ++ [{ e with cut := true }] := by
  simp only [cut, hc, if_pos he, envelopes, Option.toList_none, List.append_nil]

theorem current_cut : (j.cut p).current = none ∨
    (j.cut p = j ∧ ∃ e, j.current = some e ∧ e.sender ≠ some p) := by
  rw [cut]
  split
  · next hc => exact .inl hc
  · next e hc =>
    split
    · exact .inl rfl
    · next he => exact .inr ⟨rfl, e, hc, he⟩

theorem of_note_none (hc : j.current = none) (owner : Identity → Option PipeId) (part : Part)
    (p : PipeId) :
    (j.note owner part).of p =
      j.of p ++
        if owner ⟨part.data⟩ = some p then [⟨owner ⟨part.data⟩, part, [], false⟩] else [] := by
  simp only [of, envelopes_note_none hc, List.filter_append, List.filter_cons, List.filter_nil,
    decide_eq_true_eq]

theorem parts_note_none (hc : j.current = none) : (j.note owner part).parts p = j.parts p := by
  rw [parts, of_note_none hc owner part p, List.flatMap_append, parts]
  split <;> simp

theorem of_note_some (hc : j.current = some e) (owner : Identity → Option PipeId) (part : Part)
    (p : PipeId) :
    (j.note owner part).of p = (j.done.filter fun e => decide (e.sender = some p)) ++
      if e.sender = some p then [{ e with parts := e.parts ++ [part] }] else [] := by
  simp only [of, envelopes_note_some hc, List.filter_append, List.filter_cons, List.filter_nil,
    decide_eq_true_eq]

theorem of_of_some (hc : j.current = some e) :
    j.of p = (j.done.filter fun e => decide (e.sender = some p)) ++
      if e.sender = some p then [e] else [] := by
  simp only [of, envelopes_of_some hc, List.filter_append, List.filter_cons, List.filter_nil,
    decide_eq_true_eq]

theorem parts_note_some (hc : j.current = some e) :
    (j.note owner part).parts p = j.parts p ++ if e.sender = some p then [part] else [] := by
  rw [parts, of_note_some hc owner part p, parts, of_of_some hc]
  split <;> simp

theorem of_cut (hc : j.current = some e) (he : e.sender = some p) :
    (j.cut p).of p =
      (j.done.filter fun e => decide (e.sender = some p)) ++ [{ e with cut := true }] := by
  simp only [of, envelopes_cut hc he, List.filter_append, List.filter_cons, List.filter_nil, he,
    decide_true, if_true]

theorem of_cut_of_ne {p' : PipeId} (hp : p' ≠ p) : (j.cut p).of p' = j.of p' := by
  cases hc : j.current with
  | none => simp only [cut, hc]
  | some e =>
    by_cases he : e.sender = some p
    · rw [of_of_some hc, of, envelopes_cut hc he]
      simp [he, Ne.symm hp]
    · simp only [cut, hc, if_neg he]

theorem parts_cut : (j.cut p).parts p = j.parts p := by
  cases hc : j.current with
  | none => simp only [cut, hc]
  | some e =>
    by_cases he : e.sender = some p
    · rw [parts, of_cut hc he, parts, of_of_some hc, if_pos he]
      simp
    · simp only [cut, hc, if_neg he]

/-- Messages end with their last part or are cut, and the one that is not done is neither. -/
structure Proper (j : Journal) : Prop where
  done : ∀ e ∈ j.done, e.cut = false → IsMessage e.parts
  cut : ∀ e ∈ j.done, e.cut = true → ∀ x ∈ e.parts, x.hasMore = true
  current : ∀ e, j.current = some e → e.cut = false ∧ ∀ x ∈ e.parts, x.hasMore = true

theorem proper_empty : empty.Proper := ⟨nofun, nofun, nofun⟩

theorem Proper.note (h : j.Proper) (owner : Identity → Option PipeId) (part : Part) :
    (j.note owner part).Proper := by
  rw [Journal.note]
  split
  · exact ⟨h.done, h.cut, fun e he => by cases he; exact ⟨rfl, nofun⟩⟩
  · next e hc =>
    obtain ⟨hcut, hmore⟩ := h.current e hc
    split
    · next hm =>
      refine ⟨h.done, h.cut, ?_⟩
      intro e' he'
      cases he'
      refine ⟨hcut, ?_⟩
      intro x hx
      rcases List.mem_append.1 hx with hx | hx
      · exact hmore x hx
      · rw [List.mem_singleton.1 hx]
        exact hm
    · next hm =>
      have hlast : IsMessage (e.parts ++ [part]) :=
        ⟨e.parts, part, rfl, hmore, eq_false_of_ne_true hm⟩
      refine ⟨?_, ?_, nofun⟩
      · intro e' he' hc'
        rcases List.mem_append.1 he' with he' | he'
        · exact h.done e' he' hc'
        · rw [List.mem_singleton.1 he']
          exact hlast
      · intro e' he' hc'
        rcases List.mem_append.1 he' with he' | he'
        · exact h.cut e' he' hc'
        · rw [List.mem_singleton.1 he', hcut] at hc'
          cases hc'

theorem Proper.cut_off (h : j.Proper) (p : PipeId) : (j.cut p).Proper := by
  rw [Journal.cut]
  split
  · exact h
  · next e hc =>
    obtain ⟨-, hmore⟩ := h.current e hc
    split
    · refine ⟨?_, ?_, nofun⟩
      · intro e' he' hc'
        rcases List.mem_append.1 he' with he' | he'
        · exact h.done e' he' hc'
        · rw [List.mem_singleton.1 he'] at hc'
          cases hc'
      · intro e' he' hc'
        rcases List.mem_append.1 he' with he' | he'
        · exact h.cut e' he' hc'
        · rw [List.mem_singleton.1 he']
          exact hmore
    · exact h

end Journal

end Zmtp
