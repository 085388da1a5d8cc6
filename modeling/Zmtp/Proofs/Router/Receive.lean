import Zmtp.Proofs.Router.Identify

namespace Zmtp

open Function (update)

namespace Intake

/-- A pipe has nothing to read. -/
def Dry (v : Intake) (p : PipeId) : Prop := ∀ e, v.front p = some e → e.inbox = []

/-- A part is taken from the pipe whose turn it is. -/
inductive Fetches (v : Intake) : Option (PipeId × Part) → Intake → Prop where
  | dry {q : FairQueue} (hq : FairQueue.Passes v.Dry v.queue q) (hc : q.current? = none) :
      Fetches v none { v with queue := q }
  | took {q : FairQueue} {p : PipeId} {e : LinkEnd} {part : Part} {rest : List Part}
      (hq : FairQueue.Passes v.Dry v.queue q) (hc : q.current? = some p)
      (he : v.front p = some e) (hi : e.inbox = part :: rest) :
      Fetches v (some (p, part))
        { v with
          front := update v.front p (some { e with inbox := rest })
          queue := q.served p part
          source := some p }

/-- The next part is received. -/
inductive Receives (v : Intake) : Option Part → Intake → Prop where
  | name {name : Part} (hn : v.prefetchedName = some name) :
      Receives v (some name) { v with prefetchedName := none, moreIn := true }
  | held {part : Part} (hn : v.prefetchedName = none) (hp : v.prefetchedPart = some part) :
      Receives v (some part)
        { v with prefetchedName := none, prefetchedPart := none, moreIn := part.hasMore }
  | dry {v' : Intake} (hn : v.prefetchedName = none) (hp : v.prefetchedPart = none)
      (hf : v.Fetches none v') : Receives v none v'
  | inside {v' : Intake} {p : PipeId} {part : Part} (hn : v.prefetchedName = none)
      (hp : v.prefetchedPart = none) (hf : v.Fetches (some (p, part)) v')
      (hm : v.moreIn = true) : Receives v (some part) { v' with moreIn := part.hasMore }
  | first {v' : Intake} {p : PipeId} {part : Part} {e : LinkEnd} (hn : v.prefetchedName = none)
      (hp : v.prefetchedPart = none) (hf : v.Fetches (some (p, part)) v')
      (hm : v.moreIn = false) (he : v'.front p = some e) :
      Receives v (some e.identity.toPart) { v' with prefetchedPart := some part, moreIn := true }

/-- The router is asked whether there is a part to receive. -/
inductive Asks (v : Intake) : Bool → Intake → Prop where
  | known (h : (v.moreIn || v.prefetchedName.isSome || v.prefetchedPart.isSome) = true) :
      Asks v true v
  | dry {v' : Intake} (hm : v.moreIn = false) (hn : v.prefetchedName = none)
      (hp : v.prefetchedPart = none) (hf : v.Fetches none v') : Asks v false v'
  | first {v' : Intake} {p : PipeId} {part : Part} {e : LinkEnd} (hm : v.moreIn = false)
      (hn : v.prefetchedName = none) (hp : v.prefetchedPart = none)
      (hf : v.Fetches (some (p, part)) v') (he : v'.front p = some e) :
      Asks v true
        { v' with prefetchedName := some e.identity.toPart, prefetchedPart := some part }

theorem Fetches.moreIn {v v' : Intake} {o : Option (PipeId × Part)} (h : v.Fetches o v') :
    v'.moreIn = v.moreIn := by
  cases h <;> rfl

end Intake

namespace Router

variable {r : Router} {p : PipeId}

theorem readPipe_of_none {pipes : Assoc PipeId Link} (h : (readPipe p pipes).1 = none) :
    (readPipe p pipes).2 = pipes ∧ ∀ l, pipes.get? p = some l → l.front.inbox = [] := by
  rw [readPipe] at h ⊢
  cases hl : pipes.get? p with
  | none => exact ⟨rfl, fun l h => nomatch h⟩
  | some l =>
    simp only [hl] at h ⊢
    cases hi : l.front.inbox with
    | nil =>
      rw [Link.read_left_of_nil hi]
      refine ⟨Assoc.modify_eq_self fun k hk => Option.some.inj (hl.symm.trans hk), ?_⟩
      intro k hk
      cases hk
      exact hi
    | cons part rest =>
      obtain ⟨l', hr, -⟩ := Link.read_left_of_cons hi
      rw [hr] at h
      cases h

theorem readPipe_of_some {pipes pipes' : Assoc PipeId Link} {part : Part}
    (h : readPipe p pipes = (some part, pipes')) :
    ∃ l l' rest, pipes.get? p = some l ∧ l.front.inbox = part :: rest ∧
      pipes' = pipes.modify p (fun _ => l') ∧ l'.front = { l.front with inbox := rest } := by
  rw [readPipe] at h
  cases hl : pipes.get? p with
  | none => rw [hl] at h; cases h
  | some l =>
    simp only [hl] at h
    cases hi : l.front.inbox with
    | nil => rw [Link.read_left_of_nil hi] at h; cases h
    | cons q rest =>
      obtain ⟨l', hr, hf⟩ := Link.read_left_of_cons hi
      rw [hr] at h
      cases h
      exact ⟨l, l', rest, rfl, hi, rfl, hf⟩

theorem dry_of_readPipe (h : (readPipe p r.pipes).1 = none) : r.intake.Dry p := by
  intro e he
  obtain ⟨l, hl, rfl⟩ := Option.map_eq_some_iff.1 he
  exact (readPipe_of_none h).2 l hl

theorem intake_fetch (r : Router) : r.intake.Fetches r.fetch.1 r.fetch.2.intake := by
  obtain ⟨q, hq, hres⟩ := FairQueue.next_spec r.queue r.pipes fun p h =>
    (readPipe_of_none (p := p) h).1
  have hq' : FairQueue.Passes r.intake.Dry r.queue q := hq.mono fun _ h => dry_of_readPipe h
  rw [fetch]
  rcases hres with ⟨hc, hn⟩ | ⟨p, part, pipes', hc, hr, hn⟩
  · rw [hn]
    exact .dry hq' hc
  · rw [hn]
    obtain ⟨l, l', rest, hl, hi, rfl, hf⟩ := readPipe_of_some hr
    have he : r.intake.front p = some l.front := Option.map_eq_some_iff.2 ⟨l, hl, rfl⟩
    have hm := intake_modifyLink r p fun _ => l'
    simp only [show r.link? p = some l from hl, Option.map_some, hf] at hm
    have hv : Router.intake { r.modifyLink p (fun _ => l') with
        queue := q.served p part, source := some p } = _ :=
      congrArg (fun v : Intake => { v with queue := q.served p part, source := some p }) hm
    change r.intake.Fetches (some (p, part)) (Router.intake { r.modifyLink p (fun _ => l') with
      queue := q.served p part, source := some p })
    rw [hv]
    exact .took hq' hc he hi

theorem name?_eq (r : Router) (p : PipeId) :
    r.name? p = (r.intake.front p).map fun e => e.identity.toPart := by
  rw [name?, intake, Option.map_map]
  rfl

end Router

namespace Intake

theorem Fetches.front {v v' : Intake} {p : PipeId} {part : Part}
    (h : v.Fetches (some (p, part)) v') : ∃ e, v'.front p = some e := by
  cases h
  exact ⟨_, Function.update_self ..⟩

end Intake

namespace Router

theorem intake_receive (r : Router) : r.intake.Receives r.receive.1 r.receive.2.intake := by
  rw [receive]
  cases hn : r.prefetchedName with
  | some name => exact .name hn
  | none =>
    cases hp : r.prefetchedPart with
    | some part => exact .held (v := r.intake) hn hp
    | none =>
      have hf := r.intake_fetch
      cases ho : r.fetch with
      | mk o r' =>
        rw [ho] at hf
        cases o with
        | none => exact .dry hn hp hf
        | some d =>
          obtain ⟨p, part⟩ := d
          have hmore : r'.moreIn = r.moreIn := hf.moreIn
          obtain ⟨e, he⟩ := hf.front
          have hname : r'.name? p = some e.identity.toPart := by rw [name?_eq, he]; rfl
          cases hm : r.moreIn with
          | true =>
            simp only [hmore.trans hm]
            exact .inside hn hp hf hm
          | false =>
            simp only [hmore.trans hm, hname]
            exact .first hn hp hf hm he

theorem intake_hasInput (r : Router) : r.intake.Asks r.hasInput.1 r.hasInput.2.intake := by
  rw [hasInput]
  split
  · next h => exact .known h
  · next h =>
    simp only [Bool.or_eq_true, not_or, Bool.not_eq_true, Option.isSome_eq_false_iff,
      Option.isNone_iff_eq_none] at h
    obtain ⟨⟨hm, hn⟩, hp⟩ := h
    have hf := r.intake_fetch
    cases ho : r.fetch with
    | mk o r' =>
      rw [ho] at hf
      cases o with
      | none => exact .dry hm hn hp hf
      | some d =>
        obtain ⟨p, part⟩ := d
        obtain ⟨e, he⟩ := hf.front
        have hname : r'.name? p = some e.identity.toPart := by rw [name?_eq, he]; rfl
        simp only [hname]
        exact .first hm hn hp hf he

end Router

end Zmtp
