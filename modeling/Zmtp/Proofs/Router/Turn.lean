import Zmtp.Proofs.Router.Journal

namespace Zmtp

open Function (update)

namespace Intake

variable {v v' : Intake} {j : Journal} {p : PipeId} {e : LinkEnd} {part : Part}

/-- The pipe in the middle of a message has the turn and has more to read. -/
structure Steady (v : Intake) : Prop where
  whole : ∀ p e, v.front p = some e → Whole e.inbox
  turn : ∀ p, v.queue.midMessage = some p →
    v.queue.current? = some p ∧ ∀ e, v.front p = some e → e.inbox ≠ []

theorem Steady.set_front (h : v.Steady) (hw : Whole e.inbox)
    (hp : v.queue.midMessage = some p → e.inbox ≠ []) :
    Steady { v with front := update v.front p (some e) } where
  whole p' e' he := by
    simp only [Function.update_apply] at he
    split at he
    · cases he
      exact hw
    · exact h.whole p' e' he
  turn p' hm := by
    refine ⟨(h.turn p' hm).1, ?_⟩
    intro e' he
    simp only [Function.update_apply] at he
    split at he
    · next he' =>
      cases he
      exact hp (he' ▸ hm)
    · exact (h.turn p' hm).2 e' he

theorem Steady.arrive (h : v.Steady) (hc : v.Consistent) (hf : v.front p = none)
    (hw : Whole e.inbox) : (v.arrive p e).Steady := by
  have hne : v.queue.midMessage ≠ some p := by
    intro hm
    obtain ⟨e', he'⟩ := hc.front_of_name (hc.sourced p (hc.midway p hm))
    rw [hf] at he'
    cases he'
  have h' := h.set_front (p := p) hw fun hm => absurd hm hne
  exact ⟨h'.whole, h'.turn⟩

theorem Steady.refill (h : v.Steady) (he : v.front p = some e) {more : List Part}
    (hw : Whole more) :
    Steady { v with front := update v.front p (some { e with inbox := e.inbox ++ more }) } := by
  apply h.set_front ((h.whole p e he).append hw)
  intro hm
  exact List.append_ne_nil_of_left_ne_nil ((h.turn p hm).2 e he) more

theorem Steady.settle {o : Identified} (h : v.Steady) (hc : v.Consistent)
    (ha : v.anonymous p = some .pending) (he : v.front p = some e) (hi : v.Identifies p e o v') :
    (v'.settle p o).Steady := by
  have hne : v.queue.midMessage ≠ some p := by
    intro hm
    have hn := hc.sourced p (hc.midway p hm)
    rw [hc.apart p (by rw [ha]; rfl)] at hn
    cases hn
  cases hi with
  | dry => exact ⟨h.whole, h.turn⟩
  | rejected hi =>
    have hw := h.whole p e he
    rw [hi] at hw
    have h' := h.set_front (p := p) (e := { e with inbox := _ }) hw.tail fun hm => absurd hm hne
    exact ⟨h'.whole, h'.turn⟩
  | known i hi hf =>
    have hw := h.whole p e he
    rw [hi] at hw
    have h' := h.set_front (p := p) (e := { e with inbox := _, identity := i }) hw.tail
      fun hm => absurd hm hne
    refine ⟨h'.whole, ?_⟩
    intro p' hm
    exact ⟨FairQueue.current?_attach (h'.turn p' hm).1, (h'.turn p' hm).2⟩

theorem Steady.activate (h : v.Steady) (p : PipeId) :
    Steady { v with queue := v.queue.activate p } where
  whole := h.whole
  turn p' hm := by
    have ht := h.turn p' (by simpa only [FairQueue.midMessage_activate] using hm)
    exact ⟨FairQueue.current?_activate ht.1, ht.2⟩

theorem Steady.eq_of_passes (h : v.Steady) (hc : v.Consistent) {q : FairQueue}
    (hq : FairQueue.Passes v.Dry v.queue q) (hm : v.queue.midMessage = some p) : q = v.queue := by
  obtain ⟨ht, hne⟩ := h.turn p hm
  obtain ⟨e, he⟩ := hc.front_of_name (hc.sourced p (hc.midway p hm))
  exact hq.eq_of_current? ht fun hd => hne e he (hd e he)

theorem Steady.fetches_inside (h : v.Steady) (hc : v.Consistent) {o : Option (PipeId × Part)}
    (hf : v.Fetches o v') (hm : v.queue.midMessage = some p) : ∃ part, o = some (p, part) := by
  cases hf with
  | dry hq hn =>
    rw [h.eq_of_passes hc hq hm, (h.turn p hm).1] at hn
    cases hn
  | took hq hn =>
    rw [h.eq_of_passes hc hq hm, (h.turn p hm).1] at hn
    cases hn
    exact ⟨_, rfl⟩

theorem Steady.fetch (h : v.Steady) (hc : v.Consistent) {o : Option (PipeId × Part)}
    (hf : v.Fetches o v') : v'.Steady := by
  cases hf with
  | dry hq hn =>
    refine ⟨h.whole, ?_⟩
    intro p hm
    have hm' := hm
    rw [show FairQueue.midMessage _ = _ from hq.midMessage] at hm'
    rw [h.eq_of_passes hc hq hm', (h.turn p hm').1] at hn
    cases hn
  | @took q p e part rest hq hn he hi =>
    have hw := h.whole p e he
    rw [hi] at hw
    constructor
    · intro p' e' he'
      simp only [Function.update_apply] at he'
      split at he'
      · cases he'
        exact hw.tail
      · exact h.whole p' e' he'
    · intro p' hm
      simp only [FairQueue.midMessage_served] at hm
      split at hm
      · next hmore =>
        cases hm
        refine ⟨(FairQueue.current?_served hmore).trans hn, fun e' he' => ?_⟩
        cases (Function.update_self ..).symm.trans he'
        exact hw.tail_ne_nil hmore
      · cases hm

theorem Steady.with_prefetched (h : v.Steady) (m : Bool) (name part : Option Part) :
    Steady { v with moreIn := m, prefetchedName := name, prefetchedPart := part } :=
  ⟨h.whole, h.turn⟩

theorem Steady.depart (h : v.Steady) (hc : v.Consistent) (hd : ¬ v.queue.Displaces p) :
    (v.depart p).Steady := by
  rw [hc.depart_eq]
  constructor
  · intro p' e he
    simp only [Function.update_apply] at he
    split at he
    · cases he
    · exact h.whole p' e he
  · intro p' hm
    have hmem : ∀ c, v.queue.midMessage = some c → c ∈ v.queue.members := fun c hc' =>
      (hc.queued c).2 (hc.sourced c (hc.midway c hc'))
    simp only [FairQueue.midMessage_remove hmem] at hm
    split at hm
    · cases hm
    · next hne =>
      obtain ⟨ht, hin⟩ := h.turn p' hm
      have hp : p ≠ p' := by
        rintro rfl
        exact hne hm
      refine ⟨(FairQueue.current?_remove hc.queue hm ht hp).2 hd, fun e he => ?_⟩
      simp only [Function.update_apply, if_neg hp.symm] at he
      exact hin e he

/-- How far the message that is being received has come. -/
inductive Stage (v : Intake) (j : Journal) : Prop where
  | rest (hm : v.moreIn = false) (hn : v.prefetchedName = none) (hp : v.prefetchedPart = none)
      (hq : v.queue.midMessage = none) (hj : j.current = none)
  /-- Its first part was taken early. -/
  | peeked {p : PipeId} {i : Identity} {part : Part} (hm : v.moreIn = false)
      (hn : v.prefetchedName = some i.toPart) (hp : v.prefetchedPart = some part)
      (hs : v.source = some p) (hi : v.name p = some i)
      (hq : v.queue.midMessage = if part.hasMore then some p else none) (hj : j.current = none)
  /-- Only the name was received. -/
  | named {p : PipeId} {part : Part} {e : Envelope} (hm : v.moreIn = true)
      (hn : v.prefetchedName = none) (hp : v.prefetchedPart = some part) (hs : v.source = some p)
      (hq : v.queue.midMessage = if part.hasMore then some p else none) (hj : j.current = some e)
      (he : e.sender = some p)
  | inside {p : PipeId} {e : Envelope} (hm : v.moreIn = true) (hn : v.prefetchedName = none)
      (hp : v.prefetchedPart = none) (hs : v.source = some p) (hq : v.queue.midMessage = some p)
      (hj : j.current = some e) (he : e.sender = some p)

theorem Stage.mono (h : v.Stage j) (hm : v'.moreIn = v.moreIn)
    (hn : v'.prefetchedName = v.prefetchedName) (hp : v'.prefetchedPart = v.prefetchedPart)
    (hs : v'.source = v.source) (hq : v'.queue.midMessage = v.queue.midMessage)
    (hi : ∀ p i, v.source = some p → v.name p = some i → v'.name p = some i) : v'.Stage j := by
  cases h with
  | rest hm' hn' hp' hq' hj =>
    exact .rest (hm.trans hm') (hn.trans hn') (hp.trans hp') (hq.trans hq') hj
  | peeked hm' hn' hp' hs' hi' hq' hj =>
    exact .peeked (hm.trans hm') (hn.trans hn') (hp.trans hp') (hs.trans hs') (hi _ _ hs' hi')
      (hq.trans hq') hj
  | named hm' hn' hp' hs' hq' hj he =>
    exact .named (hm.trans hm') (hn.trans hn') (hp.trans hp') (hs.trans hs') (hq.trans hq') hj he
  | inside hm' hn' hp' hs' hq' hj he =>
    exact .inside (hm.trans hm') (hn.trans hn') (hp.trans hp') (hs.trans hs') (hq.trans hq') hj he

theorem Stage.source (h : v.Stage j) {e : Envelope} (hj : j.current = some e) :
    e.sender = v.source ∧ v.source.isSome := by
  cases h with
  | rest _ _ _ _ hj' => rw [hj'] at hj; cases hj
  | peeked _ _ _ _ _ _ hj' => rw [hj'] at hj; cases hj
  | named _ _ _ hs _ hj' he =>
    cases hj'.symm.trans hj
    rw [he, hs]
    exact ⟨rfl, rfl⟩
  | inside _ _ _ hs _ hj' he =>
    cases hj'.symm.trans hj
    rw [he, hs]
    exact ⟨rfl, rfl⟩

theorem Stage.note_part {e : Envelope} {owner : Identity → Option PipeId}
    (hj : j.current = some e) (he : e.sender = some p)
    (hm : v.moreIn = part.hasMore) (hn : v.prefetchedName = none) (hp : v.prefetchedPart = none)
    (hs : v.source = some p) (hq : v.queue.midMessage = if part.hasMore then some p else none) :
    v.Stage (j.note owner part) := by
  cases hmore : part.hasMore with
  | true =>
    rw [hmore] at hm
    rw [hmore, if_pos rfl] at hq
    exact .inside (e := { e with parts := e.parts ++ [part] }) hm hn hp hs hq
      (by simp only [Journal.note, hj, hmore, if_true]) he
  | false =>
    rw [hmore] at hm
    rw [hmore, if_neg Bool.false_ne_true] at hq
    exact .rest hm hn hp hq (by simp only [Journal.note, hj, hmore, Bool.false_eq_true, if_false])

theorem Stage.note_name {name : Part} {owner : Identity → Option PipeId}
    (hj : j.current = none) (ho : owner ⟨name.data⟩ = some p) (hm : v.moreIn = true)
    (hn : v.prefetchedName = none) (hp : v.prefetchedPart = some part) (hs : v.source = some p)
    (hq : v.queue.midMessage = if part.hasMore then some p else none) :
    v.Stage (j.note owner name) :=
  .named (e := ⟨some p, name, [], false⟩) hm hn hp hs hq
    (by simp only [Journal.note, hj, ho]) rfl

theorem Stage.depart (h : v.Stage j) (hc : v.Consistent) (p : PipeId) :
    (v.depart p).Stage (j.cut p) := by
  have hmem : ∀ c, v.queue.midMessage = some c → c ∈ v.queue.members := fun c hc' =>
    (hc.queued c).2 (hc.sourced c (hc.midway c hc'))
  have hq := FairQueue.midMessage_remove (p := p) hmem
  rw [hc.depart_eq, abandon]
  by_cases hs : v.source = some p
  · rw [if_pos hs]
    have hcut : (j.cut p).current = none := by
      rcases Journal.current_cut (j := j) (p := p) with hj | ⟨-, e, hj, he⟩
      · exact hj
      · exact absurd ((h.source hj).1.trans hs) he
    refine .rest rfl rfl rfl ?_ hcut
    change (v.queue.remove p).midMessage = none
    rw [hq]
    split
    · rfl
    · next hne =>
      by_contra hm
      obtain ⟨c, hm'⟩ := Option.ne_none_iff_exists'.1 hm
      cases hs.symm.trans (hc.midway c hm')
      exact hne hm'
  · rw [if_neg hs]
    have hne : v.queue.midMessage ≠ some p := fun hm => hs (hc.midway p hm)
    rw [if_neg hne] at hq
    have hj : j.cut p = j := by
      rw [Journal.cut]
      split
      · rfl
      · next e he => exact if_neg fun hp => hs ((h.source he).1.symm.trans hp)
    rw [hj]
    refine h.mono rfl rfl rfl rfl hq ?_
    intro p' i hs' hi
    have hp : p' ≠ p := by
      rintro rfl
      exact hs hs'
    exact (Function.update_of_ne hp _ _).trans hi

end Intake

end Zmtp
