import Zmtp.Proofs.Router.Upkeep

namespace Zmtp

open Function (update)

namespace Intake

variable {v v' : Intake} {p : PipeId} {e : LinkEnd} {o : Option (PipeId × Part)}

/-- The pipe in the middle of a message has more to read and is not put aside. It need not have the
turn. -/
structure Stocked (v : Intake) : Prop where
  whole : ∀ p e, v.front p = some e → Whole e.inbox
  rest : ∀ p, v.queue.midMessage = some p →
    p ∈ v.queue.ready ∧ ∃ e, v.front p = some e ∧ e.inbox ≠ []

theorem Stocked.not_dry (h : v.Stocked) (hm : v.queue.midMessage = some p) : ¬ v.Dry p := by
  obtain ⟨-, e, he, hne⟩ := h.rest p hm
  exact fun hd => hne (hd e he)

theorem Stocked.set_front (h : v.Stocked) (hw : Whole e.inbox)
    (hp : v.queue.midMessage = some p → e.inbox ≠ []) :
    Stocked { v with front := update v.front p (some e) } where
  whole p' e' he := by
    simp only [Function.update_apply] at he
    split at he
    · cases he
      exact hw
    · exact h.whole p' e' he
  rest p' hm := by
    obtain ⟨hr, hin⟩ := h.rest p' hm
    refine ⟨hr, ?_⟩
    by_cases hpp : p' = p
    · subst hpp
      exact ⟨e, Function.update_self .., hp hm⟩
    · simp only [Function.update_apply, if_neg hpp]
      exact hin

theorem Stocked.set_queue (h : v.Stocked) {q : FairQueue} (hm : q.midMessage = v.queue.midMessage)
    (hr : ∀ p, v.queue.midMessage = some p → p ∈ v.queue.ready → p ∈ q.ready) :
    Stocked { v with queue := q } where
  whole := h.whole
  rest p hp := by
    have hp' := hm.symm.trans hp
    exact ⟨hr p hp' (h.rest p hp').1, (h.rest p hp').2⟩

theorem Stocked.arrive (h : v.Stocked) (hf : v.front p = none) (hw : Whole e.inbox) :
    (v.arrive p e).Stocked := by
  have hne (hm : v.queue.midMessage = some p) : e.inbox ≠ [] := by
    obtain ⟨-, e', he', -⟩ := h.rest p hm
    cases hf.symm.trans he'
  have h' := h.set_front hw hne
  exact ⟨h'.whole, h'.rest⟩

theorem Stocked.settle {o : Identified} (h : v.Stocked) (hc : v.Consistent)
    (ha : v.anonymous p = some .pending) (he : v.front p = some e) (hi : v.Identifies p e o v') :
    (v'.settle p o).Stocked := by
  have hmid (e : LinkEnd) (hm : v.queue.midMessage = some p) : e.inbox ≠ [] := by
    have hn := hc.sourced p (hc.midway p hm)
    rw [hc.apart p (Option.isSome_of_eq_some ha)] at hn
    cases hn
  cases hi with
  | dry => exact ⟨h.whole, h.rest⟩
  | rejected hi =>
    have hw := h.whole p e he
    rw [hi] at hw
    have h' := h.set_front (p := p) (e := { e with inbox := _ }) hw.tail (hmid _)
    exact ⟨h'.whole, h'.rest⟩
  | known i hi hf =>
    have hw := h.whole p e he
    rw [hi] at hw
    have h' := h.set_front (p := p) (e := { e with inbox := _, identity := i }) hw.tail (hmid _)
    have hq := h'.set_queue (q := v.queue.attach p) rfl
      fun _ _ hr => List.mem_append_left _ hr
    exact ⟨hq.whole, hq.rest⟩

theorem Stocked.activate (h : v.Stocked) (p : PipeId) :
    Stocked { v with queue := v.queue.activate p } :=
  h.set_queue (FairQueue.midMessage_activate ..) fun _ _ hr => FairQueue.mem_ready_activate_iff.2
    (.inl hr)

theorem Stocked.refill (h : v.Stocked) (he : v.front p = some e) {more : List Part}
    (hw : Whole more) :
    Stocked { v with front := update v.front p (some { e with inbox := e.inbox ++ more }) } := by
  refine h.set_front ((h.whole p e he).append hw) fun hm => ?_
  obtain ⟨-, e', he', hne⟩ := h.rest p hm
  cases he.symm.trans he'
  exact List.append_ne_nil_of_left_ne_nil hne more

theorem Stocked.passes (h : v.Stocked) {q : FairQueue} (hq : FairQueue.Passes v.Dry v.queue q) :
    Stocked { v with queue := q } :=
  h.set_queue hq.midMessage fun _ hm hr => hq.mem_ready hr (h.not_dry hm)

theorem Stocked.fetch (h : v.Stocked) (hf : v.Fetches o v') : v'.Stocked := by
  cases hf with
  | dry hq hc => exact h.passes hq
  | @took q p e part rest hq hc he hi =>
    have hw := h.whole p e he
    rw [hi] at hw
    have hready := FairQueue.mem_ready_of_current? hc
    constructor
    · intro p' e' he'
      simp only [Function.update_apply] at he'
      split at he'
      · cases he'
        exact hw.tail
      · exact h.whole p' e' he'
    · intro p' hm
      simp only [FairQueue.midMessage_served] at hm
      split at hm
      · next hmore =>
        cases hm
        refine ⟨?_, _, Function.update_self .., hw.tail_ne_nil hmore⟩
        simp only [FairQueue.ready_served]
        exact hready
      · cases hm

theorem Stocked.depart (h : v.Stocked) (hc : v.Consistent) (p : PipeId) : (v.depart p).Stocked := by
  have hmem : ∀ c, v.queue.midMessage = some c → c ∈ v.queue.members := fun c hm =>
    (hc.queued c).2 (hc.sourced c (hc.midway c hm))
  rw [hc.depart_eq]
  constructor
  · intro p' e he
    simp only [Function.update_apply] at he
    split at he
    · cases he
    · exact h.whole p' e he
  · intro p' hm
    simp only [FairQueue.midMessage_remove hmem] at hm
    split at hm
    · cases hm
    · next hne =>
      obtain ⟨hr, hin⟩ := h.rest p' hm
      have hp : p' ≠ p := by
        rintro rfl
        exact hne hm
      refine ⟨hc.queue.mem_ready_remove.2 ⟨hr, hp⟩, ?_⟩
      simp only [Function.update_apply, if_neg hp]
      exact hin

theorem Stocked.with_prefetched (h : v.Stocked) (m : Bool) (name part : Option Part) :
    Stocked { v with moreIn := m, prefetchedName := name, prefetchedPart := part } :=
  ⟨h.whole, h.rest⟩

theorem Stocked.receive (h : v.Stocked) {o : Option Part} (hr : v.Receives o v') : v'.Stocked := by
  cases hr with
  | name => exact h.with_prefetched ..
  | held => exact h.with_prefetched ..
  | dry _ _ hf => exact h.fetch hf
  | inside _ _ hf => exact (h.fetch hf).with_prefetched ..
  | first _ _ hf => exact (h.fetch hf).with_prefetched ..

theorem Stocked.ask (h : v.Stocked) {b : Bool} (ha : v.Asks b v') : v'.Stocked := by
  cases ha with
  | known => exact h
  | dry _ _ _ hf => exact h.fetch hf
  | first _ _ _ hf => exact (h.fetch hf).with_prefetched ..

theorem Stocked.plays {m : RouterMove} (h : v.Stocked) (hc : v.Consistent) (hp : v.Plays m v')
    (hw : ∀ l, m = .attach l → Whole l.left.inbox) (hfar : ∀ p f, m ≠ .far p f) : v'.Stocked := by
  cases hp with
  | attach hf hi =>
    have ha := h.arrive (e := Link.front _) hf (hw _ rfl)
    exact ha.settle (hc.arrive hf _) (Function.update_self ..) (Function.update_self ..) hi
  | detach p => exact h.depart hc p
  | activate => exact h.activate _
  | identify ha he hi => exact h.settle hc ha he hi
  | ask ha => exact h.ask ha
  | receive hr => exact h.receive hr
  | far f => exact absurd rfl (hfar _ f)
  | away f => exact absurd rfl (hfar _ f)
  | ignore | writable | send | rollback | mandate => exact h

theorem Stocked.midMessage_eq_none (h : v.Stocked) (hc : v.Consistent) (hf : v.Fetches none v') :
    v.queue.midMessage = none := by
  cases hf with
  | dry hq hn =>
    cases hm : v.queue.midMessage with
    | none => rfl
    | some p =>
      have hr := hq.mem_ready (h.rest p hm).1 (h.not_dry hm)
      rw [(hq.wellFormed hc.queue).ready_eq_nil hn] at hr
      cases hr

end Intake

namespace Router

variable {r r' : Router} {m : RouterMove} {ms : List RouterMove}

def run (r : Router) (ms : List RouterMove) : Router := ms.foldl play r

/-- A pipe is not attached twice at a time, and the far ends publish whole messages. -/
def Heeds (r : Router) : RouterMove → Prop
  | .attach l => r.intake.front l.left.id = none ∧ Whole l.left.inbox
  | .far p m => Whole (((r.link? p).map (·.publishes m)).getD [])
  | _ => True

instance (r : Router) : DecidablePred r.Heeds
  | .attach _ => inferInstanceAs (Decidable (_ = none ∧ Whole _))
  | .far _ _ => inferInstanceAs (Decidable (Whole _))
  | .detach _ | .readable _ | .writable _ | .send _ | .rollback | .mandate _ | .ask | .receive =>
    isTrue trivial

def HeedsAll (r : Router) : List RouterMove → Prop
  | [] => True
  | m :: ms => r.Heeds m ∧ (r.play m).HeedsAll ms

instance decidableHeedsAll : ∀ (ms : List RouterMove) (r : Router), Decidable (r.HeedsAll ms)
  | [], _ => isTrue trivial
  | m :: ms, r =>
    have := decidableHeedsAll ms (r.play m)
    inferInstanceAs (Decidable (r.Heeds m ∧ (r.play m).HeedsAll ms))

theorem Heeds.admits (h : r.Heeds m) : r.Admits m := by
  cases m with
  | attach l => exact h.1
  | _ => trivial

/-- What receiving and looking ahead rely on. -/
structure Attends (r : Router) : Prop where
  consistent : r.intake.Consistent
  recalls : ∃ last, r.intake.Recalls last
  stocked : r.intake.Stocked

theorem attends_new (s : Settings) (ids : IdentitySource) : (new s ids).Attends where
  consistent := consistent_new s ids
  recalls := ⟨none, nofun, nofun, nofun⟩
  stocked := ⟨nofun, nofun⟩

theorem stocked_far {p : PipeId} {f : FarMove} (h : r.Heeds (.far p f)) (hs : r.intake.Stocked) :
    (r.play (.far p f)).intake.Stocked := by
  rw [intake_far]
  rw [Heeds] at h
  cases hl : r.link? p with
  | none =>
    have hf : r.intake.front p = none := congrArg (Option.map Link.front) hl
    rw [Option.map_none, ← hf, Function.update_eq_self]
    exact hs
  | some l =>
    rw [hl] at h
    exact hs.refill (congrArg (Option.map Link.front) hl) h

theorem stocked_play (h : r.Heeds m) (hc : r.intake.Consistent) (hs : r.intake.Stocked) :
    (r.play m).intake.Stocked := by
  have hp := intake_play hc h.admits
  cases m with
  | far p f => exact stocked_far h hs
  | attach l =>
    refine hs.plays hc hp (fun l' he => ?_) nofun
    cases he
    exact h.2
  | detach | readable | writable | send | rollback | mandate | ask | receive =>
    exact hs.plays hc hp nofun nofun

theorem Attends.play (h : r.Attends) (hm : r.Heeds m) : (r.play m).Attends where
  consistent := consistent_play h.consistent hm.admits
  recalls := by
    obtain ⟨last, hl⟩ := h.recalls
    exact ⟨_, recalls_play hm.admits h.consistent hl⟩
  stocked := stocked_play hm h.consistent h.stocked

theorem Attends.run (h : r.Attends) (hms : r.HeedsAll ms) : (r.run ms).Attends := by
  induction ms generalizing r with
  | nil => exact h
  | cons m ms ih => exact ih (h.play hms.1) hms.2

theorem Attends.fetch_isSome (h : r.Attends) (hm : r.moreIn = true)
    (hp : r.prefetchedPart = none) : r.fetch.1.isSome := by
  obtain ⟨last, hl⟩ := h.recalls
  obtain ⟨p, -, -, -, -, hmid⟩ := hl.midway hm hp
  have hf := r.intake_fetch
  cases ho : r.fetch.1 with
  | some d => rfl
  | none =>
    rw [ho] at hf
    cases hmid.symm.trans (h.stocked.midMessage_eq_none h.consistent hf)

theorem name?_of_fetch {p : PipeId} {part : Part} (hf : r.fetch = (some (p, part), r')) :
    ∃ name, r'.name? p = some name := by
  have hi := r.intake_fetch
  rw [hf] at hi
  obtain ⟨e, he⟩ := hi.front
  exact ⟨e.identity.toPart, by rw [name?_eq, he]; rfl⟩

theorem frame_of_fetch {o : Option (PipeId × Part)} (hf : r.fetch = (o, r')) :
    r'.moreIn = r.moreIn ∧ r'.prefetchedName = r.prefetchedName ∧
      r'.prefetchedPart = r.prefetchedPart := by
  have hi := r.intake_fetch
  rw [hf] at hi
  exact ⟨hi.moreIn, hi.frame.2.2⟩

/-- Once nothing was found, nothing is found again, and the search changes nothing more. -/
theorem fetch_fetch (hf : r.fetch = (none, r')) : r'.fetch = (none, r') := by
  have hi := r.intake_fetch
  rw [hf] at hi
  generalize hv : r'.intake = v at hi
  cases hi with
  | dry hq hc =>
    have hcur : r'.queue.current? = none := by
      rw [show r'.queue = r'.intake.queue from rfl, hv]
      exact hc
    rw [fetch, FairQueue.next_of_none hcur]

theorem hasInput_of_known
    (h : (r.moreIn || r.prefetchedName.isSome || r.prefetchedPart.isSome) = true) :
    r.hasInput = (true, r) := by
  rw [hasInput, if_pos h]

section Fetch

variable {p : PipeId} {part name : Part} (hn : r.prefetchedName = none)
  (hp : r.prefetchedPart = none)
include hn hp

theorem receive_of_dry (hf : r.fetch = (none, r')) : r.receive = (none, r') := by
  rw [receive, hn, hp, hf]

theorem receive_of_fetch (hf : r.fetch = (some (p, part), r')) (hname : r'.name? p = some name) :
    r.receive =
      if r.moreIn then (some part, { r' with moreIn := part.hasMore })
      else (some name, { r' with prefetchedPart := some part, moreIn := true }) := by
  rw [receive, hn, hp, hf, ← (frame_of_fetch hf).1]
  simp only [hname]

variable (hm : r.moreIn = false)
include hm

theorem hasInput_of_dry (hf : r.fetch = (none, r')) : r.hasInput = (false, r') := by
  rw [hasInput, hm, hn, hp, hf]
  rfl

theorem hasInput_of_fetch (hf : r.fetch = (some (p, part), r')) (hname : r'.name? p = some name) :
    r.hasInput =
      (true, { r' with prefetchedName := some name, prefetchedPart := some part }) := by
  rw [hasInput, hm, hn, hp, hf]
  simp only [hname]
  rfl

end Fetch

/-- Either it is known that there is something to receive, or it takes a fetch to tell. -/
theorem known_or (r : Router) :
    (r.moreIn || r.prefetchedName.isSome || r.prefetchedPart.isSome) = true ∨
      r.moreIn = false ∧ r.prefetchedName = none ∧ r.prefetchedPart = none := by
  cases r.moreIn <;> cases r.prefetchedName <;> cases r.prefetchedPart <;> simp

theorem Attends.receive_isSome (h : r.Attends)
    (hk : (r.moreIn || r.prefetchedName.isSome || r.prefetchedPart.isSome) = true) :
    r.receive.1.isSome = true := by
  cases hn : r.prefetchedName with
  | some name =>
    rw [receive, hn]
    rfl
  | none =>
    cases hp : r.prefetchedPart with
    | some part =>
      rw [receive, hn, hp]
      rfl
    | none =>
      have hm : r.moreIn = true := by
        rw [hn, hp] at hk
        simpa using hk
      obtain ⟨⟨p, part⟩, ho⟩ := Option.isSome_iff_exists.1 (h.fetch_isSome hm hp)
      have hf : r.fetch = (some (p, part), r.fetch.2) := Prod.ext ho rfl
      obtain ⟨name, hname⟩ := name?_of_fetch hf
      rw [receive_of_fetch hn hp hf hname, if_pos hm]
      rfl

theorem Attends.hasInput_iff (h : r.Attends) :
    r.hasInput.1 = true ↔ r.receive.1.isSome = true := by
  rcases r.known_or with hk | ⟨hm, hn, hp⟩
  · rw [hasInput_of_known hk]
    exact iff_of_true rfl (h.receive_isSome hk)
  · cases hf : r.fetch with
    | mk o r' =>
      cases o with
      | none =>
        rw [hasInput_of_dry hn hp hm hf, receive_of_dry hn hp hf]
        exact iff_of_false nofun nofun
      | some d =>
        obtain ⟨name, hname⟩ := name?_of_fetch hf
        rw [hasInput_of_fetch hn hp hm hf hname, receive_of_fetch hn hp hf hname, hm]
        exact iff_of_true rfl rfl

theorem receive_hasInput (r : Router) : r.hasInput.2.receive = r.receive := by
  rcases r.known_or with hk | ⟨hm, hn, hp⟩
  · rw [hasInput_of_known hk]
  · cases hf : r.fetch with
    | mk o r' =>
      obtain ⟨hm', hn', hp'⟩ := frame_of_fetch hf
      cases o with
      | none =>
        rw [hasInput_of_dry hn hp hm hf, receive_of_dry hn hp hf]
        exact receive_of_dry (hn'.trans hn) (hp'.trans hp) (fetch_fetch hf)
      | some d =>
        obtain ⟨name, hname⟩ := name?_of_fetch hf
        rw [hasInput_of_fetch hn hp hm hf hname, receive_of_fetch hn hp hf hname, hm, receive]
        simp only [Bool.false_eq_true, if_false, ← hn, ← hn']

/-- The router after it was asked so many times whether there is something to receive. -/
def asked (r : Router) : Nat → Router
  | 0 => r
  | n + 1 => r.hasInput.2.asked n

theorem receive_asked (r : Router) (n : Nat) : (r.asked n).receive = r.receive := by
  induction n generalizing r with
  | zero => rfl
  | succ n ih => exact (ih r.hasInput.2).trans r.receive_hasInput

/-- However a router came to where it is, while the far ends publish whole messages it says that
there is something to receive exactly if receiving gives a part. After any number of such questions
receiving gives the same part, and it leaves the same router and the same links behind. -/
theorem lookahead_run (s : Settings) (ids : IdentitySource) {ms : List RouterMove}
    (h : (new s ids).HeedsAll ms) :
    let r := (new s ids).run ms
    (r.hasInput.1 = true ↔ r.receive.1.isSome = true) ∧
      ∀ n, (r.asked n).receive = r.receive := by
  intro r
  have ha : r.Attends := (attends_new s ids).run h
  exact ⟨ha.hasInput_iff, r.receive_asked⟩

/-- The second of three peers leaves while the third is in the middle of a message. -/
def interrupted : List RouterMove := Watch.threePeers ++ [.detach ⟨2⟩]

theorem lookahead_run_interrupted :
    let r := (new .default ⟨7⟩).run interrupted
    (new .default ⟨7⟩).HeedsAll interrupted ∧ r.queue.midMessage = some ⟨4⟩ ∧
      r.hasInput.1 = true ∧ (r.asked 3).receive.1 = some (.ofBytes [0x61, 0x32]) := by
  intro r
  have h : (new .default ⟨7⟩).HeedsAll interrupted := by decide +kernel
  have hr : r.receive.1 = some (.ofBytes [0x61, 0x32]) := by decide +kernel
  obtain ⟨hiff, hasked⟩ := lookahead_run .default ⟨7⟩ h
  refine ⟨h, by decide +kernel, hiff.2 (Option.isSome_of_eq_some hr), ?_⟩
  rw [hasked 3]
  exact hr

end Router

end Zmtp
