import Zmtp.Proofs.Router.Standing

namespace Zmtp

open Function (update)

/-- A router, all that was published at the far ends of its links, and all that it delivered. -/
structure Watch where
  router : Router
  published : PipeId → Option (List Part)
  journal : Journal

namespace Watch

def new (s : Settings) (ids : IdentitySource) : Watch := ⟨.new s ids, fun _ => none, .empty⟩

/-- What a move lets a link deliver. -/
def publishes (w : Watch) (p : PipeId) (m : FarMove) : List Part :=
  match w.router.link? p with
  | none => []
  | some l => l.publishes m

def play (w : Watch) (m : RouterMove) : Watch where
  router := w.router.play m
  published :=
    match m with
    | .attach l => update w.published l.left.id (some l.left.inbox)
    | .far p m => update w.published p ((w.published p).map (· ++ w.publishes p m))
    | _ => w.published
  journal :=
    match m with
    | .detach p => w.journal.cut p
    | .receive => w.journal.record w.router.intake.owner w.router.receive.1
    | _ => w.journal

def run (w : Watch) (ms : List RouterMove) : Watch := ms.foldl play w

/-- A pipe is attached only once, and the far ends publish whole messages. -/
def Admits (w : Watch) : RouterMove → Prop
  | .attach l => w.published l.left.id = none ∧ Whole l.left.inbox
  | .far p m => Whole (w.publishes p m)
  | _ => True

/-- No pipe that leaves displaces another in the middle of a message. -/
def Spares (w : Watch) : RouterMove → Prop
  | .detach p => ¬ w.router.queue.Displaces p
  | _ => True

/-- Every move of a run is as it should be when its turn comes. -/
def Always (ok : Watch → RouterMove → Prop) : Watch → List RouterMove → Prop
  | _, [] => True
  | w, m :: ms => ok w m ∧ Always ok (w.play m) ms

instance (w : Watch) : DecidablePred w.Admits
  | .attach _ => inferInstanceAs (Decidable (_ = none ∧ Whole _))
  | .far _ _ => inferInstanceAs (Decidable (Whole _))
  | .detach _ | .readable _ | .writable _ | .send _ | .rollback | .mandate _ | .ask | .receive =>
    isTrue trivial

instance (w : Watch) : DecidablePred w.Spares
  | .detach _ => inferInstanceAs (Decidable ¬ _)
  | .attach _ | .far _ _ | .readable _ | .writable _ | .send _ | .rollback | .mandate _ | .ask
  | .receive => isTrue trivial

instance decidableAlways (ok : Watch → RouterMove → Prop) [∀ w, DecidablePred (ok w)] :
    ∀ w ms, Decidable (Always ok w ms)
  | _, [] => isTrue trivial
  | w, m :: ms =>
    have := decidableAlways ok (w.play m) ms
    inferInstanceAs (Decidable (ok w m ∧ Always ok (w.play m) ms))

/-- Whatever was received is a message with the name of its sender before it, and from every sender
all messages are received in the order in which they were published. -/
structure Sound (w : Watch) : Prop where
  /-- Every message begins with the name of a peer. -/
  addressed : ∀ e ∈ w.journal.envelopes, e.name.hasMore = true ∧ ∃ p, e.sender = some p
  /-- A message ends with its last part, unless its sender was given up. -/
  ended : ∀ e ∈ w.journal.done, IsMessage e.parts ∨
    (∀ x ∈ e.parts, x.hasMore = true) ∧ ∀ p, e.sender = some p → w.router.link? p = none
  /-- Only the last message of a sender can lack its last part. -/
  whole : ∀ p, ∀ e ∈ (w.journal.of p).dropLast, IsMessage e.parts
  /-- The sender of the current message is still there, and its next part can be received. -/
  current : ∀ e, w.journal.current = some e → (∀ x ∈ e.parts, x.hasMore = true) ∧
    (∃ p, e.sender = some p ∧ (w.router.link? p).isSome) ∧ w.router.receive.1.isSome
  /-- From a peer that is there, nothing is lost, repeated or put in another order. -/
  delivered : ∀ p l, w.router.link? p = some l → (w.router.identity? p).isSome →
    ∃ first rest, w.published p = some (first :: rest) ∧
      w.journal.parts p ++ (w.router.intake.held p ++ l.left.inbox) = rest
  /-- From any peer, what was received are the parts that it published first, without its identity. -/
  received : ∀ p s, w.published p = some s → w.journal.parts p <+: s.drop 1
  /-- Nothing comes from a pipe that was never attached. -/
  strangers : ∀ p, w.published p = none → w.journal.of p = []

end Watch

/-- What holds between a router and the history that led to it. -/
structure Kept (v : Intake) (published : PipeId → Option (List Part)) (j : Journal) : Prop where
  consistent : v.Consistent
  steady : v.Steady
  stage : v.Stage j
  standing : ∀ p, Standing v (published p) j p
  proper : j.Proper
  addressed : ∀ e ∈ j.envelopes, e.name.hasMore = true ∧ ∃ p, e.sender = some p

namespace Kept

variable {v v' : Intake} {published : PipeId → Option (List Part)} {j : Journal} {p : PipeId}
  {e : LinkEnd} {part : Part}

theorem front_eq_none (h : Kept v published j) (hp : published p = none) : v.front p = none := by
  cases h.standing p with
  | absent hf => exact hf
  | gone hf => exact hf
  | unnamed _ _ hs => rw [hp] at hs; cases hs
  | known _ _ hs => rw [hp] at hs; cases hs

theorem arrive (h : Kept v published j) (hp : published p = none) (hw : Whole e.inbox) :
    Kept (v.arrive p e) (update published p (some e.inbox)) j where
  consistent := h.consistent.arrive (h.front_eq_none hp) e
  steady := h.steady.arrive h.consistent (h.front_eq_none hp) hw
  stage := h.stage.mono rfl rfl rfl rfl rfl fun _ _ _ hn => hn
  standing := Standing.arrive h.standing hp e
  proper := h.proper
  addressed := h.addressed

theorem settle {o : Identified} (h : Kept v published j) (ha : v.anonymous p = some .pending)
    (he : v.front p = some e) (hi : v.Identifies p e o v') :
    Kept (v'.settle p o) published j where
  consistent := h.consistent.settle ha he hi
  steady := h.steady.settle h.consistent ha he hi
  stage := by
    cases hi with
    | dry => exact h.stage.mono rfl rfl rfl rfl rfl fun _ _ _ hn => hn
    | rejected => exact h.stage.mono rfl rfl rfl rfl rfl fun _ _ _ hn => hn
    | known i hi hf =>
      refine h.stage.mono rfl rfl rfl rfl rfl ?_
      intro p' i' _ hn
      have hne : p' ≠ p := by
        rintro rfl
        rw [h.consistent.apart p' (by rw [ha]; rfl)] at hn
        cases hn
      exact (Function.update_of_ne hne ..).trans hn
  standing := Standing.settle h.standing h.consistent he ha hi
  proper := h.proper
  addressed := h.addressed

theorem refill (h : Kept v published j) (he : v.front p = some e) {more : List Part}
    (hw : Whole more) :
    Kept { v with front := update v.front p (some { e with inbox := e.inbox ++ more }) }
      (update published p ((published p).map (· ++ more))) j where
  consistent := h.consistent.refill he _
  steady := h.steady.refill he hw
  stage := h.stage.mono rfl rfl rfl rfl rfl fun _ _ _ hn => hn
  standing := Standing.refill h.standing he more
  proper := h.proper
  addressed := h.addressed

theorem activate (h : Kept v published j) (p : PipeId) :
    Kept { v with queue := v.queue.activate p } published j where
  consistent := h.consistent.activate p
  steady := h.steady.activate p
  stage := h.stage.mono rfl rfl rfl rfl (v.queue.midMessage_activate p) fun _ _ _ hn => hn
  standing p' := (h.standing p').frame rfl rfl rfl rfl rfl
  proper := h.proper
  addressed := h.addressed

theorem depart (h : Kept v published j) (hd : ¬ v.queue.Displaces p) :
    Kept (v.depart p) published (j.cut p) where
  consistent := h.consistent.depart p
  steady := h.steady.depart h.consistent hd
  stage := h.stage.depart h.consistent p
  standing := Standing.depart h.standing h.consistent p
  proper := h.proper.cut_off p
  addressed e he := by
    rw [Journal.cut] at he
    split at he
    · exact h.addressed e he
    · next d hd' =>
      split at he
      · have hd := h.addressed d (by rw [Journal.envelopes_of_some hd']; simp)
        rw [Journal.envelopes, Option.toList_none, List.append_nil] at he
        rcases List.mem_append.1 he with he | he
        · exact h.addressed e (List.mem_append_left _ he)
        · rw [List.mem_singleton.1 he]
          exact hd
      · exact h.addressed e he

theorem fetch_none (h : Kept v published j) (hf : v.Fetches none v') : Kept v' published j where
  consistent := h.consistent.fetch hf
  steady := h.steady.fetch h.consistent hf
  stage := by
    cases hf with
    | dry hq hc => exact h.stage.mono rfl rfl rfl rfl hq.midMessage fun _ _ _ hn => hn
  standing p' := by
    cases hf with
    | dry hq hc => exact (h.standing p').frame rfl rfl rfl rfl rfl
  proper := h.proper
  addressed := h.addressed

theorem note_name (h : Kept v published j) (hc : j.current = none) {i : Identity}
    (hi : v.name p = some i) (p' : PipeId) :
    Standing v (published p') (j.note v.owner i.toPart) p' := by
  have ho : v.owner ⟨i.toPart.data⟩ = some p := (h.consistent.inverse p i).1 hi
  have hof := Journal.of_note_none hc v.owner i.toPart p'
  rw [ho] at hof
  by_cases hne : p' = p
  · subst hne
    have hn : (v.name p').isSome := by rw [hi]; rfl
    obtain ⟨e, he⟩ := h.consistent.front_of_name hn
    refine (h.standing p').move h.consistent hn he he rfl [] rfl ?_ ?_
    · rw [Journal.parts_note_none hc, List.append_nil]
    · intro hcut d hd
      rw [hof, if_pos rfl, List.mem_append, List.mem_singleton] at hd
      rcases hd with hd | rfl
      · exact hcut d hd
      · rfl
  · rw [if_neg fun hp => hne (Option.some.inj hp).symm, List.append_nil] at hof
    exact (h.standing p').frame rfl rfl rfl rfl hof

theorem addressed_name (h : Kept v published j) (hc : j.current = none) {i : Identity}
    (hi : v.name p = some i) :
    ∀ e ∈ (j.note v.owner i.toPart).envelopes, e.name.hasMore = true ∧ ∃ p, e.sender = some p := by
  intro e he
  rw [Journal.envelopes_note_none hc, List.mem_append, List.mem_singleton] at he
  rcases he with he | rfl
  · exact h.addressed e he
  · exact ⟨Flags.contains_ofMore true, p, (h.consistent.inverse p i).1 hi⟩

theorem note_part (h : Kept v published j) {d : Envelope} (hj : j.current = some d)
    (hd : d.sender = some p) (hn : (v.name p).isSome) {owner : Identity → Option PipeId}
    (hname : v'.name = v.name) (hanon : v'.anonymous = v.anonymous)
    (hother : ∀ p' ≠ p, v'.front p' = v.front p' ∧ v'.held p' = v.held p') {e' : LinkEnd}
    (he : v.front p = some e) (he' : v'.front p = some e')
    (htake : v.held p ++ e.inbox = part :: (v'.held p ++ e'.inbox)) (p' : PipeId) :
    Standing v' (published p') (j.note owner part) p' := by
  have hof := Journal.of_note_some hj owner part p'
  by_cases hne : p' = p
  · subst hne
    refine (h.standing p').move h.consistent hn he he' (by rw [hname]) [part] htake ?_
      fun hcut x hx => ?_
    · rw [Journal.parts_note_some hj, if_pos hd]
    · rw [Journal.of_of_some hj] at hcut
      rw [hof, if_pos hd, List.mem_append, List.mem_singleton] at hx
      rcases hx with hx | rfl
      · exact hcut x (List.mem_append_left _ hx)
      · exact hcut d (by rw [if_pos hd]; exact List.mem_append_right _ (List.mem_singleton.2 rfl))
  · have hds : d.sender ≠ some p' := fun hp => hne (Option.some.inj (hp.symm.trans hd))
    rw [if_neg hds] at hof
    have hof' := Journal.of_of_some (p := p') hj
    rw [if_neg hds] at hof'
    exact (h.standing p').frame (hother p' hne).1 (by rw [hanon]) (by rw [hname])
      (hother p' hne).2 (hof.trans hof'.symm)

theorem addressed_part (h : Kept v published j) {d : Envelope} (hj : j.current = some d)
    {owner : Identity → Option PipeId} :
    ∀ e ∈ (j.note owner part).envelopes, e.name.hasMore = true ∧ ∃ p, e.sender = some p := by
  intro e he
  have henv := Journal.envelopes_of_some hj
  rw [Journal.envelopes_note_some hj, List.mem_append, List.mem_singleton] at he
  rcases he with he | rfl
  · exact h.addressed e (by rw [henv]; exact List.mem_append_left _ he)
  · exact h.addressed d (by rw [henv]; exact List.mem_append_right _ (List.mem_singleton.2 rfl))

theorem hold (h : Kept v published j) (hp : v.prefetchedPart = none)
    (hf : v.Fetches (some (p, part)) v') (m : Bool) (name : Option Part) (p' : PipeId) :
    Standing { v' with moreIn := m, prefetchedName := name, prefetchedPart := some part }
      (published p') j p' := by
  cases hf with
  | @took q _ e _ rest hq hc he hi =>
    have hn : (v.name p).isSome := (h.consistent.passes hq).mem_ready hc
    by_cases hne : p' = p
    · subst hne
      refine (h.standing p').move h.consistent hn he (Function.update_self ..) rfl []
        ?_ (by rw [List.append_nil]) id
      simp [Intake.held, hp, hi]
    · refine (h.standing p').frame (Function.update_of_ne hne ..) rfl rfl ?_ rfl
      simp [Intake.held, hp, Ne.symm hne]

theorem fetch_name (h : Kept v published j) (hf : v.Fetches (some (p, part)) v')
    (he : v'.front p = some e) :
    v'.name p = some e.identity ∧ v'.owner = v.owner ∧ v'.source = some p ∧
      v'.queue.midMessage = if part.hasMore then some p else none := by
  have hc' := h.consistent.fetch hf
  cases hf with
  | @took q _ d _ rest hq hc hd hi =>
    have hn : (v.name p).isSome := (h.consistent.passes hq).mem_ready hc
    obtain ⟨i, hi'⟩ := Option.isSome_iff_exists.1 hn
    have hid := hc'.labelled p e i he hi'
    refine ⟨?_, rfl, rfl, FairQueue.midMessage_served ..⟩
    rw [hid]
    exact hi'

theorem receive_name (h : Kept v published j) {name : Part} (hn : v.prefetchedName = some name) :
    Kept { v with prefetchedName := none, moreIn := true } published (j.note v.owner name) := by
  cases h.stage with
  | rest _ hn' => rw [hn] at hn'; cases hn'
  | named _ hn' => rw [hn] at hn'; cases hn'
  | inside _ hn' => rw [hn] at hn'; cases hn'
  | @peeked p i part hm hn' hp hs hi hq hj =>
    cases hn.symm.trans hn'
    exact
      { consistent := h.consistent.with_prefetched _ _ _
        steady := h.steady.with_prefetched _ _ _
        stage := .note_name hj ((h.consistent.inverse p i).1 hi) rfl rfl hp hs hq
        standing := fun p' => (h.note_name hj hi p').frame rfl rfl rfl rfl rfl
        proper := h.proper.note ..
        addressed := h.addressed_name hj hi }

theorem receive_held (h : Kept v published j) (hn : v.prefetchedName = none)
    (hp : v.prefetchedPart = some part) :
    Kept { v with prefetchedName := none, prefetchedPart := none, moreIn := part.hasMore }
      published (j.note v.owner part) := by
  cases h.stage with
  | rest _ _ hp' => rw [hp] at hp'; cases hp'
  | peeked _ hn' => rw [hn] at hn'; cases hn'
  | inside _ _ hp' => rw [hp] at hp'; cases hp'
  | @named p part' d hm hn' hp' hs hq hj hd =>
    cases hp.symm.trans hp'
    have hnm := h.consistent.sourced p hs
    obtain ⟨e, he⟩ := h.consistent.front_of_name hnm
    refine
      { consistent := h.consistent.with_prefetched _ _ _
        steady := h.steady.with_prefetched _ _ _
        stage := .note_part hj hd rfl rfl rfl hs hq
        standing := h.note_part hj hd hnm rfl rfl (fun q hq => ⟨rfl, ?_⟩) he he ?_
        proper := h.proper.note ..
        addressed := h.addressed_part hj }
    · simp [Intake.held, hs, Ne.symm hq]
    · simp [Intake.held, hs, hp]

theorem receive_inside (h : Kept v published j) (hn : v.prefetchedName = none)
    (hp : v.prefetchedPart = none) (hf : v.Fetches (some (p, part)) v') (hm : v.moreIn = true) :
    Kept { v' with moreIn := part.hasMore } published (j.note v.owner part) := by
  cases h.stage with
  | rest hm' => rw [hm] at hm'; cases hm'
  | peeked hm' => rw [hm] at hm'; cases hm'
  | named _ _ hp' => rw [hp] at hp'; cases hp'
  | @inside p' d _ _ _ hs hq hj hd =>
    obtain ⟨part', ho⟩ := h.steady.fetches_inside h.consistent hf hq
    cases ho
    have hnm := h.consistent.sourced p hs
    have hcons := h.consistent.fetch hf
    have hst := h.steady.fetch h.consistent hf
    cases hf with
    | @took q _ e _ rest hq' hc he hi =>
      refine
        { consistent := hcons.with_prefetched _ _ _
          steady := hst.with_prefetched _ _ _
          stage := .note_part hj hd rfl hn hp rfl (FairQueue.midMessage_served ..)
          standing := h.note_part hj hd hnm rfl rfl
            (fun p' hp' => ⟨Function.update_of_ne hp' _ _, ?_⟩) he (Function.update_self ..) ?_
          proper := h.proper.note ..
          addressed := h.addressed_part hj }
      · simp [Intake.held, hp]
      · simp [Intake.held, hp, hi]

theorem peek (h : Kept v published j) (hm : v.moreIn = false) (hn : v.prefetchedName = none)
    (hp : v.prefetchedPart = none) (hf : v.Fetches (some (p, part)) v')
    (he : v'.front p = some e) :
    Kept { v' with prefetchedName := some e.identity.toPart, prefetchedPart := some part }
      published j := by
  obtain ⟨hi, -, hs, hq⟩ := h.fetch_name hf he
  cases h.stage with
  | peeked _ hn' => rw [hn] at hn'; cases hn'
  | named hm' => rw [hm] at hm'; cases hm'
  | inside hm' => rw [hm] at hm'; cases hm'
  | rest _ _ _ _ hj =>
    exact
      { consistent := (h.consistent.fetch hf).with_prefetched _ _ _
        steady := (h.steady.fetch h.consistent hf).with_prefetched _ _ _
        stage := .peeked (hf.moreIn.trans hm) rfl rfl hs hi hq hj
        standing := h.hold hp hf _ _
        proper := h.proper
        addressed := h.addressed }

theorem receive_first (h : Kept v published j) (hm : v.moreIn = false)
    (hn : v.prefetchedName = none) (hp : v.prefetchedPart = none)
    (hf : v.Fetches (some (p, part)) v') (he : v'.front p = some e) :
    Kept { v' with prefetchedPart := some part, moreIn := true } published
      (j.note v.owner e.identity.toPart) := by
  have hown := (h.fetch_name hf he).2.1
  have hn' : v'.prefetchedName = none := by
    cases hf
    exact hn
  rw [← hown, hn']
  exact (h.peek hm hn hp hf he).receive_name rfl

theorem receive (h : Kept v published j) {o : Option Part} (hr : v.Receives o v') :
    Kept v' published (j.record v.owner o) := by
  cases hr with
  | name hn => exact h.receive_name hn
  | held hn hp => exact h.receive_held hn hp
  | dry hn hp hf => exact h.fetch_none hf
  | inside hn hp hf hm => exact h.receive_inside hn hp hf hm
  | first hn hp hf hm he => exact h.receive_first hm hn hp hf he

theorem ask (h : Kept v published j) {b : Bool} (ha : v.Asks b v') : Kept v' published j := by
  cases ha with
  | known => exact h
  | dry hm hn hp hf => exact h.fetch_none hf
  | first hm hn hp hf he => exact h.peek hm hn hp hf he

end Kept

namespace Watch

variable {w : Watch} {m : RouterMove}

/-- What the history of a router must be for it to go on. -/
def Holds (w : Watch) : Prop := Kept w.router.intake w.published w.journal

theorem holds_new (s : Settings) (ids : IdentitySource) : (new s ids).Holds where
  consistent := Router.consistent_new s ids
  steady := ⟨nofun, nofun⟩
  stage := .rest rfl rfl rfl rfl rfl
  standing _ := .absent rfl rfl rfl
  proper := Journal.proper_empty
  addressed := nofun

theorem Holds.play (h : w.Holds) (ha : w.Admits m) (hs : w.Spares m) : (w.play m).Holds := by
  have hcons : w.router.intake.Consistent := h.consistent
  cases m with
  | attach l =>
    obtain ⟨hp, hw⟩ := ha
    have hk := Kept.arrive (e := l.front) h hp hw
    have hf := Kept.front_eq_none h hp
    obtain ⟨o, v, hi, he⟩ := w.router.intake_attach l (hcons.detached hf).1
    have hk' := hk.settle (Function.update_self ..) (Function.update_self ..) hi
    rw [← he] at hk'
    exact hk'
  | detach p =>
    have hk := Kept.depart h hs
    rw [← Router.intake_detach] at hk
    exact hk
  | readable p =>
    change Kept (w.router.onReadable p).intake w.published w.journal
    cases ha : w.router.intake.anonymous p with
    | none =>
      rw [Router.intake_onReadable_known ha]
      exact Kept.activate h p
    | some a =>
      cases a with
      | rejected =>
        rw [Router.intake_onReadable_rejected ha]
        exact h
      | pending =>
        obtain ⟨e, he⟩ :=
          Option.isSome_iff_exists.1 ((hcons.attached p).2 (.inl (by rw [ha]; rfl)))
        obtain ⟨o, v, hi, hv⟩ := Router.intake_onReadable_pending he ha
        rw [hv]
        exact Kept.settle h ha he hi
  | writable p =>
    change Kept (w.router.onWritable p).intake w.published w.journal
    rw [Router.intake_onWritable]
    exact h
  | send part =>
    change Kept ((w.router.send part).toOption.getD w.router).intake w.published w.journal
    rw [Router.intake_send]
    exact h
  | rollback =>
    change Kept w.router.rollback.intake w.published w.journal
    rw [Router.intake_rollback]
    exact h
  | mandate on => exact h
  | ask => exact Kept.ask h w.router.intake_hasInput
  | receive => exact Kept.receive h w.router.intake_receive
  | far p m =>
    change Kept (w.router.play (.far p m)).intake _ _
    rw [Router.intake_far]
    cases hl : w.router.link? p with
    | none =>
      have hf : w.router.intake.front p = none := congrArg (Option.map Link.front) hl
      have hpub : (w.published p).map (· ++ w.publishes p m) = w.published p := by
        simp [publishes, hl]
      rw [Option.map_none, ← hf, Function.update_eq_self]
      simp only [Watch.play, hpub, Function.update_eq_self]
      exact h
    | some l =>
      have hpub : w.publishes p m = l.publishes m := by simp only [publishes, hl]
      have hw : Whole (l.publishes m) := hpub ▸ ha
      have hk := Kept.refill (e := l.front) h (congrArg (Option.map Link.front) hl) hw
      rw [← hpub] at hk
      simp only [Option.map_some, ← hpub]
      exact hk

theorem Holds.run {ms : List RouterMove} (h : w.Holds) (ha : Always Admits w ms)
    (hs : Always Spares w ms) : (w.run ms).Holds := by
  induction ms generalizing w with
  | nil => exact h
  | cons m ms ih => exact ih (h.play ha.1 hs.1) ha.2 hs.2

theorem Holds.receive_isSome (h : w.Holds) {e : Envelope} (hj : w.journal.current = some e) :
    w.router.receive.1.isSome := by
  have hr := w.router.intake_receive
  cases ho : w.router.receive.1 with
  | some part => rfl
  | none =>
    rw [ho] at hr
    cases hr with
    | dry hn hp hf =>
      cases h.stage with
      | rest _ _ _ _ hj' => rw [hj] at hj'; cases hj'
      | peeked _ hn' => rw [hn] at hn'; cases hn'
      | named _ _ hp' => rw [hp] at hp'; cases hp'
      | inside _ _ _ _ hq =>
        obtain ⟨part, ho⟩ := h.steady.fetches_inside h.consistent hf hq
        cases ho

theorem Holds.link?_eq_none (h : w.Holds) {e : Envelope} {p : PipeId}
    (he : e ∈ w.journal.envelopes) (hp : e.sender = some p) (hc : e.cut = true) :
    w.router.link? p = none := by
  have hof : e ∈ w.journal.of p := List.mem_filter.2 ⟨he, decide_eq_true hp⟩
  cases h.standing p with
  | absent _ _ hj => rw [hj] at hof; cases hof
  | unnamed _ _ _ _ hj => rw [hj] at hof; cases hof
  | known _ _ _ hcut =>
    rw [hcut e hof] at hc
    cases hc
  | gone hf => exact Option.map_eq_none_iff.1 hf

theorem Holds.uncut (h : w.Holds) {e : Envelope} {p : PipeId}
    (he : e ∈ (w.journal.of p).dropLast) : e.cut = false := by
  cases h.standing p with
  | absent _ _ hj => rw [hj] at he; cases he
  | unnamed _ _ _ _ hj => rw [hj] at he; cases he
  | known _ _ _ hcut => exact hcut e (List.dropLast_subset _ he)
  | gone _ _ hcut => exact hcut e he

theorem Holds.sound (h : w.Holds) : w.Sound where
  addressed := h.addressed
  ended e he := by
    cases hc : e.cut with
    | false => exact .inl (h.proper.done e he hc)
    | true =>
      refine .inr ⟨h.proper.cut e he hc, ?_⟩
      intro p hp
      exact h.link?_eq_none (List.mem_append_left _ he) hp hc
  whole p e he := by
    refine h.proper.done e ?_ (h.uncut he)
    cases hj : w.journal.current with
    | none =>
      have hof : w.journal.of p = w.journal.done.filter fun e => decide (e.sender = some p) := by
        rw [Journal.of, Journal.envelopes, hj, Option.toList_none, List.append_nil]
      rw [hof] at he
      exact (List.mem_filter.1 (List.dropLast_subset _ he)).1
    | some d =>
      rw [Journal.of_of_some hj] at he
      split at he
      · rw [List.dropLast_concat] at he
        exact (List.mem_filter.1 he).1
      · rw [List.append_nil] at he
        exact (List.mem_filter.1 (List.dropLast_subset _ he)).1
  current e hj := by
    obtain ⟨hs, hsome⟩ := h.stage.source hj
    obtain ⟨p, hp⟩ := Option.isSome_iff_exists.1 hsome
    obtain ⟨d, hd⟩ := h.consistent.front_of_name (h.consistent.sourced p hp)
    obtain ⟨l, hl, -⟩ := Option.map_eq_some_iff.1 hd
    exact ⟨(h.proper.current e hj).2, ⟨p, hs.trans hp, by rw [hl]; rfl⟩, h.receive_isSome hj⟩
  delivered p l hl hn := by
    have hf : w.router.intake.front p = some l.front := congrArg (Option.map Link.front) hl
    cases h.standing p with
    | absent hf' => rw [hf] at hf'; cases hf'
    | gone hf' => rw [hf] at hf'; cases hf'
    | unnamed _ ha =>
      have hn' : w.router.identity? p = none := h.consistent.apart p ha
      rw [hn'] at hn
      cases hn
    | known hf' _ hs _ hp =>
      cases hf.symm.trans hf'
      exact ⟨_, _, hs, hp⟩
  received p s hs := by
    cases h.standing p with
    | absent _ hs' => rw [hs] at hs'; cases hs'
    | unnamed _ _ _ _ hj =>
      rw [Journal.parts_eq_nil hj]
      exact List.nil_prefix
    | known _ _ hs' _ hp =>
      cases hs.symm.trans hs'
      rw [List.drop_one, List.tail_cons, ← hp]
      exact List.prefix_append ..
    | gone _ hs' _ hp =>
      cases hs.symm.trans hs'
      exact hp
  strangers p hs := (h.standing p).of_eq_nil hs

/-- In every run where no pipe that leaves displaces another, what was received are whole messages
with the name of their sender. The condition cannot be weakened: a pipe in the middle of a message
keeps its turn only if the one that leaves does not displace it. -/
theorem sound_run (s : Settings) (ids : IdentitySource) (ms : List RouterMove)
    (ha : Always Admits (new s ids) ms) (hs : Always Spares (new s ids) ms) :
    ((new s ids).run ms).Sound ∧
      ∀ p c, ((new s ids).run ms).router.queue.midMessage = some c → p ≠ c →
        ((((new s ids).run ms).play (.detach p)).router.queue.current? = some c ↔
          ¬ ((new s ids).run ms).router.queue.Displaces p) := by
  have h : ((new s ids).run ms).Holds := (holds_new s ids).run ha hs
  refine ⟨h.sound, ?_⟩
  intro p c hm hp
  have hq := congrArg Intake.queue (((new s ids).run ms).router.intake_detach p)
  rw [h.consistent.depart_eq] at hq
  change ((((new s ids).run ms).router.detach p).2.intake.queue).current? = some c ↔ _
  rw [hq]
  exact FairQueue.current?_remove h.consistent.queue hm (h.steady.turn c hm).1 hp

/-- A link whose far end has sent a name. -/
def namedLink (n : Nat) (name : Bytes) : Link :=
  ((Link.new ⟨n⟩ 0).far (.write (.ofBytes name))).far .flush

/-- Of three peers, the last is in the middle of a message when the next thing happens. -/
def threePeers : List RouterMove :=
  [.attach (namedLink 0 [0x41]), .attach (namedLink 2 [0x42]), .attach (namedLink 4 [0x43]),
    .far ⟨0⟩ (.write (.ofBytes [0x61, 0x31])), .far ⟨0⟩ .flush,
    .far ⟨0⟩ (.write (.ofBytes [0x61, 0x32])), .far ⟨0⟩ .flush,
    .far ⟨2⟩ (.write (.ofBytes [0x62, 0x31])), .far ⟨2⟩ .flush,
    .far ⟨4⟩ (.write (.ofMore [0x63, 0x31] true)), .far ⟨4⟩ (.write (.ofBytes [0x63, 0x32])),
    .far ⟨4⟩ .flush, .receive, .receive, .receive, .receive, .receive, .receive]

/-- The first of the ready pipes leaves, and the message goes on. -/
theorem sound_run_threePeers :
    ((new .default ⟨7⟩).run (threePeers ++ [.detach ⟨0⟩, .receive])).Sound ∧
      ((new .default ⟨7⟩).run (threePeers ++ [.detach ⟨0⟩, .receive])).journal.parts ⟨4⟩ =
        [.ofMore [0x63, 0x31] true, .ofBytes [0x63, 0x32]] :=
  ⟨(sound_run _ _ _ (by decide +kernel) (by decide +kernel)).1, by decide +kernel⟩

/-- The second of the ready pipes leaves, and a part of the first one gets into the message. -/
theorem not_sound_threePeers :
    Always Admits (new .default ⟨7⟩) (threePeers ++ [.detach ⟨2⟩, .receive]) ∧
      ¬ ((new .default ⟨7⟩).run (threePeers ++ [.detach ⟨2⟩, .receive])).Sound := by
  refine ⟨by decide +kernel, ?_⟩
  intro h
  have hpub : ((new .default ⟨7⟩).run (threePeers ++ [.detach ⟨2⟩, .receive])).published ⟨4⟩ =
      some [.ofBytes [0x43], .ofMore [0x63, 0x31] true, .ofBytes [0x63, 0x32]] := by
    decide +kernel
  have hparts : ((new .default ⟨7⟩).run (threePeers ++ [.detach ⟨2⟩, .receive])).journal.parts ⟨4⟩ =
      [.ofMore [0x63, 0x31] true, .ofBytes [0x61, 0x32]] := by
    decide +kernel
  have hpre := h.received ⟨4⟩ _ hpub
  rw [hparts] at hpre
  revert hpre
  decide

end Watch

end Zmtp
