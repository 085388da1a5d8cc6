import Zmtp.Proofs.Exchange.Basic

namespace Zmtp

open Relation (ReflTransGen)
open Engine

namespace Party

variable {s t : Settings} {p p' q q' : Party} {e e' : Talker} {reason : Teardown}

/-- What lies around the engine of a party during a call. -/
def scene (p q : Party) (announced : Bool) : Scene where
  said := q.engine.stream.sent
  known := q.engine.stream.heard
  gone := q.engine.isOver
  published := p.published
  seen := p.seen
  announced

/-- What is known of a party between two acts. -/
structure Sound (s : Settings) (p q : Party) : Prop where
  fresh : p.engine.stage = .fresh →
    ∃ endpoint monitored t u, p.engine = .untold s endpoint monitored t u
  live : p.engine.isLive = true → p.engine.Sends s ∧ p.engine.Receives s ∧ p.engine.AtRest ∧
    p.engine.Awake fun l : Ledger LinkSession =>
      p.announced = true → l.inner.link.right.live = true → l.inner.link.right.inbox = []
  /-- What the peer has not heard of what was sent is on its way. -/
  channel : q.engine.stream.heard ++ p.outbound.bytes = p.engine.stream.sent
  writer : p.outbound.writerGone = p.engine.isOver
  reader : p.outbound.readerGone = q.engine.isOver
  left : p.link.left.live = true
  right : p.engine.isOver = false → p.link.right.live = true ∧
    p.engine.session.given ++ p.link.right.inbox = p.published
  staged : p.link.right.staged = []
  taken : p.engine.session.taken = p.visible
  given : p.engine.session.given <+: p.published
  sent : p.engine.stream.sent <+: s.speech p.engine.session.given
  accepted : p.engine.session.taken <+: s.delivered p.engine.stream.heard

theorem sound_new (s : Settings) (endpoint : String) (monitored : Bool) (first : PipeId)
    (hheard : q.engine.stream.heard = []) (hover : q.engine.isOver = false) :
    (Party.new s endpoint monitored first).Sound s q where
  fresh _ := ⟨_, _, _, _, rfl⟩
  live := nofun
  channel := by
    rw [hheard]
    rfl
  writer := rfl
  reader := hover.symm
  left := rfl
  right _ := ⟨rfl, rfl⟩
  staged := rfl
  taken := rfl
  given := List.prefix_rfl
  sent := List.nil_prefix
  accepted := List.nil_prefix

theorem Sound.congr_peer (h : p.Sound s q) {outbound : Channel}
    (hc : q'.engine.stream.heard ++ outbound.bytes = p.engine.stream.sent)
    (hw : outbound.writerGone = p.engine.isOver) (hr : outbound.readerGone = q'.engine.isOver) :
    Party.Sound s { p with outbound } q' :=
  ⟨h.fresh, h.live, hc, hw, hr, h.left, h.right, h.staged, h.taken, h.given, h.sent, h.accepted⟩

/-- What an application may do to its link. It publishes `more`. -/
theorem Sound.tended (h : p.Sound s q) {l : Link} {published seen more : List Part}
    {announced : Bool} (hp : published = p.published ++ more)
    (hl : l.left.live = p.link.left.live) (hr : l.right.live = p.link.right.live)
    (hs : l.right.staged = p.link.right.staged) (hv : seen ++ l.left.inbox = p.visible)
    (hi : p.link.right.live = true → l.right.inbox = p.link.right.inbox ++ more)
    (ha : announced = true → p.announced = true ∧ more = []) :
    Party.Sound s { p.withLink l with published, seen, announced } q where
  fresh hf := by
    obtain ⟨endpoint, monitored, t, u, he⟩ := h.fresh hf
    exact ⟨endpoint, monitored, p.engine.stream.inner, ⟨l⟩, by
      change p.engine.withWorld _ _ = _
      rw [he]
      rfl⟩
  live hlive := by
    obtain ⟨hsends, hreceives, hrest, hawake⟩ := h.live hlive
    refine ⟨hsends.congr rfl, hreceives.congr rfl, hrest.congr rfl rfl rfl, ?_⟩
    apply hawake.congr_session _ _
    intro hdry hann hlr
    obtain ⟨hann', rfl⟩ := ha hann
    have hlr' : p.link.right.live = true := hr.symm.trans hlr
    exact (hi hlr').trans ((List.append_nil _).trans (hdry hann' hlr'))
  channel := h.channel
  writer := h.writer
  reader := h.reader
  left := hl.trans h.left
  right ho := by
    obtain ⟨hlive, hgiven⟩ := h.right ho
    refine ⟨hr.trans hlive, ?_⟩
    change p.engine.session.given ++ l.right.inbox = published
    rw [hi hlive, ← List.append_assoc, hgiven, hp]
  staged := hs.trans h.staged
  taken := h.taken.trans hv.symm
  given := h.given.trans (hp ▸ List.prefix_append ..)
  sent := h.sent
  accepted := h.accepted

theorem Sound.write (h : p.Sound s q) (part : Part) :
    (p.withLink ((p.link.write? .left part).getD p.link)).Sound s q := by
  obtain ⟨staged, hw⟩ : ∃ staged, (p.link.write? .left part).getD p.link =
      { p.link with left := { p.link.left with staged } } := by
    rw [Link.write?]
    split <;> exact ⟨_, rfl⟩
  rw [hw]
  exact h.tended (List.append_nil _).symm rfl rfl rfl rfl (fun _ => (List.append_nil _).symm)
    fun ha => ⟨ha, rfl⟩

theorem Sound.rollback (h : p.Sound s q) : (p.withLink (p.link.rollback .left)).Sound s q :=
  h.tended (List.append_nil _).symm rfl rfl rfl rfl (fun _ => (List.append_nil _).symm)
    fun ha => ⟨ha, rfl⟩

theorem Sound.publish (h : p.Sound s q) :
    Party.Sound s { p.withLink (p.link.flush .left) with
      published := p.published ++ p.link.left.staged
      announced := false } q := by
  cases hl : p.link.right.live with
  | true =>
    have hf : p.link.flush .left = { p.link with
        left := { p.link.left with staged := [] }
        right := { p.link.right with inbox := p.link.right.inbox ++ p.link.left.staged } } := by
      simp only [Link.flush, Link.rollback, Link.update, Link.peerGone, Link.get, Side.other, hl,
        Bool.not_true, Bool.false_eq_true, if_false]
    rw [hf]
    exact h.tended rfl rfl rfl rfl rfl (fun _ => rfl) (absurd · Bool.false_ne_true)
  | false =>
    -- the session is gone, so that what is published is lost
    have hf : p.link.flush .left = { p.link with left := { p.link.left with staged := [] } } := by
      simp only [Link.flush, Link.rollback, Link.update, Link.peerGone, Link.get, Side.other, hl,
        Bool.not_false, if_true]
    rw [hf]
    refine h.tended rfl rfl rfl rfl rfl ?_ (absurd · Bool.false_ne_true)
    intro hlive
    rw [hl] at hlive
    cases hlive

theorem Sound.read (h : p.Sound s q) :
    Party.Sound s { p.withLink (p.link.read .left).2 with
      seen := p.seen ++ (p.link.read .left).1.toList } q := by
  cases hi : p.link.left.inbox with
  | nil =>
    have hr : p.link.read .left = (none, p.link) := by simp only [Link.read, Link.get, hi]
    rw [hr]
    refine h.tended (List.append_nil _).symm rfl rfl rfl ?_ (fun _ => (List.append_nil _).symm)
      fun ha => ⟨ha, rfl⟩
    exact congrArg (· ++ p.link.left.inbox) (List.append_nil p.seen)
  | cons part rest =>
    have hr : p.link.read .left =
        (some part, { p.link with left := { p.link.left with inbox := rest } }) := by
      simp only [Link.read, Link.get, hi, Link.update]
    rw [hr]
    refine h.tended (List.append_nil _).symm rfl rfl rfl ?_ (fun _ => (List.append_nil _).symm)
      fun ha => ⟨ha, rfl⟩
    rw [visible, hi]
    exact List.append_assoc ..

theorem Sound.around (h : p.Sound s q) (hq : q.Sound t p) (ho : p.engine.isOver = false)
    (schedule : List Pace) (announced : Bool) :
    (p.joined q schedule).stream.Joined (p.scene q announced).said (p.scene q announced).known
        (p.scene q announced).gone ∧
      (p.joined q schedule).session.Booked (p.scene q announced).published
        (p.scene q announced).seen := by
  obtain ⟨hright, hgiven⟩ := h.right ho
  have htaken : p.engine.session.taken = p.seen ++ (p.link.left.inbox ++ p.link.right.staged) := by
    rw [h.staged, List.append_nil]
    exact h.taken
  constructor
  · exact ⟨hq.channel, h.channel, hq.writer, hq.reader.trans ho, h.writer.trans ho, h.reader⟩
  · exact ⟨h.left, hright, hgiven, htaken⟩

theorem Sound.amid (h : p.Sound s q) (hq : q.Sound t p) (hl : p.engine.isLive = true)
    (schedule : List Pace) : (p.joined q schedule).Amid s (p.scene q p.announced) := by
  obtain ⟨hsends, hreceives, -, hawake⟩ := h.live hl
  have ho := EngineState.isOver_of_isLive hl
  obtain ⟨hjoined, hbooked⟩ := h.around hq ho schedule p.announced
  exact ⟨hsends.congr rfl, hreceives.congr rfl, hawake.congr_session _ _ id, hjoined, hbooked⟩

theorem Sound.amid_begin (h : p.Sound s q) (hq : q.Sound t p) (hf : p.engine.stage = .fresh)
    (schedule : List Pace) (announced : Bool) :
    ((p.joined q schedule).update (·.begin)).Amid s (p.scene q announced) := by
  have ho := EngineState.isOver_of_fresh hf
  obtain ⟨hjoined, hbooked⟩ := h.around hq ho schedule announced
  obtain ⟨endpoint, monitored, t, u, he⟩ := h.fresh hf
  refine ⟨?_, ?_, ?_, hjoined, hbooked⟩
  · rw [joined, he]
    exact sends_begin ..
  · rw [joined, he]
    exact receives_begin ..
  · rw [joined, he]
    exact awake_of_writable rfl rfl rfl

/-- An engine is as a call leaves it that was made in the given scene. -/
def Called (s : Settings) (scene : Scene) (e' : Talker) : Prop :=
  ∃ e, e.Amid s scene ∧ e.isLive = true ∧ Runs False e e' ∧
    (e'.isLive = true → e'.AtRest ∧
      (e'.session.inner.link.right.live = true → e'.session.inner.link.right.staged = []))

theorem Sound.called_start (h : p.Sound s q) (hq : q.Sound t p) (hf : p.engine.stage = .fresh)
    (schedule : List Pace) (announced : Bool) :
    Called s (p.scene q announced) ((p.joined q schedule).handle .start) := by
  have ho : (p.joined q schedule).isOver = false := EngineState.isOver_of_fresh hf
  have ha : (p.joined q schedule).AtRest := by
    obtain ⟨endpoint, monitored, t, u, he⟩ := h.fresh hf
    rw [joined, he]
    exact (atRest_untold s endpoint monitored t u).congr rfl rfl rfl
  obtain ⟨hr, hrest⟩ := runs_start (u := False) ha ho
  refine ⟨_, h.amid_begin hq hf schedule announced, rfl, hr, ?_⟩
  intro hl
  exact ⟨hrest hl, calm_handle Ledger.calms_staged ha (fun _ => h.staged) .start⟩

theorem Sound.called_resumeOutput (h : p.Sound s q) (hq : q.Sound t p)
    (hl : p.engine.isLive = true) (schedule : List Pace) :
    Called s (p.scene q true) ((p.joined q schedule).handle .resumeOutput) := by
  obtain ⟨-, -, hrest, -⟩ := h.live hl
  have ha : (p.joined q schedule).AtRest := hrest.congr rfl rfl rfl
  have hcalm := calm_handle Ledger.calms_staged ha (fun _ => h.staged) .resumeOutput
  have hamid := h.amid hq hl schedule
  have hlive : (p.joined q schedule).isLive = true := hl
  have hsignal : (p.joined q schedule).handle .resumeOutput =
      ((p.joined q schedule).update (·.setOut)).onWritable := by
    change (p.joined q schedule).resumeOutput = _
    rw [resumeOutput, if_pos hlive]
  rw [hsignal] at hcalm ⊢
  obtain ⟨hr, hrest'⟩ := runs_onWritable (u := False)
    (e := (p.joined q schedule).update (·.setOut)) (ha.congr rfl rfl rfl) (.inl rfl)
  refine ⟨(p.joined q schedule).update (·.setOut), ?_, hl, hr, fun hl' => ⟨hrest' hl', hcalm⟩⟩
  exact ⟨hamid.sends.congr rfl, hamid.receives.congr rfl,
    awake_of_writable hamid.awake.registered hamid.awake.counted rfl, hamid.joined, hamid.booked⟩

theorem Sound.called_signal (h : p.Sound s q) (hq : q.Sound t p) (hl : p.engine.isLive = true)
    (schedule : List Pace) {g : Signal} (hg : p.heeds g = true) (hs : g ≠ .start) :
    Called s (p.scene q p.announced) ((p.joined q schedule).handle g) := by
  obtain ⟨-, -, hrest, -⟩ := h.live hl
  have ha : (p.joined q schedule).AtRest := hrest.congr rfl rfl rfl
  have hcalm := calm_handle Ledger.calms_staged ha (fun _ => h.staged) g
  obtain ⟨hr, hrest'⟩ := runs_handle (u := False) ha hs fun hg' => by
    subst hg'
    have hwants : p.engine.interest.wantsWrite = true := hg
    rw [Interest.wantsWrite, Bool.and_eq_true] at hwants
    exact .inl hwants.2
  exact ⟨p.joined q schedule, h.amid hq hl schedule, hl, hr, fun hl' => ⟨hrest' hl', hcalm⟩⟩

theorem Sound.signal_cases (h : p.Sound s q) (hq : q.Sound t p) (schedule : List Pace) {g : Signal}
    (hg : p.heeds g = true) :
    (p.joined q schedule).handle g = p.joined q schedule ∧ p.engine.isLive = false ∨
      Called s (p.scene q (p.announced || g == .resumeOutput))
        ((p.joined q schedule).handle g) := by
  by_cases hs : g = .start
  · subst hs
    have hf : p.engine.stage = .fresh := by simpa [heeds] using hg
    exact .inr (h.called_start hq hf schedule _)
  · cases hl : p.engine.isLive with
    | false => exact .inl ⟨handle_of_not_live (e := p.joined q schedule) hl hs, rfl⟩
    | true =>
      by_cases hw : g = .resumeOutput
      · subst hw
        rw [beq_self_eq_true, Bool.or_true]
        exact .inr (h.called_resumeOutput hq hl schedule)
      · rw [beq_eq_false_iff_ne.2 hw, Bool.or_false]
        exact .inr (h.called_signal hq hl schedule hg hs)

theorem Sound.after_steps {announced : Bool} (hq : q.Sound t p)
    (ha : e.Amid s (p.scene q announced)) (hl : e.isLive = true) (hrest : e.AtRest)
    (hs : e.session.inner.link.right.live = true → e.session.inner.link.right.staged = []) :
    (p.after e announced).Sound s (q.readBy e) ∧ (q.readBy e).Sound t (p.after e announced) := by
  have hstage := EngineState.isLive_iff.1 hl
  have hover := EngineState.isOver_of_isLive hl
  have hstaged := hs ha.booked.right
  refine ⟨⟨?_, fun _ => ⟨ha.sends, ha.receives, hrest, ha.awake⟩, ha.joined.sent,
    ha.joined.isOpen.2.2.1.trans hover.symm, ha.joined.isOpen.2.2.2, ha.booked.left,
    fun _ => ⟨ha.booked.right, ha.booked.given⟩, hstaged, ?_, ⟨_, ha.booked.given⟩,
    ha.sent_prefix hq.sent, ha.receives.taken_prefix⟩, ?_⟩
  · intro hf
    cases hstage.symm.trans hf
  · have htaken := ha.booked.taken
    rw [hstaged, List.append_nil] at htaken
    exact htaken
  · exact hq.congr_peer ha.joined.heard ha.joined.isOpen.1
      (ha.joined.isOpen.2.1.trans hover.symm)

theorem Sound.after_failing {announced : Bool} (hq : q.Sound t p)
    (ha : e.Amid s (p.scene q announced)) (hf : Failing e e' reason) :
    (p.after (e'.tearDown reason) announced).Sound s (q.readBy (e'.tearDown reason)) ∧
      (q.readBy (e'.tearDown reason)).Sound t (p.after (e'.tearDown reason) announced) := by
  obtain ⟨hsent, hheard, hgiven, htaken⟩ := hf.frame
  have hj := hf.stream Tap.keeps_joined ha.joined
  have hb := hf.session Ledger.keeps_booked ha.booked
  obtain ⟨hgiven', htaken', hleft, -, hstaged, hvisible⟩ := hb.detached rfl
  refine ⟨⟨nofun, nofun, hj.sent, rfl, hj.isOpen.2.2.2, hleft, nofun, hstaged, hvisible,
    hgiven' ▸ ⟨_, hb.given⟩, ?_, ?_⟩, hq.congr_peer hj.heard hj.isOpen.1 rfl⟩
  · change e'.stream.sent <+: s.speech (Session.detach (Session.flush e'.session)).given
    rw [hsent, hgiven', hgiven]
    exact ha.sent_prefix hq.sent
  · change (Session.detach (Session.flush e'.session)).taken <+: s.delivered e'.stream.heard
    rw [htaken', htaken]
    exact ha.receives.taken_prefix.trans (Settings.delivered_prefix hheard)

theorem Sound.after_idle (h : p.Sound s q) (hq : q.Sound t p) (schedule : List Pace)
    (hl : p.engine.isLive = false) (announced : Bool) :
    (p.after (p.joined q schedule) announced).Sound s (q.readBy (p.joined q schedule)) ∧
      (q.readBy (p.joined q schedule)).Sound t (p.after (p.joined q schedule) announced) := by
  refine ⟨⟨?_, ?_, h.channel, h.writer, h.reader, h.left, h.right, h.staged,
    h.taken, h.given, h.sent, h.accepted⟩, hq.congr_peer hq.channel hq.writer hq.reader⟩
  · intro hf
    obtain ⟨endpoint, monitored, t, u, he⟩ := h.fresh hf
    exact ⟨endpoint, monitored, ⟨q.outbound, p.outbound, schedule⟩, u, by
      change p.engine.withWorld _ _ = _
      rw [he]
      rfl⟩
  · intro hl'
    cases hl.symm.trans hl'

end Party

namespace Exchange

variable {s t : Settings} {x : Exchange}

/-- What is known of an exchange between two acts. -/
def Sound (s t : Settings) (x : Exchange) : Prop := x.left.Sound s x.right ∧ x.right.Sound t x.left

theorem Sound.swap (h : x.Sound s t) : x.swap.Sound t s := ⟨h.2, h.1⟩

theorem Sound.signal (h : x.Sound s t) (g : Signal) (schedule : List Pace) :
    (x.signal g schedule).Sound s t := by
  obtain ⟨hp, hq⟩ := h
  rw [Exchange.signal]
  split
  · next hg =>
    rcases hp.signal_cases hq schedule hg with ⟨he, hl⟩ | ⟨e₁, ha, hl₁, hr, hrest⟩
    · rw [he]
      exact hp.after_idle hq schedule hl _
    · rcases hr with hr | ⟨e₂, e₃, reason, hr, hf, he⟩
      · have hl : ((x.left.joined x.right schedule).handle g).isLive = true := by
          rw [EngineState.isLive, stage_eq_of_steps hr]
          exact hl₁
        exact hq.after_steps (ha.steps hr) hl (hrest hl).1 (hrest hl).2
      · simp only [he]
        exact hq.after_failing (ha.steps hr) hf
  · exact ⟨hp, hq⟩

theorem Sound.act (h : x.Sound s t) (a : Act) : (x.act a).Sound s t := by
  obtain ⟨hp, hq⟩ := h
  cases a with
  | signal g schedule => exact Sound.signal ⟨hp, hq⟩ g schedule
  | write p => exact ⟨hp.write p, hq.congr_peer hq.channel hq.writer hq.reader⟩
  | rollback => exact ⟨hp.rollback, hq.congr_peer hq.channel hq.writer hq.reader⟩
  | publish => exact ⟨hp.publish, hq.congr_peer hq.channel hq.writer hq.reader⟩
  | read => exact ⟨hp.read, hq.congr_peer hq.channel hq.writer hq.reader⟩

theorem Reached.sound (h : Reached s t x) : x.Sound s t := by
  induction h with
  | new => exact ⟨Party.sound_new _ _ _ _ rfl rfl, Party.sound_new _ _ _ _ rfl rfl⟩
  | left h a ih => exact ih.act a
  | right h a ih => exact (ih.swap.act a).swap

end Exchange

end Zmtp
