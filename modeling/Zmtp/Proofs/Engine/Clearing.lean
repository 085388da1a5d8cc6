import Zmtp.Proofs.Engine.Receiving
import Zmtp.Proofs.Frame.Handover

namespace Zmtp

open Relation (ReflTransGen)

theorem Scanner.phase_of_runHead_error {s s' : Scanner} {reader : HeadReader} {input rest : Bytes}
    {fault : WireFault} {asked : List Nat}
    (h : s.runHead reader input = ⟨s', .error fault, rest, asked⟩) :
    ∃ reader', s'.phase = .head reader' := by
  induction input generalizing reader with
  | nil => cases h
  | cons b input ih =>
    rw [runHead] at h
    split at h
    · cases h
      exact ⟨reader, rfl⟩
    · exact ih h
    · rw [runBody] at h
      split at h <;> cases h

theorem Scanner.phase_of_run_error {s s' : Scanner} {input rest : Bytes} {fault : WireFault}
    {asked : List Nat} (h : s.run input = ⟨s', .error fault, rest, asked⟩) :
    ∃ reader, s'.phase = .head reader := by
  rw [run] at h
  split at h
  · exact phase_of_runHead_error h
  · rw [runBody] at h
    split at h <;> cases h

theorem FrameReader.spent_of_read_error {r r' : FrameReader} {fault : WireFault} {rest : Bytes}
    {asked : List Nat} (hf : r.fault = none) (hr : r.read = ⟨r', .error fault, rest, asked⟩) :
    r'.pending = [] ∧ r'.left = [] := by
  rw [read_eq hf] at hr
  cases hs : r.scanner.run r.pending with
  | mk s' outcome rest' asked' =>
    rw [hs] at hr
    cases outcome with
    | ok part => cases hr
    | error fault' =>
      cases hr
      obtain ⟨reader, hp⟩ := Scanner.phase_of_run_error hs
      exact ⟨rfl, quiet_of_head hp rfl⟩

/-- Whether an engine reads from its stream when it is told so. -/
def Signal.isInbound : Signal → Bool
  | .start | .readable | .resumeInput => true
  | .writable | .resumeOutput => false

namespace Engine

variable {τ σ : Type}

/-- Everything that was read and is complete is passed on. -/
structure Cleared (e : Engine τ σ) : Prop where
  held : e.held = []
  pending : ∀ codec, e.codec = some codec → codec.reader.pending = []
  left : ∀ codec, e.codec = some codec → codec.reader.left = []

theorem cleared_of_codec_none {e : Engine τ σ} (hc : e.codec = none) (hh : e.held = []) :
    e.Cleared where
  held := hh
  pending codec hc' := by cases hc.symm.trans hc'
  left codec hc' := by cases hc.symm.trans hc'

theorem cleared_of_codec {e : Engine τ σ} {codec : Codec} (hc : e.codec = some codec)
    (hh : e.held = []) (hp : codec.reader.pending = []) (hl : codec.reader.left = []) :
    e.Cleared where
  held := hh
  pending codec' hc' := by
    cases hc.symm.trans hc'
    exact hp
  left codec' hc' := by
    cases hc.symm.trans hc'
    exact hl

variable [ByteStream τ] [Session σ] {u : Prop} {e e₁ e' : Engine τ σ} {reason : Teardown}
  {codec : Codec}

/-- How a connection ends in a call: by steps and a failure, after which nothing waits to be passed
on unless the session refused it. -/
def Ends (u : Prop) (e e' : Engine τ σ) : Prop :=
  ∃ e₁ e₂ reason, ReflTransGen (Step u) e e₁ ∧ Failing e₁ e₂ reason ∧
    (reason = .sessionRejected ∨ e₂.Cleared) ∧ e' = e₂.tearDown reason

theorem Ends.trans (h : ReflTransGen (Step u) e e₁) (h' : Ends u e₁ e') : Ends u e e' := by
  obtain ⟨e₂, e₃, reason, hs, hrest⟩ := h'
  exact ⟨e₂, e₃, reason, h.trans hs, hrest⟩

theorem Goes.ends (h : Goes u e (.fail reason) e')
    (hc : reason = .sessionRejected ∨ e'.Cleared) : Ends u e (e'.tearDown reason) := by
  obtain ⟨e₂, hs, hf⟩ := h
  exact ⟨e₂, e', reason, hs, hf, hc, rfl⟩

theorem isOver_of_steps (h : ReflTransGen (Step u) e e') : e'.isOver = e.isOver := by
  rw [EngineState.isOver, EngineState.isOver, stage_eq_of_steps h]

omit [Session σ] in
theorem cleared_greet (hc : e.codec = none) (hh : e.held = []) (reason : Teardown) :
    e.greet.1 = .fail reason → e.greet.2.Cleared := by
  -- a greeting that goes on has less room than before
  induction hn : e.greeting.room using Nat.strongRecOn generalizing e with
  | ind n ih =>
    rw [greet]
    split
    · exact fun _ => cleared_of_codec_none hc hh
    · next bytes stream hr =>
      simp only
      split
      · exact fun _ => cleared_of_codec_none hc hh
      · next hi =>
        split
        · next t hg =>
          have hroom := EngineState.room_receiveGreeting_lt hg hi (List.length_take_le _ _)
          have hcodec : t.codec = none := by rw [EngineState.receiveGreeting_eq hg, hc]
          have hheld := (EngineState.greeted_receiveGreeting hg).held.trans hh
          exact ih _ (hn ▸ hroom) (e := ⟨t, stream, e.session⟩) hcodec hheld rfl
        · next t n hg =>
          have hcodec : t.codec = none := by rw [EngineState.receiveGreeting_eq hg, hc]
          have hheld := (EngineState.greeted_receiveGreeting hg).held.trans hh
          split
          · exact fun _ => cleared_of_codec_none hcodec hheld
          · exact Progress.noConfusion

theorem passAll_fail {session session' : σ} {parts held : List Part}
    (h : passAll session parts = (.fail reason, held, session')) : reason = .sessionRejected := by
  induction parts generalizing session with
  | nil => cases h
  | cons p ps ih =>
    rw [passAll] at h
    split at h
    · exact ih h
    · cases h
    · cases h
      rfl

omit [ByteStream τ] in
/-- Only a session that is closed keeps parts from being passed on for good. -/
theorem passHeld_fail (h : e.passHeld = (.fail reason, e')) : reason = .sessionRejected := by
  rw [passHeld] at h
  cases hp : passAll e.session e.held with
  | mk progress rest =>
    rw [hp] at h
    obtain ⟨rfl, -⟩ := Prod.mk.inj h
    exact passAll_fail hp

omit [Session σ] in
theorem cleared_refill (hq : codec.reader.Quiet) (hh : e.held = []) (reason : Teardown) :
    (e.refill codec).1 = .fail reason →
      Cleared { (e.refill codec).2.2 with codec := some (e.refill codec).2.1 } := by
  rw [refill]
  split
  · exact Progress.noConfusion
  · next hp =>
    have hp' : codec.reader.pending = [] := by simpa [FrameReader.hasPending] using hp
    cases ho : codec.reader.offer with
    | mk room reader =>
      obtain ⟨hs, hpend, -⟩ := FrameReader.offer_frame ho hp'
      have hl : reader.left = [] := (hq.congr hs (hpend.trans hp'.symm)) hpend
      simp only
      split
      · exact fun _ => cleared_of_codec rfl hh hpend hl
      · split
        · exact fun _ => cleared_of_codec rfl hh hpend hl
        · exact Progress.noConfusion

/-- A fault is met when all the parts before it are passed on. -/
theorem cleared_decode (e : Engine τ σ) (codec : Codec) (hf : codec.reader.fault = none)
    (hh : e.held = []) (reason : Teardown) :
    (e.decode codec).1 = .fail reason →
      reason = .sessionRejected ∨ (e.decode codec).2.Cleared := by
  induction hn : codec.reader.load using Nat.strongRecOn generalizing e codec with
  | ind n ih =>
    rw [decode]
    split
    · next reader fault rest asked hr =>
      obtain ⟨hp, hl⟩ := FrameReader.spent_of_read_error hf hr
      exact fun _ => .inr (cleared_of_codec rfl hh hp hl)
    · exact Progress.noConfusion
    · next reader p rest asked hr =>
      have hp := goes_passHeld (u := True)
        { e with held := e.held ++ e.expand p, expected := .payload }
      simp only
      split
      · next e₂ he =>
        rw [he] at hp
        have hload := FrameReader.load_read hr
        exact ih _ (hn ▸ hload) e₂ { codec with reader } (FrameReader.fault_read hr)
          (hp.2.1 rfl) rfl
      · exact Progress.noConfusion
      · next reason' e₂ he =>
        intro h
        cases h
        exact .inl (passHeld_fail he)

/-- An engine as a call finds it, which takes the connection up if it is the first. -/
def opened {τ σ : Type} (e : Engine τ σ) : Signal → Engine τ σ
  | .start => e.update (·.begin)
  | .readable | .writable | .resumeInput | .resumeOutput => e

theorem opened_of_ne {τ σ : Type} (e : Engine τ σ) {g : Signal} (hg : g ≠ .start) :
    e.opened g = e := by
  cases g with
  | start => exact absurd rfl hg
  | _ => rfl

@[simp] theorem session_opened {τ σ : Type} (e : Engine τ σ) (g : Signal) :
    (e.opened g).session = e.session := by
  cases g <;> rfl

section Receiving

variable {τ σ : Type} [ByteStream τ] [Session σ] {s : Settings} {u : Prop}
  {e e' : Engine (Tap τ) (Ledger σ)} {codec : Codec} {reason : Teardown}

theorem Receives.steps (h : e.Receives s) (hs : ReflTransGen (Step u) e e') : e'.Receives s := by
  induction hs with
  | refl => exact h
  | tail _ hs ih => exact ih.step hs

omit [ByteStream τ] [Session σ] in
theorem Receives.clean (h : e.Receives s) (hc : e.codec = some codec) :
    codec.reader.fault = none := by
  obtain ⟨n, parts, hd⟩ := h.reader _ (reader_of_codec hc)
  exact hd.clean

theorem ends_receive (h : e.Receives s) (hc : e.codec = some codec) (hq : codec.reader.Quiet)
    (hh : e.held = []) (ho : e.isOver = false) :
    (e.receive codec).isOver = true → Ends u e (e.receive codec) := by
  obtain ⟨hgo, hheld, -⟩ := goes_refill (u := u) hc hq
  have hcleared := cleared_refill hq hh
  rw [receive]
  split
  · next reason codec' e₁ hr =>
    rw [hr] at hgo hcleared
    exact fun _ => hgo.ends (.inr (hcleared reason rfl))
  · next codec' e₁ hr =>
    rw [hr] at hgo
    intro hover
    cases hover.symm.trans ((isOver_of_steps hgo).trans ho)
  · next codec' e₁ hr =>
    rw [hr] at hgo hheld
    obtain ⟨hgo', -⟩ := goes_decode (u := u) e₁ codec' (hheld.trans hh)
    have hclean := (h.steps hgo).clean rfl
    have hcleared' := cleared_decode e₁ codec' hclean (hheld.trans hh)
    split
    · next reason e₂ hd =>
      rw [hd] at hgo' hcleared'
      exact fun _ => (hgo'.ends (hcleared' reason rfl)).trans hgo
    · next progress e₂ hne hd =>
      rw [hd] at hgo'
      intro hover
      have hsteps : ReflTransGen (Step u) { e₁ with codec := some codec' } e₂ := by
        cases progress with
        | fail reason => exact absurd rfl (hne reason)
        | proceed => exact hgo'
        | pause => exact hgo'
      cases hover.symm.trans ((isOver_of_steps (.trans hgo hsteps)).trans ho)

theorem ends_onReadable (h : e.Receives s) (ha : e.AtRest) (ho : e.isOver = false) :
    e.onReadable.isOver = true → Ends u e e.onReadable := by
  rw [onReadable]
  split
  · intro hover
    cases hover.symm.trans ho
  · cases hc : e.codec with
    | none =>
      have hheld := ha.held (ha.handshake hc)
      obtain ⟨hgo, hgr, hproceed, -⟩ := goes_greet (u := u) hc
      have hcleared := cleared_greet hc hheld
      rw [if_pos (by rw [EngineState.isHandshaking, hc]; rfl)]
      split
      · next reason e₁ hg =>
        rw [hg] at hgo hcleared
        exact fun _ => hgo.ends (.inr (hcleared reason rfl))
      · next e₁ hg =>
        rw [hg] at hgo
        intro hover
        cases hover.symm.trans ((isOver_of_steps hgo).trans ho)
      · next e₁ hg =>
        rw [hg] at hgo hgr hproceed
        obtain ⟨codec, hc₁, hq⟩ := hproceed rfl
        rw [readParts_of_codec hc₁ (hgr.congested.trans (ha.handshake hc))]
        intro hover
        exact (ends_receive (h.steps hgo) hc₁ hq (hgr.held.trans hheld)
          ((isOver_of_steps hgo).trans ho) hover).trans hgo
    | some codec =>
      rw [if_neg (by rw [EngineState.isHandshaking, hc]; exact Bool.false_ne_true)]
      cases hn : e.congested with
      | false =>
        rw [readParts_of_codec hc hn]
        exact ends_receive h hc (ha.quiet codec hc) (ha.held hn) ho
      | true =>
        rw [readParts, hc]
        simp only [hn, if_true]
        intro hover
        cases hover.symm.trans ho

theorem ends_resumeInput (h : e.Receives s) (ha : e.AtRest) (ho : e.isOver = false) :
    e.resumeInput.isOver = true → Ends u e e.resumeInput := by
  obtain ⟨hgo, hnil, -⟩ := goes_passHeld (u := u) e
  rw [resumeInput]
  split
  · intro hover
    cases hover.symm.trans ho
  · next hl =>
    split
    · next reason e₁ hp =>
      rw [hp] at hgo
      exact fun _ => hgo.ends (.inl (passHeld_fail hp))
    · next e₁ hp =>
      rw [hp] at hgo
      intro hover
      cases hover.symm.trans ((isOver_of_steps hgo).trans ho)
    · next e₁ hp =>
      have hframe := e.passHeld_frame
      rw [hp] at hgo hnil hframe
      obtain ⟨hcodec, -, hstage⟩ := hframe
      simp only [Bool.or_eq_true, Bool.not_eq_true', not_or, Bool.not_eq_false] at hl
      cases hc : e.codec with
      | none => cases (ha.handshake hc).symm.trans hl.2
      | some codec =>
        let e₂ : Engine (Tap τ) (Ledger σ) :=
          e₁.update fun t => { t.setIn with congested := false }
        have hresumed : ReflTransGen (Step u) e e₂ := .tail hgo (.resumed (hnil rfl))
        have hc₂ : e₂.codec = some codec := hcodec.trans hc
        have hlive : e₂.isLive = true := by
          rw [EngineState.isLive, show e₂.stage = e.stage from hstage]
          exact hl.1
        change e₂.onReadable.isOver = true → Ends u e e₂.onReadable
        rw [onReadable_of_codec hlive hc₂, readParts_of_codec hc₂ rfl]
        intro hover
        exact (ends_receive (h.steps hresumed) hc₂ (ha.quiet codec hc) (hnil rfl)
          ((isOver_of_steps hresumed).trans ho) hover).trans hresumed

theorem ends_handle {g : Signal} (hg : g.isInbound = true) (h : (e.opened g).Receives s)
    (ha : e.AtRest) (ho : e.isOver = false) :
    (e.handle g).isOver = true → Ends u (e.opened g) (e.handle g) := by
  cases g with
  | start =>
    rw [handle, start, ho, if_neg Bool.false_ne_true]
    exact ends_onReadable h (ha.congr rfl rfl rfl) rfl
  | readable => exact ends_onReadable h ha ho
  | resumeInput => exact ends_resumeInput h ha ho
  | writable => cases hg
  | resumeOutput => cases hg

/-- All that the bytes of the peer stand for is passed on, and none of it is left with the decoder.
-/
structure Spent (s : Settings) (e : Engine (Tap τ) (Ledger σ)) : Prop where
  taken : e.session.taken = s.delivered e.stream.heard
  rest : ∀ codec, e.codec = some codec → codec.reader.pending = [] ∧ codec.reader.left = []

omit [ByteStream τ] [Session σ] in
theorem Receives.taken_eq (h : e.Receives s) (hh : e.held = [])
    (hl : ∀ codec, e.codec = some codec → codec.reader.left = []) :
    e.session.taken = s.delivered e.stream.heard := by
  cases hc : e.codec with
  | none =>
    obtain ⟨-, hnone, -, -, htaken⟩ := h.greeting (reader_of_codec_none hc)
    rw [show e.session.taken = [] from htaken, Settings.delivered,
      show Greeting.classify e.stream.heard = none from hnone]
  | some codec =>
    obtain ⟨n, parts, -, hpassed, hdelivered⟩ := h.delivered hc
    rw [hh, List.append_nil] at hpassed
    rw [hdelivered, hl codec hc, List.append_nil, hpassed]

theorem ReadFails.heard_eq {t t' : Tap τ} {room : Nat} {outcome : ReadOutcome}
    (hr : ByteStream.read t room = (outcome, t')) (hf : ReadFails room outcome reason) :
    t'.heard = t.heard := by
  cases hf with
  | closed hnil => rw [(Tap.of_read_data hr).1, hnil, List.append_nil]
  | io => exact (Tap.of_read_failed hr).1

theorem Failing.spent (h : e.Receives s) (hf : Failing e e' reason) (hr : reason ≠ .sessionRejected)
    (hcleared : e'.Cleared) : e'.Spent s := by
  refine ⟨?_, fun codec hc => ⟨hcleared.pending codec hc, hcleared.left codec hc⟩⟩
  cases hf with
  | greeting hc hread hf =>
    refine (h.taken_eq hcleared.held ?_).trans ?_
    · exact fun codec hc' => nomatch hc.symm.trans hc'
    · rw [ReadFails.heard_eq hread hf]
  | unsettled hc hread hg hs =>
    exact absurd hs (h.settle_ne_error hg)
  | @reading codec room reader outcome stream reason hc hp ho hread hf =>
    obtain ⟨hscan, hpend, -⟩ := FrameReader.offer_frame ho hp
    refine (h.taken_eq hcleared.held ?_).trans ?_
    · intro codec' hc'
      cases hc.symm.trans hc'
      have hleft : reader.left = [] := hcleared.left _ rfl
      rw [FrameReader.left, hscan, hpend, ← hp] at hleft
      exact hleft
    · rw [ReadFails.heard_eq hread hf]
  | decoding hc hread =>
    refine h.taken_eq hcleared.held ?_
    intro codec' hc'
    cases hc.symm.trans hc'
    exact FrameReader.left_of_read_error (h.clean hc) hread
  | rejected => exact absurd rfl hr
  | writing hw hf =>
    refine (h.taken_eq hcleared.held hcleared.left).trans ?_
    rw [(Tap.of_write_failed hw).1]

theorem Spent.tearDown (h : e.Spent s) (reason : Teardown) :
    (e.tearDown reason).Spent s := by
  have hcodec : (e.tearDown reason).codec = e.codec := by
    change (e.report (.disconnected e.endpoint reason.message)).codec = e.codec
    rw [EngineState.report_eq]
  exact ⟨h.taken, fun codec hc => h.rest codec (hcodec.symm.trans hc)⟩

/-- A call that reads and ends the connection has passed on all that the peer has sent, unless the
session refused a part. -/
theorem Ends.spent (h : e.Receives s) (he : Ends u e e')
    (hr : e'.teardown? ≠ some .sessionRejected) : e'.Spent s := by
  obtain ⟨e₁, e₂, reason, hs, hf, hcleared, rfl⟩ := he
  have hreason : reason ≠ .sessionRejected := fun he => hr (congrArg some he)
  exact (hf.spent (h.steps hs) hreason (hcleared.resolve_left hreason)).tearDown reason

omit [ByteStream τ] [Session σ] in
theorem isOver_restOutput (e : Engine τ σ) : (e.update (·.restOutput)).isOver = e.isOver := by
  rw [update, restOutput_eq]
  rfl

theorem fault_write (ho : e.isOver = false) : e.write.isOver = true →
    ∃ fault, e.write.teardown? = some (.io fault) ∧ e.write.stream.heard = e.stream.heard := by
  rw [write]
  split
  · next fault stream hw =>
    simp only
    split
    · intro hover
      cases (hover.symm.trans (isOver_restOutput _)).trans ho
    · exact fun _ => ⟨fault, rfl, (Tap.of_write_failed hw).1⟩
  · intro hover
    cases (hover.symm.trans (isOver_restOutput _)).trans ho

theorem fault_onWritable (ho : e.isOver = false) : e.onWritable.isOver = true →
    ∃ fault, e.onWritable.teardown? = some (.io fault) ∧
      e.onWritable.stream.heard = e.stream.heard := by
  rw [onWritable]
  split
  · intro hover
    cases hover.symm.trans ho
  · split
    · exact fault_write ho
    · split
      · intro hover
        cases hover.symm.trans ho
      · next codec hc =>
        simp only
        split
        · intro hover
          cases hover.symm.trans ho
        · exact fault_write (e := e.fill codec) ho

theorem fault_handle {g : Signal} (hg : g.isInbound = false) (ho : e.isOver = false) :
    (e.handle g).isOver = true → ∃ fault, (e.handle g).teardown? = some (.io fault) ∧
      (e.handle g).stream.heard = e.stream.heard := by
  cases g with
  | writable => exact fault_onWritable ho
  | resumeOutput =>
    rw [handle, resumeOutput]
    split
    · exact fault_onWritable (e := e.update (·.setOut)) ho
    · intro hover
      cases hover.symm.trans ho
  | start => cases hg
  | readable => cases hg
  | resumeInput => cases hg

end Receiving

end Engine

end Zmtp
