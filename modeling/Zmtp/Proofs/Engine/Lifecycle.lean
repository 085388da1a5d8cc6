import Zmtp.Proofs.Engine.World
import Zmtp.Stream.Script

namespace Zmtp

open Relation (ReflTransGen)

namespace EngineState

variable {s s' : EngineState}

/-- All that the owner of an engine in this state has been told of it. -/
def news (s : EngineState) : List Event :=
  (match s.revision? with
    | none => []
    | some revision => [.established s.endpoint revision.byte.toNat]) ++
  match s.teardown? with
    | none => []
    | some reason => [.disconnected s.endpoint reason.message]

/-- Somebody listens, and has been told what there is to tell. -/
structure Reports (s : EngineState) : Prop where
  monitored : s.monitored = true
  events : s.events = s.news

theorem Reports.congr (h : s.Reports) (hm : s'.monitored = s.monitored)
    (he : s'.events = s.events) (hn : s'.endpoint = s.endpoint) (hr : s'.revision? = s.revision?)
    (ht : s'.teardown? = s.teardown?) : s'.Reports where
  monitored := hm.trans h.monitored
  events := by rw [he, h.events, news, news, hn, hr, ht]

theorem Reports.with_reader (h : s.Reports) {codec : Codec} {reader : FrameReader}
    (hc : s.codec = some codec)
    (hr : reader.scanner.revision = codec.reader.scanner.revision) :
    Reports { s with codec := some { codec with reader } } := by
  refine h.congr rfl rfl rfl ?_ rfl
  rw [revision?, revision?, hc]
  exact congrArg some hr

theorem events_report (h : s.monitored = true) (event : Event) :
    (s.report event).events = s.events ++ [event] := by
  rw [report, if_pos h]

theorem Reports.release (h : s.Reports) (ht : s.teardown? = none) (reason : Teardown) :
    ((s.report (.disconnected s.endpoint reason.message)).release (some reason)).Reports := by
  have hevents := events_report h.monitored (.disconnected s.endpoint reason.message)
  rw [report_eq]
  refine ⟨h.monitored, ?_⟩
  change (s.report _).events = _
  rw [hevents, h.events, news, ht, List.append_nil]
  rfl

theorem reports_establish (hm : s.monitored = true) (he : s.events = []) (ht : s.teardown? = none)
    (codec : Codec) : (s.establish codec codec.reader.scanner.revision.byte).Reports := by
  have hevents : (s.establish codec codec.reader.scanner.revision.byte).events =
      [.established s.endpoint codec.reader.scanner.revision.byte.toNat] := by
    rw [establish, wakeOutput_eq, events_report (by exact hm)]
    change s.events ++ _ = _
    rw [he]
    rfl
  rw [establish_eq]
  refine ⟨hm, ?_⟩
  change (s.establish codec codec.reader.scanner.revision.byte).events = _ ++ match s.teardown? with
    | none => []
    | some reason => [.disconnected s.endpoint reason.message]
  rw [hevents, ht]
  rfl

theorem Reports.settle (h : s.Reports) (hc : s.codec = none) (ht : s.teardown? = none)
    {n : Negotiated} (hs : s.settle n = .ok s') : s'.Reports := by
  have he : s.events = [] := by
    rw [h.events, news, revision?, hc, ht]
    rfl
  cases n with
  | versionless prebuffered =>
    rw [EngineState.settle] at hs
    split at hs
    · cases hs
    · next writer hw =>
      cases hs
      exact reports_establish (s := { s with
        identitySent := true, expected := .identity s.settings.role.isPublisher }) h.monitored he ht
        ⟨(s.freshCodec .v1).reader.prime prebuffered, writer⟩
  | versioned revision role =>
    cases hs
    exact reports_establish h.monitored he ht _

end EngineState

namespace Engine

variable {τ σ : Type} {u : Prop}

section Steps

variable [ByteStream τ] [Session σ] {e e' : Engine τ σ} {reason : Teardown}

omit [ByteStream τ] in
theorem revision?_fill {codec : Codec} (hc : e.codec = some codec) :
    (e.fill codec).revision? = e.revision? := by
  rw [EngineState.revision?, EngineState.revision?, hc]
  rfl

/-- No step but that which settles the greeting changes what there is to tell. -/
theorem Step.reports (hs : Step u e e') (ht : e.teardown? = none) (h : e.Reports) :
    e'.Reports := by
  cases hs with
  | greeted hc hread hr =>
    rw [EngineState.receiveGreeting_eq hr]
    exact h.congr rfl rfl rfl rfl rfl
  | settled hc hread hr hs =>
    have heq := EngineState.receiveGreeting_eq hr
    refine EngineState.Reports.settle ?_ ?_ ?_ hs
    · rw [heq]
      exact h.congr rfl rfl rfl rfl rfl
    · rw [heq]
      exact hc
    · rw [heq]
      exact ht
  | stalled hc hp ho hread ht =>
    exact h.with_reader hc (congrArg _ (FrameReader.offer_frame ho hp).1)
  | refilled hc hp ho hread =>
    exact h.with_reader hc (FrameReader.revision_filled ho (List.length_take_le ..))
  | @decoded codec reader p rest asked hc hr =>
    have hrev := codec.reader.revision_read
    rw [hr] at hrev
    exact (h.with_reader hc hrev).congr rfl rfl rfl rfl rfl
  | @exhausted codec reader rest asked hc hr =>
    have hrev := codec.reader.revision_read
    rw [hr] at hrev
    exact h.with_reader hc hrev
  | @filled codec hc ho hs hw =>
    exact h.congr rfl rfl rfl (revision?_fill hc) rfl
  | @drained codec hc ho hs =>
    exact h.congr rfl rfl rfl (revision?_fill hc) rfl
  | wrote ho hw =>
    rw [update, restOutput_eq]
    exact h.congr rfl rfl rfl rfl rfl
  | blocked hw ht =>
    rw [update, restOutput_eq]
    exact h.congr rfl rfl rfl rfl rfl
  | _ => exact h.congr rfl rfl rfl rfl rfl

theorem Failing.reports (hf : Failing e e' reason) (h : e.Reports) : e'.Reports := by
  cases hf with
  | unsettled hc hread hr hs =>
    rw [EngineState.receiveGreeting_eq hr]
    exact h.congr rfl rfl rfl rfl rfl
  | reading hc hp ho hread hf =>
    exact h.with_reader hc (congrArg _ (FrameReader.offer_frame ho hp).1)
  | @decoding codec reader fault rest asked hc hr =>
    have hrev := codec.reader.revision_read
    rw [hr] at hrev
    exact h.with_reader hc hrev
  | _ => exact h.congr rfl rfl rfl rfl rfl

theorem Failing.stage_eq (hf : Failing e e' reason) : e'.stage = e.stage := by
  cases hf with
  | unsettled hc hread hr hs => exact (EngineState.greeted_receiveGreeting hr).stage
  | _ => rfl

end Steps

/-- The connection is over, and nothing of it is kept. -/
structure Released (s : EngineState) : Prop where
  ended : s.isOver = true
  outbox : s.outbox = .empty
  held : s.held = []
  interest : s.interest = .empty

/-- An engine in the middle of a call, or between two calls. -/
structure Holding (e : Engine (Logged τ StreamCall) (Logged σ SessionCall)) : Prop where
  stage : e.stage = .live
  reports : e.Reports
  opened : .close ∉ e.stream.calls
  attached : .detach ∉ e.session.calls

/-- The last call of a stream closes it. -/
def Closes (t : Logged τ StreamCall) : Prop := ∃ before, t.calls = before ++ [.close] ∧
  .close ∉ before

/-- The last calls of a session flush it and detach it. -/
def Detaches (v : Logged σ SessionCall) : Prop := ∃ before, v.calls = before ++ [.flush, .detach] ∧
  .detach ∉ before

variable [ByteStream τ] [Session σ] {e e' : Engine (Logged τ StreamCall) (Logged σ SessionCall)}
  {reason : Teardown}

omit [ByteStream τ] [Session σ] in
theorem Holding.teardown? (h : e.Holding) : e.teardown? = none := by
  rw [EngineState.teardown?, h.stage]

theorem Holding.step (h : e.Holding) (hs : Step u e e') : e'.Holding where
  stage := hs.stage_eq.trans h.stage
  reports := hs.reports h.teardown? h.reports
  opened := hs.stream Logged.keeps_open h.opened
  attached := hs.session Logged.keeps_attached h.attached

theorem Holding.fail (h : e.Holding) (hf : Failing e e' reason) : e'.Holding where
  stage := hf.stage_eq.trans h.stage
  reports := hf.reports h.reports
  opened := hf.stream Logged.keeps_open h.opened
  attached := hf.session Logged.keeps_attached h.attached

/-- How an engine ends by itself. -/
structure TornDown (e : Engine (Logged τ StreamCall) (Logged σ SessionCall)) : Prop where
  reason : ∃ reason, e.teardown? = some reason
  released : Released e.toEngineState
  reports : e.Reports
  closes : Closes e.stream
  detaches : Detaches e.session

theorem Holding.tearDown (h : e.Holding) (reason : Teardown) : (e.tearDown reason).TornDown where
  reason := ⟨reason, rfl⟩
  released := ⟨rfl, rfl, rfl, rfl⟩
  reports := h.reports.release h.teardown? reason
  closes := ⟨e.stream.calls, rfl, h.opened⟩
  detaches := ⟨e.session.calls, List.append_assoc .., h.attached⟩

theorem Holding.runs (h : e.Holding) (hr : Runs u e e') : e'.Holding ∨ e'.TornDown := by
  have hsteps {e' : Engine (Logged τ StreamCall) (Logged σ SessionCall)}
      (hs : ReflTransGen (Step u) e e') : e'.Holding := by
    induction hs with
    | refl => exact h
    | tail _ hs ih => exact ih.step hs
  rcases hr with hs | ⟨e₁, e₂, reason, hs, hf, rfl⟩
  · exact .inl (hsteps hs)
  · exact .inr (((hsteps hs).fail hf).tearDown reason)

end Engine

/-- An engine and what its owner has had to do with its session. -/
structure Life (τ σ : Type) where
  engine : Engine (Logged τ StreamCall) (Logged σ SessionCall)
  /-- Whether the owner has told the engine to start. -/
  started : Bool
  /-- How often the owner was given the session back. -/
  returned : Nat

namespace Life

open Engine

inductive Move (τ σ : Type) where
  | signal (g : Signal)
  | stop
  /-- What is behind the stream and the session changes. -/
  | world (t : τ) (v : σ)

def new (s : Settings) (endpoint : String) (writeRevision : Option Revision) (t : τ) (v : σ) :
    Life τ σ :=
  ⟨{ Engine.new s endpoint ⟨t, []⟩ ⟨v, []⟩ with writeRevision }, false, 0⟩

/-- How an engine ends at the wish of its owner. -/
structure Stopped (e : Engine (Logged τ StreamCall) (Logged σ SessionCall)) : Prop where
  reason : e.teardown? = none
  released : Released e.toEngineState
  reports : e.Reports
  closes : Closes e.stream

/-- The stages of a life. -/
inductive Stands : Life τ σ → Prop where
  | fresh {e} (stage : e.stage = .fresh) (rest : e.AtRest) (reports : e.Reports)
      (stream : e.stream.calls = []) (session : e.session.calls = []) : Stands ⟨e, false, 0⟩
  | live {e} (holding : e.Holding) (rest : e.AtRest) : Stands ⟨e, true, 0⟩
  | tornDown {e} (tornDown : e.TornDown) : Stands ⟨e, true, 0⟩
  | stopped {e} (stopped : Stopped e) (attached : .detach ∉ e.session.calls) : Stands ⟨e, true, 1⟩
  | unused {e started} (stopped : Stopped e) (session : e.session.calls = []) :
      Stands ⟨e, started, 0⟩

variable {l : Life τ σ}

theorem stands_new (s : Settings) (endpoint : String) (writeRevision : Option Revision) (t : τ)
    (v : σ) : (new s endpoint writeRevision t v).Stands :=
  .fresh rfl (.of_codec_none rfl rfl rfl) ⟨rfl, rfl⟩ rfl rfl

theorem Stands.reports (h : l.Stands) : l.engine.Reports := by
  cases h with
  | fresh stage rest reports stream session => exact reports
  | live holding rest => exact holding.reports
  | tornDown h => exact h.reports
  | stopped h attached => exact h.reports
  | unused h session => exact h.reports

theorem Stands.released (h : l.Stands) (ho : l.engine.isOver = true) :
    Released l.engine.toEngineState ∧ Closes l.engine.stream := by
  cases h with
  | fresh stage rest reports stream session =>
    cases (EngineState.isOver_of_fresh stage).symm.trans ho
  | live holding rest =>
    have hl := EngineState.isLive_iff.2 holding.stage
    cases (EngineState.isOver_of_isLive hl).symm.trans ho
  | tornDown h => exact ⟨h.released, h.closes⟩
  | stopped h attached => exact ⟨h.released, h.closes⟩
  | unused h session => exact ⟨h.released, h.closes⟩

theorem Stands.held (h : l.Stands) (ho : l.engine.isOver = false) :
    .close ∉ l.engine.stream.calls ∧ .detach ∉ l.engine.session.calls := by
  cases h with
  | fresh stage rest reports stream session =>
    rw [stream, session]
    exact ⟨List.not_mem_nil, List.not_mem_nil⟩
  | live holding rest => exact ⟨holding.opened, holding.attached⟩
  | tornDown h => cases h.released.ended.symm.trans ho
  | stopped h attached => cases h.released.ended.symm.trans ho
  | unused h session => cases h.released.ended.symm.trans ho

theorem Stands.detaches_iff (h : l.Stands) :
    l.engine.teardown?.isSome ↔ Detaches l.engine.session := by
  have hnot {v : Logged σ SessionCall} (hv : .detach ∉ v.calls) : ¬ Detaches v := by
    rintro ⟨before, hcalls, -⟩
    apply hv
    rw [hcalls]
    simp
  cases h with
  | fresh stage rest reports stream session =>
    rw [EngineState.teardown?, stage]
    exact iff_of_false nofun (hnot (session ▸ List.not_mem_nil))
  | live holding rest =>
    rw [holding.teardown?]
    exact iff_of_false nofun (hnot holding.attached)
  | tornDown h =>
    obtain ⟨reason, hr⟩ := h.reason
    rw [hr]
    exact iff_of_true rfl h.detaches
  | stopped h attached =>
    rw [h.reason]
    exact iff_of_false nofun (hnot attached)
  | unused h session =>
    rw [h.reason]
    exact iff_of_false nofun (hnot (session ▸ List.not_mem_nil))

theorem Stands.returned (h : l.Stands) :
    l.returned ≤ 1 ∧ (l.returned = 1 → .detach ∉ l.engine.session.calls) := by
  cases h with
  | stopped h attached => exact ⟨Nat.le_refl 1, fun _ => attached⟩
  | _ => exact ⟨Nat.zero_le 1, nofun⟩

variable [ByteStream τ] [Session σ]

def play (l : Life τ σ) : Move τ σ → Life τ σ
  | .signal g => { l with engine := l.engine.handle g, started := l.started || g == .start }
  | .stop =>
    { l with engine := l.engine.stop.2, returned := l.returned + l.engine.stop.1.toNat }
  | .world t v =>
    { l with engine := { l.engine with
      stream := { l.engine.stream with inner := t }
      session := { l.engine.session with inner := v } } }

def run (l : Life τ σ) (ms : List (Move τ σ)) : Life τ σ := ms.foldl play l

/-- An engine is started only once. -/
def Admits (l : Life τ σ) : Move τ σ → Prop
  | .signal g => g = .start → l.started = false
  | _ => True

def Admitted : Life τ σ → List (Move τ σ) → Prop
  | _, [] => True
  | l, m :: ms => l.Admits m ∧ Admitted (l.play m) ms

instance (l : Life τ σ) : DecidablePred l.Admits
  | .signal g => inferInstanceAs (Decidable (g = .start → l.started = false))
  | .stop => inferInstanceAs (Decidable True)
  | .world .. => inferInstanceAs (Decidable True)

instance decidableAdmitted : ∀ (l : Life τ σ) ms, Decidable (Admitted l ms)
  | _, [] => inferInstanceAs (Decidable True)
  | l, m :: ms =>
    have := decidableAdmitted (l.play m) ms
    inferInstanceAs (Decidable (l.Admits m ∧ Admitted (l.play m) ms))

omit [Session σ] in
theorem stop_of_not_over {e : Engine τ σ} (h : e.isOver = false) :
    e.stop = (e.isLive, { e.update (·.release none) with stream := ByteStream.close e.stream }) := by
  rw [stop, h, if_neg Bool.false_ne_true]

omit [Session σ] in
theorem stopped_stop {e : Engine (Logged τ StreamCall) (Logged σ SessionCall)}
    (ho : e.isOver = false) (ht : e.teardown? = none) (h : e.Reports)
    (hs : .close ∉ e.stream.calls) : Stopped e.stop.2 := by
  rw [stop_of_not_over ho]
  exact ⟨rfl, ⟨rfl, rfl, rfl, rfl⟩, h.congr rfl rfl rfl rfl ht.symm, e.stream.calls, rfl, hs⟩

theorem Stands.start {e : Engine (Logged τ StreamCall) (Logged σ SessionCall)} {returned : Nat}
    (h : Stands ⟨e, false, returned⟩) : Stands ⟨e.start, true, returned⟩ := by
  cases h with
  | fresh stage rest reports stream session =>
    have hbegin : (e.update (·.begin)).Holding := by
      refine ⟨rfl, reports.congr rfl rfl rfl rfl ?_, ?_, ?_⟩
      · rw [EngineState.teardown?, EngineState.teardown?, stage]
        rfl
      · rw [show (e.update (·.begin)).stream.calls = [] from stream]
        exact List.not_mem_nil
      · rw [show (e.update (·.begin)).session.calls = [] from session]
        exact List.not_mem_nil
    obtain ⟨hr, hrest⟩ := runs_start (u := True) rest (EngineState.isOver_of_fresh stage)
    rcases hbegin.runs hr with hh | ht
    · exact .live hh (hrest (EngineState.isLive_iff.2 hh.stage))
    · exact .tornDown ht
  | unused stopped session =>
    rw [show e.start = e from handle_of_over stopped.released.ended .start]
    exact .unused stopped session

theorem Stands.signal {e : Engine (Logged τ StreamCall) (Logged σ SessionCall)} {started : Bool}
    {returned : Nat} (h : Stands ⟨e, started, returned⟩) {g : Signal} (hg : g ≠ .start) :
    Stands ⟨e.handle g, started, returned⟩ := by
  cases h with
  | fresh stage rest reports stream session =>
    rw [handle_of_not_live (EngineState.isLive_of_fresh stage) hg]
    exact .fresh stage rest reports stream session
  | live holding rest =>
    obtain ⟨hr, hrest⟩ := runs_handle (u := True) rest hg fun _ => .inr trivial
    rcases holding.runs hr with hh | ht
    · exact .live hh (hrest (EngineState.isLive_iff.2 hh.stage))
    · exact .tornDown ht
  | tornDown tornDown =>
    rw [handle_of_over tornDown.released.ended g]
    exact .tornDown tornDown
  | stopped stopped attached =>
    rw [handle_of_over stopped.released.ended g]
    exact .stopped stopped attached
  | unused stopped session =>
    rw [handle_of_over stopped.released.ended g]
    exact .unused stopped session

theorem Stands.stop (h : l.Stands) : (l.play .stop).Stands := by
  rw [play]
  cases h with
  | @fresh e stage rest reports stream session =>
    have ho : e.isOver = false := EngineState.isOver_of_fresh stage
    have hl : e.isLive = false := EngineState.isLive_of_fresh stage
    have ht : e.teardown? = none := by rw [EngineState.teardown?, stage]
    have hstop := stopped_stop ho ht reports (stream ▸ List.not_mem_nil)
    rw [stop_of_not_over ho, hl] at hstop ⊢
    exact .unused hstop session
  | @live e holding rest =>
    have hl : e.isLive = true := EngineState.isLive_iff.2 holding.stage
    have ho : e.isOver = false := EngineState.isOver_of_isLive hl
    have hstop := stopped_stop ho holding.teardown? holding.reports holding.opened
    rw [stop_of_not_over ho, hl] at hstop ⊢
    exact .stopped hstop holding.attached
  | tornDown tornDown =>
    simp only [stop_of_over tornDown.released.ended]
    exact .tornDown tornDown
  | stopped stopped attached =>
    simp only [stop_of_over stopped.released.ended]
    exact .stopped stopped attached
  | unused stopped session =>
    simp only [stop_of_over stopped.released.ended]
    exact .unused stopped session

theorem Stands.world (h : l.Stands) (t : τ) (v : σ) : (l.play (.world t v)).Stands := by
  cases h with
  | fresh stage rest reports stream session =>
    exact .fresh stage (rest.congr rfl rfl rfl) reports stream session
  | live holding rest =>
    exact .live ⟨holding.stage, holding.reports, holding.opened, holding.attached⟩
      (rest.congr rfl rfl rfl)
  | tornDown h => exact .tornDown ⟨h.reason, h.released, h.reports, h.closes, h.detaches⟩
  | stopped h attached => exact .stopped ⟨h.reason, h.released, h.reports, h.closes⟩ attached
  | unused h session => exact .unused ⟨h.reason, h.released, h.reports, h.closes⟩ session

theorem Stands.play {m : Move τ σ} (h : l.Stands) (ha : l.Admits m) : (l.play m).Stands := by
  cases m with
  | signal g =>
    obtain ⟨e, started, returned⟩ := l
    rw [Life.play]
    by_cases hg : g = .start
    · subst hg
      rw [show started = false from ha rfl] at h ⊢
      exact h.start
    · rw [show (g == Signal.start) = false from beq_false_of_ne hg, Bool.or_false]
      exact h.signal hg
  | stop => exact h.stop
  | world t v => exact h.world t v

theorem Stands.run {ms : List (Move τ σ)} (h : l.Stands) (ha : l.Admitted ms) :
    (l.run ms).Stands := by
  induction ms generalizing l with
  | nil => exact h
  | cons m ms ih => exact ih (h.play ha.1) ha.2

/-- Whatever happens in the life of an engine, its owner is told once that the connection is
established and once that it ended by itself, if it did. When the connection is over, nothing of it is
left, and no call has any effect. A session that the owner gets back is not detached. -/
theorem life_is_reported (s : Settings) (endpoint : String) (writeRevision : Option Revision) (t : τ)
    (v : σ) (ms : List (Move τ σ)) (ha : (new s endpoint writeRevision t v).Admitted ms) :
    let l := (new s endpoint writeRevision t v).run ms
    let e := l.engine
    e.events = e.news ∧ (e.isHandshaking = false ↔ e.revision?.isSome) ∧
      (e.isOver = true →
        (e.holdsStream = false ∧ e.holdsSession = false ∧ e.outbox = ⟨[], 0⟩ ∧ e.held = [] ∧
          e.interest = ⟨false, false, false⟩ ∧ Closes e.stream) ∧
        (∀ g, e.handle g = e) ∧ e.stop = (false, e)) ∧
      (e.isOver = false → .close ∉ e.stream.calls ∧ .detach ∉ e.session.calls) ∧
      (e.teardown?.isSome ↔ Detaches e.session) ∧
      (e.stop.1 = e.holdsSession ∧ e.stop.2.session = e.session ∧ e.stop.2.events = e.events) ∧
      l.returned ≤ 1 ∧ (l.returned = 1 → .detach ∉ e.session.calls) := by
  intro l e
  have h : l.Stands := (stands_new s endpoint writeRevision t v).run ha
  refine ⟨h.reports.events, ?handshaking, ?ended, h.held, h.detaches_iff, ?stop, h.returned⟩
  case handshaking =>
    rw [EngineState.isHandshaking, EngineState.revision?]
    cases e.codec <;> simp
  case ended =>
    intro ho
    obtain ⟨hreleased, hcloses⟩ := h.released ho
    refine ⟨⟨?_, ?_, hreleased.outbox, hreleased.held, hreleased.interest, hcloses⟩,
      handle_of_over ho, stop_of_over ho⟩
    · rw [EngineState.holdsStream, ho]
      rfl
    · rw [EngineState.holdsSession, isLive_of_over ho]
  case stop =>
    cases ho : e.isOver with
    | true =>
      rw [stop_of_over ho, EngineState.holdsSession, isLive_of_over ho]
      exact ⟨rfl, rfl, rfl⟩
    | false =>
      rw [stop_of_not_over ho]
      exact ⟨rfl, rfl, rfl⟩

/-- A peer that greets in two pieces and then ends the connection. -/
def leavingPeer : Script :=
  { Script.empty with
    input := [.data [0xff, 0, 0, 0, 0, 0, 0, 0, 1, 0x7f], .failed .wouldBlock, .data [1, 5],
      .data []] }

/-- What the owner of an engine does that speaks with such a peer. -/
def wholeLife : List (Move Script LinkSession) :=
  [.signal .start, .signal .writable, .signal .readable, .signal .resumeOutput, .stop,
    .signal .readable]

theorem life_is_reported_leavingPeer :
    let first := new { role := .dealer } "peer" none leavingPeer ⟨Link.new ⟨0⟩ 2⟩
    let l := first.run wholeLife
    first.Admitted wholeLife ∧ l.engine.isOver = true ∧
      l.engine.events =
        [.established "peer" 1, .disconnected "peer" "peer closed the connection"] ∧
      Detaches l.engine.session ∧ Closes l.engine.stream ∧
      l.engine.handle .start = l.engine ∧ l.engine.stop = (false, l.engine) := by
  intro first l
  have ha : first.Admitted wholeLife := by decide +kernel
  have ho : l.engine.isOver = true := by decide +kernel
  obtain ⟨-, -, hover, -, hdetaches, -⟩ := life_is_reported { role := .dealer } "peer" none leavingPeer
    (⟨Link.new ⟨0⟩ 2⟩ : LinkSession) wholeLife ha
  obtain ⟨⟨-, -, -, -, -, hcloses⟩, hhandle, hstop⟩ := hover ho
  exact ⟨ha, ho, by decide +kernel, hdetaches.1 (by decide +kernel), hcloses, hhandle .start, hstop⟩

end Life

end Zmtp
