import Mathlib.Logic.Relation
import Zmtp.Engine
import Zmtp.Proofs.Frame.Reader
import Zmtp.Proofs.Engine.Greeting

namespace Zmtp

open Relation (ReflTransGen)

/-- A read that ends a connection. -/
inductive ReadFails (room : Nat) : ReadOutcome → Teardown → Prop where
  | closed {bytes : Bytes} (h : bytes.take room = []) : ReadFails room (.data bytes) .closed
  | io {fault : IoFault} (h : fault.isTransient = false) :
      ReadFails room (.failed fault) (.io fault)

namespace EngineState

variable {s : EngineState}

theorem isLive_iff : s.isLive = true ↔ s.stage = .live := by
  rw [isLive, beq_iff_eq]

theorem isLive_of_fresh (h : s.stage = .fresh) : s.isLive = false := by
  rw [isLive, h]
  rfl

theorem isOver_of_fresh (h : s.stage = .fresh) : s.isOver = false := by
  rw [isOver, h]

theorem isOver_of_isLive (h : s.isLive = true) : s.isOver = false := by
  rw [isOver, isLive_iff.1 h]

/-- What the greeting does not touch. -/
structure Greeted (s s' : EngineState) : Prop where
  held : s'.held = s.held
  congested : s'.congested = s.congested
  stage : s'.stage = s.stage

theorem Greeted.trans {s s' s'' : EngineState} (h : Greeted s s') (h' : Greeted s' s'') :
    Greeted s s'' :=
  ⟨h'.held.trans h.held, h'.congested.trans h.congested, h'.stage.trans h.stage⟩

theorem greeted_receiveGreeting {s s' : EngineState} {input : Bytes} {v : Option Negotiated}
    (h : s.receiveGreeting input = (s', v)) : Greeted s s' := by
  rw [receiveGreeting_eq h]
  exact ⟨rfl, rfl, rfl⟩

theorem greeted_settle {s s' : EngineState} {n : Negotiated} (h : s.settle n = .ok s') :
    Greeted s s' ∧ ∃ codec, s'.codec = some codec ∧ codec.reader.Quiet := by
  cases n with
  | versionless prebuffered =>
    rw [settle] at h
    split at h
    · cases h
    · cases h
      rw [establish_eq]
      exact ⟨⟨rfl, rfl, rfl⟩, _, rfl, FrameReader.quiet_of_head rfl⟩
  | versioned revision role =>
    cases h
    rw [establish_eq]
    exact ⟨⟨rfl, rfl, rfl⟩, _, rfl, FrameReader.quiet_of_head rfl⟩

end EngineState

namespace Engine

variable {τ σ : Type} [ByteStream τ] [Session σ]

/-- What an engine does, one thing at a time. If `u` does not hold, a batch is gathered only while
the stream is waited for. -/
inductive Step (u : Prop) : Engine τ σ → Engine τ σ → Prop where
  | waited {e : Engine τ σ} {fault : IoFault} {stream : τ} (hc : e.codec = none)
      (h : ByteStream.read e.stream e.greeting.room = (.failed fault, stream))
      (ht : fault.isTransient = true) : Step u e { e with stream }
  | greeted {e : Engine τ σ} {bytes : Bytes} {stream : τ} {s : EngineState} (hc : e.codec = none)
      (h : ByteStream.read e.stream e.greeting.room = (.data bytes, stream))
      (hr : e.receiveGreeting (bytes.take e.greeting.room) = (s, none)) :
      Step u e ⟨s, stream, e.session⟩
  | settled {e : Engine τ σ} {bytes : Bytes} {stream : τ} {s s' : EngineState} {n : Negotiated}
      (hc : e.codec = none) (h : ByteStream.read e.stream e.greeting.room = (.data bytes, stream))
      (hr : e.receiveGreeting (bytes.take e.greeting.room) = (s, some n))
      (hs : s.settle n = .ok s') :
      Step u e ⟨s', stream, e.session⟩
  | stalled {e : Engine τ σ} {codec : Codec} {room : Nat} {reader : FrameReader} {fault : IoFault}
      {stream : τ} (hc : e.codec = some codec) (hp : codec.reader.pending = [])
      (ho : codec.reader.offer = (room, reader))
      (h : ByteStream.read e.stream room = (.failed fault, stream))
      (ht : fault.isTransient = true) :
      Step u e { e with codec := some { codec with reader }, stream }
  | refilled {e : Engine τ σ} {codec : Codec} {room : Nat} {reader : FrameReader} {bytes : Bytes}
      {stream : τ} (hc : e.codec = some codec) (hp : codec.reader.pending = [])
      (ho : codec.reader.offer = (room, reader))
      (h : ByteStream.read e.stream room = (.data bytes, stream)) :
      Step u e { e with
        codec := some { codec with
          reader := (reader.deposit (bytes.take room)).filled (bytes.take room).length }
        stream }
  | decoded {e : Engine τ σ} {codec : Codec} {reader : FrameReader} {p : Part} {rest : Bytes}
      {asked : List Nat} (hc : e.codec = some codec)
      (h : codec.reader.read = ⟨reader, .ok (some p), rest, asked⟩) :
      Step u e { e with
        codec := some { codec with reader }
        held := e.held ++ e.expand p
        expected := .payload }
  | exhausted {e : Engine τ σ} {codec : Codec} {reader : FrameReader} {rest : Bytes}
      {asked : List Nat} (hc : e.codec = some codec)
      (h : codec.reader.read = ⟨reader, .ok none, rest, asked⟩) :
      Step u e { e with codec := some { codec with reader } }
  | pushed {e : Engine τ σ} {p : Part} {ps : List Part} {session : σ} (hh : e.held = p :: ps)
      (h : Session.push e.session p = (.accepted, session)) :
      Step u e { e with held := ps, session }
  /-- The session has no room for a part. -/
  | refused {e : Engine τ σ} {p : Part} {ps : List Part} {session : σ} (hh : e.held = p :: ps)
      (h : Session.push e.session p = (.busy, session)) : Step u e { e with session }
  | congested {e : Engine τ σ} (hh : e.held ≠ []) : Step u e e.congest
  | resumed {e : Engine τ σ} (hh : e.held = []) :
      Step u e (e.update fun s => { s.setIn with congested := false })
  | flushed (e : Engine τ σ) : Step u e e.flush
  /-- The session has announced parts to send. -/
  | woken (e : Engine τ σ) : Step u e (e.update (·.setOut))
  /-- There is nothing to write during the greeting. -/
  | idled {e : Engine τ σ} (hc : e.codec = none) (ho : e.outbox.size = 0) :
      Step u e (e.update (·.resetOut))
  | filled {e : Engine τ σ} {codec : Codec} (hc : e.codec = some codec) (ho : e.outbox.size = 0)
      (hs : (e.fill codec).outbox.size ≠ 0) (hw : e.interest.writable = true ∨ u) :
      Step u e (e.fill codec)
  | drained {e : Engine τ σ} {codec : Codec} (hc : e.codec = some codec) (ho : e.outbox.size = 0)
      (hs : (e.fill codec).outbox.size = 0) : Step u e ((e.fill codec).update (·.resetOut))
  | wrote {e : Engine τ σ} {n : Nat} {stream : τ} (ho : e.outbox.size ≠ 0)
      (h : ByteStream.write e.stream e.outbox.slices = (.accepted n, stream)) :
      Step u e ({ e with stream, outbox := e.outbox.consume n }.update (·.restOutput))
  | blocked {e : Engine τ σ} {fault : IoFault} {stream : τ}
      (h : ByteStream.write e.stream e.outbox.slices = (.failed fault, stream))
      (ht : fault.isTransient = true) : Step u e ({ e with stream }.update (·.restOutput))

/-- What goes wrong before a connection ends. -/
inductive Failing : Engine τ σ → Engine τ σ → Teardown → Prop where
  | greeting {e : Engine τ σ} {outcome : ReadOutcome} {stream : τ} {reason : Teardown}
      (hc : e.codec = none) (h : ByteStream.read e.stream e.greeting.room = (outcome, stream))
      (hf : ReadFails e.greeting.room outcome reason) : Failing e { e with stream } reason
  | unsettled {e : Engine τ σ} {bytes : Bytes} {stream : τ} {s : EngineState} {n : Negotiated}
      {reason : Teardown} (hc : e.codec = none)
      (h : ByteStream.read e.stream e.greeting.room = (.data bytes, stream))
      (hr : e.receiveGreeting (bytes.take e.greeting.room) = (s, some n))
      (hs : s.settle n = .error reason) : Failing e ⟨s, stream, e.session⟩ reason
  | reading {e : Engine τ σ} {codec : Codec} {room : Nat} {reader : FrameReader}
      {outcome : ReadOutcome} {stream : τ} {reason : Teardown} (hc : e.codec = some codec)
      (hp : codec.reader.pending = []) (ho : codec.reader.offer = (room, reader))
      (h : ByteStream.read e.stream room = (outcome, stream))
      (hf : ReadFails room outcome reason) :
      Failing e { e with codec := some { codec with reader }, stream } reason
  | decoding {e : Engine τ σ} {codec : Codec} {reader : FrameReader} {fault : WireFault}
      {rest : Bytes} {asked : List Nat} (hc : e.codec = some codec)
      (h : codec.reader.read = ⟨reader, .error fault, rest, asked⟩) :
      Failing e { e with codec := some { codec with reader } } (.decode fault)
  | rejected {e : Engine τ σ} {p : Part} {ps : List Part} {session : σ} (hh : e.held = p :: ps)
      (h : Session.push e.session p = (.closed, session)) :
      Failing e { e with session } .sessionRejected
  | writing {e : Engine τ σ} {fault : IoFault} {stream : τ}
      (h : ByteStream.write e.stream e.outbox.slices = (.failed fault, stream))
      (hf : fault.isTransient = false) : Failing e { e with stream } (.io fault)

/-- How a part of a call goes: by steps, and perhaps with a failure at the end. -/
def Goes (u : Prop) (e : Engine τ σ) (progress : Progress) (e' : Engine τ σ) : Prop :=
  match progress with
  | .proceed | .pause => ReflTransGen (Step u) e e'
  | .fail reason => ∃ e₁, ReflTransGen (Step u) e e₁ ∧ Failing e₁ e' reason

/-- How a call goes: by steps, and perhaps with the end of the connection. -/
def Runs (u : Prop) (e e' : Engine τ σ) : Prop :=
  ReflTransGen (Step u) e e' ∨
    ∃ e₁ e₂ reason, ReflTransGen (Step u) e e₁ ∧ Failing e₁ e₂ reason ∧ e' = e₂.tearDown reason

variable {u : Prop} {e e₁ e' : Engine τ σ} {progress : Progress} {reason : Teardown}

theorem Goes.trans (h : ReflTransGen (Step u) e e₁) (h' : Goes u e₁ progress e') :
    Goes u e progress e' := by
  cases progress with
  | proceed => exact h.trans h'
  | pause => exact h.trans h'
  | fail reason =>
    obtain ⟨e₂, hs, hf⟩ := h'
    exact ⟨e₂, h.trans hs, hf⟩

theorem Goes.tearDown (h : Goes u e (.fail reason) e') : Runs u e (e'.tearDown reason) := by
  obtain ⟨e₂, hs, hf⟩ := h
  exact .inr ⟨e₂, e', reason, hs, hf, rfl⟩

theorem Runs.trans (h : ReflTransGen (Step u) e e₁) (h' : Runs u e₁ e') : Runs u e e' := by
  rcases h' with h' | ⟨e₂, e₃, reason, hs, hf, he⟩
  · exact .inl (h.trans h')
  · exact .inr ⟨e₂, e₃, reason, h.trans hs, hf, he⟩

theorem goes_greet (hc : e.codec = none) :
    Goes u e e.greet.1 e.greet.2 ∧ EngineState.Greeted e.toEngineState e.greet.2.toEngineState ∧
      (e.greet.1 = .proceed → ∃ codec, e.greet.2.codec = some codec ∧ codec.reader.Quiet) ∧
      (e.greet.1 = .pause → e.greet.2.codec = none) := by
  -- a greeting that goes on has less room than before
  induction hn : e.greeting.room using Nat.strongRecOn generalizing e with
  | ind n ih =>
    rw [greet]
    split
    · next fault stream hr =>
      cases ht : fault.isTransient with
      | true =>
        exact ⟨.single (.waited hc hr ht), ⟨rfl, rfl, rfl⟩, Progress.noConfusion, fun _ => hc⟩
      | false =>
        exact ⟨⟨e, .refl, .greeting hc hr (.io ht)⟩, ⟨rfl, rfl, rfl⟩, Progress.noConfusion,
          Progress.noConfusion⟩
    · next bytes stream hr =>
      simp only
      split
      · next hi =>
        exact ⟨⟨e, .refl, .greeting hc hr (.closed hi)⟩, ⟨rfl, rfl, rfl⟩, Progress.noConfusion,
          Progress.noConfusion⟩
      · next hi =>
        split
        · next s hg =>
          have hroom := EngineState.room_receiveGreeting_lt hg hi (List.length_take_le _ _)
          have hgr := EngineState.greeted_receiveGreeting hg
          have hc' : s.codec = none := by rw [EngineState.receiveGreeting_eq hg, hc]
          obtain ⟨hgo, hgr', hrest⟩ := ih _ (hn ▸ hroom) (e := ⟨s, stream, e.session⟩) hc' rfl
          exact ⟨hgo.trans (.single (.greeted hc hr hg)), hgr.trans hgr', hrest⟩
        · next s n hg =>
          have hgr := EngineState.greeted_receiveGreeting hg
          split
          · next reason hs =>
            exact ⟨⟨e, .refl, .unsettled hc hr hg hs⟩, hgr, Progress.noConfusion,
              Progress.noConfusion⟩
          · next s' hs =>
            obtain ⟨hgr', hcodec⟩ := EngineState.greeted_settle hs
            exact ⟨.single (.settled hc hr hg hs), hgr.trans hgr', fun _ => hcodec,
              Progress.noConfusion⟩

theorem goes_passHeld (e : Engine τ σ) :
    Goes u e e.passHeld.1 e.passHeld.2 ∧ (e.passHeld.1 = .proceed → e.passHeld.2.held = []) ∧
      (e.passHeld.1 = .pause → e.passHeld.2.held ≠ []) := by
  obtain ⟨s, stream, session⟩ := e
  obtain ⟨held, hh⟩ : ∃ held, s.held = held := ⟨_, rfl⟩
  induction held generalizing s session with
  | nil =>
    have he : passHeld ⟨s, stream, session⟩ = (.proceed, ⟨s, stream, session⟩) := by
      simp only [passHeld, hh, passAll]
      rw [← hh]
    rw [he]
    exact ⟨.refl, fun _ => hh, Progress.noConfusion⟩
  | cons p ps ih =>
    cases hp : Session.push session p with
    | mk outcome session' =>
      cases outcome with
      | accepted =>
        have he : passHeld ⟨s, stream, session⟩ =
            passHeld ⟨{ s with held := ps }, stream, session'⟩ := by
          simp only [passHeld, hh, passAll, hp]
        rw [he]
        obtain ⟨hgo, hrest⟩ := ih { s with held := ps } session' rfl
        exact ⟨hgo.trans (.single (.pushed hh hp)), hrest⟩
      | busy =>
        have he : passHeld ⟨s, stream, session⟩ = (.pause, ⟨s, stream, session'⟩) := by
          simp only [passHeld, hh, passAll, hp]
          rw [← hh]
        rw [he]
        refine ⟨.single (.refused hh hp), Progress.noConfusion, ?_⟩
        intro _
        rw [hh]
        exact List.cons_ne_nil p ps
      | closed =>
        have he : passHeld ⟨s, stream, session⟩ =
            (.fail .sessionRejected, ⟨s, stream, session'⟩) := by
          simp only [passHeld, hh, passAll, hp]
          rw [← hh]
        rw [he]
        exact ⟨⟨_, .refl, .rejected hh hp⟩, Progress.noConfusion, Progress.noConfusion⟩

omit [ByteStream τ] in
theorem passHeld_frame (e : Engine τ σ) :
    e.passHeld.2.codec = e.codec ∧ e.passHeld.2.congested = e.congested ∧
      e.passHeld.2.stage = e.stage := ⟨rfl, rfl, rfl⟩

omit [ByteStream τ] in
theorem passHeld_codec (e : Engine τ σ) (codec : Option Codec) :
    passHeld { e with codec } = (e.passHeld.1, { e.passHeld.2 with codec }) := rfl

theorem goes_decode (e : Engine τ σ) (codec : Codec) (hh : e.held = []) :
    Goes u { e with codec := some codec } (e.decode codec).1 (e.decode codec).2 ∧
      ((e.decode codec).1 = .proceed → (e.decode codec).2.held = [] ∧
        (e.decode codec).2.congested = e.congested ∧
        ∃ codec', (e.decode codec).2.codec = some codec' ∧ codec'.reader.pending = [] ∧
          codec'.reader.left = []) ∧
      ((e.decode codec).1 = .pause → (e.decode codec).2.held ≠ [] ∧
        (e.decode codec).2.congested = true ∧
        ∃ codec', (e.decode codec).2.codec = some codec' ∧ codec'.reader.Quiet) := by
  -- a part takes its frame, or the body that it was filled into, off the load of the reader
  induction hn : codec.reader.load using Nat.strongRecOn generalizing e codec with
  | ind n ih =>
    rw [decode]
    split
    · next reader fault rest asked hr =>
      exact ⟨⟨_, .refl, .decoding (e := { e with codec := some codec }) rfl hr⟩,
        Progress.noConfusion, Progress.noConfusion⟩
    · next reader rest asked hr =>
      refine ⟨.single (.exhausted (e := { e with codec := some codec }) rfl hr), ?_,
        Progress.noConfusion⟩
      intro _
      obtain ⟨hp, hl, -⟩ := FrameReader.left_of_read_none hr
      exact ⟨hh, rfl, _, rfl, hp, hl⟩
    · next reader p rest asked hr =>
      have hd := Step.decoded (u := u) (e := { e with codec := some codec }) rfl hr
      have hload := FrameReader.load_read hr
      have hp := goes_passHeld (u := u) { e with
        codec := some { codec with reader }, held := e.held ++ e.expand p, expected := .payload }
      rw [passHeld_codec { e with held := e.held ++ e.expand p, expected := .payload }] at hp
      simp only
      split
      · next e₂ he =>
        have hframe := passHeld_frame { e with held := e.held ++ e.expand p, expected := .payload }
        rw [he] at hp hframe
        obtain ⟨hgo, hnil, -⟩ := hp
        have hcong : e₂.congested = e.congested := hframe.2.1
        obtain ⟨hgo', hrest⟩ := ih _ (hn ▸ hload) e₂ { codec with reader } (hnil rfl) rfl
        rw [hcong] at hrest
        exact ⟨.trans (.trans (.single hd) hgo) hgo', hrest⟩
      · next e₂ he =>
        rw [he] at hp
        obtain ⟨hgo, -, hne⟩ := hp
        have hcongest := Step.congested (u := u)
          (e := { e₂ with codec := some { codec with reader } }) (hne rfl)
        refine ⟨.trans (.trans (.single hd) hgo) (.single hcongest), Progress.noConfusion, ?_⟩
        intro _
        exact ⟨hne rfl, rfl, _, rfl, FrameReader.quiet_of_read_some hr⟩
      · next reason e₂ he =>
        rw [he] at hp
        exact ⟨.trans (.single hd) hp.1, Progress.noConfusion, Progress.noConfusion⟩

theorem goes_refill {codec : Codec} (hc : e.codec = some codec) (hq : codec.reader.Quiet) :
    Goes u e (e.refill codec).1 { (e.refill codec).2.2 with codec := some (e.refill codec).2.1 } ∧
      (e.refill codec).2.2.held = e.held ∧ (e.refill codec).2.2.congested = e.congested ∧
      ((e.refill codec).1 = .pause →
        (e.refill codec).2.1.reader.pending = [] ∧ (e.refill codec).2.1.reader.left = []) := by
  rw [refill]
  split
  · rw [← hc]
    exact ⟨.refl, rfl, rfl, Progress.noConfusion⟩
  · next hp =>
    have hp' : codec.reader.pending = [] := by simpa [FrameReader.hasPending] using hp
    cases ho : codec.reader.offer with
    | mk room reader =>
      obtain ⟨hs, hpend, -⟩ := FrameReader.offer_frame ho hp'
      simp only
      split
      · next fault stream hr =>
        cases ht : fault.isTransient with
        | true =>
          refine ⟨.single (.stalled hc hp' ho hr ht), rfl, rfl, fun _ => ⟨hpend, ?_⟩⟩
          exact (hq.congr hs (hpend.trans hp'.symm)) hpend
        | false => exact ⟨⟨e, .refl, .reading hc hp' ho hr (.io ht)⟩, rfl, rfl,
            Progress.noConfusion⟩
      · next bytes stream hr =>
        split
        · next hi =>
          rw [List.isEmpty_iff] at hi
          exact ⟨⟨e, .refl, .reading hc hp' ho hr (.closed hi)⟩, rfl, rfl, Progress.noConfusion⟩
        · exact ⟨.single (.refilled hc hp' ho hr), rfl, rfl, Progress.noConfusion⟩

/-- How an engine stands between two calls: what is not held back is passed on, and reading rests
only while something is held back. -/
structure AtRest (e : Engine τ σ) : Prop where
  handshake : e.codec = none → e.congested = false
  held : e.congested = false → e.held = []
  burdened : e.congested = true → e.held ≠ []
  pending : ∀ codec, e.codec = some codec → e.congested = false → codec.reader.pending = []
  quiet : ∀ codec, e.codec = some codec → codec.reader.Quiet

omit [ByteStream τ] [Session σ] in
theorem AtRest.left {codec : Codec} (h : e.AtRest) (hc : e.codec = some codec)
    (hn : e.congested = false) : codec.reader.left = [] :=
  h.quiet codec hc (h.pending codec hc hn)

omit [ByteStream τ] [Session σ] in
theorem AtRest.congr (h : e.AtRest) (hh : e'.held = e.held) (hn : e'.congested = e.congested)
    (hc : e'.codec.map Codec.reader = e.codec.map Codec.reader) : e'.AtRest where
  handshake hc' := by
    rw [hc', Option.map_none] at hc
    exact hn.trans (h.handshake (Option.map_eq_none_iff.1 hc.symm))
  held hn' := hh.trans (h.held (hn ▸ hn'))
  burdened hn' := hh ▸ h.burdened (hn ▸ hn')
  pending codec hc' hn' := by
    rw [hc', Option.map_some] at hc
    obtain ⟨codec', he, hr⟩ := Option.map_eq_some_iff.1 hc.symm
    exact hr ▸ h.pending codec' he (hn ▸ hn')
  quiet codec hc' := by
    rw [hc', Option.map_some] at hc
    obtain ⟨codec', he, hr⟩ := Option.map_eq_some_iff.1 hc.symm
    exact hr ▸ h.quiet codec' he

omit [ByteStream τ] [Session σ] in
theorem AtRest.of_codec_none (hc : e.codec = none) (hn : e.congested = false) (hh : e.held = []) :
    e.AtRest where
  handshake _ := hn
  held _ := hh
  burdened hn' := by cases hn.symm.trans hn'
  pending codec hc' := by cases hc.symm.trans hc'
  quiet codec hc' := by cases hc.symm.trans hc'

omit [ByteStream τ] [Session σ] in
theorem AtRest.of_spare {codec : Codec} (hc : e.codec = some codec) (hn : e.congested = false)
    (hh : e.held = []) (hp : codec.reader.pending = []) (hq : codec.reader.Quiet) : e.AtRest where
  handshake _ := hn
  held _ := hh
  burdened hn' := by cases hn.symm.trans hn'
  pending codec' hc' _ := by
    cases hc.symm.trans hc'
    exact hp
  quiet codec' hc' := by
    cases hc.symm.trans hc'
    exact hq

omit [ByteStream τ] [Session σ] in
theorem AtRest.of_congested {codec : Codec} (hc : e.codec = some codec) (hn : e.congested = true)
    (hh : e.held ≠ []) (hq : codec.reader.Quiet) : e.AtRest where
  handshake hc' := by cases hc.symm.trans hc'
  held hn' := by cases hn.symm.trans hn'
  burdened _ := hh
  pending _ _ hn' := by cases hn.symm.trans hn'
  quiet codec' hc' := by
    cases hc.symm.trans hc'
    exact hq

theorem runs_receive {codec : Codec} (hc : e.codec = some codec) (hq : codec.reader.Quiet)
    (hn : e.congested = false) (hh : e.held = []) :
    Runs u e (e.receive codec) ∧ ((e.receive codec).isLive = true → (e.receive codec).AtRest) := by
  obtain ⟨hgo, hheld, hcong, hpause⟩ := goes_refill (u := u) hc hq
  rw [receive]
  split
  · next reason codec' e₁ hr =>
    rw [hr] at hgo
    exact ⟨hgo.tearDown, nofun⟩
  · next codec' e₁ hr =>
    rw [hr] at hgo hheld hcong hpause
    obtain ⟨hp, hl⟩ := hpause rfl
    refine ⟨.inl (.trans hgo (.single (.flushed _))), ?_⟩
    intro _
    exact .of_spare rfl (hcong.trans hn) (hheld.trans hh) hp fun _ => hl
  · next codec' e₁ hr =>
    rw [hr] at hgo hheld hcong
    obtain ⟨hgo', hproceed, hpause⟩ := goes_decode (u := u) e₁ codec' (hheld.trans hh)
    split
    · next reason e₂ hd =>
      rw [hd] at hgo'
      exact ⟨Runs.trans hgo hgo'.tearDown, nofun⟩
    · next progress e₂ hne hd =>
      rw [hd] at hgo' hproceed hpause
      cases progress with
      | fail reason => exact absurd rfl (hne reason)
      | proceed =>
        obtain ⟨hnil, hcong', codec'', hc'', hp, hl⟩ := hproceed rfl
        refine ⟨.inl (.trans (.trans hgo hgo') (.single (.flushed _))), ?_⟩
        intro _
        exact .of_spare hc'' (hcong'.trans (hcong.trans hn)) hnil hp fun _ => hl
      | pause =>
        obtain ⟨hne, hcong', codec'', hc'', hq''⟩ := hpause rfl
        refine ⟨.inl (.trans (.trans hgo hgo') (.single (.flushed _))), ?_⟩
        intro _
        exact .of_congested hc'' hcong' hne hq''

theorem onReadable_of_codec {codec : Codec} (hl : e.isLive = true) (hc : e.codec = some codec) :
    e.onReadable = e.readParts := by
  rw [onReadable, hl, EngineState.isHandshaking, hc]
  rfl

theorem readParts_of_codec {codec : Codec} (hc : e.codec = some codec)
    (hn : e.congested = false) : e.readParts = e.receive codec := by
  rw [readParts, hc]
  simp only [hn, Bool.false_eq_true, if_false]

theorem runs_readParts {codec : Codec} (hc : e.codec = some codec) (hq : codec.reader.Quiet)
    (hn : e.congested = false) (hh : e.held = []) :
    Runs u e e.readParts ∧ (e.readParts.isLive = true → e.readParts.AtRest) := by
  rw [readParts_of_codec hc hn]
  exact runs_receive hc hq hn hh

theorem runs_onReadable (ha : e.AtRest) :
    Runs u e e.onReadable ∧ (e.onReadable.isLive = true → e.onReadable.AtRest) := by
  rw [onReadable]
  split
  · exact ⟨.inl .refl, fun _ => ha⟩
  · cases hc : e.codec with
    | none =>
      have hn := ha.handshake hc
      rw [if_pos (by rw [EngineState.isHandshaking, hc]; rfl)]
      obtain ⟨hgo, hgr, hproceed, hpause⟩ := goes_greet (u := u) hc
      split
      · next reason e₁ hg =>
        rw [hg] at hgo
        exact ⟨hgo.tearDown, nofun⟩
      · next e₁ hg =>
        rw [hg] at hgo hgr hpause
        refine ⟨.inl hgo, fun _ => ha.congr hgr.held hgr.congested ?_⟩
        rw [hpause rfl, hc]
      · next e₁ hg =>
        rw [hg] at hgo hgr hproceed
        obtain ⟨codec, hc₁, hq⟩ := hproceed rfl
        have hheld := hgr.held.trans (ha.held hn)
        have hrest := runs_readParts (u := u) hc₁ hq (hgr.congested.trans hn) hheld
        exact ⟨hrest.1.trans hgo, hrest.2⟩
    | some codec =>
      rw [if_neg (by rw [EngineState.isHandshaking, hc]; exact Bool.false_ne_true)]
      cases hn : e.congested with
      | false => exact runs_readParts hc (ha.quiet codec hc) hn (ha.held hn)
      | true =>
        rw [readParts, hc]
        simp only [hn, if_true]
        exact ⟨.inl .refl, fun _ => ha⟩

theorem runs_resumeInput (ha : e.AtRest) :
    Runs u e e.resumeInput ∧ (e.resumeInput.isLive = true → e.resumeInput.AtRest) := by
  rw [resumeInput]
  split
  · exact ⟨.inl .refl, fun _ => ha⟩
  · next hl =>
    simp only [Bool.or_eq_true, Bool.not_eq_true', not_or, Bool.not_eq_false] at hl
    obtain ⟨hlive, hcong⟩ := hl
    cases hc : e.codec with
    | none =>
      rw [ha.handshake hc] at hcong
      cases hcong
    | some codec =>
      obtain ⟨hgo, hnil, hne⟩ := goes_passHeld (u := u) e
      have hframe := e.passHeld_frame
      split
      · next reason e₁ hp =>
        rw [hp] at hgo
        exact ⟨hgo.tearDown, nofun⟩
      · next e₁ hp =>
        rw [hp] at hgo hne hframe
        obtain ⟨hcodec, hcong', -⟩ := hframe
        refine ⟨.inl (.trans hgo (.single (.flushed _))), ?_⟩
        intro _
        exact .of_congested (hcodec.trans hc) (hcong'.trans hcong) (hne rfl) (ha.quiet codec hc)
      · next e₁ hp =>
        rw [hp] at hgo hnil hframe
        obtain ⟨hcodec, -, hlive'⟩ := hframe
        have hnil := hnil rfl
        let e₂ : Engine τ σ := e₁.update fun s => { s.setIn with congested := false }
        have hc₂ : e₂.codec = some codec := hcodec.trans hc
        have hlive₂ : e₂.isLive = true := by
          rw [EngineState.isLive, show e₂.stage = e.stage from hlive']
          exact hlive
        have hread := runs_readParts (u := u) hc₂ (ha.quiet codec hc) rfl hnil
        change Runs u e e₂.onReadable ∧ (e₂.onReadable.isLive = true → e₂.onReadable.AtRest)
        rw [onReadable_of_codec hlive₂ hc₂]
        exact ⟨hread.1.trans (.trans hgo (.single (.resumed hnil))), hread.2⟩

theorem restOutput_eq (s : EngineState) :
    s.restOutput = { s with interest := s.restOutput.interest } := by
  rw [EngineState.restOutput]
  split <;> rfl

theorem runs_write (ha : e.AtRest) (ho : e.outbox.size ≠ 0) :
    Runs u e e.write ∧ (e.write.isLive = true → e.write.AtRest) := by
  rw [write]
  split
  · next fault stream hw =>
    simp only
    split
    · next ht =>
      refine ⟨.inl (.single (.blocked hw ht)), fun _ => ha.congr ?_ ?_ ?_⟩
      all_goals rw [update, restOutput_eq]
    · next ht =>
      exact ⟨.inr ⟨e, _, _, .refl, .writing hw (eq_false_of_ne_true ht), rfl⟩, nofun⟩
  · next n stream hw =>
    refine ⟨.inl (.single (.wrote ho hw)), fun _ => ha.congr ?_ ?_ ?_⟩
    all_goals rw [update, restOutput_eq]

theorem runs_onWritable (ha : e.AtRest) (hi : e.interest.writable = true ∨ u) :
    Runs u e e.onWritable ∧ (e.onWritable.isLive = true → e.onWritable.AtRest) := by
  rw [onWritable]
  split
  · exact ⟨.inl .refl, fun _ => ha⟩
  · split
    · next ho => exact runs_write ha ho
    · next ho =>
      rw [Decidable.not_not] at ho
      split
      · next hc =>
        exact ⟨.inl (.single (.idled hc ho)), fun _ => ha.congr rfl rfl rfl⟩
      · next codec hc =>
        have hfill : (e.fill codec).AtRest := ha.congr rfl rfl (by rw [hc]; rfl)
        simp only
        split
        · next hs =>
          exact ⟨.inl (.single (.drained hc ho hs)), fun _ => hfill.congr rfl rfl rfl⟩
        · next hs =>
          have hw := runs_write (u := u) hfill hs
          exact ⟨hw.1.trans (.single (.filled hc ho hs hi)), hw.2⟩

theorem runs_resumeOutput (ha : e.AtRest) :
    Runs u e e.resumeOutput ∧ (e.resumeOutput.isLive = true → e.resumeOutput.AtRest) := by
  rw [resumeOutput]
  split
  · have hw := runs_onWritable (u := u) (e := e.update (·.setOut)) (ha.congr rfl rfl rfl) (.inl rfl)
    exact ⟨hw.1.trans (.single (.woken e)), hw.2⟩
  · exact ⟨.inl .refl, fun _ => ha⟩

/-- A call consists of steps, and leaves an engine that lives at rest. -/
theorem runs_handle (ha : e.AtRest) {g : Signal} (hg : g ≠ .start)
    (hi : g = .writable → e.interest.writable = true ∨ u) :
    Runs u e (e.handle g) ∧ ((e.handle g).isLive = true → (e.handle g).AtRest) := by
  cases g with
  | start => exact absurd rfl hg
  | readable => exact runs_onReadable ha
  | writable => exact runs_onWritable ha (hi rfl)
  | resumeInput => exact runs_resumeInput ha
  | resumeOutput => exact runs_resumeOutput ha

/-- So does the first call, once the connection is taken up. -/
theorem runs_start (ha : e.AtRest) (ho : e.isOver = false) :
    Runs u (e.update (·.begin)) e.start ∧ (e.start.isLive = true → e.start.AtRest) := by
  rw [start, ho, if_neg Bool.false_ne_true]
  exact runs_onReadable (ha.congr rfl rfl rfl)

end Engine

end Zmtp
