import Zmtp.Proofs.Engine.Supply

namespace Zmtp

open Relation (ReflTransGen)

/-- A property that a stream keeps, whatever an engine does to it. -/
structure ByteStream.Keeps {τ : Type} [ByteStream τ] (P : τ → Prop) : Prop where
  read : ∀ {t t' : τ} {room : Nat} {outcome : ReadOutcome}, P t →
    ByteStream.read t room = (outcome, t') → P t'
  write : ∀ {t t' : τ} {slices : List Bytes} {outcome : WriteOutcome}, P t →
    ByteStream.write t slices = (outcome, t') → P t'

/-- A property that a session keeps, whatever an engine does to it. -/
structure Session.Keeps {σ : Type} [Session σ] (P : σ → Prop) : Prop where
  push : ∀ {u u' : σ} {p : Part} {outcome : PushOutcome}, P u →
    Session.push u p = (outcome, u') → P u'
  pull : ∀ u, P u → P (Session.pull u).2
  flush : ∀ u, P u → P (Session.flush u)

/-- A property that flushing a session brings about. -/
structure Session.Calms {σ : Type} [Session σ] (P : σ → Prop) : Prop where
  flush : ∀ u, P (Session.flush u)
  pull : ∀ u, P u → P (Session.pull u).2
  detach : ∀ u, P u → P (Session.detach u)

/-- Something together with the calls that were made of it, oldest first. -/
structure Logged (α κ : Type) where
  inner : α
  calls : List κ

inductive StreamCall where
  | read (room : Nat)
  | write (slices : List Bytes)
  | close
  deriving DecidableEq

inductive SessionCall where
  | push (p : Part)
  | pull (p : Option Part)
  | flush
  | detach
  deriving DecidableEq

namespace Logged

variable {α κ τ σ : Type}

def log (l : Logged α κ) (inner : α) (call : κ) : Logged α κ := ⟨inner, l.calls ++ [call]⟩

instance [ByteStream τ] : ByteStream (Logged τ StreamCall) where
  read l room :=
    ((ByteStream.read l.inner room).1, l.log (ByteStream.read l.inner room).2 (.read room))
  write l slices :=
    ((ByteStream.write l.inner slices).1, l.log (ByteStream.write l.inner slices).2 (.write slices))
  close l := l.log (ByteStream.close l.inner) .close

instance [Session σ] : Session (Logged σ SessionCall) where
  push l p := ((Session.push l.inner p).1, l.log (Session.push l.inner p).2 (.push p))
  pull l :=
    ((Session.pull l.inner).1, l.log (Session.pull l.inner).2 (.pull (Session.pull l.inner).1))
  flush l := l.log (Session.flush l.inner) .flush
  detach l := l.log (Session.detach l.inner) .detach

theorem not_mem_log {l : Logged α κ} {call other : κ} (h : call ∉ l.calls) (hne : call ≠ other)
    (inner : α) : call ∉ (l.log inner other).calls := by
  rw [log, List.mem_append, List.mem_singleton]
  exact not_or.2 ⟨h, hne⟩

theorem keeps_open [ByteStream τ] :
    ByteStream.Keeps fun l : Logged τ StreamCall => .close ∉ l.calls where
  read h hr := by
    cases hr
    exact not_mem_log h (by nofun) _
  write h hw := by
    cases hw
    exact not_mem_log h (by nofun) _

theorem keeps_attached [Session σ] :
    Session.Keeps fun l : Logged σ SessionCall => .detach ∉ l.calls where
  push h hp := by
    cases hp
    exact not_mem_log h (by nofun) _
  pull l h := not_mem_log h (by nofun) _
  flush l h := not_mem_log h (by nofun) _

end Logged

namespace Engine

variable {τ σ : Type} [ByteStream τ] [Session σ] {u : Prop} {e e' : Engine τ σ}
  {reason : Teardown}

section Keeps

variable {P : τ → Prop} {Q : σ → Prop}

theorem Step.stream (hk : ByteStream.Keeps P) (h : P e.stream) (hs : Step u e e') :
    P e'.stream := by
  cases hs with
  | waited hc hr => exact hk.read h hr
  | greeted hc hr => exact hk.read h hr
  | settled hc hr => exact hk.read h hr
  | stalled hc hp ho hr => exact hk.read h hr
  | refilled hc hp ho hr => exact hk.read h hr
  | wrote ho hw => exact hk.write h hw
  | blocked hw => exact hk.write h hw
  | _ => exact h

omit [ByteStream τ] in
theorem session_fill (hpull : ∀ v, Q v → Q (Session.pull v).2) (h : Q e.session) (codec : Codec) :
    Q (e.fill codec).session :=
  Supply.session_gatherFrom hpull e.settings.identity [] _
    (s := ⟨codec.writer, e.identitySent, e.session⟩) h

theorem Step.session (hk : Session.Keeps Q) (h : Q e.session) (hs : Step u e e') :
    Q e'.session := by
  cases hs with
  | pushed hh hp => exact hk.push h hp
  | refused hh hp => exact hk.push h hp
  | flushed => exact hk.flush _ h
  | filled => exact session_fill hk.pull h _
  | drained => exact session_fill hk.pull h _
  | _ => exact h

theorem Failing.stream (hk : ByteStream.Keeps P) (h : P e.stream) (hf : Failing e e' reason) :
    P e'.stream := by
  cases hf with
  | greeting hc hr => exact hk.read h hr
  | unsettled hc hr => exact hk.read h hr
  | reading hc hp ho hr => exact hk.read h hr
  | decoding => exact h
  | rejected => exact h
  | writing hw => exact hk.write h hw

theorem Failing.session (hk : Session.Keeps Q) (h : Q e.session) (hf : Failing e e' reason) :
    Q e'.session := by
  cases hf with
  | rejected hh hp => exact hk.push h hp
  | _ => exact h

end Keeps

section Calm

variable {P : σ → Prop}

omit [Session σ] in
theorem session_greet (e : Engine τ σ) : e.greet.2.session = e.session := by
  induction hn : e.greeting.room using Nat.strongRecOn generalizing e with
  | ind n ih =>
    rw [greet]
    split
    · rfl
    · simp only
      split
      · rfl
      · next bytes stream hr hi =>
        split
        · next s hg =>
          have hroom := EngineState.room_receiveGreeting_lt hg hi (List.length_take_le _ _)
          exact ih _ (hn ▸ hroom) ⟨s, stream, e.session⟩ rfl
        · split <;> rfl

theorem calm_tearDown (hk : Session.Calms P) (e : Engine τ σ) (reason : Teardown) :
    P (e.tearDown reason).session :=
  hk.detach _ (hk.flush _)

theorem calm_receive (hk : Session.Calms P) (e : Engine τ σ) (codec : Codec) :
    P (e.receive codec).session := by
  rw [receive]
  split
  · exact calm_tearDown hk _ _
  · exact hk.flush _
  · split
    · exact calm_tearDown hk _ _
    · exact hk.flush _

theorem calm_readParts (hk : Session.Calms P) (h : P e.session) : P e.readParts.session := by
  rw [readParts]
  split
  · exact h
  · split
    · exact h
    · exact calm_receive hk _ _

theorem calm_onReadable (hk : Session.Calms P) (h : P e.session) : P e.onReadable.session := by
  have hg := session_greet e
  rw [onReadable]
  split
  · exact h
  · split
    · split
      · exact calm_tearDown hk _ _
      · next e₁ he =>
        rw [he] at hg
        exact hg ▸ h
      · next e₁ he =>
        rw [he] at hg
        exact calm_readParts hk (hg ▸ h)
    · exact calm_readParts hk h

theorem calm_resumeInput (hk : Session.Calms P) (ha : e.AtRest) (h : P e.session) :
    P e.resumeInput.session := by
  rw [resumeInput]
  split
  · exact h
  · next hl =>
    simp only [Bool.or_eq_true, Bool.not_eq_true', not_or, Bool.not_eq_false] at hl
    obtain ⟨hlive, hcong⟩ := hl
    split
    · exact calm_tearDown hk _ _
    · exact hk.flush _
    · next e₁ hp =>
      cases hc : e.codec with
      | none =>
        rw [ha.handshake hc] at hcong
        cases hcong
      | some codec =>
        have hframe := e.passHeld_frame
        rw [hp] at hframe
        obtain ⟨hcodec, -, hstage⟩ := hframe
        let e₂ : Engine τ σ := e₁.update fun s => { s.setIn with congested := false }
        have hc₂ : e₂.codec = some codec := hcodec.trans hc
        have hlive₂ : e₂.isLive = true := by
          rw [EngineState.isLive, show e₂.stage = e.stage from hstage]
          exact hlive
        change P e₂.onReadable.session
        rw [onReadable_of_codec hlive₂ hc₂, readParts_of_codec hc₂ rfl]
        exact calm_receive hk _ codec

theorem calm_write (hk : Session.Calms P) (h : P e.session) : P e.write.session := by
  rw [write]
  split
  · simp only
    split
    · exact h
    · exact calm_tearDown hk _ _
  · exact h

theorem calm_onWritable (hk : Session.Calms P) (h : P e.session) : P e.onWritable.session := by
  rw [onWritable]
  split
  · exact h
  · split
    · exact calm_write hk h
    · split
      · exact h
      · simp only
        split
        · exact session_fill hk.pull h _
        · exact calm_write hk (session_fill hk.pull h _)

/-- Every call leaves behind what flushing brings about. -/
theorem calm_handle (hk : Session.Calms P) (ha : e.AtRest) (h : P e.session) (g : Signal) :
    P (e.handle g).session := by
  cases g with
  | start =>
    change P e.start.session
    rw [start]
    split
    · exact h
    · exact calm_onReadable hk h
  | readable => exact calm_onReadable hk h
  | writable => exact calm_onWritable hk h
  | resumeInput => exact calm_resumeInput hk ha h
  | resumeOutput =>
    change P e.resumeOutput.session
    rw [resumeOutput]
    split
    · exact calm_onWritable (e := e.update (·.setOut)) hk h
    · exact h

end Calm

end Engine

end Zmtp
