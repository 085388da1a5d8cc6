import Zmtp.Proofs.Engine.Steps

namespace Zmtp

open Relation (ReflTransGen)

/-- A stream together with all that went through it. It cannot take more than it is offered. -/
structure Tap (τ : Type) where
  inner : τ
  heard : Bytes
  sent : Bytes

namespace Tap

variable {τ : Type} [ByteStream τ]

def read (t : Tap τ) (room : Nat) : ReadOutcome × Tap τ :=
  match ByteStream.read t.inner room with
  | (.data bytes, inner) => (.data bytes, { t with inner, heard := t.heard ++ bytes.take room })
  | (.failed fault, inner) => (.failed fault, { t with inner })

def write (t : Tap τ) (slices : List Bytes) : WriteOutcome × Tap τ :=
  match ByteStream.write t.inner slices with
  | (.accepted n, inner) =>
    (.accepted (min n slices.flatten.length),
      { t with inner, sent := t.sent ++ slices.flatten.take n })
  | (.failed fault, inner) => (.failed fault, { t with inner })

def close (t : Tap τ) : Tap τ := { t with inner := ByteStream.close t.inner }

instance : ByteStream (Tap τ) := ⟨read, write, close⟩

variable {t t' : Tap τ} {room n : Nat} {bytes : Bytes} {fault : IoFault} {slices : List Bytes}

theorem of_read {outcome : ReadOutcome} (h : ByteStream.read t room = (outcome, t')) :
    ByteStream.read t.inner room = (outcome, t'.inner) := by
  change t.read room = _ at h
  rw [read] at h
  split at h
  · next hr =>
    cases h
    exact hr
  · next hr =>
    cases h
    exact hr

theorem of_write {outcome : WriteOutcome} (h : ByteStream.write t slices = (outcome, t')) :
    t'.heard = t.heard ∧
      ((∃ fault, outcome = .failed fault ∧
        ByteStream.write t.inner slices = (.failed fault, t'.inner) ∧
          t'.sent = t.sent) ∨
        ∃ n m, outcome = .accepted m ∧ ByteStream.write t.inner slices = (.accepted n, t'.inner) ∧
          t'.sent = t.sent ++ slices.flatten.take n) := by
  change t.write slices = _ at h
  rw [write] at h
  split at h
  · next hw =>
    cases h
    exact ⟨rfl, .inr ⟨_, _, rfl, hw, rfl⟩⟩
  · next hw =>
    cases h
    exact ⟨rfl, .inl ⟨_, rfl, hw, rfl⟩⟩

theorem of_read_data (h : ByteStream.read t room = (.data bytes, t')) :
    t'.heard = t.heard ++ bytes.take room ∧ t'.sent = t.sent := by
  change t.read room = _ at h
  rw [read] at h
  split at h
  · cases h
    exact ⟨rfl, rfl⟩
  · cases h

theorem of_read_failed (h : ByteStream.read t room = (.failed fault, t')) :
    t'.heard = t.heard ∧ t'.sent = t.sent := by
  change t.read room = _ at h
  rw [read] at h
  split at h
  · cases h
  · cases h
    exact ⟨rfl, rfl⟩

theorem frame_of_read {outcome : ReadOutcome} (h : ByteStream.read t room = (outcome, t')) :
    t'.sent = t.sent ∧ t.heard <+: t'.heard := by
  cases outcome with
  | data bytes =>
    obtain ⟨hheard, hsent⟩ := of_read_data h
    exact ⟨hsent, hheard ▸ List.prefix_append ..⟩
  | failed fault =>
    obtain ⟨hheard, hsent⟩ := of_read_failed h
    exact ⟨hsent, hheard ▸ List.prefix_rfl⟩

theorem of_write_accepted (h : ByteStream.write t slices = (.accepted n, t')) :
    n ≤ slices.flatten.length ∧ t'.sent = t.sent ++ slices.flatten.take n ∧
      t'.heard = t.heard := by
  change t.write slices = _ at h
  rw [write] at h
  split at h
  · cases h
    exact ⟨Nat.min_le_right .., by rw [List.take_eq_take_min], rfl⟩
  · cases h

theorem of_write_failed (h : ByteStream.write t slices = (.failed fault, t')) :
    t'.heard = t.heard ∧ t'.sent = t.sent := by
  change t.write slices = _ at h
  rw [write] at h
  split at h
  · cases h
  · cases h
    exact ⟨rfl, rfl⟩

end Tap

/-- A session together with the parts that it accepted and those that it gave. -/
structure Ledger (σ : Type) where
  inner : σ
  taken : List Part
  given : List Part

namespace Ledger

variable {σ : Type} [Session σ]

def push (l : Ledger σ) (p : Part) : PushOutcome × Ledger σ :=
  match Session.push l.inner p with
  | (.accepted, inner) => (.accepted, { l with inner, taken := l.taken ++ [p] })
  | (outcome, inner) => (outcome, { l with inner })

def pull (l : Ledger σ) : Option Part × Ledger σ :=
  match Session.pull l.inner with
  | (some p, inner) => (some p, { l with inner, given := l.given ++ [p] })
  | (none, inner) => (none, { l with inner })

def flush (l : Ledger σ) : Ledger σ := { l with inner := Session.flush l.inner }

def detach (l : Ledger σ) : Ledger σ := { l with inner := Session.detach l.inner }

instance : Session (Ledger σ) := ⟨push, pull, flush, detach⟩

variable {l l' : Ledger σ} {p : Part} {outcome : PushOutcome}

theorem inner_push (h : Session.push l p = (outcome, l')) :
    Session.push l.inner p = (outcome, l'.inner) := by
  change l.push p = _ at h
  rw [push] at h
  split at h
  · next hp =>
    cases h
    exact hp
  · next hp =>
    obtain ⟨rfl, rfl⟩ := Prod.mk.inj h
    exact hp

theorem inner_pull (l : Ledger σ) :
    (Session.pull l.inner) = ((Session.pull l).1, (Session.pull l).2.inner) := by
  change _ = (l.pull.1, l.pull.2.inner)
  rw [pull]
  split
  · next hp => exact hp
  · next hp => exact hp

theorem of_push_accepted (h : Session.push l p = (.accepted, l')) :
    l'.taken = l.taken ++ [p] ∧ l'.given = l.given := by
  change l.push p = _ at h
  rw [push] at h
  split at h
  · cases h
    exact ⟨rfl, rfl⟩
  · next hne _ =>
    obtain ⟨rfl, -⟩ := Prod.mk.inj h
    exact absurd rfl hne

theorem of_push_refused (h : Session.push l p = (outcome, l')) (ho : outcome ≠ .accepted) :
    l'.taken = l.taken ∧ l'.given = l.given := by
  change l.push p = _ at h
  rw [push] at h
  split at h
  · obtain ⟨rfl, -⟩ := Prod.mk.inj h
    exact absurd rfl ho
  · obtain ⟨-, rfl⟩ := Prod.mk.inj h
    exact ⟨rfl, rfl⟩

theorem of_pull_some (h : Session.pull l = (some p, l')) :
    l'.given = l.given ++ [p] ∧ l'.taken = l.taken := by
  change l.pull = _ at h
  rw [pull] at h
  split at h
  · cases h
    exact ⟨rfl, rfl⟩
  · cases h

theorem of_pull_none (h : Session.pull l = (none, l')) :
    l'.given = l.given ∧ l'.taken = l.taken := by
  change l.pull = _ at h
  rw [pull] at h
  split at h
  · cases h
  · cases h
    exact ⟨rfl, rfl⟩

theorem taken_pull (l : Ledger σ) : (Session.pull l).2.taken = l.taken := by
  cases hp : Session.pull l with
  | mk o l' =>
    cases o with
    | none => exact (of_pull_none hp).2
    | some p => exact (of_pull_some hp).2

end Ledger

namespace Engine

section Stage

variable {τ σ : Type} [ByteStream τ] [Session σ] {u : Prop} {e e' : Engine τ σ}

theorem Step.stage_eq (h : Step u e e') : e'.stage = e.stage := by
  cases h with
  | greeted _ _ hr => exact (EngineState.greeted_receiveGreeting hr).stage
  | settled _ _ hr hs =>
    exact ((EngineState.greeted_receiveGreeting hr).trans (EngineState.greeted_settle hs).1).stage
  | wrote => rw [update, restOutput_eq]
  | blocked => rw [update, restOutput_eq]
  | _ => rfl

theorem stage_eq_of_steps (h : ReflTransGen (Step u) e e') : e'.stage = e.stage := by
  induction h with
  | refl => rfl
  | tail _ hs ih => exact hs.stage_eq.trans ih

theorem Runs.steps (h : Runs u e e') (hl : e'.isLive = true) : ReflTransGen (Step u) e e' := by
  rcases h with h | ⟨e₁, e₂, reason, -, -, rfl⟩
  · exact h
  · cases hl

/-- What holds when a call begins, and is kept by every step and at the end of the connection, holds
after the call. -/
theorem Runs.induction {P : Engine τ σ → Prop} (h : Runs u e e') (hl : e.isLive = true) (he : P e)
    (hstep : ∀ e e', e.isLive = true → P e → Step u e e' → P e')
    (hfail : ∀ e e' reason, e.isLive = true → P e → Failing e e' reason →
      P (e'.tearDown reason)) : P e' := by
  have hsteps {e' : Engine τ σ} (hs : ReflTransGen (Step u) e e') : e'.isLive = true ∧ P e' := by
    induction hs with
    | refl => exact ⟨hl, he⟩
    | tail _ hs ih =>
      refine ⟨?_, hstep _ _ ih.1 ih.2 hs⟩
      rw [EngineState.isLive, hs.stage_eq]
      exact ih.1
  rcases h with h | ⟨e₁, e₂, reason, h, hf, rfl⟩
  · exact (hsteps h).2
  · obtain ⟨hl₁, he₁⟩ := hsteps h
    exact hfail e₁ e₂ reason hl₁ he₁ hf

theorem Runs.stage_ne (h : Runs u e e') (hl : e.stage = .live) : e'.stage ≠ .fresh := by
  rcases h with h | ⟨e₁, e₂, reason, -, -, rfl⟩
  · rw [stage_eq_of_steps h, hl]
    nofun
  · nofun

theorem handle_of_not_live (h : e.isLive = false) {g : Signal} (hg : g ≠ .start) :
    e.handle g = e := by
  cases g with
  | start => exact absurd rfl hg
  | readable => rw [handle, onReadable, h]; rfl
  | writable => rw [handle, onWritable, h]; rfl
  | resumeInput => rw [handle, resumeInput, h]; rfl
  | resumeOutput => rw [handle, resumeOutput, h]; rfl

omit [ByteStream τ] [Session σ] in
theorem isLive_of_over (h : e.isOver = true) : e.isLive = false := by
  apply eq_false_of_ne_true
  intro hl
  cases h.symm.trans (EngineState.isOver_of_isLive hl)

theorem handle_of_over (h : e.isOver = true) (g : Signal) : e.handle g = e := by
  by_cases hg : g = .start
  · subst hg
    rw [handle, start, if_pos h]
  · exact handle_of_not_live (isLive_of_over h) hg

theorem signal_of_not_over (h : e.isOver = false) (g : Signal) : e.signal g = e.handle g := by
  rw [signal, if_neg]
  rintro ⟨-, ho⟩
  cases h.symm.trans ho

theorem signal_of_over (h : e.isOver = true) (g : Signal) :
    e.signal g = e ∨ e.signal g = { e with session := Session.detach e.session } := by
  rw [signal]
  split
  · exact .inr rfl
  · exact .inl (handle_of_over h g)

omit [Session σ] in
theorem stop_of_over (h : e.isOver = true) : e.stop = (false, e) := by
  rw [stop, if_pos h]

omit [Session σ] in
theorem isOver_stop (e : Engine τ σ) : e.stop.2.isOver = true := by
  rw [stop]
  split
  · next h => exact h
  · rfl

theorem isOver_discard (e : Engine τ σ) : e.discard.2.isOver = true := by
  have ho := isOver_stop e
  rw [discard]
  split
  · next h =>
    rw [h] at ho
    exact ho
  · next h =>
    rw [h] at ho
    exact ho

end Stage

variable {τ σ : Type} [ByteStream τ] [Session σ]

/-- What is read last is all that a failure adds. -/
theorem Failing.frame {e e' : Engine (Tap τ) (Ledger σ)} {reason : Teardown}
    (hf : Failing e e' reason) :
    e'.stream.sent = e.stream.sent ∧ e.stream.heard <+: e'.stream.heard ∧
      e'.session.given = e.session.given ∧ e'.session.taken = e.session.taken := by
  have hread {t' : Tap τ} {room : Nat} {outcome : ReadOutcome}
      (hr : ByteStream.read e.stream room = (outcome, t')) :
      t'.sent = e.stream.sent ∧ e.stream.heard <+: t'.heard := Tap.frame_of_read hr
  cases hf with
  | greeting hc hr => exact ⟨(hread hr).1, (hread hr).2, rfl, rfl⟩
  | unsettled hc hr => exact ⟨(hread hr).1, (hread hr).2, rfl, rfl⟩
  | reading hc hp ho hr => exact ⟨(hread hr).1, (hread hr).2, rfl, rfl⟩
  | decoding => exact ⟨rfl, List.prefix_rfl, rfl, rfl⟩
  | rejected hh hp =>
    obtain ⟨htaken, hgiven⟩ := Ledger.of_push_refused hp nofun
    exact ⟨rfl, List.prefix_rfl, hgiven, htaken⟩
  | writing hw =>
    obtain ⟨hheard, hsent⟩ := Tap.of_write_failed hw
    exact ⟨hsent, hheard ▸ List.prefix_rfl, rfl, rfl⟩

/-- An engine that was not told anything yet. -/
def untold (s : Settings) (endpoint : String) (monitored : Bool) (t : τ) (u : σ) :
    Engine (Tap τ) (Ledger σ) :=
  { Engine.new s endpoint ⟨t, [], []⟩ ⟨u, [], []⟩ with monitored }

omit [ByteStream τ] [Session σ] in
theorem atRest_untold (s : Settings) (endpoint : String) (monitored : Bool) (t : τ) (u : σ) :
    (untold s endpoint monitored t u).AtRest := .of_codec_none rfl rfl rfl

/-- What is behind the stream and the session changes. -/
def withWorld (e : Engine (Tap τ) (Ledger σ)) (t : τ) (u : σ) : Engine (Tap τ) (Ledger σ) :=
  { e with stream := { e.stream with inner := t }, session := { e.session with inner := u } }

/-- The engines with the given settings that any calls lead to, whatever the stream and the session
do in between. A connection is taken up only once. -/
inductive Reached (s : Settings) : Engine (Tap τ) (Ledger σ) → Prop where
  | new (endpoint : String) (monitored : Bool) (t : τ) (u : σ) :
      Reached s (untold s endpoint monitored t u)
  | signal {e : Engine (Tap τ) (Ledger σ)} (h : Reached s e) (g : Signal)
      (hg : g = .start → e.stage = .fresh) : Reached s (e.handle g)
  | world {e : Engine (Tap τ) (Ledger σ)} (h : Reached s e) (t : τ) (u : σ) :
      Reached s (e.withWorld t u)
  | stop {e : Engine (Tap τ) (Ledger σ)} (h : Reached s e) : Reached s e.stop.2
  | discard {e : Engine (Tap τ) (Ledger σ)} (h : Reached s e) : Reached s e.discard.2

variable {s : Settings} {e : Engine (Tap τ) (Ledger σ)}

/-- What is known of an engine that was reached. -/
def Known (s : Settings) (I : Engine (Tap τ) (Ledger σ) → Prop) (e : Engine (Tap τ) (Ledger σ)) :
    Prop :=
  (e.stage = .fresh → ∃ endpoint monitored t u, e = untold s endpoint monitored t u) ∧
    (e.isLive = true → I e ∧ e.AtRest)

omit [ByteStream τ] [Session σ] in
theorem known_of_over {I : Engine (Tap τ) (Ledger σ) → Prop} (h : e.isOver = true) :
    Known s I e := by
  constructor
  · intro hf
    cases h.symm.trans (EngineState.isOver_of_fresh hf)
  · intro hl
    cases (isLive_of_over h).symm.trans hl

theorem Reached.known {I : Engine (Tap τ) (Ledger σ) → Prop} (h : Reached s e)
    (hbegin : ∀ endpoint monitored t u, I ((untold s endpoint monitored t u).update (·.begin)))
    (hstep : ∀ e e', I e → Step True e e' → I e') (hworld : ∀ e t u, I e → I (e.withWorld t u)) :
    Known s I e := by
  have hsteps {e e' : Engine (Tap τ) (Ledger σ)} (hi : I e) (hs : ReflTransGen (Step True) e e') :
      I e' := by
    induction hs with
    | refl => exact hi
    | tail _ hs ih => exact hstep _ _ ih hs
  -- an engine that was not told anything is carried along, since it may still be started
  induction h with
  | new endpoint monitored t u => exact ⟨fun _ => ⟨endpoint, monitored, t, u, rfl⟩, nofun⟩
  | @signal e h g hg ih =>
    by_cases hstart : g = .start
    · obtain ⟨endpoint, monitored, t, u, rfl⟩ := ih.1 (hg hstart)
      subst hstart
      obtain ⟨hr, ha⟩ := runs_start (u := True) (atRest_untold s endpoint monitored t u) rfl
      exact ⟨fun hf => absurd hf (hr.stage_ne rfl),
        fun hl => ⟨hsteps (hbegin endpoint monitored t u) (hr.steps hl), ha hl⟩⟩
    · cases hl : e.isLive with
      | false =>
        rw [handle_of_not_live hl hstart]
        exact ih
      | true =>
        obtain ⟨hi, ha⟩ := ih.2 hl
        obtain ⟨hr, ha'⟩ := runs_handle (u := True) ha hstart fun _ => .inr trivial
        have hlive := EngineState.isLive_iff.1 hl
        exact ⟨fun hf => absurd hf (hr.stage_ne hlive),
          fun hl' => ⟨hsteps hi (hr.steps hl'), ha' hl'⟩⟩
  | @world e h t u ih =>
    constructor
    · intro hf
      obtain ⟨endpoint, monitored, t', u', rfl⟩ := ih.1 hf
      exact ⟨endpoint, monitored, t, u, rfl⟩
    · intro hl
      obtain ⟨hi, ha⟩ := ih.2 hl
      exact ⟨hworld _ t u hi, ha.congr rfl rfl rfl⟩
  | stop => exact known_of_over (isOver_stop _)
  | discard => exact known_of_over (isOver_discard _)

theorem Reached.live_induction {I : Engine (Tap τ) (Ledger σ) → Prop} (h : Reached s e)
    (hbegin : ∀ endpoint monitored t u, I ((untold s endpoint monitored t u).update (·.begin)))
    (hstep : ∀ e e', I e → Step True e e' → I e') (hworld : ∀ e t u, I e → I (e.withWorld t u))
    (hl : e.isLive = true) : I e ∧ e.AtRest :=
  (h.known hbegin hstep hworld).2 hl

/-- What holds from the beginning, and is kept by every step and every end of a connection, holds
always. -/
theorem Reached.induction {P : Engine (Tap τ) (Ledger σ) → Prop} (h : Reached s e)
    (hnew : ∀ endpoint monitored t u, P (untold s endpoint monitored t u))
    (hbegin : ∀ endpoint monitored t u, P ((untold s endpoint monitored t u).update (·.begin)))
    (hstep : ∀ e e', e.isLive = true → P e → Step True e e' → P e')
    (hfail : ∀ e e' reason, e.isLive = true → P e → Failing e e' reason → P (e'.tearDown reason))
    (hworld : ∀ e t u, P e → P (e.withWorld t u)) (hstop : ∀ e, P e → P e.stop.2) : P e := by
  induction h with
  | new endpoint monitored t u => exact hnew endpoint monitored t u
  | @signal e h g hg ih =>
    have hk := h.known (I := fun _ => True) (fun _ _ _ _ => trivial) (fun _ _ _ _ => trivial)
      fun _ _ _ _ => trivial
    by_cases hstart : g = .start
    · obtain ⟨endpoint, monitored, t, u, rfl⟩ := hk.1 (hg hstart)
      subst hstart
      have hr := (runs_start (u := True) (atRest_untold s endpoint monitored t u) rfl).1
      exact hr.induction rfl (hbegin endpoint monitored t u) hstep hfail
    · cases hl : e.isLive with
      | false =>
        rw [handle_of_not_live hl hstart]
        exact ih
      | true =>
        have hr := (runs_handle (u := True) (hk.2 hl).2 hstart fun _ => .inr trivial).1
        exact hr.induction hl ih hstep hfail
  | world h t u ih => exact hworld _ t u ih
  | stop h ih => exact hstop _ ih
  | @discard e h ih =>
    have hs := hstop e ih
    rw [Engine.discard]
    split
    · next e' he =>
      rw [he] at hs
      exact hworld e' e'.stream.inner (Session.detach e'.session.inner) hs
    · next e' he =>
      rw [he] at hs
      exact hs

/-- An engine that was started and then told some more. -/
def told (s : Settings) (t : τ) (u : σ) (gs : List Signal) : Engine (Tap τ) (Ledger σ) :=
  gs.foldl Engine.handle ((untold s "" true t u).handle .start)

theorem reached_told (s : Settings) (t : τ) (u : σ) {gs : List Signal} (hg : .start ∉ gs) :
    Reached s (told s t u gs) := by
  have hrun {e : Engine (Tap τ) (Ledger σ)} (h : Reached s e) :
      Reached s (gs.foldl Engine.handle e) := by
    induction gs generalizing e with
    | nil => exact h
    | cons g gs ih =>
      rw [List.mem_cons, not_or] at hg
      exact ih hg.2 (h.signal g fun hg' => absurd hg'.symm hg.1)
  exact hrun ((Reached.new "" true t u).signal .start fun _ => rfl)

end Engine

end Zmtp
