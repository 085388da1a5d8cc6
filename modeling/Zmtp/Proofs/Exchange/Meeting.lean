import Zmtp.Proofs.Engine.Waking
import Zmtp.Proofs.Exchange.Speech
import Zmtp.Proofs.Exchange.Wire

namespace Zmtp

open Engine

/-- One of two engines that are joined, whatever session it serves. -/
structure Greeter (σ : Type) where
  engine : Engine (Tap Wire) (Ledger σ)
  /-- What the engine has written, on its way to the other side. -/
  outbound : Channel

namespace Greeter

variable {σ τ : Type}

def new (s : Settings) (endpoint : String) (monitored : Bool) (u : σ) : Greeter σ :=
  ⟨.untold s endpoint monitored ⟨.empty, .empty, []⟩ u, .empty⟩

/-- A greeter after its application has changed the session. -/
def tend (p : Greeter σ) (u : σ) : Greeter σ :=
  { p with engine := p.engine.withWorld p.engine.stream.inner u }

/-- The engine between the two channels. -/
def joined (p : Greeter σ) (q : Greeter τ) (schedule : List Pace) :
    Engine (Tap Wire) (Ledger σ) :=
  p.engine.withWorld ⟨q.outbound, p.outbound, schedule⟩ p.engine.session.inner

/-- The engine as a call finds it that reads. One that is fresh is taken up first. -/
def ready (p : Greeter σ) (q : Greeter τ) (schedule : List Pace) : Engine (Tap Wire) (Ledger σ) :=
  if p.engine.stage = .fresh then (p.joined q schedule).update (·.begin) else p.joined q schedule

/-- An engine between two calls. -/
def between (e : Engine (Tap Wire) (Ledger σ)) : Greeter σ := ⟨e, e.stream.inner.outbound⟩

/-- A greeter after a call of the engine of its peer. -/
def readBy (q : Greeter τ) (e : Engine (Tap Wire) (Ledger σ)) : Greeter τ :=
  { q with outbound := e.stream.inner.inbound }

/-- What may be told to the engine: a start only if it does not live, and that the stream takes
bytes only while it waits for that. -/
def heeds (p : Greeter σ) : Signal → Bool
  | .start => !p.engine.isLive
  | .writable => p.engine.interest.wantsWrite
  | _ => true

end Greeter

/-- What happens next on one side. -/
inductive Deed (σ : Type) where
  /-- The engine is told something, and its reads and writes go as scheduled. -/
  | signal (g : Signal) (schedule : List Pace)
  /-- The application changes its session. -/
  | tend (u : σ)
  | stop
  | discard

/-- Two engines that are joined by a stream in each direction. -/
structure Meeting (σ τ : Type) where
  left : Greeter σ
  right : Greeter τ

namespace Meeting

variable {σ τ : Type}

def swap (x : Meeting σ τ) : Meeting τ σ := ⟨x.right, x.left⟩

/-- Calls the left engine. -/
def call (x : Meeting σ τ) (schedule : List Pace)
    (f : Engine (Tap Wire) (Ledger σ) → Engine (Tap Wire) (Ledger σ)) : Meeting σ τ :=
  let e := f (x.left.joined x.right schedule)
  ⟨.between e, x.right.readBy e⟩

def act [Session σ] (x : Meeting σ τ) : Deed σ → Meeting σ τ
  | .signal g schedule => if x.left.heeds g then x.call schedule (·.handle g) else x
  | .tend u => { x with left := x.left.tend u }
  | .stop => x.call [] (·.stop.2)
  | .discard => x.call [] (·.discard.2)

/-- What happens next, on either side. -/
def play [Session σ] [Session τ] (x : Meeting σ τ) : Deed σ ⊕ Deed τ → Meeting σ τ
  | .inl d => x.act d
  | .inr d => (x.swap.act d).swap

/-- The meetings of two engines with the given settings that any deeds on the two sides lead to. -/
inductive Reached [Session σ] [Session τ] (s t : Settings) : Meeting σ τ → Prop where
  | new (endpoint endpoint' : String) (monitored monitored' : Bool) (u : σ) (v : τ) :
      Reached s t ⟨.new s endpoint monitored u, .new t endpoint' monitored' v⟩
  | play {x : Meeting σ τ} (h : Reached s t x) (d : Deed σ ⊕ Deed τ) : Reached s t (x.play d)

theorem Reached.swap [Session σ] [Session τ] {s t : Settings} {x : Meeting σ τ}
    (h : Reached s t x) : Reached t s x.swap := by
  induction h with
  | new endpoint endpoint' monitored monitored' u v =>
    exact .new endpoint' endpoint monitored' monitored v u
  | play h d ih =>
    cases d with
    | inl d => exact ih.play (.inr d)
    | inr d => exact ih.play (.inl d)

theorem Reached.run [Session σ] [Session τ] {s t : Settings} {x : Meeting σ τ}
    (h : Reached s t x) (ds : List (Deed σ ⊕ Deed τ)) : Reached s t (ds.foldl Meeting.play x) := by
  induction ds generalizing x with
  | nil => exact h
  | cons d ds ih => exact ih (h.play d)

end Meeting

namespace Greeter

variable {σ τ : Type} {s t : Settings} {p : Greeter σ} {q : Greeter τ}
  {e e' : Engine (Tap Wire) (Ledger σ)}

/-- How an engine stands during a call, whose peer is `q`. -/
structure Called (q : Greeter τ) (e : Engine (Tap Wire) (Ledger σ)) : Prop where
  heard : e.stream.heard ++ e.stream.inner.inbound.bytes = q.engine.stream.sent
  sent : q.engine.stream.heard ++ e.stream.inner.outbound.bytes = e.stream.sent
  inbound : e.stream.inner.inbound.writerGone = q.engine.isOver ∧
    e.stream.inner.inbound.readerGone = e.isOver
  outbound : e.stream.inner.outbound.writerGone = e.isOver ∧
    e.stream.inner.outbound.readerGone = q.engine.isOver
  awake : e.isLive = true → e.Awake fun _ => True

theorem Called.joined (h : Called q e) (ho : e.isOver = false) :
    e.stream.Joined q.engine.stream.sent q.engine.stream.heard q.engine.isOver :=
  ⟨h.heard, h.sent, h.inbound.1, h.inbound.2.trans ho, h.outbound.1.trans ho, h.outbound.2⟩

theorem called_of_joined
    (h : e.stream.Joined q.engine.stream.sent q.engine.stream.heard q.engine.isOver)
    (ho : e.isOver = false) (ha : e.isLive = true → e.Awake fun _ => True) : Called q e :=
  ⟨h.heard, h.sent, ⟨h.isOpen.1, h.isOpen.2.1.trans ho.symm⟩,
    ⟨h.isOpen.2.2.1.trans ho.symm, h.isOpen.2.2.2⟩, ha⟩

theorem Called.stop (h : Called q e) : Called q e.stop.2 := by
  rw [Engine.stop]
  split
  · exact h
  · refine ⟨h.heard, h.sent, ⟨h.inbound.1, rfl⟩, ⟨rfl, h.outbound.2⟩, ?_⟩
    intro hl
    cases hl

theorem Called.tend (h : Called q e) (u : σ) : Called q (e.withWorld e.stream.inner u) :=
  ⟨h.heard, h.sent, h.inbound, h.outbound,
    fun hl => (h.awake hl).congr_session _ _ fun _ => trivial⟩

variable [Session σ]

theorem Called.discard (h : Called q e) : Called q e.discard.2 := by
  have hs := h.stop
  rw [Engine.discard]
  split
  · next e' he =>
    rw [he] at hs
    exact hs.tend (Session.detach e'.session.inner)
  · next e' he =>
    rw [he] at hs
    exact hs

theorem dries_true : Session.Dries fun _ : Ledger σ => True where
  push _ _ := trivial
  pull _ := trivial
  flush _ _ := trivial

theorem Called.runs (h : Called q e) (hl : e.isLive = true) (hr : Runs False e e') :
    Called q e' := by
  apply hr.induction hl h
  case hstep =>
    intro e e' hl h hs
    have ho := EngineState.isOver_of_isLive hl
    have hj := hs.stream Tap.keeps_joined (h.joined ho)
    rw [EngineState.isOver, ← hs.stage_eq] at ho
    exact called_of_joined hj ho fun _ => (h.awake hl).step dries_true hs
  case hfail =>
    intro e e' reason hl h hf
    have hj := hf.stream Tap.keeps_joined (h.joined (EngineState.isOver_of_isLive hl))
    refine ⟨hj.heard, hj.sent, ⟨hj.isOpen.1, rfl⟩, ⟨rfl, hj.isOpen.2.2.2⟩, ?_⟩
    intro hl
    cases hl

/-- What is known of a greeter between two calls. -/
structure Sound (s : Settings) (p : Greeter σ) (q : Greeter τ) : Prop where
  reached : Engine.Reached s p.engine
  awake : p.engine.isLive = true → p.engine.Awake fun _ => True
  /-- What the peer has not heard of what was sent is on its way. -/
  channel : q.engine.stream.heard ++ p.outbound.bytes = p.engine.stream.sent
  writer : p.outbound.writerGone = p.engine.isOver
  reader : p.outbound.readerGone = q.engine.isOver
  speech : p.engine.stream.sent <+: s.speech p.engine.session.given

theorem sound_new (s : Settings) (endpoint : String) (monitored : Bool) (u : σ)
    (hheard : q.engine.stream.heard = []) (hover : q.engine.isOver = false) :
    (new s endpoint monitored u).Sound s q where
  reached := .new endpoint monitored _ u
  awake := nofun
  channel := by
    rw [hheard]
    rfl
  writer := rfl
  reader := hover.symm
  speech := List.nil_prefix

theorem Sound.tend (hp : p.Sound s q) (u : σ) : (p.tend u).Sound s q where
  reached := hp.reached.world ..
  awake hl := (hp.awake hl).congr_session _ _ fun _ => trivial
  channel := hp.channel
  writer := hp.writer
  reader := hp.reader
  speech := hp.speech

variable [Session τ]

omit [Session σ] in
theorem Sound.hears (hq : q.Sound t p) :
    p.engine.stream.heard <+: t.speech q.engine.session.given :=
  List.IsPrefix.trans ⟨q.outbound.bytes, hq.channel⟩ hq.speech

theorem Sound.called (hp : p.Sound s q) (hq : q.Sound t p) (schedule : List Pace) :
    Called q (p.joined q schedule) where
  heard := hq.channel
  sent := hp.channel
  inbound := ⟨hq.writer, hq.reader⟩
  outbound := ⟨hp.writer, hp.reader⟩
  awake hl := (hp.awake hl).congr_session _ _ fun _ => trivial

omit [Session τ] in
theorem Sound.known (hp : p.Sound s q) (schedule : List Pace) :
    Known s (fun _ => True) (p.joined q schedule) :=
  (hp.reached.world ..).known (fun _ _ _ _ => trivial) (fun _ _ _ _ => trivial)
    fun _ _ _ _ => trivial

theorem Sound.called_ready (hp : p.Sound s q) (hq : q.Sound t p) (schedule : List Pace)
    (ho : p.engine.isOver = false) :
    (p.ready q schedule).isLive = true ∧ Called q (p.ready q schedule) := by
  have hc := hp.called hq schedule
  rw [ready]
  split
  · next hf =>
    obtain ⟨endpoint, monitored, w, u, he⟩ := (hp.known schedule).1 hf
    rw [he] at hc ⊢
    refine ⟨rfl, called_of_joined (hc.joined rfl) rfl fun _ => ?_⟩
    exact awake_of_writable rfl rfl rfl
  · next hf =>
    refine ⟨?_, hc⟩
    cases hstage : p.engine.stage with
    | fresh => exact absurd hstage hf
    | live =>
      rw [EngineState.isLive, show (p.joined q schedule).stage = .live from hstage]
      rfl
    | «over» reason =>
      rw [EngineState.isOver, hstage] at ho
      cases ho

theorem Sound.called_signal (hp : p.Sound s q) (hq : q.Sound t p) (schedule : List Pace)
    {g : Signal} (hg : p.heeds g = true) :
    Engine.Reached s ((p.joined q schedule).handle g) ∧
      Called q ((p.joined q schedule).handle g) := by
  have hr : Engine.Reached s (p.joined q schedule) := hp.reached.world ..
  have hc := hp.called hq schedule
  have hk := hp.known (q := q) schedule
  by_cases hs : g = .start
  · subst hs
    cases hstage : p.engine.stage with
    | fresh =>
      refine ⟨hr.signal .start fun _ => hstage, ?_⟩
      obtain ⟨hl, hready⟩ := hp.called_ready hq schedule (by rw [EngineState.isOver, hstage])
      rw [ready, if_pos hstage] at hl hready
      obtain ⟨endpoint, monitored, w, u, he⟩ := hk.1 hstage
      rw [he] at hl hready ⊢
      exact hready.runs hl (runs_start (atRest_untold s endpoint monitored w u) rfl).1
    | live =>
      rw [heeds, EngineState.isLive, hstage] at hg
      cases hg
    | «over» reason =>
      have ho : (p.joined q schedule).isOver = true := by
        rw [EngineState.isOver, show (p.joined q schedule).stage = .over reason from hstage]
      rw [handle_of_over ho]
      exact ⟨hr, hc⟩
  · refine ⟨hr.signal g fun h => absurd h hs, ?_⟩
    cases hl : (p.joined q schedule).isLive with
    | false =>
      rw [handle_of_not_live hl hs]
      exact hc
    | true =>
      refine hc.runs hl (runs_handle (hk.2 hl).2 hs fun hw => ?_).1
      subst hw
      have hwants : p.engine.interest.wantsWrite = true := hg
      rw [Interest.wantsWrite, Bool.and_eq_true] at hwants
      exact .inl hwants.2

theorem Sound.after (hq : q.Sound t p) (hr : Engine.Reached s e) (hc : Called q e) :
    (between e).Sound s (q.readBy e) ∧ (q.readBy e).Sound t (between e) := by
  have hheard : e.stream.heard <+: t.speech q.engine.session.given :=
    List.IsPrefix.trans ⟨e.stream.inner.inbound.bytes, hc.heard⟩ hq.speech
  constructor
  · exact ⟨hr, hc.awake, hc.sent, hc.outbound.1, hc.outbound.2,
      hr.greets.sent.trans (Settings.due_prefix hheard nofun)⟩
  · exact ⟨hq.reached, hq.awake, hc.heard, hc.inbound.1, hc.inbound.2, hq.speech⟩

end Greeter

namespace Meeting

variable {σ τ : Type} [Session σ] [Session τ] {s t : Settings} {x : Meeting σ τ}

/-- What is known of a meeting between two calls. -/
def Sound (s t : Settings) (x : Meeting σ τ) : Prop :=
  x.left.Sound s x.right ∧ x.right.Sound t x.left

theorem Sound.swap (h : x.Sound s t) : x.swap.Sound t s := ⟨h.2, h.1⟩

theorem Sound.act (h : x.Sound s t) (d : Deed σ) : (x.act d).Sound s t := by
  obtain ⟨hp, hq⟩ := h
  have hr : Engine.Reached s (x.left.joined x.right []) := hp.reached.world ..
  have hc := hp.called hq []
  cases d with
  | signal g schedule =>
    rw [Meeting.act]
    split
    · next hg =>
      obtain ⟨hr, hc⟩ := hp.called_signal hq schedule hg
      exact hq.after hr hc
    · exact ⟨hp, hq⟩
  | tend u => exact ⟨hp.tend u, hq.reached, hq.awake, hq.channel, hq.writer, hq.reader, hq.speech⟩
  | stop => exact hq.after hr.stop hc.stop
  | discard => exact hq.after hr.discard hc.discard

theorem Reached.sound (h : Reached s t x) : x.Sound s t := by
  induction h with
  | new => exact ⟨Greeter.sound_new _ _ _ _ rfl rfl, Greeter.sound_new _ _ _ _ rfl rfl⟩
  | play h d ih =>
    cases d with
    | inl d => exact ih.act d
    | inr d => exact (ih.swap.act d).swap

end Meeting

end Zmtp
