import Zmtp.Proofs.Exchange.Basic
import Zmtp.Proofs.Exchange.Meeting

namespace Zmtp

open Relation (ReflTransGen)

namespace Engine

variable {τ σ : Type} [ByteStream τ] [Session σ] {s t : Settings} {ps : List Part}
  {e e' : Engine (Tap τ) (Ledger σ)} {codec : Codec} {u : Prop}

theorem Opens.steps (h : e.Opens) (hs : ReflTransGen (Step u) e e') : e'.Opens := by
  induction hs with
  | refl => exact h
  | tail _ hs ih => exact ih.step hs

omit [ByteStream τ] [Session σ] in
theorem Opens.of_codec (h : e.Opens) (hh : e.stream.heard <+: t.speech ps)
    (hc : e.codec = some codec) :
    e.greeting.received.bytes = t.opening ∧
      e.negotiated? = some (.versioned .v2 t.role.byte) ∧ codec.revisions = (.v2, .v2) := by
  obtain ⟨hb, n, hn, hrev⟩ := h.settled codec hc
  have hp := hb.trans hh
  cases Settings.classify_of_prefix hp hn
  refine ⟨Settings.eq_opening hp (Nat.le_antisymm ?_ ?_), hn, hrev⟩
  · rw [← h.heard.size, Buffer.bytes, List.length_reverse]
    exact Nat.le_add_right ..
  · exact (Greeting.looksVersioned_of_versioned hn).2

omit [ByteStream τ] [Session σ] in
theorem Opens.looksVersioned (h : e.Opens) (hh : e.stream.heard <+: t.speech ps) :
    Greeting.looksVersioned e.greeting.received.bytes =
      decide (Greeting.signatureSize ≤ e.stream.heard.length) := by
  cases hc : e.codec with
  | none => rw [(h.greeting hc).1, Settings.looksVersioned_of_prefix hh]
  | some codec =>
    obtain ⟨hb, -⟩ := h.settled codec hc
    have hlen := (h.of_codec hh hc).1 ▸ hb.length_le
    rw [Settings.length_opening] at hlen
    rw [Settings.looksVersioned_of_prefix (hb.trans hh), (h.of_codec hh hc).1,
      Settings.length_opening]
    exact decide_eq_decide.2 ⟨fun _ => Nat.le_trans (by decide) hlen, fun _ => by decide⟩

end Engine

namespace Greeter

open Engine

variable {σ τ : Type} {s t : Settings} {p : Greeter σ} {q : Greeter τ}

/-- What an engine with the settings `s` and a peer with the settings `t` have come to. -/
structure Agrees [Session σ] (s t : Settings) (p : Greeter σ) (q : Greeter τ) : Prop where
  /-- A greeting that is done has taken the greeting of the peer, and the newest revision is read
  and written from then on. -/
  chosen : p.engine.isHandshaking = false →
    p.engine.greeting.received.bytes = t.opening ∧ t.opening <+: p.engine.stream.heard ∧
      p.engine.negotiated? = some (.versioned .v2 t.role.byte) ∧
      p.engine.codec.map Codec.revisions = some (.v2, .v2)
  /-- It takes no byte that comes after. -/
  taken : p.engine.isOver = false → p.engine.isHandshaking = true → ∀ schedule,
    (p.ready q schedule).greet.1 = .proceed →
      (p.ready q schedule).greet.2.stream.heard = t.opening ∧
        (p.ready q schedule).greet.2.codec.map Codec.revisions = some (.v2, .v2)
  tail : p.engine.greeting.tail =
    if Greeting.signatureSize ≤ p.engine.stream.heard.length then .sent else .held
  early : p.engine.stream.heard.length < Greeting.signatureSize →
    p.engine.stream.sent <+: (Greeting.new s).signature
  said : p.engine.stream.sent <+: s.speech p.engine.session.given
  /-- Our tail is put in line when ten bytes are heard. -/
  greets : p.engine.isLive = true → p.engine.isHandshaking = true →
    p.engine.queued = (Greeting.new s).signature ++
      if Greeting.signatureSize ≤ p.engine.stream.heard.length then (Greeting.new s).tailBytes
      else []
  /-- It is in line once, and only frames come after it. -/
  speaks : p.engine.isLive = true → p.engine.isHandshaking = false →
    s.opening <+: p.engine.queued ∧ p.engine.stream.sent ++ p.engine.unsent =
      s.opening ++ ((if p.engine.identitySent then (Part.ofBytes s.identity).frame .v2 else []) ++
        p.engine.session.given.flatMap (·.frame .v2))
  writes : p.engine.outbox.size ≠ 0 → p.engine.interest.wantsWrite = true
  reads : p.engine.isLive = true → p.engine.isHandshaking = true →
    p.engine.interest.wantsRead = true

/-- There are bytes to write, and the engine waits for the stream to take them. -/
def canWrite (p : Greeter σ) : Prop :=
  p.engine.outbox.size ≠ 0 ∧ p.engine.interest.wantsWrite = true

/-- There are bytes to read, and the engine waits for them. -/
def canRead (p : Greeter σ) (q : Greeter τ) : Prop :=
  q.outbound.bytes ≠ [] ∧ p.engine.interest.wantsRead = true

theorem codec_of_handshaking {e : EngineState} (h : e.isHandshaking = true) : e.codec = none :=
  Option.isNone_iff_eq_none.1 h

theorem codec_of_not_handshaking {e : EngineState} (h : e.isHandshaking = false) :
    ∃ codec, e.codec = some codec := by
  rwa [EngineState.isHandshaking, Option.isNone_eq_false_iff, Option.isSome_iff_exists] at h

variable [Session σ] [Session τ]

theorem Sound.chosen (hp : p.Sound s q) (hq : q.Sound t p)
    (hn : p.engine.isHandshaking = false) :
    p.engine.greeting.received.bytes = t.opening ∧ t.opening <+: p.engine.stream.heard ∧
      p.engine.negotiated? = some (.versioned .v2 t.role.byte) ∧
      p.engine.codec.map Codec.revisions = some (.v2, .v2) := by
  obtain ⟨codec, hc⟩ := codec_of_not_handshaking hn
  have hopens := hp.reached.greets.opens
  obtain ⟨hb, hneg, hrev⟩ := hopens.of_codec hq.hears hc
  rw [hc, Option.map_some, hrev]
  exact ⟨hb, hb ▸ (hopens.settled codec hc).1, hneg, rfl⟩

theorem Sound.handshaking_of_lt (hp : p.Sound s q) (hq : q.Sound t p)
    (h : p.engine.stream.heard.length < Greeting.signatureSize) :
    p.engine.isHandshaking = true := by
  apply eq_true_of_ne_false
  intro hn
  have hlen := (hp.chosen hq hn).2.1.length_le
  rw [Settings.length_opening] at hlen
  exact absurd (Nat.lt_of_le_of_lt hlen h) (by decide)

theorem Sound.taken (hp : p.Sound s q) (hq : q.Sound t p) (ho : p.engine.isOver = false)
    (hn : p.engine.isHandshaking = true) (schedule : List Pace)
    (hg : (p.ready q schedule).greet.1 = .proceed) :
    (p.ready q schedule).greet.2.stream.heard = t.opening ∧
      (p.ready q schedule).greet.2.codec.map Codec.revisions = some (.v2, .v2) := by
  obtain ⟨hl, hcalled⟩ := hp.called_ready hq schedule ho
  obtain ⟨hopens, hc, hh⟩ : (p.ready q schedule).Opens ∧ (p.ready q schedule).codec = none ∧
      (p.ready q schedule).greeting.Heard (p.ready q schedule).stream.heard := by
    have hopens := hp.reached.greets.opens
    have hc : p.engine.codec = none := codec_of_handshaking hn
    have hh := hopens.heard
    rw [(hopens.greeting hc).1] at hh
    rw [ready]
    split
    · exact ⟨hopens.congr rfl rfl rfl rfl, hc, hh⟩
    · exact ⟨hopens.congr rfl rfl rfl rfl, hc, hh⟩
  obtain ⟨hgo, -, hproceed, -⟩ := goes_greet (u := False) hc
  have hheard := heard_greet hh
  obtain ⟨codec, hcodec, -⟩ := hproceed hg
  rw [hg] at hgo
  -- what was heard by then was said by the peer, and all of it belongs to the greeting
  have hcalled' := hcalled.runs hl (.inl hgo)
  have hgrown : (p.ready q schedule).greet.2.stream.heard <+: t.speech q.engine.session.given :=
    List.IsPrefix.trans ⟨_, hcalled'.heard⟩ hq.speech
  obtain ⟨hb, -, hrev⟩ := (hopens.steps hgo).of_codec hgrown hcodec
  rw [hcodec, Option.map_some, hrev]
  exact ⟨hheard.bytes.symm.trans hb, rfl⟩

theorem Sound.queued_eq (hp : p.Sound s q) (hq : q.Sound t p) (hl : p.engine.isLive = true)
    (hn : p.engine.isHandshaking = true) :
    p.engine.queued = (Greeting.new s).signature ++
      if Greeting.signatureSize ≤ p.engine.stream.heard.length then (Greeting.new s).tailBytes
      else [] := by
  have hc := codec_of_handshaking hn
  obtain ⟨-, hnone⟩ := hp.reached.greets.opens.greeting hc
  have hb := (hp.reached.sends hl).bytes
  rw [Settings.overture_eq hnone, unsent, hc, List.append_nil, Settings.overture,
    Settings.looksVersioned_of_prefix hq.hears] at hb
  simp only [decide_eq_true_eq] at hb
  exact hb

theorem Sound.speaks (hp : p.Sound s q) (hq : q.Sound t p) (hl : p.engine.isLive = true)
    (hn : p.engine.isHandshaking = false) :
    s.opening <+: p.engine.queued ∧ p.engine.stream.sent ++ p.engine.unsent =
      s.opening ++ ((if p.engine.identitySent then (Part.ofBytes s.identity).frame .v2 else []) ++
        p.engine.session.given.flatMap (·.frame .v2)) := by
  obtain ⟨hb, hheard, hneg, -⟩ := hp.chosen hq hn
  have hgreets := hp.reached.greets
  constructor
  · have hqueued := (hgreets.live hl).queued
    rwa [Settings.overture, (Greeting.looksVersioned_of_versioned hneg).1] at hqueued
  · have hclassified : Greeting.classify p.engine.stream.heard =
        some (.versioned .v2 t.role.byte) := by
      obtain ⟨rest, he⟩ := hheard
      rw [EngineState.negotiated?, hb] at hneg
      rw [← he, Greeting.classify_append hneg]
      rfl
    rw [(hp.reached.sends hl).bytes, Settings.due, hclassified, Settings.opening, List.append_assoc]

theorem Sound.agrees (hp : p.Sound s q) (hq : q.Sound t p) : p.Agrees s t q := by
  have hgreets := hp.reached.greets
  have hlooks := hgreets.opens.looksVersioned hq.hears
  refine ⟨hp.chosen hq, hp.taken hq, ?_, ?_, hp.speech, hp.queued_eq hq, hp.speaks hq, ?_, ?_⟩
  · rw [hgreets.opens.heard.tail, hlooks]
    simp only [decide_eq_true_eq]
  · intro hlt
    have hhand := hp.handshaking_of_lt hq hlt
    obtain ⟨-, hnone⟩ := hgreets.opens.greeting (codec_of_handshaking hhand)
    have hsent := hgreets.sent
    rwa [Settings.overture_eq hnone, Settings.overture,
      Settings.looksVersioned_of_prefix hq.hears, decide_eq_false (Nat.not_le.2 hlt),
      if_neg Bool.false_ne_true, List.append_nil] at hsent
  · intro hsize
    have hl : p.engine.isLive = true := by
      apply eq_true_of_ne_false
      intro hl
      rw [hgreets.idle hl] at hsize
      exact hsize rfl
    have hawake := hp.awake hl
    rw [Interest.wantsWrite, hawake.registered, Bool.true_and]
    exact eq_true_of_ne_false fun hw => hsize (hawake.written hw)
  · intro hl hn
    rw [Interest.wantsRead, (hp.awake hl).registered, Bool.true_and]
    exact (hgreets.live hl).listens (codec_of_handshaking hn)

end Greeter

namespace Meeting

open Engine Greeter

variable {σ τ : Type} [Session σ] [Session τ] {s t : Settings} {x : Meeting σ τ}

/-- Both engines live. -/
def Live (x : Meeting σ τ) : Prop := x.left.engine.isLive = true ∧ x.right.engine.isLive = true

/-- Nothing is left that an engine could write, and nothing that it could read. -/
structure Silent (x : Meeting σ τ) : Prop where
  written : x.left.engine.outbox.size = 0 ∧ x.right.engine.outbox.size = 0
  arrived : x.left.outbound.bytes = [] ∧ x.right.outbound.bytes = []

/-- An engine waits to write what it has to write, or to read what is on its way to it. -/
def Stirs (x : Meeting σ τ) : Prop :=
  x.left.canWrite ∨ x.right.canWrite ∨ x.left.canRead x.right ∨ x.right.canRead x.left

omit [Session σ] [Session τ] in
theorem Stirs.swap (h : x.swap.Stirs) : x.Stirs := by
  rcases h with h | h | h | h
  · exact .inr (.inl h)
  · exact .inl h
  · exact .inr (.inr (.inr h))
  · exact .inr (.inr (.inl h))

omit [Session σ] [Session τ] in
theorem Silent.not_stirs (h : x.Silent) : ¬ x.Stirs := by
  rintro (hs | hs | hs | hs)
  · exact hs.1 h.written.1
  · exact hs.1 h.written.2
  · exact hs.1 h.arrived.2
  · exact hs.1 h.arrived.1

theorem Sound.overture_heard (h : x.Sound s t) (hl : x.left.engine.isLive = true)
    (ho : x.left.engine.outbox.size = 0) (ha : x.left.outbound.bytes = []) :
    s.overture x.left.engine.greeting.received.bytes <+: x.right.engine.stream.heard := by
  obtain ⟨hp, hq⟩ := h
  have hqueued := (hp.reached.greets.live hl).queued
  have hchannel := hp.channel
  rw [ha, List.append_nil] at hchannel
  rwa [queued, (hp.awake hl).counted.chunks_eq_nil ho, List.append_nil, ← hchannel] at hqueued

/-- As long as the right engine is not done with the greeting, something can be written or read. -/
theorem Sound.stirs (h : x.Sound s t) (hx : x.Live)
    (hn : x.right.engine.isHandshaking = true) : x.Stirs := by
  obtain ⟨hl, hr⟩ := hx
  have hleft := h.1.agrees h.2
  have hright := h.2.agrees h.1
  by_cases ho : x.left.engine.outbox.size = 0
  case neg => exact .inl ⟨ho, hleft.writes ho⟩
  by_cases ha : x.left.outbound.bytes = []
  case neg => exact .inr (.inr (.inr ⟨ha, hright.reads hr hn⟩))
  have hoverture := h.overture_heard hl ho ha
  by_cases hheard : Greeting.signatureSize ≤ x.left.engine.stream.heard.length
  · -- the left engine has answered, so that the right one has heard a whole greeting
    obtain ⟨-, hnone⟩ := h.2.reached.greets.opens.greeting (codec_of_handshaking hn)
    rw [Settings.overture, h.1.reached.greets.opens.looksVersioned h.2.hears,
      decide_eq_true hheard, if_pos rfl] at hoverture
    have hlen := hoverture.length_le
    rw [← Settings.opening, Settings.length_opening] at hlen
    exact absurd hlen (Nat.not_le.2 (Greeting.length_lt_of_undecided hnone))
  · have hhand := h.1.handshaking_of_lt h.2 (Nat.lt_of_not_le hheard)
    by_cases ho' : x.right.engine.outbox.size = 0
    case neg => exact .inr (.inl ⟨ho', hright.writes ho'⟩)
    by_cases ha' : x.right.outbound.bytes = []
    case neg => exact .inr (.inr (.inl ⟨ha', hleft.reads hl hhand⟩))
    -- the right engine has said the first ten bytes at least, and they have arrived
    have hlen := (h.swap.overture_heard hr ho' ha').length_le
    rw [Settings.overture, List.length_append, Settings.length_signature] at hlen
    exact absurd (Nat.le_trans (Nat.le_add_right ..) hlen) hheard

theorem Sound.stirs_or_done (h : x.Sound s t) (hx : x.Live) :
    x.Stirs ∨
      x.left.engine.isHandshaking = false ∧ x.right.engine.isHandshaking = false := by
  cases hr : x.right.engine.isHandshaking with
  | true => exact .inl (h.stirs hx hr)
  | false =>
    cases hl : x.left.engine.isHandshaking with
    | true => exact .inl (Stirs.swap (h.swap.stirs hx.symm hl))
    | false => exact .inr ⟨rfl, rfl⟩

/-- Whatever happens on the two sides, each engine says its greeting once and takes that of the
other, and the two come to the newest revision. As long as both live and either is not done with the
greeting, one of them waits for what it can do: they do not wait for each other. -/
theorem agrees_of_reached (h : Reached s t x) :
    x.left.Agrees s t x.right ∧ x.right.Agrees t s x.left ∧
      (x.Live →
        (x.Stirs ∨
          x.left.engine.isHandshaking = false ∧ x.right.engine.isHandshaking = false) ∧
        (x.Silent →
          x.left.engine.isHandshaking = false ∧ x.right.engine.isHandshaking = false)) := by
  have hs := h.sound
  refine ⟨hs.1.agrees hs.2, hs.2.agrees hs.1, ?_⟩
  intro hx
  have hdone := hs.stirs_or_done hx
  exact ⟨hdone, fun hsilent => hdone.resolve_left hsilent.not_stirs⟩

def pubSettings : Settings := { role := .pub, identity := [0x41] }

def subSettings : Settings := { role := .sub, identity := [0x42, 0x43] }

/-- A publisher and a subscriber have said a part of their greetings, a few bytes at a time. -/
def halfway : Meeting LinkSession LinkSession :=
  [.inl (.signal .start []), .inl (.signal .writable [.move 4]), .inr (.signal .start [.move 9]),
    .inl (.signal .writable [.move 9]), .inr (.signal .readable [.move 5]),
    .inr (.signal .writable [.move 3]), .inl (.signal .readable [.move 1, .stall false]),
    .inr (.signal .readable [.move 1]), .inr (.signal .writable [.move 20])].foldl Meeting.play
    ⟨.new pubSettings "left" true ⟨Link.new ⟨0⟩ 8⟩, .new subSettings "right" true ⟨Link.new ⟨2⟩ 8⟩⟩

theorem reached_halfway : Reached pubSettings subSettings halfway :=
  (Reached.new "left" "right" true true _ _).run _

theorem agrees_of_reached_halfway :
    let x := [Sum.inl (Deed.signal .readable [.move 11]), .inl (.signal .writable [.move 20]),
      .inr (.signal .readable [.move 5])].foldl Meeting.play halfway
    halfway.left.engine.isHandshaking = true ∧ halfway.Stirs ∧
      (halfway.left.ready halfway.right [.move 11]).greet.2.stream.heard = subSettings.opening ∧
      x.left.engine.isHandshaking = false ∧ x.right.engine.isHandshaking = false ∧
      x.right.engine.greeting.received.bytes = pubSettings.opening := by
  intro x
  have hh : halfway.left.engine.isHandshaking = true := by decide +kernel
  obtain ⟨hleft, -, hstirs⟩ := agrees_of_reached reached_halfway
  obtain ⟨-, hright, hdone⟩ := agrees_of_reached (reached_halfway.run _ : Reached _ _ x)
  obtain ⟨hl, hr⟩ := (hdone ⟨by decide +kernel, by decide +kernel⟩).2
    ⟨⟨by decide +kernel, by decide +kernel⟩, ⟨by decide +kernel, by decide +kernel⟩⟩
  refine ⟨hh, ?_, (hleft.taken (by decide +kernel) hh _ (by decide +kernel)).1, hl, hr,
    (hright.chosen hr).1⟩
  apply ((hstirs ⟨by decide +kernel, by decide +kernel⟩).1).resolve_right
  rintro ⟨hf, -⟩
  cases hh.symm.trans hf

end Meeting

namespace Exchange

variable {s t : Settings} {x : Exchange}

/-- The engines of an exchange, whatever their applications have published and seen. -/
def meeting (x : Exchange) : Meeting LinkSession LinkSession :=
  ⟨⟨x.left.engine, x.left.outbound⟩, ⟨x.right.engine, x.right.outbound⟩⟩

theorem meeting_act (h : Meeting.Reached s t x.meeting) (a : Act) :
    Meeting.Reached s t (x.act a).meeting := by
  cases a with
  | signal g schedule =>
    rw [Exchange.act, Exchange.signal]
    split
    · next hg =>
      have hd := h.play (.inl (.signal g schedule))
      have hheeds : x.meeting.left.heeds g = true := by
        cases g with
        | start =>
          have hf : x.left.engine.stage = .fresh := beq_iff_eq.1 hg
          rw [Greeter.heeds, EngineState.isLive, show x.meeting.left.engine.stage = .fresh from hf]
          rfl
        | readable => rfl
        | writable => exact hg
        | resumeInput => rfl
        | resumeOutput => rfl
      rwa [Meeting.play, Meeting.act, if_pos hheeds] at hd
    · exact h
  | write p => exact h.play (.inl (.tend _))
  | rollback => exact h.play (.inl (.tend _))
  | publish => exact h.play (.inl (.tend _))
  | read => exact h.play (.inl (.tend _))

theorem Reached.meeting (h : Reached s t x) : Meeting.Reached s t x.meeting := by
  induction h with
  | new endpoint endpoint' monitored monitored' first first' => exact .new ..
  | left h a ih => exact meeting_act ih a
  | right h a ih => exact (meeting_act ih.swap a).swap

theorem Reached.greeted (h : Reached s t x) (hx : x.meeting.Live) (hs : x.meeting.Silent) :
    x.left.engine.isHandshaking = false ∧ x.right.engine.isHandshaking = false :=
  (h.meeting.sound.stirs_or_done hx).resolve_left hs.not_stirs

end Exchange

end Zmtp
