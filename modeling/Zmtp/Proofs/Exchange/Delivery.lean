import Zmtp.Proofs.Exchange.Sound

namespace Zmtp

open Engine

namespace Exchange

variable {s t : Settings} {x : Exchange}

theorem Sound.visible_prefix (h : x.Sound s t) (ht : t.takes s x.left.published) :
    x.right.visible <+: t.shown s.identity x.left.published := by
  obtain ⟨hp, hq⟩ := h
  have hheard : x.right.engine.stream.heard <+: s.speech x.left.published := by
    apply List.IsPrefix.trans ⟨x.left.outbound.bytes, hp.channel⟩
    exact hp.sent.trans (Settings.speech_prefix hp.given)
  rw [← hq.taken, ← Settings.delivered_speech ht]
  exact hq.accepted.trans (Settings.delivered_prefix hheard)

/-- Nothing is on its way from left to right: the connection stands, the left engine has written
what it took up, and the right one has read it and does not rest. -/
structure Settled (x : Exchange) : Prop where
  left : x.left.engine.isLive = true
  right : x.right.engine.isLive = true
  greeted : x.left.engine.isHandshaking = false ∧ x.right.engine.isHandshaking = false
  written : x.left.engine.interest.wantsWrite = false
  arrived : x.left.outbound.bytes = []
  reading : x.right.engine.congested = false

/-- A left engine that does not wait for its stream has sent all that it asked for, and has asked for
all that it was told of. -/
theorem Sound.sent_eq (h : x.Sound s t) (hs : x.Settled) :
    x.left.engine.stream.sent = s.speech x.left.engine.session.given ∧
      x.left.engine.session.given ++ x.left.waiting = x.left.published ∧
      (x.left.announced = true → x.left.waiting = []) := by
  obtain ⟨hp, hq⟩ := h
  obtain ⟨hsends, -, -, hawake⟩ := hp.live hs.left
  have hwritable : x.left.engine.interest.writable = false := by
    have hw := hs.written
    rwa [Interest.wantsWrite, hawake.registered, Bool.true_and] at hw
  have hover := EngineState.isOver_of_isLive hs.left
  obtain ⟨hlive, hgiven⟩ := hp.right hover
  -- a codec that is not waited for has nothing left, and the session had nothing more to give
  cases hc : x.left.engine.codec with
  | none =>
    have hg := hs.greeted.1
    rw [EngineState.isHandshaking, hc] at hg
    cases hg
  | some codec =>
    obtain ⟨hl, hi, hdry⟩ := hawake.drained hwritable codec hc
    have hunsent : x.left.engine.unsent = [] := by
      rw [unsent, hc, hawake.counted.chunks_eq_nil (hawake.written hwritable)]
      exact hl
    obtain ⟨n, hn, -⟩ := hsends.writer codec.writer (writer_of_codec hc)
    have hclassified : Greeting.classify x.left.engine.stream.heard ≠ none := by
      rw [show Greeting.classify x.left.engine.stream.heard = some n from hn]
      exact Option.some_ne_none n
    have hheard : x.left.engine.stream.heard <+: t.speech x.right.engine.session.given :=
      List.IsPrefix.trans ⟨x.right.outbound.bytes, hq.channel⟩ hq.sent
    have hbytes := hsends.bytes
    rw [hunsent, List.append_nil, hi, Settings.due_eq hheard hclassified] at hbytes
    exact ⟨hbytes, hgiven, fun ha => hdry ha hlive⟩

theorem Sound.visible_eq (h : x.Sound s t) (ht : t.takes s x.left.published) (hs : x.Settled) :
    x.right.visible ++ x.left.waiting.map Part.onWire =
        t.shown s.identity x.left.published ∧
      (x.left.announced = true → x.left.waiting = []) := by
  obtain ⟨hsent, hgiven, hwaiting⟩ := h.sent_eq hs
  obtain ⟨hp, hq⟩ := h
  obtain ⟨-, hreceives, hrest, -⟩ := hq.live hs.right
  have hheard : x.right.engine.stream.heard = s.speech x.left.engine.session.given := by
    have hc := hp.channel
    rw [hs.arrived, List.append_nil] at hc
    exact hc.trans hsent
  obtain ⟨hheld, hleft⟩ := hrest.nothing_left hs.reading
  have hcomplete := hreceives.complete hrest
  rw [hheld, hleft, List.append_nil, List.append_nil, hheard,
    Settings.delivered_speech (Settings.takes_of_prefix hp.given ht)] at hcomplete
  refine ⟨?_, hwaiting⟩
  rw [← hq.taken, hcomplete, ← Settings.shown_append, hgiven]

theorem published_act (x : Exchange) (a : Act) :
    x.left.published <+: (x.act a).left.published ∧
      (x.act a).right.published = x.right.published := by
  cases a with
  | signal g schedule =>
    rw [act, signal]
    split <;> exact ⟨List.prefix_rfl, rfl⟩
  | publish => exact ⟨List.prefix_append .., rfl⟩
  | write p => exact ⟨List.prefix_rfl, rfl⟩
  | rollback => exact ⟨List.prefix_rfl, rfl⟩
  | read => exact ⟨List.prefix_rfl, rfl⟩

theorem Sound.alive_act (h : x.Sound s t) (hl : x.left.engine.isOver = false)
    (hr : x.right.engine.isOver = false) (ht : s.takes t x.right.published) (a : Act) :
    (x.act a).left.engine.isOver = false ∧ (x.act a).right.engine.isOver = false := by
  cases a with
  | signal g schedule =>
    obtain ⟨hp, hq⟩ := h
    rw [Exchange.act, Exchange.signal]
    split
    · next hg =>
      refine ⟨?_, hr⟩
      change ((x.left.joined x.right schedule).handle g).isOver = false
      rcases hp.signal_cases hq schedule hg with ⟨he, -⟩ | ⟨e₁, ha, hl₁, hruns, -⟩
      · rw [he]
        exact hl
      · rcases hruns with hruns | ⟨e₂, e₃, reason, hruns, hf, -⟩
        · rw [EngineState.isOver, stage_eq_of_steps hruns]
          exact EngineState.isOver_of_isLive hl₁
        · exact absurd hf ((ha.steps hruns).not_failing hr hq.sent
            (Settings.takes_of_prefix hq.given ht))
    · exact ⟨hl, hr⟩
  | write p => exact ⟨hl, hr⟩
  | rollback => exact ⟨hl, hr⟩
  | publish => exact ⟨hl, hr⟩
  | read => exact ⟨hl, hr⟩

theorem Reached.alive (h : Reached s t x) (ht : t.takes s x.left.published)
    (hs : s.takes t x.right.published) :
    x.left.engine.isOver = false ∧ x.right.engine.isOver = false := by
  induction h with
  | new => exact ⟨rfl, rfl⟩
  | @left x h a ih =>
    obtain ⟨hleft, hright⟩ := published_act x a
    rw [hright] at hs
    obtain ⟨hl, hr⟩ := ih (Settings.takes_of_prefix hleft ht) hs
    exact h.sound.alive_act hl hr hs a
  | @right x h a ih =>
    obtain ⟨hright, hleft⟩ := published_act x.swap a
    change t.takes s (x.swap.act a).right.published at ht
    rw [hleft] at ht
    obtain ⟨hl, hr⟩ := ih ht (Settings.takes_of_prefix hright hs)
    exact (h.sound.swap.alive_act hr hl ht a).symm

/-- At every moment an application sees the beginning of what the other one has published, behind the
identity of the other side if that is delivered. No connection ends as long as each side admits what
the other says, and once nothing is left to do the application sees all of it. -/
theorem visible_of_published (h : Reached s t x) (ht : t.takes s x.left.published) :
    x.right.visible <+: t.shown s.identity x.left.published ∧
      (s.takes t x.right.published →
        x.left.engine.isOver = false ∧ x.right.engine.isOver = false) ∧
      (x.Settled →
        x.right.visible ++ x.left.waiting.map Part.onWire =
            t.shown s.identity x.left.published ∧
          (x.left.announced = true → x.left.waiting = [])) :=
  ⟨h.sound.visible_prefix ht, h.alive ht, h.sound.visible_eq ht⟩

def dealerSettings : Settings := { role := .dealer, identity := [0x41] }

def routerSettings : Settings := { role := .router, identity := [0x42] }

/-- A dealer sends a message of two parts to a router, a few bytes at a time. -/
def twoParts : Exchange :=
  [(Side.left, Act.signal .start []), (.left, .write (.ofMore [1, 2] true)),
    (.left, .write (.ofBytes [3])), (.left, .publish), (.right, .signal .start []),
    (.left, .signal .writable [.move 4]), (.right, .signal .readable [.move 3, .stall true]),
    (.left, .signal .writable [.move 9]), (.right, .signal .writable [.move 10]),
    (.right, .signal .readable [.move 9, .move 9]), (.left, .signal .readable [.move 20]),
    (.right, .signal .writable [.move 20]), (.left, .signal .readable [.move 20]),
    (.left, .signal .writable [.move 20]), (.left, .signal .resumeOutput [.move 20]),
    (.right, .signal .readable [.move 2, .move 2]), (.left, .signal .writable []),
    (.right, .signal .readable [.move 20]), (.right, .signal .readable [.move 20])].foldl
    Exchange.play ⟨.new dealerSettings "left" true ⟨0⟩, .new routerSettings "right" true ⟨2⟩⟩

theorem reached_twoParts : Reached dealerSettings routerSettings twoParts :=
  (Reached.new "left" "right" true true ⟨0⟩ ⟨2⟩).play _

theorem visible_of_published_twoParts :
    twoParts.right.visible = [⟨[0x41], .identity⟩, .ofMore [1, 2] true, .ofBytes [3]] ∧
      (twoParts.left.engine.isOver = false ∧ twoParts.right.engine.isOver = false) ∧
      twoParts.right.visible ++ twoParts.left.waiting.map Part.onWire =
        routerSettings.shown dealerSettings.identity twoParts.left.published := by
  obtain ⟨-, halive, hall⟩ := visible_of_published reached_twoParts (by decide +kernel)
  refine ⟨by decide +kernel, halive (by decide +kernel), (hall ⟨?_, ?_, ⟨?_, ?_⟩, ?_, ?_, ?_⟩).1⟩
  all_goals decide +kernel

/-- A dealer that takes no bodies at all meets a router with an identity. -/
def tooLarge : Exchange :=
  [(Side.left, Act.signal .start []), (.right, .signal .start []),
    (.left, .signal .writable [.move 20]), (.right, .signal .readable [.move 20]),
    (.right, .signal .writable [.move 20]), (.left, .signal .readable [.move 20]),
    (.left, .signal .writable [.move 20]), (.right, .signal .readable [.move 20]),
    (.right, .signal .writable [.move 20]), (.left, .signal .readable [.move 20]),
    (.right, .signal .writable [.move 20]), (.left, .signal .readable [.move 20]),
    (.left, .signal .readable [.move 20])].foldl Exchange.play
    ⟨.new { role := .dealer, maxBodySize := some 0 } "left" true ⟨0⟩,
      .new routerSettings "right" true ⟨2⟩⟩

/-- It is not enough that one side admits what the other says. -/
theorem not_alive_tooLarge :
    ¬ ∀ (s t : Settings) (x : Exchange), Reached s t x → t.takes s x.left.published →
      x.right.visible <+: t.shown s.identity x.left.published ∧
        (x.left.engine.isOver = false ∧ x.right.engine.isOver = false) ∧
        (x.Settled →
          x.right.visible ++ x.left.waiting.map Part.onWire =
              t.shown s.identity x.left.published ∧
            (x.left.announced = true → x.left.waiting = [])) := by
  intro h
  have hr : Reached { role := .dealer, maxBodySize := some 0 } routerSettings tooLarge :=
    (Reached.new "left" "right" true true ⟨0⟩ ⟨2⟩).play _
  obtain ⟨-, ⟨hl, -⟩, -⟩ := h _ _ _ hr (by decide +kernel)
  have hover : tooLarge.left.engine.isOver = true := by decide +kernel
  rw [hover] at hl
  cases hl

end Exchange

end Zmtp
