import Zmtp.Proofs.Exchange.Books
import Zmtp.Proofs.Exchange.Speech
import Zmtp.Proofs.Exchange.Wire

namespace Zmtp

open Relation (ReflTransGen)

/-- An engine that serves an application and is joined to another engine. -/
abbrev Talker := Engine (Tap Wire) (Ledger LinkSession)

/-- What lies around an engine during a call. -/
structure Scene where
  said : Bytes
  known : Bytes
  /-- Whether the connection of the peer is over. -/
  gone : Bool
  published : List Part
  seen : List Part
  announced : Bool

namespace Engine

variable {s t : Settings} {scene : Scene} {e e' : Talker} {reason : Teardown} {ps : List Part}

/-- What is known of an engine in the middle of a call. -/
structure Amid (s : Settings) (scene : Scene) (e : Talker) : Prop where
  sends : e.Sends s
  receives : e.Receives s
  awake : e.Awake fun l : Ledger LinkSession =>
    scene.announced = true → l.inner.link.right.live = true → l.inner.link.right.inbox = []
  joined : e.stream.Joined scene.said scene.known scene.gone
  booked : e.session.Booked scene.published scene.seen

theorem Amid.step (h : e.Amid s scene) (hs : Step False e e') : e'.Amid s scene where
  sends := h.sends.step hs
  receives := h.receives.step hs
  awake := h.awake.step (Ledger.dries_inbox scene.announced) hs
  joined := hs.stream Tap.keeps_joined h.joined
  booked := hs.session Ledger.keeps_booked h.booked

theorem Amid.steps (h : e.Amid s scene) (hs : ReflTransGen (Step False) e e') :
    e'.Amid s scene := by
  induction hs with
  | refl => exact h
  | tail _ hs ih => exact ih.step hs

theorem Amid.heard_prefix (h : e.Amid s scene) : e.stream.heard <+: scene.said :=
  ⟨_, h.joined.heard⟩

/-- An engine speaks to another as to one of its own kind. -/
theorem Amid.sent_prefix (h : e.Amid s scene) (hsaid : scene.said <+: t.speech ps) :
    e.stream.sent <+: s.speech e.session.given := by
  refine List.IsPrefix.trans ?_
    (Settings.due_prefix (h.heard_prefix.trans hsaid) h.sends.given_eq_nil)
  rw [← h.sends.bytes]
  exact List.prefix_append ..

theorem Amid.not_failing (h : e.Amid s scene) (hgone : scene.gone = false)
    (hsaid : scene.said <+: t.speech ps) (ht : s.takes t ps) : ¬ Failing e e' reason := by
  have hj := h.joined
  rw [hgone] at hj
  have hheard := h.heard_prefix.trans hsaid
  intro hf
  cases hf with
  | greeting hc hr hf =>
    obtain ⟨hh, hn, -⟩ := h.receives.greeting (reader_of_codec_none hc)
    have hroom : e.greeting.room = _ := Greeting.Heard.room hh
    have hlt := Greeting.length_lt_of_undecided hn
    exact hj.not_readFails hr (by omega) hf
  | unsettled hc hr hg hs =>
    exact absurd hs (h.receives.settle_ne_error hg)
  | reading hc hp ho hr hf =>
    obtain ⟨n, parts, hd⟩ := h.receives.reader _ (reader_of_codec hc)
    exact hj.not_readFails hr (hd.roomy.offer ho).1 hf
  | decoding hc hr =>
    -- a fault of the reader would be one of what was heard, which is the beginning of a speech
    obtain ⟨n, parts, hd⟩ := h.receives.reader _ (reader_of_codec hc)
    have hfault := hd.follows.read_error hd.clean hr
    cases Settings.classify_of_prefix hheard hd.negotiated
    cases (Settings.fault_speech ht hheard).symm.trans hfault
  | rejected hh hp => exact (h.booked.push hp).2 rfl
  | writing hw hf =>
    rw [hj.isTransient_of_write hw] at hf
    cases hf

end Engine

end Zmtp
