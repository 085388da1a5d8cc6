import Mathlib.Data.List.Infix
import Zmtp.Proofs.Engine.Receiving
import Zmtp.Proofs.Engine.Sending

namespace Zmtp

namespace Settings

/-- Our greeting to a peer that knows greetings. -/
def opening (s : Settings) : Bytes := (Greeting.new s).signature ++ (Greeting.new s).tailBytes

/-- As much of it as is said to a peer of whom so much was heard. -/
def overture (s : Settings) (heard : Bytes) : Bytes :=
  (Greeting.new s).signature ++
    if Greeting.looksVersioned heard then (Greeting.new s).tailBytes else []

@[simp] theorem length_signature (s : Settings) :
    (Greeting.new s).signature.length = Greeting.signatureSize := by
  simp [Greeting.signature, Greeting.signatureSize]

@[simp] theorem length_opening (s : Settings) : s.opening.length = Greeting.size := by
  rw [opening, List.length_append, length_signature]
  rfl

variable {s : Settings} {heard more : Bytes} {begun : Bool} {given : List Part}

theorem overture_eq (h : Greeting.classify heard = none) :
    (Greeting.new s).signature ++ s.due heard begun given = s.overture heard := by
  rw [due, h]
  rfl

theorem due_begun (h : begun = false → given = []) :
    s.due heard begun given <+: s.due heard true given := by
  cases begun with
  | true => exact List.prefix_rfl
  | false =>
    rw [h rfl, due, due]
    split
    · exact List.prefix_rfl
    · exact List.prefix_rfl
    · rw [List.prefix_append_right_inj]
      exact List.nil_prefix

theorem due_mono (h : heard <+: more) : s.due heard true given <+: s.due more true given := by
  obtain ⟨rest, rfl⟩ := h
  cases hn : Greeting.classify heard with
  | some n =>
    rw [s.due_append hn]
  | none =>
    have hd : s.due heard true given =
        if Greeting.looksVersioned heard then (Greeting.new s).tailBytes else [] := by rw [due, hn]
    rw [hd]
    split
    · next hl =>
      -- the peer goes on to look versioned, and cannot turn out to be older
      have hl' := Greeting.looksVersioned_append hl rest
      rw [due]
      split
      · rw [if_pos hl']
      · next hn' =>
        rw [Greeting.looksVersioned_of_versionless hn'] at hl'
        cases hl'
      · exact List.prefix_append ..
    · exact List.nil_prefix

end Settings

/-- The revisions that a codec reads and writes. -/
def Codec.revisions (c : Codec) : Revision × Revision :=
  (c.reader.scanner.revision, c.writer.revision)

namespace EngineState

variable {s s' : EngineState} {n : Negotiated}

theorem settle_codec (hw : s.writeRevision = none) (h : s.settle n = .ok s') :
    s'.writeRevision = none ∧
      ∃ codec, s'.codec = some codec ∧ codec.revisions = (n.revision, n.revision) := by
  cases n with
  | versionless prebuffered =>
    obtain ⟨events, hs⟩ := settle_versionless hw prebuffered
    cases h.symm.trans hs
    exact ⟨hw, _, rfl, rfl⟩
  | versioned revision role =>
    obtain ⟨events, hs⟩ := settle_versioned hw revision role
    cases h.symm.trans hs
    exact ⟨hw, _, rfl, rfl⟩

end EngineState

namespace Engine

variable {τ σ : Type} {s : Settings} {e e' : Engine (Tap τ) (Ledger σ)} {reason : Teardown}

/-- All that was put in line for the stream. -/
def queued (e : Engine (Tap τ) (Ledger σ)) : Bytes := e.stream.sent ++ e.outbox.chunks.flatten

/-- What an engine has concluded from the greeting of its peer. -/
structure Opens (e : Engine (Tap τ) (Ledger σ)) : Prop where
  writeRevision : e.writeRevision = none
  heard : e.greeting.Heard e.greeting.received.bytes
  greeting : e.codec = none → e.greeting.received.bytes = e.stream.heard ∧
    Greeting.classify e.stream.heard = none
  settled : ∀ codec, e.codec = some codec → e.greeting.received.bytes <+: e.stream.heard ∧
    ∃ n, Greeting.classify e.greeting.received.bytes = some n ∧
      codec.revisions = (n.revision, n.revision)

theorem opens_untold (endpoint : String) (monitored : Bool) (t : τ) (u : σ) :
    (untold s endpoint monitored t u).Opens where
  writeRevision := rfl
  heard := Greeting.heard_new s
  greeting _ := ⟨rfl, rfl⟩
  settled _ := nofun

theorem Opens.congr (h : e.Opens) (hw : e'.writeRevision = e.writeRevision)
    (hg : e'.greeting = e.greeting) (hh : e'.stream.heard = e.stream.heard)
    (hc : e'.codec.map Codec.revisions = e.codec.map Codec.revisions) : e'.Opens where
  writeRevision := hw.trans h.writeRevision
  heard := hg ▸ h.heard
  greeting hn := by
    rw [hn, Option.map_none] at hc
    rw [hg, hh]
    exact h.greeting (Option.map_eq_none_iff.1 hc.symm)
  settled codec hn := by
    rw [hn, Option.map_some] at hc
    obtain ⟨codec', hc', hr⟩ := Option.map_eq_some_iff.1 hc.symm
    rw [hg, hh, ← hr]
    exact h.settled codec' hc'

theorem Opens.with_reader {codec : Codec} {reader : FrameReader} (h : e.Opens)
    (hc : e.codec = some codec)
    (hr : reader.scanner.revision = codec.reader.scanner.revision) {stream : Tap τ}
    (hh : e.stream.heard <+: stream.heard) :
    Opens { e with codec := some { codec with reader }, stream } where
  writeRevision := h.writeRevision
  heard := h.heard
  greeting := nofun
  settled codec' hc' := by
    cases hc'
    obtain ⟨hb, n, hn, hrev⟩ := h.settled codec hc
    refine ⟨hb.trans hh, n, hn, ?_⟩
    rw [← hrev, Codec.revisions, hr, Codec.revisions]

section Queue

theorem queued_with_stream {stream : Tap τ} (h : stream.sent = e.stream.sent) :
    queued { e with stream } = e.queued := by
  rw [queued, h, queued]

theorem queued_update_restOutput : (e.update (·.restOutput)).queued = e.queued := by
  rw [update, restOutput_eq]
  rfl

theorem queued_fill [Session σ] (codec : Codec) : e.queued <+: (e.fill codec).queued := by
  simp only [queued, fill, Outbox.pushBatch, List.flatten_append, ← List.append_assoc]
  exact List.prefix_append ..

variable [ByteStream τ]

theorem queued_consume {n : Nat} {stream : Tap τ}
    (h : ByteStream.write e.stream e.outbox.slices = (.accepted n, stream)) :
    queued { e with stream, outbox := e.outbox.consume n } = e.queued := by
  obtain ⟨hle, hsent, -⟩ := Tap.of_write_accepted h
  rw [Outbox.take_slices _ hle] at hsent
  rw [queued, hsent]
  simp only [Outbox.consume, Outbox.flatten_dropBytes]
  rw [List.append_assoc, List.take_append_drop, queued]

theorem queued_receiveGreeting {room : Nat} {bytes : Bytes} {stream : Tap τ} {t : EngineState}
    {v : Option Negotiated} (hread : ByteStream.read e.stream room = (.data bytes, stream))
    (hr : e.receiveGreeting (bytes.take room) = (t, v)) :
    e.queued <+: queued (σ := σ) ⟨t, stream, e.session⟩ := by
  rw [queued, queued, (Tap.of_read_data hread).2, List.prefix_append_right_inj]
  rcases EngineState.receiveGreeting_output hr with ⟨ho, -⟩ | ⟨ho, -⟩
  · rw [ho]
  · rw [ho, Outbox.push, List.flatten_append]
    exact List.prefix_append ..

theorem Step.queued_prefix [Session σ] {u : Prop} (hs : Step u e e') : e.queued <+: e'.queued := by
  cases hs with
  | waited hc hread ht =>
    exact (queued_with_stream (Tap.of_read_failed hread).2).symm ▸ List.prefix_rfl
  | greeted hc hread hr => exact queued_receiveGreeting hread hr
  | settled hc hread hr hs =>
    have hq := queued_receiveGreeting hread hr
    simp only [queued] at hq ⊢
    rw [(EngineState.settle_frame hs).2.1]
    exact hq
  | stalled hc hp ho hread ht =>
    exact (queued_with_stream (Tap.of_read_failed hread).2).symm ▸ List.prefix_rfl
  | refilled hc hp ho hread =>
    exact (queued_with_stream (Tap.of_read_data hread).2).symm ▸ List.prefix_rfl
  | filled hc ho hs hw => exact queued_fill _
  | drained hc ho hs => exact queued_fill _
  | wrote ho hw =>
    rw [queued_update_restOutput, queued_consume hw]
  | blocked hw ht =>
    rw [queued_update_restOutput, queued_with_stream (Tap.of_write_failed hw).2]
  | _ => exact List.prefix_rfl

end Queue

section Steps

variable [ByteStream τ]

theorem Opens.greeted {bytes : Bytes} {stream : Tap τ} {t : EngineState} {v : Option Negotiated}
    (h : e.Opens) (hc : e.codec = none)
    (hread : ByteStream.read e.stream e.greeting.room = (.data bytes, stream))
    (hr : e.receiveGreeting (bytes.take e.greeting.room) = (t, v)) :
    t.greeting.Heard stream.heard ∧ v = Greeting.classify stream.heard ∧ t.codec = none ∧
      t.writeRevision = none := by
  have hh := h.heard
  rw [(h.greeting hc).1] at hh
  obtain ⟨hv, hg, -⟩ := EngineState.receiveGreeting_spec hh (List.length_take_le ..) hr
  rw [(Tap.of_read_data hread).1]
  rw [EngineState.receiveGreeting_eq hr]
  exact ⟨hg, hv, hc, h.writeRevision⟩

variable [Session σ] {u : Prop}

omit [ByteStream τ] in
theorem Opens.fill {codec : Codec} (h : e.Opens) (hc : e.codec = some codec) :
    (e.fill codec).Opens := by
  have hw : (Supply.gather e.settings.identity (max e.settings.outputBatch 1)
      ⟨codec.writer, e.identitySent, e.session⟩).2.writer.revision = codec.writer.revision :=
    Supply.revision_gatherFrom ..
  refine h.congr rfl rfl rfl ?_
  rw [hc]
  simp only [Engine.fill, Option.map_some, Codec.revisions, hw]

theorem Opens.step (h : e.Opens) (hs : Step u e e') : e'.Opens := by
  cases hs with
  | waited hc hread ht => exact h.congr rfl rfl (Tap.of_read_failed hread).1 rfl
  | greeted hc hread hr =>
    obtain ⟨hg, hv, hnone, hw⟩ := h.greeted hc hread hr
    refine ⟨hw, hg.bytes.symm ▸ hg, fun _ => ⟨hg.bytes, hv.symm⟩, ?_⟩
    intro codec hcodec
    cases hnone.symm.trans hcodec
  | settled hc hread hr hs =>
    obtain ⟨hg, hv, -, hw⟩ := h.greeted hc hread hr
    obtain ⟨hw', codec, hcodec, hrev⟩ := EngineState.settle_codec hw hs
    rw [← (EngineState.settle_frame hs).1] at hg
    refine ⟨hw', hg.bytes.symm ▸ hg, ?_, ?_⟩
    · intro hnone
      cases hcodec.symm.trans hnone
    · intro codec' hcodec'
      cases hcodec.symm.trans hcodec'
      exact ⟨hg.bytes ▸ List.prefix_rfl, _, hg.bytes.symm ▸ hv.symm, hrev⟩
  | stalled hc hp ho hread ht =>
    obtain ⟨hscan, -⟩ := FrameReader.offer_frame ho hp
    exact h.with_reader hc (congrArg _ hscan) ((Tap.of_read_failed hread).1 ▸ List.prefix_rfl)
  | refilled hc hp ho hread =>
    exact h.with_reader hc (FrameReader.revision_filled ho (List.length_take_le ..))
      (Tap.frame_of_read hread).2
  | @decoded codec reader p rest asked hc hr =>
    have hrev := codec.reader.revision_read
    rw [hr] at hrev
    exact (h.with_reader hc hrev List.prefix_rfl).congr rfl rfl rfl rfl
  | @exhausted codec reader rest asked hc hr =>
    have hrev := codec.reader.revision_read
    rw [hr] at hrev
    exact h.with_reader hc hrev List.prefix_rfl
  | filled hc ho hs hw => exact h.fill hc
  | drained hc ho hs => exact (h.fill hc).congr rfl rfl rfl rfl
  | wrote ho hw =>
    rw [update, restOutput_eq]
    exact h.congr rfl rfl (Tap.of_write_accepted hw).2.2 rfl
  | blocked hw ht =>
    rw [update, restOutput_eq]
    exact h.congr rfl rfl (Tap.of_write_failed hw).1 rfl
  | _ => exact h.congr rfl rfl rfl rfl

theorem Opens.fail (h : e.Opens) (hf : Failing e e' reason) : e'.Opens := by
  cases hf with
  | greeting hc hread hf =>
    refine h.congr rfl rfl ?_ rfl
    cases hf with
    | closed hb =>
      have hh := (Tap.of_read_data hread).1
      rwa [hb, List.append_nil] at hh
    | io => exact (Tap.of_read_failed hread).1
  | unsettled hc hread hr hs =>
    obtain ⟨-, -, -, hw⟩ := h.greeted hc hread hr
    exact absurd hs (EngineState.settle_ne_error hw _ _)
  | reading hc hp ho hread hf =>
    obtain ⟨hscan, -⟩ := FrameReader.offer_frame ho hp
    exact h.with_reader hc (congrArg _ hscan) (Tap.frame_of_read hread).2
  | @decoding codec reader fault rest asked hc hr =>
    have hrev := codec.reader.revision_read
    rw [hr] at hrev
    exact h.with_reader hc hrev List.prefix_rfl
  | rejected => exact h.congr rfl rfl rfl rfl
  | writing hw => exact h.congr rfl rfl (Tap.of_write_failed hw).1 rfl

omit [Session σ] in
theorem Sends.queued_receiveGreeting {bytes : Bytes} {stream : Tap τ} {t : EngineState}
    {v : Option Negotiated} (h : e.Sends s) (hc : e.codec = none)
    (hread : ByteStream.read e.stream e.greeting.room = (.data bytes, stream))
    (hr : e.receiveGreeting (bytes.take e.greeting.room) = (t, v)) :
    queued (σ := σ) ⟨t, stream, e.session⟩ = s.overture t.greeting.received.bytes := by
  obtain ⟨hheard, hsent⟩ := Tap.of_read_data hread
  obtain ⟨-, -, hg, hb⟩ :=
    Sending.Sound.answer h (writer_of_codec_none hc) rfl rfl (List.length_take_le ..) hr
  rw [queued, hsent, hg.bytes]
  exact hb

/-- What an engine that lives has to say, and what it waits for. -/
structure Hails (s : Settings) (e : Engine (Tap τ) (Ledger σ)) : Prop where
  sends : e.Sends s
  receives : e.Receives s
  queued : s.overture e.greeting.received.bytes <+: e.queued
  listens : e.codec = none → e.interest.readable = true

omit [ByteStream τ] [Session σ] in
theorem hails_begin (endpoint : String) (monitored : Bool) (t : τ) (u : σ) :
    ((untold s endpoint monitored t u).update (·.begin)).Hails s where
  sends := sends_begin endpoint monitored t u
  receives := receives_begin endpoint monitored t u
  queued := by
    change (Greeting.new s).signature ++ [] <+: [] ++ ([] ++ [(Greeting.new s).signature]).flatten
    rw [List.append_nil, List.nil_append, List.nil_append, List.flatten_singleton]
  listens _ := rfl

theorem Hails.queued_step (h : e.Hails s) (hs : Step u e e') :
    s.overture e'.greeting.received.bytes <+: e'.queued := by
  have hq := h.queued.trans hs.queued_prefix
  cases hs with
  | greeted hc hread hr =>
    rw [h.sends.queued_receiveGreeting hc hread hr]
  | settled hc hread hr hs =>
    obtain ⟨hg, ho, -⟩ := EngineState.settle_frame hs
    have hq := h.sends.queued_receiveGreeting hc hread hr
    simp only [Engine.queued] at hq ⊢
    rw [hg, ho, hq]
  | wrote ho hw =>
    rw [update, restOutput_eq] at hq ⊢
    exact hq
  | blocked hw ht =>
    rw [update, restOutput_eq] at hq ⊢
    exact hq
  | _ => exact hq

omit [ByteStream τ] [Session σ] in
theorem codec_update_restOutput : (e.update (·.restOutput)).codec = e.codec := by
  rw [update, restOutput_eq]

theorem Hails.listens_step (h : e.Hails s) (hs : Step u e e') (hn : e'.codec = none) :
    e'.interest.readable = true := by
  cases hs with
  | greeted hc hread hr =>
    exact (EngineState.readable_receiveGreeting hr).trans (h.listens hc)
  | settled hc hread hr hs =>
    obtain ⟨-, codec, hcodec, -⟩ := EngineState.greeted_settle hs
    cases hcodec.symm.trans hn
  | congested hh => exact absurd (h.receives.greeting (reader_of_codec_none hn)).2.2.2.1 hh
  | wrote ho hw =>
    rw [codec_update_restOutput] at hn
    exact (EngineState.readable_restOutput _).trans (h.listens hn)
  | blocked hw ht =>
    rw [codec_update_restOutput] at hn
    exact (EngineState.readable_restOutput _).trans (h.listens hn)
  | resumed => rfl
  | stalled => cases hn
  | refilled => cases hn
  | decoded => cases hn
  | exhausted => cases hn
  | filled => cases hn
  | drained => cases hn
  | _ => exact h.listens hn

theorem Hails.step (h : e.Hails s) (hs : Step u e e') : e'.Hails s where
  sends := h.sends.step hs
  receives := h.receives.step hs
  queued := h.queued_step hs
  listens := h.listens_step hs

theorem Opens.tearDown (h : e.Opens) (reason : Teardown) : (e.tearDown reason).Opens := by
  rw [Engine.tearDown, EngineState.report_eq]
  exact h.congr rfl rfl rfl rfl

omit [ByteStream τ] [Session σ] in
theorem Sends.sent_prefix_due (h : e.Sends s) : e.stream.sent <+:
    (Greeting.new s).signature ++ s.due e.stream.heard true e.session.given := by
  have hs : e.stream.sent <+: _ := ⟨_, h.bytes⟩
  apply hs.trans
  rw [List.prefix_append_right_inj]
  exact Settings.due_begun h.given_eq_nil

/-- How an engine stands towards its peer, whether it lives or not. -/
structure Greets (s : Settings) (e : Engine (Tap τ) (Ledger σ)) : Prop where
  opens : e.Opens
  live : e.isLive = true → e.Hails s
  sent : e.stream.sent <+:
    (Greeting.new s).signature ++ s.due e.stream.heard true e.session.given
  idle : e.isLive = false → e.outbox = .empty

omit [Session σ] in
theorem Greets.stop (h : e.Greets s) : e.stop.2.Greets s := by
  rw [Engine.stop]
  split
  · exact h
  · refine ⟨h.opens.congr rfl rfl rfl rfl, ?_, h.sent, fun _ => rfl⟩
    intro hl
    cases hl

/-- Whatever a stream and a session do, an engine greets its peer as it should. -/
theorem Reached.greets (h : Reached s e) : e.Greets s := by
  apply h.induction
  case hnew =>
    intro endpoint monitored t u
    exact ⟨opens_untold endpoint monitored t u, nofun, List.nil_prefix, fun _ => rfl⟩
  case hbegin =>
    intro endpoint monitored t u
    exact ⟨(opens_untold endpoint monitored t u).congr rfl rfl rfl rfl,
      fun _ => hails_begin endpoint monitored t u, List.nil_prefix, nofun⟩
  case hstep =>
    intro e e' hl h hs
    have hails := (h.live hl).step hs
    refine ⟨h.opens.step hs, fun _ => hails, hails.sends.sent_prefix_due, ?_⟩
    intro hl'
    rw [EngineState.isLive, hs.stage_eq] at hl'
    cases hl.symm.trans hl'
  case hfail =>
    intro e e' reason hl h hf
    obtain ⟨hsent, hheard, hgiven, -⟩ := hf.frame
    refine ⟨(h.opens.fail hf).tearDown reason, fun hl => (by cases hl), ?_, fun _ => rfl⟩
    change e'.stream.sent <+:
      (Greeting.new s).signature ++ s.due e'.stream.heard true e'.session.given
    rw [hsent, hgiven]
    apply h.sent.trans
    rw [List.prefix_append_right_inj]
    exact Settings.due_mono hheard
  case hworld =>
    intro e t u h
    refine ⟨h.opens.congr rfl rfl rfl rfl, ?_, h.sent, h.idle⟩
    intro hl
    obtain ⟨hsends, hreceives, hqueued, hlistens⟩ := h.live hl
    exact ⟨hsends.congr rfl, hreceives.congr rfl, hqueued, hlistens⟩
  case hstop =>
    intro e h
    exact h.stop

omit [Session σ] in
theorem heard_greet (h : e.greeting.Heard e.stream.heard) :
    e.greet.2.greeting.Heard e.greet.2.stream.heard := by
  induction hn : e.greeting.room using Nat.strongRecOn generalizing e with
  | ind n ih =>
    rw [greet]
    split
    · next fault stream hr =>
      rw [← (Tap.of_read_failed hr).1] at h
      exact h
    · next bytes stream hr =>
      have hheard := (Tap.of_read_data hr).1
      simp only
      split
      · next hi =>
        rw [hi, List.append_nil] at hheard
        rw [← hheard] at h
        exact h
      · next hi =>
        split
        · next t hg =>
          have hroom := EngineState.room_receiveGreeting_lt hg hi (List.length_take_le ..)
          obtain ⟨-, hg', -⟩ := EngineState.receiveGreeting_spec h (List.length_take_le ..) hg
          rw [← hheard] at hg'
          exact ih _ (hn ▸ hroom) (e := ⟨t, stream, e.session⟩) hg' rfl
        · next t v hg =>
          obtain ⟨-, hg', -⟩ := EngineState.receiveGreeting_spec h (List.length_take_le ..) hg
          rw [← hheard] at hg'
          split
          · exact hg'
          · next t' hs =>
            rw [← (EngineState.settle_frame hs).1] at hg'
            exact hg'

end Steps

end Engine

end Zmtp
