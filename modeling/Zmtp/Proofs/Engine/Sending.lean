import Zmtp.Proofs.Engine.Supply
import Zmtp.Stream.Script

namespace Zmtp

open Relation (ReflTransGen)

theorem Outbox.take_slices (o : Outbox) {n : Nat} (h : n ≤ o.slices.flatten.length) :
    o.slices.flatten.take n = o.chunks.flatten.take n := by
  have hs : o.chunks.flatten = o.slices.flatten ++ (o.chunks.drop sliceLimit).flatten := by
    rw [slices, ← List.flatten_append, List.take_append_drop]
  rw [hs, List.take_append_of_le_length h]

/-- The bytes that are due after the first ten of the greeting, given what was heard from the peer,
whether our identity was begun, and what the session gave. -/
def Settings.due (s : Settings) (heard : Bytes) (identitySent : Bool) (given : List Part) : Bytes :=
  match Greeting.classify heard with
  | none => if Greeting.looksVersioned heard then (Greeting.new s).tailBytes else []
  | some (.versionless _) => s.identity ++ given.flatMap (·.frame .v1)
  | some (.versioned revision _) =>
    (Greeting.new s).tailBytes ++
      ((if identitySent then (Part.ofBytes s.identity).frame revision else []) ++
        given.flatMap (·.frame revision))

theorem Settings.due_append (s : Settings) {heard : Bytes} {n : Negotiated}
    (h : Greeting.classify heard = some n) (more : Bytes) (identitySent : Bool)
    (given : List Part) :
    s.due (heard ++ more) identitySent given = s.due heard identitySent given := by
  rw [due, due, Greeting.classify_append h, h]
  cases n <;> rfl

/-- What sending depends on. -/
structure Sending where
  settings : Settings
  writeRevision : Option Revision
  greeting : Greeting
  writer : Option FrameWriter
  identitySent : Bool
  chunks : List Bytes
  heard : Bytes
  sent : Bytes
  given : List Part

namespace Engine

variable {τ σ : Type}

def sending (e : Engine (Tap τ) (Ledger σ)) : Sending where
  settings := e.settings
  writeRevision := e.writeRevision
  greeting := e.greeting
  writer := e.codec.map Codec.writer
  identitySent := e.identitySent
  chunks := e.outbox.chunks
  heard := e.stream.heard
  sent := e.stream.sent
  given := e.session.given

/-- What an engine has still to write of what it has taken up. -/
def unsent (e : Engine (Tap τ) (Ledger σ)) : Bytes :=
  e.outbox.chunks.flatten ++
    match e.codec with
    | none => []
    | some codec => codec.writer.left

end Engine

namespace Sending

def unsent (v : Sending) : Bytes :=
  v.chunks.flatten ++
    match v.writer with
    | none => []
    | some writer => writer.left

/-- All that was taken up is written or waits to be, in order. -/
structure Sound (s : Settings) (v : Sending) : Prop where
  settings : v.settings = s
  writeRevision : v.writeRevision = none
  tail : v.greeting.tailBytes = (Greeting.new s).tailBytes
  bytes : v.sent ++ v.unsent =
    (Greeting.new s).signature ++ s.due v.heard v.identitySent v.given
  greeting : v.writer = none → v.greeting.Heard v.heard ∧ Greeting.classify v.heard = none ∧
    v.identitySent = false ∧ v.given = []
  writer : ∀ writer, v.writer = some writer → ∃ n, Greeting.classify v.heard = some n ∧
    writer.revision = n.revision ∧
      (v.identitySent = false →
        writer.left = [] ∧ v.given = [] ∧ ∃ revision role, n = .versioned revision role)

variable {s : Settings} {v : Sending}

theorem Sound.hear (h : v.Sound s) {writer : FrameWriter} (hw : v.writer = some writer)
    (more : Bytes) : Sending.Sound s { v with heard := v.heard ++ more } := by
  obtain ⟨n, hn, hrev, hfresh⟩ := h.writer writer hw
  refine ⟨h.settings, h.writeRevision, h.tail, ?_, ?_, ?_⟩
  · rw [s.due_append hn]
    exact h.bytes
  · intro hw'
    cases hw.symm.trans hw'
  · intro writer' hw'
    cases hw.symm.trans hw'
    refine ⟨n.later more, Greeting.classify_append hn more, ?_, ?_⟩
    · rw [Negotiated.revision_later]
      exact hrev
    · intro hi
      obtain ⟨hl, hg, revision, role, rfl⟩ := hfresh hi
      exact ⟨hl, hg, revision, role, rfl⟩

theorem Sound.send (h : v.Sound s) (n : Nat) :
    Sending.Sound s { v with
      sent := v.sent ++ v.chunks.flatten.take n
      chunks := Outbox.dropBytes n v.chunks } := by
  refine ⟨h.settings, h.writeRevision, h.tail, ?_, h.greeting, h.writer⟩
  rw [← h.bytes]
  simp only [unsent, Outbox.flatten_dropBytes]
  rw [List.append_assoc, ← List.append_assoc (v.chunks.flatten.take n), List.take_append_drop]

theorem Sound.answer (h : v.Sound s) (hw : v.writer = none) {t t' : EngineState} {input : Bytes}
    {verdict : Option Negotiated} (hg : t.greeting = v.greeting) (ho : t.outbox.chunks = v.chunks)
    (hl : input.length ≤ t.greeting.room) (hr : t.receiveGreeting input = (t', verdict)) :
    verdict = Greeting.classify (v.heard ++ input) ∧
      t'.greeting.tailBytes = (Greeting.new s).tailBytes ∧
      t'.greeting.Heard (v.heard ++ input) ∧
      v.sent ++ t'.outbox.chunks.flatten = (Greeting.new s).signature ++
        if Greeting.looksVersioned (v.heard ++ input) then (Greeting.new s).tailBytes else [] := by
  obtain ⟨hheard, hnone, hi, hgiven⟩ := h.greeting hw
  have hb := h.bytes
  simp only [unsent, hw, List.append_nil, Settings.due, hnone] at hb
  rw [← hg] at hheard
  obtain ⟨hv, hheard', hsize, hrole, hcase⟩ := EngineState.receiveGreeting_spec hheard hl hr
  have htail : t'.greeting.tailBytes = (Greeting.new s).tailBytes := by
    rw [← h.tail, ← hg, Greeting.tailBytes, hrole, Greeting.tailBytes]
  refine ⟨hv, htail, hheard', ?_⟩
  rcases hcase with ⟨hlooks, ht'⟩ | ⟨hlooks, hlooks', ht'⟩
  · rw [hlooks, ← hb, ht', ho]
  · have htail' : t.greeting.tailBytes = (Greeting.new s).tailBytes := by rw [hg, h.tail]
    rw [hlooks', if_neg Bool.false_ne_true, List.append_nil] at hb
    rw [hlooks, if_pos rfl, ← hb, ht', EngineState.wakeOutput_eq, htail']
    change _ ++ (t.outbox.chunks ++ [_]).flatten = _
    rw [ho, List.flatten_append, List.flatten_singleton, List.append_assoc]

variable {greeting : Greeting} {chunks : List Bytes} {input : Bytes}

theorem Sound.greet (h : v.Sound s) (hw : v.writer = none)
    (hn : Greeting.classify (v.heard ++ input) = none)
    (htail : greeting.tailBytes = (Greeting.new s).tailBytes)
    (hheard : greeting.Heard (v.heard ++ input))
    (hb : v.sent ++ chunks.flatten = (Greeting.new s).signature ++
      if Greeting.looksVersioned (v.heard ++ input) then (Greeting.new s).tailBytes else []) :
    Sending.Sound s { v with greeting, chunks, heard := v.heard ++ input } where
  settings := h.settings
  writeRevision := h.writeRevision
  tail := htail
  bytes := by
    simp only [unsent, hw, List.append_nil, Settings.due, hn]
    exact hb
  greeting hw' := ⟨hheard, hn, (h.greeting hw).2.2⟩
  writer writer hw' := by cases hw.symm.trans hw'

theorem Sound.versioned (h : v.Sound s) (hw : v.writer = none) {revision : Revision} {role : UInt8}
    (hn : Greeting.classify (v.heard ++ input) = some (.versioned revision role))
    (htail : greeting.tailBytes = (Greeting.new s).tailBytes)
    (hb : v.sent ++ chunks.flatten = (Greeting.new s).signature ++
      if Greeting.looksVersioned (v.heard ++ input) then (Greeting.new s).tailBytes else []) :
    Sending.Sound s { v with
      greeting, chunks, heard := v.heard ++ input, writer := some (.new revision) } where
  settings := h.settings
  writeRevision := h.writeRevision
  tail := htail
  bytes := by
    obtain ⟨-, -, hi, hg⟩ := h.greeting hw
    rw [(Greeting.looksVersioned_of_versioned hn).1, if_pos rfl] at hb
    simp only [unsent, Settings.due, hn, hi, hg]
    simpa [FrameWriter.left, FrameWriter.new] using hb
  greeting := nofun
  writer writer hw' := by
    obtain ⟨-, -, hi, hg⟩ := h.greeting hw
    cases hw'
    exact ⟨_, hn, rfl, fun _ => ⟨rfl, hg, revision, role, rfl⟩⟩

/-- A peer without a version is sent our identity at once, since it took our greeting for its
header. -/
theorem Sound.versionless (h : v.Sound s) (hw : v.writer = none) {prebuffered : Bytes}
    (hn : Greeting.classify (v.heard ++ input) = some (.versionless prebuffered))
    (htail : greeting.tailBytes = (Greeting.new s).tailBytes)
    (hb : v.sent ++ chunks.flatten = (Greeting.new s).signature ++
      if Greeting.looksVersioned (v.heard ++ input) then (Greeting.new s).tailBytes else []) :
    Sending.Sound s { v with
      greeting, chunks, heard := v.heard ++ input, writer := some ⟨.v1, [], s.identity⟩
      identitySent := true } where
  settings := h.settings
  writeRevision := h.writeRevision
  tail := htail
  bytes := by
    obtain ⟨-, -, -, hg⟩ := h.greeting hw
    rw [Greeting.looksVersioned_of_versionless hn, if_neg Bool.false_ne_true, List.append_nil] at hb
    simp only [unsent, Settings.due, hn, hg, FrameWriter.left, List.nil_append]
    rw [← hb]
    simp
  greeting := nofun
  writer writer hw' := by
    cases hw'
    exact ⟨_, hn, rfl, (absurd ·.symm Bool.false_ne_true)⟩

theorem Sound.balanced {σ : Type} (h : v.Sound s) {writer : FrameWriter}
    (hw : v.writer = some writer) {session : Ledger σ} (hg : v.given = session.given) :
    ∃ n lead opening, Greeting.classify v.heard = some n ∧
      Supply.Balanced lead opening s.identity n.revision (v.sent ++ v.chunks.flatten)
        ⟨writer, v.identitySent, session⟩ ∧
      ∀ given : List Part, lead ++ (opening ++ given.flatMap (·.frame n.revision)) =
        (Greeting.new s).signature ++ s.due v.heard true given := by
  obtain ⟨n, hn, hrev, hfresh⟩ := h.writer writer hw
  have hb := h.bytes
  simp only [unsent, hw, hg, ← List.append_assoc] at hb
  rw [hg] at hfresh
  cases n with
  | versionless prebuffered =>
    -- our identity was begun when the greeting was settled
    have hi : v.identitySent = true := by
      apply eq_true_of_ne_false
      intro hi
      obtain ⟨-, -, revision, role, hv⟩ := hfresh hi
      cases hv
    refine ⟨_, (Greeting.new s).signature, s.identity, hn, ⟨hrev, ?_, ?_⟩, ?_⟩
    · intro hi'
      cases hi.symm.trans hi'
    · rw [hi, if_pos rfl, hb, Settings.due, hn]
      rfl
    · intro given
      rw [Settings.due, hn]
      rfl
  | versioned revision role =>
    refine ⟨_, (Greeting.new s).signature ++ (Greeting.new s).tailBytes,
      (Part.ofBytes s.identity).frame revision, hn, ⟨hrev, ?_, ?_⟩, ?_⟩
    · intro hi
      obtain ⟨hl, hgiven, -⟩ := hfresh hi
      exact ⟨hl, hgiven, rfl⟩
    · rw [hb, Settings.due, hn, List.append_assoc]
      rfl
    · intro given
      rw [Settings.due, hn, List.append_assoc]
      rfl

theorem Sound.fill {σ : Type} [Session σ] (h : v.Sound s) {writer : FrameWriter}
    (hw : v.writer = some writer) {session : Ledger σ} (hg : v.given = session.given)
    {room : Nat} (hroom : room ≠ 0) {chunks : List Bytes} {supply : Supply (Ledger σ)}
    (hgather : Supply.gather s.identity room ⟨writer, v.identitySent, session⟩ = (chunks, supply)) :
    Sending.Sound s { v with
        writer := some supply.writer
        identitySent := supply.identitySent
        chunks := v.chunks ++ Outbox.joinSmall chunks
        given := supply.session.given } ∧ supply.identitySent = true := by
  obtain ⟨n, lead, opening, hn, hbal, hdue⟩ := h.balanced hw hg
  have hnone : v.sent ++ v.chunks.flatten = v.sent ++ v.chunks.flatten ++
      ([] : List Bytes).reverse.flatten := (List.append_nil _).symm
  rw [hnone] at hbal
  have hres := hbal.gatherFrom [] room
  rw [show Supply.gatherFrom s.identity [] room _ = _ from hgather] at hres
  have hbal' : supply.Balanced lead opening s.identity n.revision
    (v.sent ++ v.chunks.flatten ++ chunks.flatten) := hres.1
  have hi : supply.identitySent = true := hres.2 (.inr hroom)
  have hb := hbal'.bytes
  rw [hi, if_pos rfl, hdue] at hb
  refine ⟨⟨h.settings, h.writeRevision, h.tail, ?_, nofun, ?_⟩, hi⟩
  · simp only [unsent, hi, List.flatten_append, Outbox.flatten_joinSmall]
    rw [← hb]
    simp only [List.append_assoc]
  · intro writer' hw'
    cases hw'
    exact ⟨n, hn, hbal'.speaks, fun hi' => by cases hi.symm.trans hi'⟩

end Sending

namespace Engine

variable {τ σ : Type} {s : Settings} {e e' : Engine (Tap τ) (Ledger σ)}

/-- Everything that an engine has taken up is sent or waits to be, in the order that is due. -/
def Sends (s : Settings) (e : Engine (Tap τ) (Ledger σ)) : Prop := e.sending.Sound s

theorem sends_begin (endpoint : String) (monitored : Bool) (t : τ) (u : σ) :
    ((untold s endpoint monitored t u).update (·.begin)).Sends s where
  settings := rfl
  writeRevision := rfl
  tail := rfl
  bytes := by
    change [] ++ (([] ++ [(Greeting.new s).signature]).flatten ++ []) =
      (Greeting.new s).signature ++ []
    simp
  greeting _ := ⟨Greeting.heard_new s, rfl, rfl, rfl⟩
  writer _ := nofun

theorem Sends.congr (h : e.Sends s) (he : e'.sending = e.sending) : e'.Sends s := by
  rw [Sends, he]
  exact h

theorem writer_of_codec_none (hc : e.codec = none) : e.sending.writer = none := by
  rw [sending, hc]
  rfl

theorem writer_of_codec {codec : Codec} (hc : e.codec = some codec) :
    e.sending.writer = some codec.writer := by
  rw [sending, hc]
  rfl

variable [ByteStream τ]

theorem sending_of_read_failed {stream : Tap τ} {room : Nat} {fault : IoFault}
    (h : ByteStream.read e.stream room = (.failed fault, stream)) :
    Engine.sending { e with stream } = e.sending := by
  obtain ⟨hheard, hsent⟩ := Tap.of_read_failed h
  simp only [sending, hheard, hsent]

theorem Sends.greeted {bytes : Bytes} {stream : Tap τ} {t : EngineState} (h : e.Sends s)
    (hc : e.codec = none) (hread : ByteStream.read e.stream e.greeting.room = (.data bytes, stream))
    (hr : e.receiveGreeting (bytes.take e.greeting.room) = (t, none)) :
    Sends s ⟨t, stream, e.session⟩ := by
  have hw := writer_of_codec_none hc
  obtain ⟨hheard, hsent⟩ := Tap.of_read_data hread
  obtain ⟨hv, htail, hh, hb⟩ := Sending.Sound.answer h hw rfl rfl (List.length_take_le ..) hr
  have hk := Sending.Sound.greet h hw hv.symm htail hh hb
  have he : Engine.sending ⟨t, stream, e.session⟩ =
      { e.sending with
        greeting := t.greeting
        chunks := t.outbox.chunks
        heard := e.sending.heard ++ bytes.take e.greeting.room } := by
    rw [sending, EngineState.receiveGreeting_eq hr, hheard, hsent]
    rfl
  rw [Sends, he]
  exact hk

theorem Sends.settled {bytes : Bytes} {stream : Tap τ} {t t' : EngineState} {n : Negotiated}
    (h : e.Sends s) (hc : e.codec = none)
    (hread : ByteStream.read e.stream e.greeting.room = (.data bytes, stream))
    (hr : e.receiveGreeting (bytes.take e.greeting.room) = (t, some n))
    (hs : t.settle n = .ok t') : Sends s ⟨t', stream, e.session⟩ := by
  have hw := writer_of_codec_none hc
  obtain ⟨hheard, hsent⟩ := Tap.of_read_data hread
  obtain ⟨hv, htail, hh, hb⟩ := Sending.Sound.answer h hw rfl rfl (List.length_take_le ..) hr
  have ht := EngineState.receiveGreeting_eq hr
  have hrev : t.writeRevision = none := by
    rw [ht]
    exact h.writeRevision
  cases n with
  | versionless prebuffered =>
    obtain ⟨events, hs'⟩ := EngineState.settle_versionless hrev prebuffered
    cases hs.symm.trans hs'
    have hk := Sending.Sound.versionless h hw hv.symm htail hb
    have hid : t.settings.identity = s.identity := by
      rw [ht, show e.settings = s from h.settings]
    rw [Sends, sending, hheard, hsent, hid, ht]
    exact hk
  | versioned revision role =>
    obtain ⟨events, hs'⟩ := EngineState.settle_versioned hrev revision role
    cases hs.symm.trans hs'
    have hk := Sending.Sound.versioned h hw hv.symm htail hb
    rw [Sends, sending, hheard, hsent, ht]
    exact hk

omit [ByteStream τ] in
theorem Sends.fill [Session σ] {codec : Codec} (h : e.Sends s) (hc : e.codec = some codec) :
    (e.fill codec).Sends s ∧ (e.fill codec).identitySent = true := by
  have hw := writer_of_codec hc
  have hroom : max e.settings.outputBatch 1 ≠ 0 :=
    Nat.ne_of_gt (Nat.lt_of_lt_of_le Nat.zero_lt_one (Nat.le_max_right ..))
  have hid : s.identity = e.settings.identity := by rw [← show e.settings = s from h.settings]
  cases hg : Supply.gather s.identity (max e.settings.outputBatch 1)
      ⟨codec.writer, e.identitySent, e.session⟩ with
  | mk chunks supply =>
    have hk := Sending.Sound.fill h hw rfl hroom hg
    rw [hid] at hg
    rw [Sends, sending]
    simp only [Engine.fill, hg]
    exact hk

theorem Sends.wrote {n : Nat} {stream : Tap τ} (h : e.Sends s)
    (hwrite : ByteStream.write e.stream e.outbox.slices = (.accepted n, stream)) :
    Engine.Sends s { e with stream, outbox := e.outbox.consume n } := by
  obtain ⟨hle, hsent, hheard⟩ := Tap.of_write_accepted hwrite
  rw [Outbox.take_slices _ hle] at hsent
  rw [Sends, sending, hsent, hheard]
  exact Sending.Sound.send h n

theorem sending_of_write_failed {stream : Tap τ} {fault : IoFault} {slices : List Bytes}
    (h : ByteStream.write e.stream slices = (.failed fault, stream)) :
    Engine.sending { e with stream } = e.sending := by
  obtain ⟨hheard, hsent⟩ := Tap.of_write_failed h
  simp only [sending, hheard, hsent]

omit [ByteStream τ] in
theorem sending_update_restOutput : (e.update (·.restOutput)).sending = e.sending := by
  rw [update, restOutput_eq]
  rfl

variable [Session σ] {u : Prop}

theorem Sends.step (h : e.Sends s) (hs : Step u e e') : e'.Sends s := by
  cases hs with
  | waited hc hread ht => exact h.congr (sending_of_read_failed hread)
  | greeted hc hread hr => exact h.greeted hc hread hr
  | settled hc hread hr hs => exact h.settled hc hread hr hs
  | stalled hc hp ho hread ht =>
    obtain ⟨hheard, hsent⟩ := Tap.of_read_failed hread
    exact h.congr (by simp only [sending, hheard, hsent, hc, Option.map_some])
  | @refilled codec room reader bytes stream hc hp ho hread =>
    obtain ⟨hheard, hsent⟩ := Tap.of_read_data hread
    have hw := writer_of_codec hc
    have hk := Sending.Sound.hear h hw (bytes.take room)
    simp only [sending, hc, Option.map_some] at hk
    simp only [Sends, sending, hheard, hsent, Option.map_some]
    exact hk
  | decoded hc hr => exact h.congr (by simp only [sending, hc, Option.map_some])
  | exhausted hc hr => exact h.congr (by simp only [sending, hc, Option.map_some])
  | pushed hh hp => exact h.congr (by simp only [sending, (Ledger.of_push_accepted hp).2])
  | refused hh hp =>
    exact h.congr (by simp only [sending, (Ledger.of_push_refused hp nofun).2])
  | congested hh => exact h.congr rfl
  | resumed hh => exact h.congr rfl
  | flushed => exact h.congr rfl
  | woken => exact h.congr rfl
  | idled hc ho => exact h.congr rfl
  | filled hc ho hs => exact (h.fill hc).1
  | drained hc ho hs => exact (h.fill hc).1.congr rfl
  | wrote ho hw => exact (h.wrote hw).congr sending_update_restOutput
  | blocked hw ht =>
    exact h.congr (sending_update_restOutput.trans (sending_of_write_failed hw))

omit [ByteStream τ] [Session σ] in
theorem Sends.bytes (h : e.Sends s) : e.stream.sent ++ e.unsent =
    (Greeting.new s).signature ++ s.due e.stream.heard e.identitySent e.session.given := by
  have hb := Sending.Sound.bytes h
  cases hc : e.codec with
  | none =>
    rw [Sending.unsent, writer_of_codec_none hc] at hb
    rw [unsent, hc]
    exact hb
  | some codec =>
    rw [Sending.unsent, writer_of_codec hc] at hb
    rw [unsent, hc]
    exact hb

omit [ByteStream τ] [Session σ] in
theorem Sends.given_eq_nil (h : e.Sends s) (hi : e.identitySent = false) :
    e.session.given = [] := by
  cases hc : e.codec with
  | none => exact (h.greeting (writer_of_codec_none hc)).2.2.2
  | some codec =>
    obtain ⟨n, -, -, hfresh⟩ := h.writer codec.writer (writer_of_codec hc)
    exact (hfresh hi).2.1

theorem Reached.sends (h : Reached s e) (hl : e.isLive = true) : e.Sends s :=
  (h.live_induction sends_begin (fun _ _ h hs => h.step hs) (fun _ _ _ h => h.congr rfl) hl).1

end Engine

namespace Engine

variable {τ σ : Type} [ByteStream τ] [Session σ] {e e' e'' : Engine (Tap τ) σ}

/-- What reading does not undo. -/
structure Listens (e e' : Engine (Tap τ) σ) : Prop where
  identitySent : e'.identitySent = e.identitySent
  heard : e.stream.heard <+: e'.stream.heard

omit [ByteStream τ] [Session σ] in
theorem Listens.refl (e : Engine (Tap τ) σ) : Listens e e := ⟨rfl, List.prefix_rfl⟩

omit [ByteStream τ] [Session σ] in
theorem Listens.trans (h : Listens e e') (h' : Listens e' e'') : Listens e e'' :=
  ⟨h'.identitySent.trans h.identitySent, h.heard.trans h'.heard⟩

theorem listens_tearDown (e : Engine (Tap τ) σ) (reason : Teardown) :
    Listens e (e.tearDown reason) := by
  refine ⟨?_, List.prefix_rfl⟩
  change (e.report (.disconnected e.endpoint reason.message)).identitySent = e.identitySent
  rw [EngineState.report_eq]

omit [ByteStream τ] in
theorem listens_decode (e : Engine (Tap τ) σ) (codec : Codec) :
    Listens e (e.decode codec).2 := by
  induction hn : codec.reader.load using Nat.strongRecOn generalizing e codec with
  | ind n ih =>
    rw [decode]
    split
    · exact ⟨rfl, List.prefix_rfl⟩
    · exact ⟨rfl, List.prefix_rfl⟩
    · next reader p rest asked hr =>
      have hpassed : Listens e (passHeld { e with
          held := e.held ++ e.expand p, expected := .payload }).2 := ⟨rfl, List.prefix_rfl⟩
      simp only
      split
      · next e₁ he =>
        rw [he] at hpassed
        exact hpassed.trans (ih _ (hn ▸ FrameReader.load_read hr) e₁ { codec with reader } rfl)
      · next e₁ he =>
        rw [he] at hpassed
        exact ⟨hpassed.identitySent, hpassed.heard⟩
      · next e₁ he =>
        rw [he] at hpassed
        exact ⟨hpassed.identitySent, hpassed.heard⟩

omit [Session σ] in
theorem listens_refill (e : Engine (Tap τ) σ) (codec : Codec) :
    Listens e (e.refill codec).2.2 := by
  rw [refill]
  split
  · exact .refl e
  · simp only
    split
    · next hr => exact ⟨rfl, (Tap.frame_of_read hr).2⟩
    · next hr =>
      split <;> exact ⟨rfl, (Tap.frame_of_read hr).2⟩

theorem listens_receive (e : Engine (Tap τ) σ) (codec : Codec) : Listens e (e.receive codec) := by
  have hrefill := e.listens_refill codec
  rw [receive]
  cases he : e.refill codec with
  | mk progress rest =>
    obtain ⟨codec₁, e₁⟩ := rest
    rw [he] at hrefill
    change Listens e e₁ at hrefill
    have hkept : Listens e { e₁ with codec := some codec₁ } :=
      ⟨hrefill.identitySent, hrefill.heard⟩
    cases progress with
    | fail reason => exact hkept.trans (listens_tearDown _ reason)
    | pause => exact ⟨hkept.identitySent, hkept.heard⟩
    | proceed =>
      have hdecode := hrefill.trans (e₁.listens_decode codec₁)
      cases he₂ : e₁.decode codec₁ with
      | mk progress e₂ =>
        rw [he₂] at hdecode
        change Listens e e₂ at hdecode
        simp only [he₂]
        cases progress with
        | fail reason => exact hdecode.trans (e₂.listens_tearDown reason)
        | pause => exact ⟨hdecode.identitySent, hdecode.heard⟩
        | proceed => exact ⟨hdecode.identitySent, hdecode.heard⟩

theorem listens_readParts (e : Engine (Tap τ) σ) : Listens e e.readParts := by
  rw [readParts]
  split
  · exact .refl e
  · split
    · exact .refl e
    · exact e.listens_receive _

omit [Session σ] in
theorem identitySent_greet (hh : e.greeting.Heard e.stream.heard) :
    e.stream.heard <+: e.greet.2.stream.heard ∧
      (e.greet.2.identitySent = e.identitySent ∨ ∃ prebuffered,
        Greeting.classify e.greet.2.stream.heard = some (.versionless prebuffered)) := by
  induction hn : e.greeting.room using Nat.strongRecOn generalizing e with
  | ind n ih =>
    rw [greet]
    split
    · next hr => exact ⟨(Tap.frame_of_read hr).2, .inl rfl⟩
    · next bytes stream hr =>
      obtain ⟨hheard, -⟩ := Tap.of_read_data hr
      have hgrown : e.stream.heard <+: stream.heard := (Tap.frame_of_read hr).2
      simp only
      split
      · exact ⟨hgrown, .inl rfl⟩
      · next hi =>
        have hspec {t : EngineState} {v : Option Negotiated}
            (hg : e.receiveGreeting (bytes.take e.greeting.room) = (t, v)) :
            v = Greeting.classify stream.heard ∧ t.greeting.Heard stream.heard ∧
              t.identitySent = e.identitySent := by
          obtain ⟨hv, hh', -⟩ := EngineState.receiveGreeting_spec hh (List.length_take_le ..) hg
          rw [hheard, EngineState.receiveGreeting_eq hg]
          exact ⟨hv, hh', rfl⟩
        split
        · next t hg =>
          obtain ⟨-, hh', hsent⟩ := hspec hg
          have hroom := EngineState.room_receiveGreeting_lt hg hi (List.length_take_le _ _)
          obtain ⟨hgrown', hcase⟩ := ih _ (hn ▸ hroom) (e := ⟨t, stream, e.session⟩) hh' rfl
          rw [hsent] at hcase
          exact ⟨hgrown.trans hgrown', hcase⟩
        · next t n hg =>
          obtain ⟨hv, -, hsent⟩ := hspec hg
          split
          · exact ⟨hgrown, .inl hsent⟩
          · next t' hs =>
            refine ⟨hgrown, ?_⟩
            cases n with
            | versionless prebuffered => exact .inr ⟨prebuffered, hv.symm⟩
            | versioned revision role =>
              cases hs
              rw [EngineState.establish_eq]
              exact .inl hsent

variable {revision : Revision} {role : UInt8}

theorem identitySent_onReadable (hh : e.codec = none → e.greeting.Heard e.stream.heard)
    (hv : Greeting.classify e.onReadable.stream.heard = some (.versioned revision role)) :
    e.onReadable.identitySent = e.identitySent := by
  cases hl : e.isLive with
  | false =>
    rw [onReadable, hl]
    rfl
  | true =>
    cases hc : e.codec with
    | some codec =>
      rw [onReadable_of_codec hl hc]
      exact e.listens_readParts.identitySent
    | none =>
      obtain ⟨-, hcase⟩ := identitySent_greet (hh hc)
      -- what the peer says after the greeting cannot make it versioned any more
      have hgreet (hlistens : Listens e.greet.2 e.onReadable) :
          e.onReadable.identitySent = e.identitySent := by
        rcases hcase with hsent | ⟨prebuffered, hn⟩
        · exact hlistens.identitySent.trans hsent
        · obtain ⟨more, hmore⟩ := hlistens.heard
          rw [← hmore, Greeting.classify_append hn] at hv
          cases hv
      apply hgreet
      rw [onReadable, hl, if_neg Bool.noConfusion, if_pos (by rw [EngineState.isHandshaking, hc]; rfl)]
      split
      · next reason e₁ he =>
        rw [he]
        exact e₁.listens_tearDown reason
      · next e₁ he =>
        rw [he]
        exact .refl e₁
      · next e₁ he =>
        rw [he]
        exact e₁.listens_readParts

theorem identitySent_resumeInput (hh : e.codec = none → e.greeting.Heard e.stream.heard)
    (hv : Greeting.classify e.resumeInput.stream.heard = some (.versioned revision role)) :
    e.resumeInput.identitySent = e.identitySent := by
  rw [resumeInput] at hv ⊢
  by_cases hl : (!e.isLive || !e.congested) = true
  · rw [if_pos hl]
  · rw [if_neg hl] at hv ⊢
    have hframe : e.passHeld.2.identitySent = e.identitySent ∧ e.passHeld.2.codec = e.codec ∧
      e.passHeld.2.greeting = e.greeting ∧ e.passHeld.2.stream = e.stream := ⟨rfl, rfl, rfl, rfl⟩
    cases he : e.passHeld with
    | mk progress e₁ =>
      rw [he] at hframe
      obtain ⟨hsent, hcodec, hgreeting, hstream⟩ := hframe
      simp only [he] at hv ⊢
      cases progress with
      | fail reason => exact (e₁.listens_tearDown reason).identitySent.trans hsent
      | pause => exact hsent
      | proceed =>
        refine (identitySent_onReadable ?_ hv).trans hsent
        intro hc
        change e₁.greeting.Heard e₁.stream.heard
        rw [hgreeting, hstream]
        exact hh (hcodec.symm.trans hc)

theorem identitySent_write (e : Engine (Tap τ) σ) :
    e.write.identitySent = e.identitySent := by
  rw [write]
  split
  · simp only
    split
    · rw [update, restOutput_eq]
    · exact (listens_tearDown _ _).identitySent
  · rw [update, restOutput_eq]

end Engine

namespace Engine

variable {τ σ : Type} {s : Settings} {e e' : Engine (Tap τ) (Ledger σ)} [ByteStream τ] [Session σ]

/-- Whether a call gathers a batch. -/
def gathers {τ σ : Type} (e : Engine τ σ) : Signal → Bool
  | .writable | .resumeOutput => e.isLive && (e.codec.isSome && e.outbox.size == 0)
  | .start | .readable | .resumeInput => false

theorem Sends.identitySent_onWritable (h : e.isLive = true → e.Sends s) :
    e.onWritable.identitySent = (e.identitySent || e.gathers .writable) := by
  rw [onWritable, gathers]
  cases hl : e.isLive with
  | false => exact (Bool.or_false _).symm
  | true =>
    rw [if_neg Bool.noConfusion, Bool.true_and]
    by_cases ho : e.outbox.size = 0
    · rw [if_neg (not_not_intro ho), ho]
      cases hc : e.codec with
      | none => exact (Bool.or_false _).symm
      | some codec =>
        have hfill := ((h hl).fill hc).2
        simp only
        split
        · exact hfill.trans (Bool.or_true _).symm
        · exact ((e.fill codec).identitySent_write.trans hfill).trans (Bool.or_true _).symm
    · rw [if_pos ho, beq_false_of_ne ho, Bool.and_false, Bool.or_false]
      exact e.identitySent_write

/-- A versioned peer is sent our identity from the first batch on that is gathered after the
greeting, and not before. -/
theorem Reached.identitySent_handle (h : Reached s e) {g : Signal}
    (hg : g = .start → e.stage = .fresh) {revision : Revision} {role : UInt8}
    (hv : Greeting.classify (e.handle g).stream.heard = some (.versioned revision role)) :
    (e.handle g).identitySent = (e.identitySent || e.gathers g) := by
  have hk := h.known (I := fun e => e.Sends s) sends_begin (fun _ _ h hs => h.step hs)
    fun _ _ _ h => h.congr rfl
  cases hl : e.isLive with
  | false =>
    by_cases hs : g = .start
    · subst hs
      obtain ⟨endpoint, monitored, t, u, rfl⟩ := hk.1 (hg rfl)
      exact identitySent_onReadable (e := (untold s endpoint monitored t u).update (·.begin))
        (fun _ => Greeting.heard_new s) hv
    · have hnone : e.gathers g = false := by
        cases g <;> rw [gathers] <;> rw [hl] <;> rfl
      rw [handle_of_not_live hl hs, hnone, Bool.or_false]
  | true =>
    have hsends := (hk.2 hl).1
    have hh (hc : e.codec = none) : e.greeting.Heard e.stream.heard :=
      (hsends.greeting (writer_of_codec_none hc)).1
    cases g with
    | start => cases (EngineState.isLive_of_fresh (hg rfl)).symm.trans hl
    | readable => exact (identitySent_onReadable hh hv).trans (Bool.or_false _).symm
    | resumeInput => exact (identitySent_resumeInput hh hv).trans (Bool.or_false _).symm
    | writable => exact Sends.identitySent_onWritable fun _ => hsends
    | resumeOutput =>
      rw [handle, resumeOutput, if_pos hl]
      exact Sends.identitySent_onWritable (e := e.update (·.setOut)) fun _ => hsends.congr rfl

/-- Between any two calls, what the stream has taken and what waits to be written are our greeting
and all that is due after it: nothing is lost, repeated or put in another order. Our identity is sent
once and before everything else. A versioned peer is sent it from the first batch on that is gathered
after the greeting. -/
theorem sent_append_unsent (h : Reached s e) (hl : e.isLive = true) :
    e.stream.sent ++ e.unsent =
        (Greeting.new s).signature ++ s.due e.stream.heard e.identitySent e.session.given ∧
      (e.identitySent = false → e.session.given = []) ∧
      (∀ codec, e.codec = some codec → (e.fill codec).identitySent = true) ∧
      (e.codec = none → e.identitySent = false) ∧
      ∀ e₀ g, Reached s e₀ → (g = .start → e₀.stage = .fresh) → e₀.handle g = e →
        ∀ revision role, Greeting.classify e.stream.heard = some (.versioned revision role) →
          e.identitySent = (e₀.identitySent || e₀.gathers g) := by
  have hk := h.sends hl
  refine ⟨hk.bytes, hk.given_eq_nil, fun codec hc => (hk.fill hc).2, ?_, ?_⟩
  · exact fun hc => (hk.greeting (writer_of_codec_none hc)).2.2.1
  · rintro e₀ g h₀ hg rfl revision role hv
    exact h₀.identitySent_handle hg hv

/-- A peer whose greeting comes in two pieces, and who takes few bytes at a time. -/
def slowPeer : Script :=
  { Script.empty with
    input := [.data [0xff, 0, 0, 0, 0, 0, 0, 0, 1, 0x7f], .failed .wouldBlock, .data [1, 5],
      .data [0, 1, 0x42, 0, 2, 7, 7]]
    plan := [.accepted 4, .failed .wouldBlock, .accepted 8, .accepted 6] }

/-- An application that has one part to send. -/
def oneMessage : LinkSession :=
  ⟨⟨0, .new ⟨0⟩, { LinkEnd.new ⟨1⟩ with inbox := [.ofBytes [1, 2, 3]] }⟩⟩

theorem sent_append_unsent_slowPeer :
    let e := told { role := .dealer, identity := [0x41] } slowPeer oneMessage
      [.writable, .writable, .readable, .writable, .writable]
    e.stream.sent = [0xff, 0, 0, 0, 0, 0, 0, 0, 2, 0x7f, 1, 5, 0, 1, 0x41, 0, 3, 1] ∧
      e.unsent = [2, 3] ∧
      e.stream.sent ++ e.unsent = (Greeting.new { role := .dealer, identity := [0x41] }).signature ++
        Settings.due { role := .dealer, identity := [0x41] } e.stream.heard e.identitySent
          e.session.given :=
  ⟨by decide +kernel, by decide +kernel,
    (sent_append_unsent (reached_told _ slowPeer oneMessage (by decide)) (by decide +kernel)).1⟩

end Engine

end Zmtp
