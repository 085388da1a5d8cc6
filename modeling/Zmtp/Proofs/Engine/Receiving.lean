import Zmtp.Proofs.Engine.Supply
import Zmtp.Stream.Script

namespace Zmtp

open Relation (ReflTransGen)

namespace Negotiated

/-- The bytes of the peer that are frames. -/
def frames (n : Negotiated) (heard : Bytes) : Bytes :=
  match n with
  | .versionless _ => heard
  | .versioned _ _ => heard.drop Greeting.size

/-- A peer without a version that is connected to a publisher does not send its subscription. -/
def lacksSubscription (n : Negotiated) (role : Role) : Bool :=
  match n with
  | .versionless _ => role.isPublisher
  | .versioned _ _ => false

theorem frames_later {n : Negotiated} {heard : Bytes} (h : Greeting.classify heard = some n)
    (more : Bytes) : (n.later more).frames (heard ++ more) = n.frames heard ++ more := by
  cases n with
  | versionless prebuffered => rfl
  | versioned revision role =>
    exact List.drop_append_of_le_length (Greeting.looksVersioned_of_versioned h).2

@[simp] theorem lacksSubscription_later (n : Negotiated) (more : Bytes) (role : Role) :
    (n.later more).lacksSubscription role = n.lacksSubscription role := by
  cases n <;> rfl

end Negotiated

namespace Settings

/-- What the parts of a peer stand for, the first of which is its identity. -/
def interpret (s : Settings) (subscribe : Bool) : List Part → List Part
  | [] => []
  | first :: rest =>
    (if s.deliverIdentity then [first.set .identity] else []) ++
      ((if subscribe then [.ofBytes [0x01]] else []) ++ rest)

/-- The parts that bytes spell, up to the first fault. -/
def decoded (s : Settings) (revision : Revision) (bytes : Bytes) : List Part :=
  ((Scanner.new revision s.bodyLimit).drain bytes).parts

/-- What a session is to be given for the bytes of a peer. -/
def delivered (s : Settings) (heard : Bytes) : List Part :=
  match Greeting.classify heard with
  | none => []
  | some n => s.interpret (n.lacksSubscription s.role) (s.decoded n.revision (n.frames heard))

variable {s : Settings} {subscribe : Bool} {parts : List Part}

theorem interpret_append (h : parts ≠ []) (more : List Part) :
    s.interpret subscribe (parts ++ more) = s.interpret subscribe parts ++ more := by
  cases parts with
  | nil => exact absurd rfl h
  | cons first rest => simp only [List.cons_append, interpret, List.append_assoc]

theorem interpret_prefix {more : List Part} (h : parts <+: more) :
    s.interpret subscribe parts <+: s.interpret subscribe more := by
  obtain ⟨rest, rfl⟩ := h
  by_cases hp : parts = []
  · subst hp
    exact List.nil_prefix
  · rw [interpret_append hp]
    exact List.prefix_append ..

theorem delivered_prefix {heard more : Bytes} (h : heard <+: more) :
    s.delivered heard <+: s.delivered more := by
  obtain ⟨rest, rfl⟩ := h
  rw [delivered, delivered]
  cases hn : Greeting.classify heard with
  | none => exact List.nil_prefix
  | some n =>
    rw [Greeting.classify_append hn]
    simp only [Negotiated.lacksSubscription_later, Negotiated.revision_later,
      Negotiated.frames_later hn]
    exact interpret_prefix (Scanner.parts_drain_prefix _ (List.prefix_append ..))

end Settings

/-- What receiving depends on, the session left out. -/
structure Receiving where
  settings : Settings
  writeRevision : Option Revision
  greeting : Greeting
  reader : Option FrameReader
  expected : Expected
  held : List Part
  congested : Bool
  heard : Bytes
  taken : List Part

namespace Receiving

/-- How much of what was heard is decoded. -/
structure Decodes (s : Settings) (v : Receiving) (r : FrameReader) (n : Negotiated)
    (parts : List Part) : Prop where
  negotiated : Greeting.classify v.heard = some n
  follows : r.Follows (.new n.revision s.bodyLimit) (n.frames v.heard) parts
  roomy : r.Roomy
  clean : r.fault = none
  expected : v.expected =
    if parts = [] then .identity (n.lacksSubscription s.role) else .payload
  passed : v.taken ++ v.held = s.interpret (n.lacksSubscription s.role) parts

/-- What was decoded is passed on or held, in order. -/
structure Sound (s : Settings) (v : Receiving) : Prop where
  settings : v.settings = s
  writeRevision : v.writeRevision = none
  greeting : v.reader = none → v.greeting.Heard v.heard ∧ Greeting.classify v.heard = none ∧
    v.expected = .identity false ∧ v.held = [] ∧ v.taken = []
  reader : ∀ r, v.reader = some r → ∃ n parts, v.Decodes s r n parts
  congested : v.congested = true → v.expected = .payload

variable {s : Settings} {v : Receiving} {r r' : FrameReader} {input : Bytes}

theorem Sound.greet (h : v.Sound s) (hr : v.reader = none) {greeting : Greeting}
    (hg : greeting.Heard (v.heard ++ input)) (hn : Greeting.classify (v.heard ++ input) = none) :
    Receiving.Sound s { v with greeting, heard := v.heard ++ input } where
  settings := h.settings
  writeRevision := h.writeRevision
  greeting _ := ⟨hg, hn, (h.greeting hr).2.2⟩
  reader r hr' := by cases hr.symm.trans hr'
  congested := h.congested

/-- The bytes of a greeting are the first of the frames of a peer without a version, and nothing
else. -/
theorem Sound.settle (h : v.Sound s) (hr : v.reader = none) (greeting : Greeting) {n : Negotiated}
    (hn : Greeting.classify (v.heard ++ input) = some n)
    (hf : r'.Follows (.new n.revision s.bodyLimit) (n.frames (v.heard ++ input)) [])
    (hroom : r'.Roomy) (hclean : r'.fault = none) :
    Receiving.Sound s { v with
      greeting, heard := v.heard ++ input, reader := some r'
      expected := .identity (n.lacksSubscription s.role) } where
  settings := h.settings
  writeRevision := h.writeRevision
  greeting := nofun
  reader r hr' := by
    obtain ⟨-, -, -, hheld, htaken⟩ := h.greeting hr
    cases hr'
    exact ⟨n, [], hn, hf, hroom, hclean, rfl, by simp only [hheld, htaken]; rfl⟩
  congested hc := by
    obtain ⟨-, -, hexp, -⟩ := h.greeting hr
    rw [h.congested hc] at hexp
    cases hexp

theorem Sound.refill (h : v.Sound s) (hr : v.reader = some r) (hroom : r'.Roomy)
    (hclean : r'.fault = r.fault)
    (hf : ∀ s fed parts, r.Follows s fed parts → r'.Follows s (fed ++ input) parts) :
    Receiving.Sound s { v with reader := some r', heard := v.heard ++ input } where
  settings := h.settings
  writeRevision := h.writeRevision
  greeting := nofun
  reader r₁ hr₁ := by
    obtain ⟨n, parts, hd⟩ := h.reader r hr
    cases hr₁
    refine ⟨n.later input, parts, Greeting.classify_append hd.negotiated input, ?_, hroom,
      hclean.trans hd.clean, ?_, ?_⟩
    · rw [Negotiated.revision_later, Negotiated.frames_later hd.negotiated]
      exact hf _ _ _ hd.follows
    · rw [Negotiated.lacksSubscription_later]
      exact hd.expected
    · rw [Negotiated.lacksSubscription_later]
      exact hd.passed
  congested := h.congested

theorem Sound.with_reader (h : v.Sound s) (hr : v.reader = some r) (hroom : r'.Roomy)
    (hclean : r'.fault = r.fault)
    (hf : ∀ s fed parts, r.Follows s fed parts → r'.Follows s fed parts) :
    Receiving.Sound s { v with reader := some r' } := by
  have hf' (s fed parts) (h : r.Follows s fed parts) : r'.Follows s (fed ++ []) parts := by
    rw [List.append_nil]
    exact hf s fed parts h
  have hk := h.refill hr hroom hclean hf'
  simpa only [List.append_nil] using hk

theorem Sound.decode (h : v.Sound s) (hr : v.reader = some r) {p : Part} {rest : Bytes}
    {asked : List Nat} (hread : r.read = ⟨r', .ok (some p), rest, asked⟩) {expansion : List Part}
    (he : expansion = match v.expected with
      | .payload => [p]
      | .identity subscribe => s.interpret subscribe [p]) :
    Receiving.Sound s { v with
      reader := some r', held := v.held ++ expansion, expected := .payload } where
  settings := h.settings
  writeRevision := h.writeRevision
  greeting := nofun
  reader r₁ hr₁ := by
    obtain ⟨n, parts, hd⟩ := h.reader r hr
    cases hr₁
    have hroom := hd.roomy.read
    rw [hread] at hroom
    refine ⟨n, parts ++ [p], hd.negotiated, hd.follows.read_some hread, hroom,
      FrameReader.fault_read hread, ?_, ?_⟩
    · rw [if_neg (by simp)]
    · simp only [← List.append_assoc, hd.passed]
      rw [he, hd.expected]
      by_cases hp : parts = []
      · subst hp
        rfl
      · rw [if_neg hp, Settings.interpret_append hp]
  congested _ := rfl

theorem Sound.push (h : v.Sound s) {p : Part} {ps : List Part} (hh : v.held = p :: ps) :
    Receiving.Sound s { v with held := ps, taken := v.taken ++ [p] } where
  settings := h.settings
  writeRevision := h.writeRevision
  greeting hr := by
    obtain ⟨-, -, -, hheld, -⟩ := h.greeting hr
    rw [hh] at hheld
    cases hheld
  reader r hr := by
    obtain ⟨n, parts, hd⟩ := h.reader r hr
    refine ⟨n, parts, hd.negotiated, hd.follows, hd.roomy, hd.clean, hd.expected, ?_⟩
    rw [← hd.passed, hh, List.append_assoc]
    rfl
  congested := h.congested

theorem Decodes.with_congested {n : Negotiated} {parts : List Part} (h : v.Decodes s r n parts)
    (congested : Bool) : Receiving.Decodes s { v with congested } r n parts :=
  ⟨h.negotiated, h.follows, h.roomy, h.clean, h.expected, h.passed⟩

theorem Sound.congest (h : v.Sound s) (hh : v.held ≠ []) :
    Receiving.Sound s { v with congested := true } where
  settings := h.settings
  writeRevision := h.writeRevision
  greeting := h.greeting
  reader r hr := by
    obtain ⟨n, parts, hd⟩ := h.reader r hr
    exact ⟨n, parts, hd.with_congested true⟩
  congested _ := by
    cases hr : v.reader with
    | none => exact absurd (h.greeting hr).2.2.2.1 hh
    | some r =>
      obtain ⟨n, parts, hd⟩ := h.reader r hr
      have hp : parts ≠ [] := by
        rintro rfl
        exact hh (List.append_eq_nil_iff.1 hd.passed).2
      exact hd.expected.trans (if_neg hp)

theorem Sound.resume (h : v.Sound s) : Receiving.Sound s { v with congested := false } where
  settings := h.settings
  writeRevision := h.writeRevision
  greeting := h.greeting
  reader r hr := by
    obtain ⟨n, parts, hd⟩ := h.reader r hr
    exact ⟨n, parts, hd.with_congested false⟩
  congested := nofun

end Receiving

namespace Engine

variable {τ σ : Type} {s : Settings} {e e' : Engine (Tap τ) (Ledger σ)}

def receiving (e : Engine (Tap τ) (Ledger σ)) : Receiving where
  settings := e.settings
  writeRevision := e.writeRevision
  greeting := e.greeting
  reader := e.codec.map Codec.reader
  expected := e.expected
  held := e.held
  congested := e.congested
  heard := e.stream.heard
  taken := e.session.taken

/-- Everything that an engine has decoded is passed on or held, as it is to be delivered. -/
def Receives (s : Settings) (e : Engine (Tap τ) (Ledger σ)) : Prop := e.receiving.Sound s

theorem receives_begin (endpoint : String) (monitored : Bool) (t : τ) (u : σ) :
    ((untold s endpoint monitored t u).update (·.begin)).Receives s where
  settings := rfl
  writeRevision := rfl
  greeting _ := ⟨Greeting.heard_new s, rfl, rfl, rfl, rfl⟩
  reader _ := nofun
  congested := nofun

theorem Receives.congr (h : e.Receives s) (he : e'.receiving = e.receiving) : e'.Receives s := by
  rw [Receives, he]
  exact h

theorem reader_of_codec_none (hc : e.codec = none) : e.receiving.reader = none := by
  rw [receiving, hc]
  rfl

theorem reader_of_codec {codec : Codec} (hc : e.codec = some codec) :
    e.receiving.reader = some codec.reader := by
  rw [receiving, hc]
  rfl

theorem receiving_update_restOutput : (e.update (·.restOutput)).receiving = e.receiving := by
  rw [update, restOutput_eq]
  rfl

theorem expand_eq (t : EngineState) (p : Part) :
    t.expand p = match t.expected with
      | .payload => [p]
      | .identity subscribe => t.settings.interpret subscribe [p] := by
  rw [EngineState.expand]
  cases t.expected with
  | payload => rfl
  | identity subscribe => simp only [Settings.interpret, List.append_nil]

variable [ByteStream τ]

theorem Receives.greeted {bytes : Bytes} {stream : Tap τ} {t : EngineState} (h : e.Receives s)
    (hc : e.codec = none) (hread : ByteStream.read e.stream e.greeting.room = (.data bytes, stream))
    (hr : e.receiveGreeting (bytes.take e.greeting.room) = (t, none)) :
    Receives s ⟨t, stream, e.session⟩ := by
  have hn := reader_of_codec_none hc
  obtain ⟨hheard, -⟩ := Tap.of_read_data hread
  obtain ⟨hv, hg, -⟩ :=
    EngineState.receiveGreeting_spec (h.greeting hn).1 (List.length_take_le ..) hr
  have hk := Receiving.Sound.greet h hn hg hv.symm
  rw [Receives, receiving, hheard, EngineState.receiveGreeting_eq hr]
  exact hk

theorem Receives.settled {bytes : Bytes} {stream : Tap τ} {t t' : EngineState} {n : Negotiated}
    (h : e.Receives s) (hc : e.codec = none)
    (hread : ByteStream.read e.stream e.greeting.room = (.data bytes, stream))
    (hr : e.receiveGreeting (bytes.take e.greeting.room) = (t, some n))
    (hs : t.settle n = .ok t') : Receives s ⟨t', stream, e.session⟩ := by
  obtain rfl : e.settings = s := h.settings
  have hn := reader_of_codec_none hc
  obtain ⟨hheard, -⟩ := Tap.of_read_data hread
  obtain ⟨hh, -, hexp, -⟩ := h.greeting hn
  obtain ⟨hv, -⟩ := EngineState.receiveGreeting_spec hh (List.length_take_le ..) hr
  have ht := EngineState.receiveGreeting_eq hr
  have hrev : t.writeRevision = none := by
    rw [ht]
    exact h.writeRevision
  cases n with
  | versionless prebuffered =>
    obtain ⟨events, hs'⟩ := EngineState.settle_versionless hrev prebuffered
    cases hs.symm.trans hs'
    have hf := (FrameReader.follows_ofSettings .v1 e.settings).prime rfl prebuffered
    rw [List.nil_append, Greeting.prebuffered_eq hv.symm] at hf
    have hk := Receiving.Sound.settle h hn t.greeting hv.symm hf
      ((FrameReader.roomy_ofSettings .v1 e.settings).prime _) rfl
    rw [Receives, receiving, hheard, Greeting.prebuffered_eq hv.symm, ht]
    exact hk
  | versioned revision role =>
    obtain ⟨events, hs'⟩ := EngineState.settle_versioned hrev revision role
    cases hs.symm.trans hs'
    have hlen : (e.receiving.heard ++ bytes.take e.greeting.room).length ≤ Greeting.size := by
      have hroom : e.greeting.room = _ := Greeting.Heard.room hh
      have hlt := Greeting.length_lt_of_undecided (h.greeting hn).2.1
      have hle := List.length_take_le e.greeting.room bytes
      rw [List.length_append]
      omega
    have hf := FrameReader.follows_ofSettings revision e.settings
    rw [← List.drop_of_length_le hlen] at hf
    have hk := Receiving.Sound.settle h hn t.greeting hv.symm hf
      (FrameReader.roomy_ofSettings revision e.settings) rfl
    have hexp' : t.expected = .identity false := by
      rw [ht]
      exact hexp
    rw [Receives, receiving, hheard, hexp', ht]
    exact hk

omit [ByteStream τ] in
theorem Receives.settle_ne_error (h : e.Receives s) {t : EngineState} {input : Bytes}
    {n : Negotiated} {reason : Teardown} (hr : e.receiveGreeting input = (t, some n)) :
    t.settle n ≠ .error reason := by
  have hw := congrArg EngineState.writeRevision (EngineState.receiveGreeting_eq hr)
  exact EngineState.settle_ne_error (hw.trans h.writeRevision) n reason

omit [ByteStream τ] in
theorem receiving_fill [Session σ] {codec : Codec} (hc : e.codec = some codec) :
    (e.fill codec).receiving = e.receiving := by
  have ht := Supply.session_gatherFrom (P := fun l => l.taken = e.session.taken)
    (fun l hl => (Ledger.taken_pull l).trans hl) e.settings.identity []
    (max e.settings.outputBatch 1) (s := ⟨codec.writer, e.identitySent, e.session⟩) rfl
  simp only [receiving, fill, hc, Option.map_some, Supply.gather, ht]

variable [Session σ] {u : Prop}

theorem Receives.step (h : e.Receives s) (hs : Step u e e') : e'.Receives s := by
  cases hs with
  | waited hc hread ht => exact h.congr (by simp only [receiving, (Tap.of_read_failed hread).1])
  | greeted hc hread hr => exact h.greeted hc hread hr
  | settled hc hread hr hs => exact h.settled hc hread hr hs
  | @stalled codec room reader fault stream hc hp ho hread ht =>
    have hr := reader_of_codec hc
    obtain ⟨n, parts, hd⟩ := h.reader _ hr
    obtain ⟨hscan, hpend, hfault⟩ := FrameReader.offer_frame ho hp
    have hk := Receiving.Sound.with_reader h hr (hd.roomy.offer ho).2 hfault fun s fed parts hf =>
      hf.congr hscan (hpend.trans hp.symm)
    rw [Receives, receiving, (Tap.of_read_failed hread).1]
    exact hk
  | @refilled codec room reader bytes stream hc hp ho hread =>
    have hr := reader_of_codec hc
    obtain ⟨n, parts, hd⟩ := h.reader _ hr
    have hroom := ((hd.roomy.offer ho).2.deposit (bytes.take room)).filled (bytes.take room).length
    have hclean := (FrameReader.offer_cases ho (List.length_take_le room bytes)).1
    have hk := Receiving.Sound.refill h hr hroom hclean fun s fed parts hf =>
      hf.filled hp ho (List.length_take_le ..)
    rw [Receives, receiving, (Tap.of_read_data hread).1]
    exact hk
  | decoded hc hr =>
    apply Receiving.Sound.decode h (reader_of_codec hc) hr
    rw [← show e.settings = s from h.settings]
    exact expand_eq ..
  | exhausted hc hr =>
    have hreader := reader_of_codec hc
    obtain ⟨n, parts, hd⟩ := h.reader _ hreader
    have hroom := hd.roomy.read
    rw [hr] at hroom
    have hclean := (FrameReader.fault_read hr).trans hd.clean.symm
    exact Receiving.Sound.with_reader h hreader hroom hclean fun s fed parts hf => hf.read_none hr
  | pushed hh hp =>
    have hk := Receiving.Sound.push h hh
    rw [Receives, receiving, (Ledger.of_push_accepted hp).1]
    exact hk
  | refused hh hp =>
    exact h.congr (by simp only [receiving, (Ledger.of_push_refused hp nofun).1])
  | congested hh => exact Receiving.Sound.congest h hh
  | resumed hh => exact Receiving.Sound.resume h
  | flushed => exact h.congr rfl
  | woken => exact h.congr rfl
  | idled hc ho => exact h.congr rfl
  | filled hc ho hs => exact h.congr (receiving_fill hc)
  | drained hc ho hs => exact h.congr (receiving_fill hc)
  | wrote ho hw =>
    refine h.congr (receiving_update_restOutput.trans ?_)
    simp only [receiving, (Tap.of_write_accepted hw).2.2]
  | blocked hw ht =>
    refine h.congr (receiving_update_restOutput.trans ?_)
    simp only [receiving, (Tap.of_write_failed hw).1]

omit [ByteStream τ] [Session σ] in
theorem Receives.delivered {codec : Codec} (h : e.Receives s) (hc : e.codec = some codec) :
    ∃ n parts, e.receiving.Decodes s codec.reader n parts ∧
      e.session.taken ++ e.held = s.interpret (n.lacksSubscription s.role) parts ∧
      s.delivered e.stream.heard =
        s.interpret (n.lacksSubscription s.role) (parts ++ codec.reader.left) := by
  obtain ⟨n, parts, hd⟩ := h.reader _ (reader_of_codec hc)
  have hn : Greeting.classify e.stream.heard = some n := hd.negotiated
  refine ⟨n, parts, hd, hd.passed, ?_⟩
  rw [Settings.delivered, hn]
  exact congrArg (s.interpret (n.lacksSubscription s.role)) hd.follows.left

omit [ByteStream τ] [Session σ] in
theorem Receives.taken_prefix (h : e.Receives s) :
    e.session.taken <+: s.delivered e.stream.heard := by
  cases hc : e.codec with
  | none =>
    obtain ⟨-, -, -, -, htaken⟩ := h.greeting (reader_of_codec_none hc)
    rw [show e.session.taken = [] from htaken]
    exact List.nil_prefix
  | some codec =>
    obtain ⟨n, parts, -, hpassed, hdelivered⟩ := h.delivered hc
    rw [hdelivered]
    refine List.IsPrefix.trans ?_ (Settings.interpret_prefix (List.prefix_append ..))
    rw [← hpassed]
    exact List.prefix_append ..

theorem Reached.receives (h : Reached s e) (hl : e.isLive = true) : e.Receives s ∧ e.AtRest :=
  h.live_induction receives_begin (fun _ _ h hs => h.step hs) (fun _ _ _ h => h.congr rfl) hl

/-- The parts that are complete in what was read and have not been decoded. -/
def undecoded (e : Engine (Tap τ) (Ledger σ)) : List Part :=
  match e.codec with
  | none => []
  | some codec => codec.reader.left

omit [ByteStream τ] [Session σ] in
theorem AtRest.nothing_left (h : e.AtRest) (hn : e.congested = false) :
    e.held = [] ∧ e.undecoded = [] := by
  refine ⟨h.held hn, ?_⟩
  rw [undecoded]
  cases hc : e.codec with
  | none => rfl
  | some codec => exact h.left hc hn

omit [ByteStream τ] [Session σ] in
theorem Receives.complete (h : e.Receives s) (ha : e.AtRest) :
    e.session.taken ++ (e.held ++ e.undecoded) = s.delivered e.stream.heard := by
  cases hc : e.codec with
  | none =>
    obtain ⟨-, hnone, -, hheld, htaken⟩ := h.greeting (reader_of_codec_none hc)
    rw [show e.held = [] from hheld, show e.session.taken = [] from htaken, undecoded, hc,
      Settings.delivered, show Greeting.classify e.stream.heard = none from hnone]
    rfl
  | some codec =>
    obtain ⟨n, parts, hd, hpassed, hdelivered⟩ := h.delivered hc
    have hleft : e.undecoded = codec.reader.left := by rw [undecoded, hc]
    rw [hdelivered, ← List.append_assoc, hpassed, hleft]
    by_cases hp : parts = []
    · have hn : e.congested = false := by
        apply eq_false_of_ne_true
        intro hcong
        have hexp : e.receiving.expected = .payload := h.congested hcong
        rw [hd.expected, if_pos hp] at hexp
        cases hexp
      rw [← hleft, (ha.nothing_left hn).2, List.append_nil, List.append_nil]
    · exact (Settings.interpret_append hp _).symm

/-- Between any two calls, the parts that the session has accepted, those that are held and those
that are not decoded yet are the ones to be delivered for the bytes of the peer: nothing is lost,
repeated or put in another order. Only while reading rests is anything not passed on. -/
theorem taken_append_held (h : Reached s e) (hl : e.isLive = true) :
    e.session.taken ++ (e.held ++ e.undecoded) = s.delivered e.stream.heard ∧
      (e.congested = false → e.held = [] ∧ e.undecoded = []) := by
  obtain ⟨hk, ha⟩ := h.receives hl
  exact ⟨hk.complete ha, ha.nothing_left⟩

/-- A peer whose greeting and whose frames come in pieces. -/
def piecewisePeer : Script :=
  { Script.empty with
    input := [.data [0xff, 0, 0, 0, 0, 0, 0, 0, 1, 0x7f], .failed .wouldBlock, .data [1, 5, 0],
      .data [1, 0x42, 0, 2, 7], .failed .wouldBlock, .data [7, 1, 1, 8, 0, 1, 9]] }

/-- An application that reads nothing, with room for two parts. -/
def fullSession : LinkSession := ⟨Link.new ⟨0⟩ 2⟩

theorem taken_append_held_piecewisePeer :
    let e := told { role := .router, identity := [0x41] } piecewisePeer fullSession
      [.readable, .writable, .readable, .readable, .readable]
    e.session.taken = [⟨[0x42], .identity⟩, .ofBytes [7, 7]] ∧
      e.held = [.ofMore [8] true] ∧ e.undecoded = [.ofBytes [9]] ∧
      e.session.taken ++ (e.held ++ e.undecoded) =
        Settings.delivered { role := .router, identity := [0x41] } e.stream.heard :=
  ⟨by decide +kernel, by decide +kernel, by decide +kernel,
    (taken_append_held (reached_told _ piecewisePeer fullSession (by decide)) (by decide +kernel)).1⟩

end Engine

end Zmtp
