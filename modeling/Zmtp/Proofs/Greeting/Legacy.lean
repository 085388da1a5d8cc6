import Zmtp.Proofs.Engine.Receiving
import Zmtp.Proofs.Engine.Sending
import Zmtp.Proofs.Frame.Handover
import Zmtp.Proofs.Frame.RoundTrip
import Zmtp.Proofs.Greeting.Hearing

namespace Zmtp

open HeadReader (isMore)

namespace Greeting

variable {header : Bytes} {size : Nat}

theorem even_of_isMore {flags : UInt8} (h : isMore flags = false) : flags.toNat % 2 = 0 := by
  rw [isMore, bne_eq_false_iff_eq] at h
  exact (and_one_eq_zero_iff flags).1 h

/-- No frame after which nothing follows begins like a greeting. -/
theorem refuted_of_spelledV1 (hw : Scanner.SpelledV1 ⟨false, size⟩ header) (rest : Bytes) :
    Refuted (header ++ rest) := by
  cases hw with
  | short hlt hf => exact ⟨_, rfl, .inl (Head.shortLength_ne hlt)⟩
  | @long flags hf =>
    have hlen := Bytes.length_bigEndian 8 (size + 1)
    refine ⟨_, rfl, .inr ⟨flags, ?_, even_of_isMore hf⟩⟩
    change (Bytes.bigEndian 8 (size + 1) ++ [flags] ++ rest)[8]? = some flags
    rw [List.append_assoc, List.getElem?_append_right (by omega), hlen]
    rfl

theorem spelledV1_signature (s : Settings) :
    Scanner.SpelledV1 ⟨true, s.identity.length⟩ (Greeting.new s).signature :=
  .long (by rfl)

end Greeting

namespace HeadReader

theorem bind_ne_error {α β : Type} {x : Except WireFault α} {f : α → Except WireFault β}
    {fault : WireFault} (hx : x ≠ .error fault) (hf : ∀ a, f a ≠ .error fault) :
    x >>= f ≠ .error fault := by
  cases x with
  | error fault' =>
    intro h
    cases h
    exact hx rfl
  | ok a => exact hf a

theorem checkSize_ne_identityHeader (limit size : Nat) :
    checkSize limit size ≠ .error .identityHeader := by
  rw [checkSize]
  split <;> rintro ⟨⟩

theorem push_ne_identityHeader (reader : HeadReader) (limit : Nat) (b : UInt8) :
    reader.push limit b ≠ .error .identityHeader := by
  have hsize := checkSize_ne_identityHeader limit
  cases reader with
  | v1Size =>
    rw [push]
    split
    · rintro ⟨⟩
    · split
      · simp [WireFault.zeroLength, WireFault.identityHeader]
      · exact bind_ne_error (hsize _) (by rintro size ⟨⟩)
  | v1LongSize seen =>
    rw [push]
    split
    · rintro ⟨⟩
    · apply bind_ne_error _ (by rintro size ⟨⟩)
      rw [longSizeV1]
      split
      · simp [WireFault.nonPositiveLength, WireFault.identityHeader]
      · exact hsize _
  | v1Flags size => rintro ⟨⟩
  | v2Flags =>
    rw [push]
    repeat' split
    all_goals rintro ⟨⟩
  | v2Size more => exact bind_ne_error (hsize _) (by rintro size ⟨⟩)
  | v2LongSize more seen =>
    rw [push]
    split
    · rintro ⟨⟩
    · apply bind_ne_error _ (by rintro size ⟨⟩)
      exact bind_ne_error (hsize _) (checkSize_ne_identityHeader _)

end HeadReader

namespace Scanner

theorem runBody_ne_identityHeader (s : Scanner) (more : Bool) (buffer : Buffer) (input : Bytes) :
    (s.runBody more buffer input).outcome ≠ .error .identityHeader := by
  rw [runBody]
  split <;> rintro ⟨⟩

theorem runHead_ne_identityHeader (s : Scanner) (reader : HeadReader) (input : Bytes) :
    (s.runHead reader input).outcome ≠ .error .identityHeader := by
  induction input generalizing reader with
  | nil => nofun
  | cons b input ih =>
    have hpush := reader.push_ne_identityHeader s.limit b
    rw [runHead]
    split
    · next fault hf =>
      intro h
      cases h
      exact hpush hf
    · exact ih _
    · exact runBody_ne_identityHeader _ _ _ _

theorem run_ne_identityHeader (s : Scanner) (input : Bytes) :
    (s.run input).outcome ≠ .error .identityHeader := by
  rw [run]
  split
  · exact runHead_ne_identityHeader _ _ _
  · exact runBody_ne_identityHeader _ _ _ _

theorem drain_spelledV1 {limit : Nat} {header data : Bytes} {more : Bool}
    (hw : SpelledV1 ⟨more, data.length⟩ header) (h : data.length ≤ limit)
    (hc : Revision.v1.carries data.length) (rest : Bytes) :
    (new .v1 limit).drain (header ++ data ++ rest) =
      { (new .v1 limit).drain rest with
        parts := .ofMore data more :: ((new .v1 limit).drain rest).parts
        requests := data.length :: ((new .v1 limit).drain rest).requests } :=
  drain_of_some (run_spelledV1 rfl rfl hw h hc)

end Scanner

theorem FrameReader.read_ne_identityHeader {r r' : FrameReader} (hf : r.fault = none)
    {fault : WireFault} {rest : Bytes} {asked : List Nat}
    (hr : r.read = ⟨r', .error fault, rest, asked⟩) : fault ≠ .identityHeader := by
  have hne := r.scanner.run_ne_identityHeader r.pending
  rw [read_eq hf] at hr
  cases hs : r.scanner.run r.pending with
  | mk s outcome rest' asked' =>
    rw [hs] at hr hne
    cases outcome with
    | ok part => cases hr
    | error fault' =>
      cases hr
      intro he
      exact hne (congrArg Except.error he)

namespace Engine

variable {τ σ : Type} [ByteStream τ] [Session σ] {s : Settings} {e e' : Engine (Tap τ) (Ledger σ)}

theorem Failing.ne_identityHeader {reason : Teardown} (h : e.Receives s)
    (hf : Failing e e' reason) : reason ≠ .decode .identityHeader := by
  cases hf with
  | greeting hc hr hf => cases hf <;> nofun
  | unsettled hc hread hr hs =>
    have hrev := congrArg EngineState.writeRevision (EngineState.receiveGreeting_eq hr)
    exact absurd hs (EngineState.settle_ne_error (hrev.trans h.writeRevision) _ _)
  | reading hc hp ho hr hf => cases hf <;> nofun
  | decoding hc hr =>
    obtain ⟨n, parts, hd⟩ := h.reader _ (reader_of_codec hc)
    intro he
    cases he
    exact FrameReader.read_ne_identityHeader hd.clean hr rfl
  | rejected => nofun
  | writing => nofun

theorem Reached.teardown_ne (h : Reached s e) : e.teardown? ≠ some (.decode .identityHeader) := by
  have hk : (e.isLive = true → e.Receives s) ∧ e.teardown? ≠ some (.decode .identityHeader) := by
    apply h.induction
    case hnew => exact fun _ _ _ _ => ⟨nofun, nofun⟩
    case hbegin => exact fun endpoint monitored t u => ⟨fun _ => receives_begin .., nofun⟩
    case hstep =>
      intro e e' hl ⟨hr, hne⟩ hs
      refine ⟨fun _ => (hr hl).step hs, ?_⟩
      rw [EngineState.teardown?, hs.stage_eq]
      exact hne
    case hfail =>
      intro e e' reason hl ⟨hr, hne⟩ hf
      refine ⟨nofun, ?_⟩
      intro he
      exact hf.ne_identityHeader (hr hl) (Option.some.inj he)
    case hworld => exact fun e t u ⟨hr, hne⟩ => ⟨fun hl => (hr hl).congr rfl, hne⟩
    case hstop =>
      intro e ⟨hr, hne⟩
      rw [Engine.stop]
      split
      · exact ⟨hr, hne⟩
      · constructor <;> rintro ⟨⟩
  exact hk.2

theorem readPieces_sent (h : Reached s e) (hl : e.isLive = true) {prebuffered : Bytes}
    (hn : Greeting.classify e.stream.heard = some (.versionless prebuffered)) (hu : e.unsent = [])
    (hi : s.identity.length < 2 ^ 63 - 1) (hg : ∀ p ∈ e.session.given, p.size < 2 ^ 63 - 1)
    (bufferSize : Nat) {pieces : List Bytes} (hp : pieces.flatten = e.stream.sent) :
    let drain := (FrameReader.new .v1 bufferSize (UInt64.size - 1)).readPieces pieces
    drain.fault = none ∧ drain.parts = .ofMore s.identity true :: e.session.given.map Part.onWire ∧
      drain.rest = [] ∧ drain.state.scanner = .new .v1 (UInt64.size - 1) := by
  intro drain
  have hbytes := (h.sends hl).bytes
  rw [hu, List.append_nil, Settings.due, hn, ← List.append_assoc, ← hp] at hbytes
  have hsmall {size : Nat} (hlt : size < 2 ^ 63 - 1) : size ≤ UInt64.size - 1 := by
    rw [UInt64.size]
    omega
  let reader : FrameReader := .new .v1 bufferSize (UInt64.size - 1)
  have hframes : reader.scanner.drain (e.session.given.flatMap (·.frame .v1)) = _ :=
    Scanner.drain_frames_eq rfl e.session.given
      fun p hp => ⟨hsmall (hg p hp), Revision.carries_of_lt .v1 (hg p hp)⟩
  have hdrain : reader.scanner.drain _ = _ :=
    Scanner.drain_spelledV1 (Greeting.spelledV1_signature s) (hsmall hi)
      (Revision.carries_of_lt .v1 hi) (e.session.given.flatMap (·.frame .v1))
  have hagrees := FrameReader.readPieces_of_idle (r := reader) ⟨rfl, rfl⟩ pieces
  obtain ⟨hparts, hfault, -⟩ := FrameReader.readEach_drain (r := reader) rfl pieces.flatten
  have hscanner := FrameReader.scanner_readEach (r := reader) rfl pieces.flatten
  change (Scanner.new .v1 (UInt64.size - 1)).drain _ = _ at hframes
  rw [hframes, ← hbytes] at hdrain
  rw [hdrain] at hparts hfault hscanner
  have hnone := hagrees.fault.trans hfault
  exact ⟨hnone, hagrees.parts.trans hparts, FrameReader.rest_readPieces hnone,
    (congrArg FrameReader.scanner hagrees.state).trans hscanner⟩

end Engine

namespace Handover

theorem told_of_spelledV1 {header identity rest : Bytes}
    (hw : Scanner.SpelledV1 ⟨false, identity.length⟩ header) (hi : identity.length < 2 ^ 63 - 1)
    {bufferSize limit : Nat} (hlimit : identity.length ≤ limit) {cs : List Call}
    (ha : Admitted (new .v1 bufferSize limit) cs) :
    let last := (new .v1 bufferSize limit).run cs
    let alone := (FrameReader.new .v1 bufferSize limit).readEach rest
    (last.stage = .closed → last.fed = header ++ identity ++ rest →
        last.told = .ofMore identity false :: alone.parts ∧ alone.fault = none) ∧
      ∀ fault more, last.stage = .failed fault → last.fed ++ more = header ++ identity ++ rest →
        last.told = .ofMore identity false :: alone.parts ∧ alone.fault = some fault := by
  intro last alone
  have hsound : Sound (.new .v1 limit) last := (sound_new .v1 bufferSize limit).run ha
  have hdrain := Scanner.drain_spelledV1 hw hlimit (Revision.carries_of_lt .v1 hi) rest
  obtain ⟨hparts, hfault, -⟩ :=
    FrameReader.readEach_drain (r := .new .v1 bufferSize limit) rfl rest
  change alone.parts = ((Scanner.new .v1 limit).drain rest).parts at hparts
  change alone.fault = ((Scanner.new .v1 limit).drain rest).fault at hfault
  rw [hparts, hfault]
  constructor
  · intro hstage hfed
    obtain ⟨htold, hnone⟩ := hsound.drain_of_closed hstage
    rw [hfed, hdrain] at htold hnone
    exact ⟨htold.symm, hnone⟩
  · intro fault more hstage hfed
    obtain ⟨htold, hsome⟩ := hsound.drain_of_failed hstage more
    rw [hfed, hdrain] at htold hsome
    exact ⟨htold.symm, hsome⟩

end Handover

/-- An engine and a peer that knows no greeting understand each other. The header of our identity can
always be discarded, and all that was written reads as our identity, with the mark that more follows,
and then as what the session gave. The frame with the identity of the peer is never taken for a
greeting, and a reader that is primed with what was heard of it tells that identity, and then what it
would tell of the rest by itself. -/
theorem legacy_interoperates (s : Settings) :
    (∃ header, ((FrameWriter.new .v1).load (.ofBytes s.identity)).emit
          (EngineState.identityHeaderSize s.identity) =
        some (header, ⟨.v1, [], s.identity⟩) ∧
      header.length = EngineState.identityHeaderSize s.identity) ∧
    (∀ (τ σ : Type) [ByteStream τ] [Session σ] (e : Engine (Tap τ) (Ledger σ)),
      Engine.Reached s e →
        e.teardown? ≠ some (.decode .identityHeader) ∧
        ∀ prebuffered, e.isLive = true →
          Greeting.classify e.stream.heard = some (.versionless prebuffered) → e.unsent = [] →
          s.identity.length < 2 ^ 63 - 1 → (∀ p ∈ e.session.given, p.size < 2 ^ 63 - 1) →
          ∀ (bufferSize : Nat) (pieces : List Bytes), pieces.flatten = e.stream.sent →
            let drain := (FrameReader.new .v1 bufferSize (UInt64.size - 1)).readPieces pieces
            drain.fault = none ∧
              drain.parts = .ofMore s.identity true :: e.session.given.map Part.onWire ∧
              drain.rest = [] ∧ drain.state.scanner = .new .v1 (UInt64.size - 1)) ∧
    ∀ header identity rest : Bytes, Scanner.SpelledV1 ⟨false, identity.length⟩ header →
      identity.length < 2 ^ 63 - 1 → ∀ ms : List Hearing.Move,
      Hearing.fed ms = header ++ identity ++ rest →
        let h := (Hearing.new s).run ms
        h.verdict = some (.versionless h.taken) ∧
        ∀ (bufferSize limit : Nat) (cs : List Handover.Call), identity.length ≤ limit →
          Handover.Admitted (.new .v1 bufferSize limit) (.prime h.taken :: cs) →
          let last := (Handover.new .v1 bufferSize limit).run (.prime h.taken :: cs)
          let alone := (FrameReader.new .v1 bufferSize limit).readEach rest
          (last.stage = .closed → last.fed = header ++ identity ++ rest →
              last.told = .ofMore identity false :: alone.parts ∧ alone.fault = none) ∧
            ∀ fault more, last.stage = .failed fault →
              last.fed ++ more = header ++ identity ++ rest →
              last.told = .ofMore identity false :: alone.parts ∧
                alone.fault = some fault := by
  refine ⟨⟨_, EngineState.emit_identityHeader s.identity rfl,
    EngineState.length_identityHeader s.identity⟩, ?sent, ?told⟩
  case sent =>
    intro τ σ _ _ e h
    refine ⟨h.teardown_ne, ?_⟩
    intro prebuffered hl hn hu hi hg bufferSize pieces hp
    exact Engine.readPieces_sent h hl hn hu hi hg bufferSize hp
  case told =>
    intro header identity rest hw hi ms hfed h
    have h' : h.Sound s (Hearing.fed ms) := Hearing.sound_heard s ms
    have hrefuted := Greeting.refuted_of_spelledV1 hw (identity ++ rest)
    rw [← List.append_assoc, ← hfed] at hrefuted
    refine ⟨h'.versionless_iff.2 ⟨hrefuted, rfl⟩, ?_⟩
    intro bufferSize limit cs hlimit ha
    exact Handover.told_of_spelledV1 hw hi hlimit ha

/-- A peer that knows no greeting, and sends its identity and a part in three pieces. -/
def legacyPeer : Script :=
  { Script.empty with
    input := [.data [0xff, 0, 0, 0, 0], .failed .wouldBlock, .data [0, 0, 0, 3, 0, 0x42, 0x43, 2, 0],
      .data [7]] }

theorem legacy_interoperates_legacyPeer :
    let s : Settings := { role := .dealer, identity := [0x41] }
    let e := Engine.told s legacyPeer Engine.oneMessage [.writable, .readable, .writable, .writable]
    let drain := (FrameReader.new .v1 8 (UInt64.size - 1)).readPieces
      [e.stream.sent.take 7, e.stream.sent.drop 7]
    let header : Bytes := [0xff, 0, 0, 0, 0, 0, 0, 0, 3, 0]
    let h := (Hearing.new s).run [.feed (header.take 5), .ask, .feed (header.drop 5 ++ [0x42]), .ask,
      .feed [0x43, 2, 0, 7]]
    let last := (Handover.new .v1 8 2).run
      [.prime h.taken, .next, .give [0x43, 2, 0, 7], .next, .next, .next]
    e.teardown? = none ∧ e.unsent = [] ∧ drain.parts = [⟨[0x41], .more⟩, .ofBytes [1, 2, 3]] ∧
      h.verdict = some (.versionless h.taken) ∧ h.taken = header ++ [0x42] ∧
      last.stage = .closed ∧ last.told = [.ofBytes [0x42, 0x43], .ofBytes [7]] := by
  intro s e drain header h last
  have hu : e.unsent = [] := by decide +kernel
  obtain ⟨-, hengine, hpeer⟩ := legacy_interoperates s
  obtain ⟨-, hsent⟩ :=
    hengine _ _ e (Engine.reached_told _ legacyPeer Engine.oneMessage (by decide))
  obtain ⟨-, hparts, -⟩ := hsent e.stream.heard (by decide +kernel) (by decide +kernel) hu
    (by decide) (by decide +kernel) 8 [e.stream.sent.take 7, e.stream.sent.drop 7] (by simp)
  obtain ⟨hverdict, htold⟩ := hpeer header [0x42, 0x43] [2, 0, 7] (.long rfl) (by decide)
    [.feed (header.take 5), .ask, .feed (header.drop 5 ++ [0x42]), .ask, .feed [0x43, 2, 0, 7]]
    (by decide)
  have hstage : last.stage = .closed := by decide +kernel
  obtain ⟨hclosed, -⟩ := htold 8 2 [.next, .give [0x43, 2, 0, 7], .next, .next, .next] (by decide)
    (by decide +kernel)
  obtain ⟨hlast, -⟩ := hclosed hstage (by decide +kernel)
  have hgiven : e.session.given = [.ofBytes [1, 2, 3]] := by decide +kernel
  have halone : ((FrameReader.new .v1 8 2).readEach [2, 0, 7]).parts = [.ofBytes [7]] := by
    decide +kernel
  rw [hgiven] at hparts
  rw [halone] at hlast
  exact ⟨by decide +kernel, hu, hparts, hverdict, by decide +kernel, hstage, hlast⟩

end Zmtp
