import Zmtp.Proofs.Engine.World

namespace Zmtp

namespace Outbox

/-- The size that is kept is that of the chunks. -/
def Counted (o : Outbox) : Prop := o.size = o.chunks.flatten.length

variable {o : Outbox}

theorem Counted.chunks_eq_nil (h : o.Counted) (hs : o.size = 0) : o.chunks.flatten = [] :=
  List.eq_nil_of_length_eq_zero (h.symm.trans hs)

theorem Counted.push (h : o.Counted) (chunk : Bytes) : (o.push chunk).Counted := by
  simp only [Counted, Outbox.push, List.flatten_append, List.flatten_cons, List.flatten_nil,
    List.append_nil, List.length_append]
  rw [h]

theorem Counted.consume (h : o.Counted) (n : Nat) : (o.consume n).Counted := by
  rw [Counted, Outbox.consume, flatten_dropBytes, List.length_drop, h]

theorem size_pushBatch (o : Outbox) (batch : List Bytes) :
    (o.pushBatch batch).size = o.size + batch.flatten.length := by
  have hsum (n : Nat) : batch.foldl (fun n c => n + c.length) n = n + batch.flatten.length := by
    induction batch generalizing n with
    | nil => rfl
    | cons c cs ih =>
      rw [List.foldl_cons, ih, List.flatten_cons, List.length_append, Nat.add_assoc]
  exact hsum o.size

theorem Counted.pushBatch (h : o.Counted) (batch : List Bytes) : (o.pushBatch batch).Counted := by
  rw [Counted, size_pushBatch, Outbox.pushBatch, List.flatten_append, flatten_joinSmall,
    List.length_append, h]

end Outbox

/-- What is known of a session that had nothing to send, as long as its application does nothing. -/
structure Session.Dries {σ : Type} [Session σ] (dry : σ → Prop) : Prop where
  push : ∀ {u u' : σ} {p : Part} {outcome : PushOutcome}, dry u →
    Session.push u p = (outcome, u') → dry u'
  pull : ∀ {u u' : σ}, Session.pull u = (none, u') → dry u'
  flush : ∀ u, dry u → dry (Session.flush u)

namespace Engine

variable {τ σ : Type} {dry : σ → Prop} {e e' : Engine τ σ}

/-- The stream is waited for as long as anything is left to write. -/
structure Awake (dry : σ → Prop) (e : Engine τ σ) : Prop where
  registered : e.interest.registered = true
  counted : e.outbox.Counted
  written : e.interest.writable = false → e.outbox.size = 0
  drained : e.interest.writable = false → ∀ codec, e.codec = some codec →
    codec.writer.left = [] ∧ e.identitySent = true ∧ dry e.session

theorem awake_of_writable (hr : e.interest.registered = true) (hc : e.outbox.Counted)
    (hw : e.interest.writable = true) : e.Awake dry := by
  refine ⟨hr, hc, ?_, ?_⟩
  · intro hn
    rw [hw] at hn
    cases hn
  · intro hn
    rw [hw] at hn
    cases hn

theorem Awake.congr (h : e.Awake dry) (hi : e'.interest.registered = e.interest.registered)
    (hw : e'.interest.writable = e.interest.writable) (ho : e'.outbox = e.outbox)
    (hd : ∀ codec', e'.codec = some codec' → ∃ codec, e.codec = some codec ∧
      codec'.writer = codec.writer ∧ e'.identitySent = e.identitySent ∧
        (dry e.session → dry e'.session)) : e'.Awake dry := by
  refine ⟨hi.trans h.registered, ho ▸ h.counted, ?_, ?_⟩
  · intro hn
    rw [ho]
    exact h.written (hw ▸ hn)
  · intro hn codec' hc'
    obtain ⟨codec, hc, hwriter, hs, hdry⟩ := hd codec' hc'
    obtain ⟨hl, hi', hd'⟩ := h.drained (hw ▸ hn) codec hc
    exact ⟨hwriter ▸ hl, hs.trans hi', hdry hd'⟩

theorem Awake.congr_session {dry' : σ → Prop} (h : e.Awake dry) (stream : τ) (session : σ)
    (hd : dry e.session → dry' session) : Engine.Awake dry' { e with stream, session } := by
  refine ⟨h.registered, h.counted, h.written, ?_⟩
  intro hn codec hc
  obtain ⟨hl, hi, hy⟩ := h.drained hn codec hc
  exact ⟨hl, hi, hd hy⟩

theorem awake_of_codec_none (hc : e.codec = none) (hr : e.interest.registered = true)
    (ho : e.outbox.Counted) (hw : e.interest.writable = false → e.outbox.size = 0) :
    e.Awake dry := by
  refine ⟨hr, ho, hw, ?_⟩
  intro _ codec hc'
  rw [hc] at hc'
  cases hc'

theorem Awake.greeted (h : e.Awake dry) {input : Bytes} {s : EngineState} {v : Option Negotiated}
    (hr : e.receiveGreeting input = (s, v)) :
    s.interest.registered = true ∧ s.outbox.Counted ∧
      (s.interest.writable = false → s.outbox.size = 0) := by
  rcases EngineState.receiveGreeting_output hr with ⟨ho, hi⟩ | ⟨ho, hi⟩
  · rw [ho, hi]
    exact ⟨h.registered, h.counted, h.written⟩
  · rw [ho, hi, EngineState.interest_wakeOutput]
    refine ⟨?_, h.counted.push _, ?_⟩
    · split <;> exact h.registered
    · intro hn
      split at hn
      · cases hn
      · next hs => exact absurd (h.written hn) hs

theorem Awake.settled (h : e.Awake dry) {input : Bytes} {s s' : EngineState} {n : Negotiated}
    (hr : e.receiveGreeting input = (s, some n)) (hs : s.settle n = .ok s') (stream : τ) :
    Engine.Awake dry ⟨s', stream, e.session⟩ := by
  obtain ⟨hreg, hcount, hwritten⟩ := h.greeted hr
  have hestablish (t : EngineState) (ho : t.outbox = s.outbox) (hi : t.interest = s.interest)
      (codec : Codec) (revision : UInt8) :
      Engine.Awake dry ⟨t.establish codec revision, stream, e.session⟩ := by
    rw [EngineState.establish_eq]
    have hw : t.wakeOutput.interest = s.interest.setOut ∨ t.wakeOutput.interest = s.interest ∧
        s.interest.writable = true := by
      rw [EngineState.interest_wakeOutput, hi, ho]
      split
      · exact .inl rfl
      · next hz => exact .inr ⟨rfl, eq_true_of_ne_false fun hn => hz (hwritten hn)⟩
    refine awake_of_writable ?_ (ho ▸ hcount) ?_
    · rcases hw with hw | ⟨hw, -⟩
      · rw [hw]
        exact hreg
      · rw [hw]
        exact hreg
    · rcases hw with hw | ⟨hw, ht⟩
      · rw [hw]
        rfl
      · rw [hw]
        exact ht
  cases n with
  | versionless prebuffered =>
    rw [EngineState.settle] at hs
    split at hs
    · cases hs
    · cases hs
      exact hestablish { s with
        identitySent := true, expected := .identity s.settings.role.isPublisher } rfl rfl _ _
  | versioned revision role =>
    cases hs
    exact hestablish s rfl rfl _ _

theorem Awake.rest (h : e.Awake dry) : (e.update (·.restOutput)).Awake dry := by
  by_cases hz : e.isHandshaking = true ∧ e.outbox.size = 0
  · have hc : e.codec = none := Option.isNone_iff_eq_none.1 hz.1
    rw [update, EngineState.restOutput, if_pos hz]
    exact awake_of_codec_none hc h.registered h.counted fun _ => hz.2
  · rw [update, EngineState.restOutput, if_neg hz]
    exact h

variable [ByteStream τ] [Session σ]

/-- No step loses sight of what is left to write, if the stream is written to only while it is waited
for. -/
theorem Awake.step (hd : Session.Dries dry) (h : e.Awake dry) (hs : Step False e e') :
    e'.Awake dry := by
  cases hs with
  | waited hc => exact h.congr rfl rfl rfl fun codec hc' => ⟨codec, hc', rfl, rfl, id⟩
  | greeted hc hread hr =>
    obtain ⟨hreg, hcount, hwritten⟩ := h.greeted hr
    refine awake_of_codec_none ?_ hreg hcount hwritten
    rw [EngineState.receiveGreeting_eq hr]
    exact hc
  | settled hc hread hr hs => exact h.settled hr hs _
  | stalled hc =>
    exact h.congr rfl rfl rfl fun codec' hc' => ⟨_, hc, by cases hc'; rfl, rfl, id⟩
  | refilled hc =>
    exact h.congr rfl rfl rfl fun codec' hc' => ⟨_, hc, by cases hc'; rfl, rfl, id⟩
  | decoded hc =>
    exact h.congr rfl rfl rfl fun codec' hc' => ⟨_, hc, by cases hc'; rfl, rfl, id⟩
  | exhausted hc =>
    exact h.congr rfl rfl rfl fun codec' hc' => ⟨_, hc, by cases hc'; rfl, rfl, id⟩
  | pushed hh hp =>
    exact h.congr rfl rfl rfl fun codec hc' => ⟨codec, hc', rfl, rfl, fun hy => hd.push hy hp⟩
  | refused hh hp =>
    exact h.congr rfl rfl rfl fun codec hc' => ⟨codec, hc', rfl, rfl, fun hy => hd.push hy hp⟩
  | congested hh => exact h.congr rfl rfl rfl fun codec hc' => ⟨codec, hc', rfl, rfl, id⟩
  | resumed hh => exact h.congr rfl rfl rfl fun codec hc' => ⟨codec, hc', rfl, rfl, id⟩
  | flushed => exact h.congr rfl rfl rfl fun codec hc' => ⟨codec, hc', rfl, rfl, hd.flush _⟩
  | woken => exact awake_of_writable h.registered h.counted rfl
  | idled hc ho => exact awake_of_codec_none hc h.registered h.counted fun _ => ho
  | @filled codec hc ho hs hw =>
    exact awake_of_writable h.registered (h.counted.pushBatch _) (hw.resolve_right id)
  | @drained codec hc ho hs =>
    refine ⟨h.registered, h.counted.pushBatch _, fun _ => hs, ?_⟩
    intro _ codec' hc'
    cases hc'
    have hcount : (e.fill codec).outbox.Counted := h.counted.pushBatch _
    have hnil := hcount.chunks_eq_nil hs
    simp only [fill, Outbox.pushBatch, List.flatten_append, Outbox.flatten_joinSmall,
      List.append_eq_nil_iff] at hnil
    -- the batch is empty although there was room for it, so that the session had nothing to give
    have hroom : max e.settings.outputBatch 1 ≠ 0 :=
      Nat.ne_of_gt (Nat.lt_of_lt_of_le Nat.zero_lt_one (Nat.le_max_right ..))
    obtain ⟨hl, hi, u, hp⟩ := Supply.dry_of_gather hroom hnil.2
    exact ⟨hl, hi, hd.pull hp⟩
  | @wrote n stream ho hw =>
    have hwritable : e.interest.writable = true := eq_true_of_ne_false fun hn => ho (h.written hn)
    have hk : Engine.Awake dry { e with stream, outbox := e.outbox.consume n } :=
      awake_of_writable h.registered (h.counted.consume n) hwritable
    exact hk.rest
  | @blocked fault stream hw =>
    have hk : Engine.Awake dry { e with stream } :=
      h.congr rfl rfl rfl fun codec hc' => ⟨codec, hc', rfl, rfl, id⟩
    exact hk.rest

end Engine

end Zmtp
