import Zmtp.Engine.State

namespace Zmtp

theorem Head.length_encodeV1 (h : Head) :
    h.encodeV1.length = if h.size + 1 < 0xff then 2 else 10 := by
  simp only [encodeV1]
  split
  · rfl
  · simp

theorem FrameWriter.emit_head {w : FrameWriter} (h : w.head ≠ []) :
    w.emit w.head.length = some (w.head, { w with head := [] }) := by
  have hz : w.head.length ≠ 0 := by rwa [ne_eq, List.length_eq_zero_iff]
  rw [emit, if_neg hz, if_pos h, List.take_length, List.drop_length]

/-- What was negotiated, seen from later on. -/
def Negotiated.later (n : Negotiated) (more : Bytes) : Negotiated :=
  match n with
  | .versionless prebuffered => .versionless (prebuffered ++ more)
  | .versioned revision role => .versioned revision role

@[simp] theorem Negotiated.revision_later (n : Negotiated) (more : Bytes) :
    (n.later more).revision = n.revision := by
  cases n <;> rfl

namespace Greeting

variable {g g' : Greeting} {bs input more heard : Bytes} {n : Negotiated}

theorem tailBytes_takeTail {tail : Bytes} (h : g.takeTail = (some tail, g')) :
    tail = g'.tailBytes := by
  rw [takeTail] at h
  split at h
  · cases h
    rfl
  · cases h

theorem looksVersioned_append (h : looksVersioned bs = true) (more : Bytes) :
    looksVersioned (bs ++ more) = true := by
  unfold looksVersioned at h
  split at h
  · next rest =>
    split at h
    · next b hb =>
      have hlt := (List.getElem?_eq_some_iff.1 hb).1
      simp only [looksVersioned, List.cons_append, List.getElem?_append_left hlt, hb, h]
    · cases h
  · cases h

theorem length_of_looksVersioned (h : looksVersioned bs = true) : signatureSize ≤ bs.length := by
  unfold looksVersioned at h
  split at h
  · next rest =>
    split at h
    · next b hb =>
      have hlt := (List.getElem?_eq_some_iff.1 hb).1
      rw [List.length_cons, signatureSize]
      omega
    · cases h
  · cases h

theorem classify_append (h : classify bs = some n) (more : Bytes) :
    classify (bs ++ more) = some (n.later more) := by
  cases bs with
  | nil => cases h
  | cons first rest =>
    rw [List.cons_append, classify]
    rw [classify] at h
    by_cases hf : first = 0xff
    · rw [if_neg (not_not_intro hf)] at h ⊢
      cases hm : rest[8]? with
      | none => rw [hm] at h; cases h
      | some mark =>
        have h8 := (List.getElem?_eq_some_iff.1 hm).1
        rw [List.getElem?_append_left h8, hm]
        simp only [hm] at h ⊢
        by_cases hmark : mark &&& 0x01 = 0
        · rw [if_pos hmark] at h ⊢
          cases h
          rfl
        · rw [if_neg hmark] at h ⊢
          cases hr : rest[9]? with
          | none => rw [hr] at h; cases h
          | some revision =>
            cases hro : rest[10]? with
            | none => rw [hr, hro] at h; cases h
            | some role =>
              have h10 := (List.getElem?_eq_some_iff.1 hro).1
              rw [List.getElem?_append_left (by omega), List.getElem?_append_left h10, hr, hro]
              rw [hr, hro] at h
              cases h
              rfl
    · rw [if_pos hf] at h ⊢
      cases h
      rfl

theorem prebuffered_eq {prebuffered : Bytes} (h : classify bs = some (.versionless prebuffered)) :
    prebuffered = bs := by
  unfold classify at h
  repeat' split at h
  all_goals cases h
  all_goals rfl

theorem looksVersioned_of_versioned {revision : Revision} {role : UInt8}
    (h : classify bs = some (.versioned revision role)) :
    looksVersioned bs = true ∧ size ≤ bs.length := by
  unfold classify at h
  split at h
  · cases h
  · next first rest =>
    split at h
    · cases h
    · next hf =>
      rw [Decidable.not_not] at hf
      subst hf
      split at h
      · cases h
      · next mark hm =>
        split at h
        · cases h
        · next hmark =>
          split at h
          · next hr =>
            refine ⟨by simpa [looksVersioned, hm] using hmark, ?_⟩
            have h10 := (List.getElem?_eq_some_iff.1 hr).1
            rw [List.length_cons, size]
            omega
          · cases h

theorem looksVersioned_of_versionless {prebuffered : Bytes}
    (h : classify bs = some (.versionless prebuffered)) : looksVersioned bs = false := by
  unfold classify at h
  split at h
  · cases h
  · next first rest =>
    unfold looksVersioned
    split at h
    · next hf =>
      split
      · next heq =>
        cases heq
        exact absurd rfl hf
      · rfl
    · next hf =>
      rw [Decidable.not_not] at hf
      subst hf
      split at h
      · cases h
      · next mark hm =>
        split at h
        · next hmark => simp [hm, hmark]
        · split at h <;> cases h

theorem length_lt_of_undecided (h : classify bs = none) : bs.length < size := by
  apply Nat.not_le.1
  intro hl
  rw [size] at hl
  cases bs with
  | nil => cases hl
  | cons first rest =>
    rw [List.length_cons] at hl
    rw [classify, List.getElem?_eq_getElem (by omega), List.getElem?_eq_getElem (by omega),
      List.getElem?_eq_getElem (by omega)] at h
    repeat' split at h
    all_goals simp_all

/-- The greeting of any party is that of one that knows the revision which we announce. -/
theorem classify_greeting (g : Greeting) (more : Bytes) :
    classify (g.signature ++ g.tailBytes ++ more) = some (.versioned .v2 g.role.byte) := by
  have hlen := Bytes.length_bigEndian 8 (g.identitySize + 1)
  have he : g.signature ++ g.tailBytes ++ more =
      0xff :: (Bytes.bigEndian 8 (g.identitySize + 1) ++
        0x7f :: Revision.announced :: g.role.byte :: more) := by
    simp [signature, tailBytes]
  rw [he, classify, List.getElem?_append_right (by omega), List.getElem?_append_right (by omega),
    List.getElem?_append_right (by omega), hlen]
  rfl

/-- How a greeting stands after it has heard some bytes and has answered them. -/
structure Heard (heard : Bytes) (g : Greeting) : Prop where
  bytes : g.received.bytes = heard
  size : g.received.size = Greeting.size
  tail : g.tail = if looksVersioned heard then .sent else .held

theorem heard_new (s : Settings) : (new s).Heard [] := ⟨rfl, rfl, rfl⟩

theorem Heard.room (h : g.Heard heard) : g.room = Greeting.size - heard.length := by
  have hs := h.size
  have hb := congrArg List.length h.bytes
  simp only [Buffer.size, Buffer.bytes, List.length_reverse] at hs hb
  rw [Greeting.room]
  omega

end Greeting

namespace EngineState

open Greeting

variable {s s' : EngineState} {heard input : Bytes} {v : Option Negotiated}

theorem wakeOutput_eq (s : EngineState) :
    s.wakeOutput = { s with interest := s.wakeOutput.interest } := by
  rw [wakeOutput]
  split <;> rfl

theorem receiveGreeting_eq (h : s.receiveGreeting input = (s', v)) :
    s' = { s with greeting := s'.greeting, interest := s'.interest, outbox := s'.outbox } := by
  obtain ⟨hs, -⟩ := Prod.mk.inj h
  rw [queueTail] at hs
  split at hs
  · rw [← hs, wakeOutput_eq]
    rfl
  · rw [← hs]

theorem report_eq (s : EngineState) (e : Event) :
    s.report e = { s with events := (s.report e).events } := by
  rw [report]
  split <;> rfl

theorem interest_wakeOutput (s : EngineState) :
    s.wakeOutput.interest = if s.outbox.size = 0 then s.interest.setOut else s.interest := by
  rw [wakeOutput]
  split <;> rfl

theorem readable_wakeOutput (s : EngineState) :
    s.wakeOutput.interest.readable = s.interest.readable := by
  rw [interest_wakeOutput]
  split <;> rfl

theorem readable_restOutput (s : EngineState) :
    s.restOutput.interest.readable = s.interest.readable := by
  rw [restOutput]
  split <;> rfl

theorem receiveGreeting_output (h : s.receiveGreeting input = (s', v)) :
    s'.outbox = s.outbox ∧ s'.interest = s.interest ∨
      s'.outbox = s.outbox.push s'.greeting.tailBytes ∧ s'.interest = s.wakeOutput.interest := by
  obtain ⟨hs, -⟩ := Prod.mk.inj h
  rw [queueTail] at hs
  split at hs
  · next tail greeting hg =>
    refine .inr ⟨?_, ?_⟩
    · rw [← hs, wakeOutput_eq, tailBytes_takeTail hg]
      rfl
    · rw [← hs, interest_wakeOutput]
      exact interest_wakeOutput _
  · rw [← hs]
    exact .inl ⟨rfl, rfl⟩

theorem readable_receiveGreeting (h : s.receiveGreeting input = (s', v)) :
    s'.interest.readable = s.interest.readable := by
  rcases receiveGreeting_output h with ⟨-, hi⟩ | ⟨-, hi⟩
  · rw [hi]
  · rw [hi, readable_wakeOutput]

theorem establish_eq (s : EngineState) (codec : Codec) (revision : UInt8) :
    s.establish codec revision =
      { s with
        codec := some codec
        interest := s.wakeOutput.interest
        events := (s.establish codec revision).events } := by
  rw [interest_wakeOutput, establish, report_eq, wakeOutput_eq, interest_wakeOutput]

theorem settle_frame {n : Negotiated} (h : s.settle n = .ok s') :
    s'.greeting = s.greeting ∧ s'.outbox = s.outbox ∧
      s'.interest.readable = s.interest.readable := by
  cases n with
  | versionless prebuffered =>
    rw [settle] at h
    split at h
    · cases h
    · cases h
      rw [establish_eq]
      exact ⟨rfl, rfl, readable_wakeOutput _⟩
  | versioned revision role =>
    cases h
    rw [establish_eq]
    exact ⟨rfl, rfl, readable_wakeOutput _⟩

/-- The tail is added when the bytes of the peer have come to look versioned, and not again. -/
theorem receiveGreeting_spec (h : s.greeting.Heard heard) (hl : input.length ≤ s.greeting.room)
    (hr : s.receiveGreeting input = (s', v)) :
    v = classify (heard ++ input) ∧ s'.greeting.Heard (heard ++ input) ∧
      s'.greeting.identitySize = s.greeting.identitySize ∧ s'.greeting.role = s.greeting.role ∧
      (looksVersioned (heard ++ input) = looksVersioned heard ∧
          s' = { s with greeting := s'.greeting } ∨
        looksVersioned (heard ++ input) = true ∧ looksVersioned heard = false ∧
          s' = ({ s with greeting := s'.greeting }.wakeOutput).queue s.greeting.tailBytes) := by
  have hbytes : ((s.greeting.received.deposit input).count input.length).bytes =
      heard ++ input := by
    rw [Buffer.bytes_count, Buffer.bytes_deposit, h.bytes, Buffer.room_deposit,
      Nat.min_eq_left (show input.length ≤ s.greeting.received.room from hl),
      Buffer.peek_deposit hl]
  have hsize : ((s.greeting.received.deposit input).count input.length).size = size := by
    rw [Buffer.size_count, ← h.size]
    rfl
  obtain ⟨hs, hv⟩ := Prod.mk.inj hr
  have htail := h.tail
  simp only [deposit, hbytes] at hs hv
  refine ⟨hv.symm, ?_⟩
  cases hh : looksVersioned heard with
  | true =>
    have hh' := looksVersioned_append hh input
    rw [hh, if_pos rfl] at htail
    simp only [queueTail, takeTail, htail] at hs
    subst hs
    exact ⟨⟨hbytes, hsize, by simp [hh']⟩, rfl, rfl, .inl ⟨hh', rfl⟩⟩
  | false =>
    rw [hh, if_neg Bool.false_ne_true] at htail
    cases hh' : looksVersioned (heard ++ input) with
    | false =>
      simp only [queueTail, takeTail, htail, hh'] at hs
      subst hs
      exact ⟨⟨hbytes, hsize, by simp [hh']⟩, rfl, rfl, .inl ⟨rfl, rfl⟩⟩
    | true =>
      simp only [queueTail, takeTail, htail, hh', and_self, if_true] at hs
      have hg : s'.greeting = ⟨s.greeting.identitySize, s.greeting.role,
          (s.greeting.received.deposit input).count input.length, .sent,
          s.greeting.done || (classify (heard ++ input)).isSome⟩ := by
        rw [← hs, wakeOutput_eq]
        rfl
      rw [hg]
      exact ⟨⟨hbytes, hsize, by simp [hh']⟩, rfl, rfl, .inr ⟨rfl, rfl, hs.symm⟩⟩

theorem length_identityHeader (identity : Bytes) :
    ((Head.ofPart (.ofBytes identity)).encode .v1).length = identityHeaderSize identity := by
  rw [Head.encode, Head.length_encodeV1, identityHeaderSize]
  change (if identity.length + 1 < 0xff then 2 else 10) = _
  split <;> split <;> omega

theorem emit_identityHeader {w : FrameWriter} (identity : Bytes) (hw : w.revision = .v1) :
    (w.load (.ofBytes identity)).emit (identityHeaderSize identity) =
      some ((Head.ofPart (.ofBytes identity)).encode .v1, { w with head := [], body := identity }) := by
  have hload : w.load (.ofBytes identity) =
      { w with head := (Head.ofPart (.ofBytes identity)).encode .v1, body := identity } := by
    rw [FrameWriter.load, hw]
    rfl
  rw [hload, ← length_identityHeader]
  exact FrameWriter.emit_head (Head.encode_ne_nil (.ofPart (.ofBytes identity)) .v1)

/-- The greeting always takes the place of the header that is discarded. -/
theorem identityBody?_eq {w : FrameWriter} (identity : Bytes) (hw : w.revision = .v1) :
    identityBody? identity w = some { w with head := [], body := identity } := by
  rw [identityBody?, emit_identityHeader identity hw]
  exact if_pos (length_identityHeader identity)

theorem settle_versioned (hw : s.writeRevision = none) (revision : Revision) (role : UInt8) :
    ∃ events, s.settle (.versioned revision role) = .ok
      { s with
        codec := some ⟨.ofSettings revision s.settings, .new revision⟩
        interest := s.wakeOutput.interest
        events } := by
  have hcodec : s.freshCodec revision = ⟨.ofSettings revision s.settings, .new revision⟩ := by
    rw [freshCodec, hw]
    rfl
  simp only [settle, Negotiated.revision, hcodec]
  exact ⟨_, congrArg Except.ok (establish_eq ..)⟩

theorem settle_versionless (hw : s.writeRevision = none) (prebuffered : Bytes) :
    ∃ events, s.settle (.versionless prebuffered) = .ok
      { s with
        codec := some ⟨(FrameReader.ofSettings .v1 s.settings).prime prebuffered,
          ⟨.v1, [], s.settings.identity⟩⟩
        identitySent := true
        expected := .identity s.settings.role.isPublisher
        interest := s.wakeOutput.interest
        events } := by
  have hcodec : s.freshCodec .v1 = ⟨.ofSettings .v1 s.settings, .new .v1⟩ := by
    rw [freshCodec, hw]
    rfl
  have hbody := identityBody?_eq (w := .new .v1) s.settings.identity rfl
  have heq := establish_eq
    { s with identitySent := true, expected := .identity s.settings.role.isPublisher }
    ⟨(FrameReader.ofSettings .v1 s.settings).prime prebuffered, ⟨.v1, [], s.settings.identity⟩⟩ 0
  simp only [interest_wakeOutput] at heq
  simp only [settle, Negotiated.revision, hcodec, hbody, interest_wakeOutput]
  exact ⟨_, congrArg Except.ok heq⟩

theorem settle_ne_error (hw : s.writeRevision = none) (n : Negotiated) (reason : Teardown) :
    s.settle n ≠ .error reason := by
  intro h
  cases n with
  | versionless prebuffered =>
    obtain ⟨events, hs⟩ := settle_versionless hw prebuffered
    cases h.symm.trans hs
  | versioned revision role =>
    obtain ⟨events, hs⟩ := settle_versioned hw revision role
    cases h.symm.trans hs

end EngineState

end Zmtp
