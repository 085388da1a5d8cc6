import Zmtp.Proofs.Engine.Receiving
import Zmtp.Proofs.Engine.World
import Zmtp.Proofs.Frame.Rounds

namespace Zmtp

namespace Settings

theorem length_interpret_le (s : Settings) (subscribe : Bool) (parts : List Part) :
    (s.interpret subscribe parts).length ≤ parts.length + 1 := by
  cases parts with
  | nil => exact Nat.zero_le _
  | cons first rest =>
    have hidentity : (if s.deliverIdentity then [first.set .identity] else []).length ≤ 1 := by
      split
      · exact Nat.le_refl 1
      · exact Nat.zero_le 1
    have hsubscription : (if subscribe then [Part.ofBytes [0x01]] else []).length ≤ 1 := by
      split
      · exact Nat.le_refl 1
      · exact Nat.zero_le 1
    rw [interpret, List.length_append, List.length_append, List.length_cons]
    omega

/-- The bytes of a peer come to a part for every two of them at most, and one that is made up. -/
theorem length_delivered_le (s : Settings) (heard : Bytes) :
    (s.delivered heard).length ≤ heard.length / 2 + 1 := by
  rw [delivered]
  cases Greeting.classify heard with
  | none => exact Nat.zero_le _
  | some n =>
    have hframes : (n.frames heard).length ≤ heard.length := by
      cases n with
      | versionless prebuffered => exact Nat.le_refl _
      | versioned revision role => exact (List.drop_suffix ..).length_le
    have hdecoded : (s.decoded n.revision (n.frames heard)).length ≤ (n.frames heard).length / 2 := by
      have hdrain := (Scanner.new n.revision s.bodyLimit).length_drain_le (n.frames heard)
      rwa [Scanner.credit_new, Nat.add_zero] at hdrain
    apply Nat.le_trans (s.length_interpret_le ..)
    apply Nat.succ_le_succ
    exact Nat.le_trans hdecoded (Nat.div_le_div_right hframes)

end Settings

/-- What the first part of a peer may stand for beyond one part. -/
def Expected.surplus : Expected → Nat
  | .payload => 0
  | .identity _ => 1

theorem EngineState.length_expand_le (s : EngineState) (p : Part) :
    (s.expand p).length ≤ s.expected.surplus + 1 := by
  rw [Engine.expand_eq]
  cases s.expected with
  | payload => exact Nat.le_refl 1
  | identity subscribe => exact s.settings.length_interpret_le subscribe [p]

def SessionCall.isPush : SessionCall → Bool
  | .push _ => true
  | _ => false

/-- How often a part was pushed, whether or not it was accepted. -/
def Logged.pushes {σ : Type} (l : Logged σ SessionCall) : Nat := l.calls.countP SessionCall.isPush

theorem Logged.pushes_log {σ : Type} (l : Logged σ SessionCall) (inner : σ) (call : SessionCall) :
    (l.log inner call).pushes = l.pushes + call.isPush.toNat := by
  rw [pushes, log, List.countP_append]
  cases call <;> rfl

namespace Engine

variable {τ σ : Type} [ByteStream τ] [Session σ]

theorem pushes_passAll (l : Logged σ SessionCall) (parts : List Part) :
    (passAll l parts).2.2.pushes ≤ l.pushes + parts.length ∧
      ((passAll l parts).1 = .proceed → (passAll l parts).2.1 = []) := by
  induction parts generalizing l with
  | nil => exact ⟨Nat.le_refl _, fun _ => rfl⟩
  | cons p parts ih =>
    have hpush : (Session.push l p).2.pushes = l.pushes + 1 := l.pushes_log _ (.push p)
    rw [passAll]
    cases hp : Session.push l p with
    | mk outcome l' =>
      rw [hp] at hpush
      have hone : l'.pushes ≤ l.pushes + (parts.length + 1) := by
        rw [hpush]
        omega
      cases outcome with
      | accepted =>
        obtain ⟨hle, hnil⟩ := ih l'
        refine ⟨?_, hnil⟩
        rw [hpush] at hle
        rw [List.length_cons]
        simp only
        omega
      | busy => exact ⟨hone, Progress.noConfusion⟩
      | closed => exact ⟨hone, Progress.noConfusion⟩

/-- One round of `decode`. -/
def decodeRound : Engine τ σ × Codec → (Progress × Engine τ σ) ⊕ Engine τ σ × Codec
  | (e, codec) =>
    match codec.reader.read with
    | ⟨reader, .error fault, _, _⟩ =>
      .inl (.fail (.decode fault), { e with codec := some { codec with reader } })
    | ⟨reader, .ok none, _, _⟩ => .inl (.proceed, { e with codec := some { codec with reader } })
    | ⟨reader, .ok (some p), _, _⟩ =>
      let codec := { codec with reader }
      let e := { e with held := e.held ++ e.expand p, expected := .payload }
      match e.passHeld with
      | (.proceed, e) => .inr (e, codec)
      | (.pause, e) => .inl (.pause, { e.congest with codec := some codec })
      | (.fail reason, e) => .inl (.fail reason, { e with codec := some codec })

omit [ByteStream τ] in
theorem decode_eq_round (e : Engine τ σ) (codec : Codec) :
    e.decode codec = match decodeRound (e, codec) with
      | .inl result => result
      | .inr (e, codec) => e.decode codec := by
  rw [decode, decodeRound]
  split
  · next hr => rw [hr]
  · next hr => rw [hr]
  · next reader p rest asked hr =>
    rw [hr]
    simp only
    generalize (passHeld _ : Progress × Engine τ σ) = passed
    obtain ⟨progress, e⟩ := passed
    cases progress <;> rfl

omit [ByteStream τ] in
theorem decode_of_loops {a : Engine τ σ × Codec} {k : Nat} {b : Progress × Engine τ σ}
    (h : Loops decodeRound a k b) : a.1.decode a.2 = b := by
  induction h with
  | ends h => rw [decode_eq_round, h]
  | goesOn h rest ih =>
    rw [decode_eq_round, h]
    exact ih

/-- The pushes that were made, and those that the parts that are held and the pending input may still
come to. -/
def dues (e : Engine τ (Logged σ SessionCall)) (codec : Codec) : Nat :=
  e.session.pushes + e.held.length + e.expected.surplus + codec.reader.budget codec.reader.pending

section Round

variable {e e' : Engine τ (Logged σ SessionCall)} {codec codec' : Codec} {progress : Progress}
  {reader : FrameReader} {p : Part} {rest : Bytes} {asked : List Nat}

omit [ByteStream τ] in
theorem dues_passHeld (h : e.passHeld = (progress, e')) :
    e'.session.pushes ≤ e.session.pushes + e.held.length ∧ (progress = .proceed → e'.held = []) ∧
      e'.expected = e.expected ∧ e'.stream = e.stream := by
  obtain ⟨hle, hnil⟩ := pushes_passAll e.session e.held
  cases h
  exact ⟨hle, hnil, rfl, rfl⟩

omit [ByteStream τ] [Session σ] in
theorem dues_decoded (h : codec.reader.read = ⟨reader, .ok (some p), rest, asked⟩) :
    reader.budget reader.pending < codec.reader.budget codec.reader.pending ∧
      e.session.pushes + (e.held ++ e.expand p).length + reader.budget reader.pending ≤
        e.dues codec := by
  have hbudget := FrameReader.budget_read (r := codec.reader) (by rw [h])
  rw [h] at hbudget
  have hlt : reader.budget reader.pending < codec.reader.budget codec.reader.pending := hbudget
  have hexpand := e.length_expand_le p
  refine ⟨hlt, ?_⟩
  rw [List.length_append, dues]
  omega

omit [ByteStream τ] [Session σ] in
theorem pushes_le_dues (e : Engine τ (Logged σ SessionCall)) (codec : Codec) :
    e.session.pushes ≤ e.dues codec := by
  rw [dues, Nat.add_assoc, Nat.add_assoc]
  exact Nat.le_add_right ..

omit [ByteStream τ] in
theorem dues_of_ends (h : decodeRound (e, codec) = .inl (progress, e')) :
    e'.session.pushes ≤ e.dues codec ∧ e'.stream = e.stream := by
  have hdone := e.pushes_le_dues codec
  rw [decodeRound] at h
  split at h
  · cases h
    exact ⟨hdone, rfl⟩
  · cases h
    exact ⟨hdone, rfl⟩
  · next reader p rest asked hr =>
    obtain ⟨-, hdues⟩ := dues_decoded (e := e) hr
    have htotal := Nat.le_trans (Nat.le_add_right ..) hdues
    simp only at h
    split at h
    · cases h
    · next he =>
      obtain ⟨hpushes, -, -, hstream⟩ := dues_passHeld he
      cases h
      exact ⟨Nat.le_trans hpushes htotal, hstream⟩
    · next he =>
      obtain ⟨hpushes, -, -, hstream⟩ := dues_passHeld he
      cases h
      exact ⟨Nat.le_trans hpushes htotal, hstream⟩

omit [ByteStream τ] in
theorem dues_of_goesOn (h : decodeRound (e, codec) = .inr (e', codec')) :
    codec'.reader.budget codec'.reader.pending < codec.reader.budget codec.reader.pending ∧
      e'.dues codec' ≤ e.dues codec ∧ e'.stream = e.stream := by
  rw [decodeRound] at h
  split at h
  · cases h
  · cases h
  · next reader p rest asked hr =>
    obtain ⟨hbudget, hdues⟩ := dues_decoded (e := e) hr
    simp only at h
    split at h
    · next he =>
      obtain ⟨hpushes, hheld, hexpected, hstream⟩ := dues_passHeld he
      cases h
      refine ⟨hbudget, ?_, hstream⟩
      -- nothing is held after all was passed on, and no surplus can come any more
      have hdues' : e'.dues { codec with reader } =
          e'.session.pushes + reader.budget reader.pending := by
        rw [dues, hheld rfl, hexpected]
        rfl
      rw [hdues']
      exact Nat.le_trans (Nat.add_le_add_right hpushes _) hdues
    · cases h
    · cases h

omit [ByteStream τ] in
/-- Decoding takes a round for every two bytes at most, and one for a frame that was begun, and it
pushes what is due. -/
theorem loops_decode (e : Engine τ (Logged σ SessionCall)) (codec : Codec) :
    (∃ k, Loops decodeRound (e, codec) k (e.decode codec) ∧
      k ≤ codec.reader.budget codec.reader.pending) ∧
      (e.decode codec).2.session.pushes ≤ e.dues codec ∧
        (e.decode codec).2.stream = e.stream := by
  have hends (a : Engine τ (Logged σ SessionCall) × Codec) (n : Nat)
      (b : Progress × Engine τ (Logged σ SessionCall))
      (h : a.2.reader.budget a.2.reader.pending ≤ n ∧ a.1.dues a.2 ≤ e.dues codec ∧
        a.1.stream = e.stream) (hr : decodeRound a = .inl b) :
      b.2.session.pushes ≤ e.dues codec ∧ b.2.stream = e.stream := by
    obtain ⟨-, hdues, hstream⟩ := h
    obtain ⟨hpushes, hstream'⟩ := dues_of_ends hr
    exact ⟨Nat.le_trans hpushes hdues, hstream'.trans hstream⟩
  have hgoes (a : Engine τ (Logged σ SessionCall) × Codec) (n : Nat)
      (a' : Engine τ (Logged σ SessionCall) × Codec)
      (h : a.2.reader.budget a.2.reader.pending ≤ n ∧ a.1.dues a.2 ≤ e.dues codec ∧
        a.1.stream = e.stream) (hr : decodeRound a = .inr a') :
      ∃ n' < n, a'.2.reader.budget a'.2.reader.pending ≤ n' ∧ a'.1.dues a'.2 ≤ e.dues codec ∧
        a'.1.stream = e.stream := by
    obtain ⟨hn, hdues, hstream⟩ := h
    obtain ⟨hlt, hdues', hstream'⟩ := dues_of_goesOn hr
    exact ⟨_, Nat.lt_of_lt_of_le hlt hn, Nat.le_refl _, Nat.le_trans hdues' hdues,
      hstream'.trans hstream⟩
  obtain ⟨k, b, hl, hk, hb⟩ :=
    exists_loops (a := (e, codec)) hends hgoes ⟨Nat.le_refl _, Nat.le_refl _, rfl⟩
  obtain rfl := decode_of_loops hl
  exact ⟨⟨k, hl, hk⟩, hb⟩

end Round

omit [Session σ] in
theorem refill_spec (e : Engine (Tap τ) σ) (codec : Codec) :
    (e.refill codec).2.2.session = e.session ∧ (e.refill codec).2.2.held = e.held ∧
      (e.refill codec).2.2.expected = e.expected ∧
        (e.refill codec).2.1.reader.pending.length + e.stream.heard.length ≤
          codec.reader.pending.length + (e.refill codec).2.2.stream.heard.length := by
  rw [refill]
  split
  · exact ⟨rfl, rfl, rfl, Nat.le_refl _⟩
  · next hp =>
    have hpending : codec.reader.pending = [] := by
      rw [FrameReader.hasPending] at hp
      simpa using hp
    cases ho : codec.reader.offer with
    | mk room reader =>
      obtain ⟨-, hoffered, -⟩ := FrameReader.offer_frame ho hpending
      simp only
      split
      · next fault stream hr =>
        refine ⟨rfl, rfl, rfl, ?_⟩
        simp only [hoffered, hpending, (Tap.of_read_failed hr).1, Nat.le_refl]
      · next bytes stream hr =>
        have hheard := (Tap.of_read_data hr).1
        have hfilled := (FrameReader.offer_cases ho (List.length_take_le room bytes)).2
        have hlength : ((reader.deposit (bytes.take room)).filled
            (bytes.take room).length).pending.length ≤ (bytes.take room).length := by
          rcases hfilled with ⟨-, hp⟩ | ⟨more, buffer, -, -, -, hp⟩
          · exact Nat.le_of_eq (congrArg _ hp)
          · rw [hp, hpending]
            exact Nat.zero_le _
        split
        · refine ⟨rfl, rfl, rfl, ?_⟩
          simp only [hoffered, hpending, hheard, List.length_append]
          omega
        · refine ⟨rfl, rfl, rfl, ?_⟩
          simp only [hpending, hheard, List.length_append]
          omega

theorem tearDown_frame (e : Engine (Tap τ) (Logged σ SessionCall)) (reason : Teardown) :
    (e.tearDown reason).stream.heard = e.stream.heard ∧
      (e.tearDown reason).session.pushes = e.session.pushes :=
  ⟨rfl, (Logged.pushes_log _ _ .detach).trans (e.session.pushes_log _ .flush)⟩

omit [ByteStream τ] in
theorem flush_frame (e : Engine (Tap τ) (Logged σ SessionCall)) :
    e.flush.stream.heard = e.stream.heard ∧ e.flush.session.pushes = e.session.pushes :=
  ⟨rfl, e.session.pushes_log _ .flush⟩

/-- A call that receives pushes no more than what is held and what the bytes that are pending or read
may come to. -/
theorem receive_spec (e : Engine (Tap τ) (Logged σ SessionCall)) (codec : Codec) :
    (e.receive codec).stream.heard = (e.refill codec).2.2.stream.heard ∧
      (e.receive codec).session.pushes ≤ (e.refill codec).2.2.dues (e.refill codec).2.1 := by
  rw [receive]
  cases e.refill codec with
  | mk progress rest =>
    obtain ⟨codec₁, e₁⟩ := rest
    cases progress with
    | fail reason =>
      obtain ⟨hheard, hpushes⟩ := tearDown_frame { e₁ with codec := some codec₁ } reason
      exact ⟨hheard, Nat.le_trans (Nat.le_of_eq hpushes) (e₁.pushes_le_dues codec₁)⟩
    | pause =>
      obtain ⟨hheard, hpushes⟩ := flush_frame { e₁ with codec := some codec₁ }
      exact ⟨hheard, Nat.le_trans (Nat.le_of_eq hpushes) (e₁.pushes_le_dues codec₁)⟩
    | proceed =>
      obtain ⟨-, hdues, hstream⟩ := loops_decode e₁ codec₁
      simp only
      split
      · next reason e₂ he =>
        obtain ⟨hheard, hpushes⟩ := tearDown_frame e₂ reason
        rw [he] at hdues hstream
        exact ⟨hheard.trans (congrArg Tap.heard hstream),
          Nat.le_trans (Nat.le_of_eq hpushes) hdues⟩
      · next progress e₂ hne he =>
        obtain ⟨hheard, hpushes⟩ := flush_frame e₂
        rw [he] at hdues hstream
        exact ⟨hheard.trans (congrArg Tap.heard hstream),
          Nat.le_trans (Nat.le_of_eq hpushes) hdues⟩

end Engine

namespace Engine

variable {τ σ : Type} [ByteStream τ] [Session σ] {s : Settings}

/-- However often an engine is called, the session has accepted no more parts than the bytes of the
peer may come to. -/
theorem Reached.length_taken_le {e : Engine (Tap τ) (Ledger σ)} (h : Reached s e) :
    e.session.taken.length ≤ e.stream.heard.length / 2 + 1 := by
  have hlive {e : Engine (Tap τ) (Ledger σ)} (h : e.Receives s) :
      e.session.taken.length ≤ e.stream.heard.length / 2 + 1 :=
    Nat.le_trans h.taken_prefix.length_le (s.length_delivered_le _)
  have hkept : (e.isLive = true → e.Receives s) ∧
      e.session.taken.length ≤ e.stream.heard.length / 2 + 1 := by
    apply h.induction (P := fun e => (e.isLive = true → e.Receives s) ∧
      e.session.taken.length ≤ e.stream.heard.length / 2 + 1)
    case hnew => exact fun _ _ _ _ => ⟨(absurd · Bool.false_ne_true), Nat.zero_le _⟩
    case hbegin => exact fun _ _ _ _ => ⟨fun _ => receives_begin .., Nat.zero_le _⟩
    case hstep =>
      intro e e' hl he hs
      have hr := (he.1 hl).step hs
      exact ⟨fun _ => hr, hlive hr⟩
    case hfail =>
      intro e e' reason hl he hf
      obtain ⟨-, hheard, -, htaken⟩ := hf.frame
      refine ⟨(absurd · Bool.false_ne_true), ?_⟩
      change e'.session.taken.length ≤ e'.stream.heard.length / 2 + 1
      rw [htaken]
      have hle := Nat.div_le_div_right (c := 2) hheard.length_le
      exact Nat.le_trans he.2 (Nat.succ_le_succ hle)
    case hworld => exact fun e t u he => ⟨fun hl => (he.1 hl).congr rfl, he.2⟩
    case hstop =>
      intro e he
      rw [Engine.stop]
      split
      · exact he
      · exact ⟨(absurd · Bool.false_ne_true), he.2⟩
  exact hkept.2

/-- Whatever a peer sends, what is done with it has an end. However a reader was used within what it
admits, with every input it comes to one. An engine that receives decodes at most once for every two
bytes that are pending or read, and pushes at most as often, apart from what it holds already and
from what the first part stands for. In all its life its session accepts no more parts than the
bytes that were read may come to. -/
theorem effort_bounded {revision : Revision} {bufferSize limit : Nat} {cs : List FrameReader.Call}
    (hcs : (Usage.start revision bufferSize limit).AdmitsAll cs)
    (e : Engine (Tap τ) (Logged σ SessionCall)) (codec : Codec) {e' : Engine (Tap τ) (Ledger σ)}
    (he : Reached s e') :
    let (_, codec₁, e₁) := e.refill codec
    let n := codec.reader.pending.length +
      ((e.receive codec).stream.heard.length - e.stream.heard.length)
    (∃ answers d, (IndexedReader.new revision bufferSize limit).perform cs = .ok (answers, d) ∧
      d.Terminates) ∧
    (∃ k, Loops decodeRound (e₁, codec₁) k (e₁.decode codec₁) ∧ k ≤ n / 2 + 1) ∧
    (e.receive codec).session.pushes ≤
      e.session.pushes + e.held.length + e.expected.surplus + (n / 2 + 1) ∧
    e'.session.taken.length ≤ e'.stream.heard.length / 2 + 1 := by
  obtain ⟨hsession, hheld, hexpected, hpending⟩ := e.refill_spec codec
  obtain ⟨hheard, hpushes⟩ := e.receive_spec codec
  cases hr : e.refill codec with
  | mk progress rest =>
    obtain ⟨codec₁, e₁⟩ := rest
    simp only [hr] at hsession hheld hexpected hpending hheard hpushes ⊢
    have hn : codec₁.reader.pending.length ≤ codec.reader.pending.length +
        ((e.receive codec).stream.heard.length - e.stream.heard.length) := by
      rw [hheard]
      omega
    have hbudget : codec₁.reader.budget codec₁.reader.pending ≤
        (codec.reader.pending.length +
          ((e.receive codec).stream.heard.length - e.stream.heard.length)) / 2 + 1 :=
      Nat.le_trans (codec₁.reader.budget_le _) (Nat.succ_le_succ (Nat.div_le_div_right hn))
    obtain ⟨⟨k, hl, hk⟩, -⟩ := loops_decode e₁ codec₁
    refine ⟨Usage.terminates_run revision bufferSize limit hcs, ⟨k, hl, Nat.le_trans hk hbudget⟩,
      ?_, he.length_taken_le⟩
    rw [dues, hsession, hheld, hexpected] at hpushes
    exact Nat.le_trans hpushes (Nat.add_le_add_left hbudget _)

/-- A body that its own room completes, after which no input is pending. -/
def filledBody : List FrameReader.Call :=
  [.prime [0, 1], .read, .offer, .deposit [7], .filled 1]

/-- A peer that sends frames without any content. -/
def emptyFrames : Engine (Tap Script) (Logged LinkSession SessionCall) :=
  { Engine.new { role := .router } ""
      ⟨{ Script.empty with input := [.data [0, 0, 0, 0, 0, 0]] }, [], []⟩
      ⟨⟨Link.new ⟨0⟩ 3⟩, []⟩ with expected := .payload }

theorem effort_bounded_emptyFrames :
    let codec := emptyFrames.freshCodec .v2
    let e' := told { role := .router, identity := [0x41] } piecewisePeer fullSession
      [.readable, .writable, .readable, .readable, .readable]
    (emptyFrames.receive codec).stream.heard = [0, 0, 0, 0, 0, 0] ∧
      (emptyFrames.receive codec).session.pushes = 3 ∧
      (emptyFrames.receive codec).session.pushes ≤ 6 / 2 + 1 ∧
      (∃ answers d, (IndexedReader.new .v2 1 8).perform filledBody = .ok (answers, d) ∧
        d.Terminates) ∧
      e'.session.taken.length ≤ e'.stream.heard.length / 2 + 1 := by
  intro codec e'
  have hcs : (Usage.start .v2 1 8).AdmitsAll filledBody := by decide
  have he : Reached { role := .router, identity := [0x41] } e' :=
    reached_told _ piecewisePeer fullSession (by decide)
  have hheard : (emptyFrames.receive codec).stream.heard = [0, 0, 0, 0, 0, 0] := by
    decide +kernel
  obtain ⟨hreader, -, hpushes, htaken⟩ := effort_bounded hcs emptyFrames codec he
  rw [hheard] at hpushes
  exact ⟨hheard, by decide +kernel, Nat.le_trans hpushes (by decide), hreader, htaken⟩

end Engine

end Zmtp
