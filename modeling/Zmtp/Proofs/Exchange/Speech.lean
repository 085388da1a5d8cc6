import Zmtp.Proofs.Engine.Opening
import Zmtp.Proofs.Frame.Encoding

namespace Zmtp

namespace Settings

/-- All that an engine says to one of its own kind: the greeting, its identity and its parts. -/
def speech (s : Settings) (ps : List Part) : Bytes :=
  (Greeting.new s).signature ++ ((Greeting.new s).tailBytes ++
    ((Part.ofBytes s.identity).frame .v2 ++ ps.flatMap (·.frame .v2)))

/-- The sizes that an engine takes from a peer. No body that is in memory is too large to carry. -/
def admits (s : Settings) (size : Nat) : Prop := size ≤ s.bodyLimit ∧ Revision.v2.carries size

/-- Whether all that a peer with the settings `s` says of itself and of its parts is admitted. -/
def takes (t s : Settings) (ps : List Part) : Prop :=
  t.admits s.identity.length ∧ ∀ p ∈ ps, t.admits p.size

instance (s : Settings) (size : Nat) : Decidable (s.admits size) :=
  inferInstanceAs (Decidable (_ ∧ _))

instance (t s : Settings) (ps : List Part) : Decidable (t.takes s ps) :=
  inferInstanceAs (Decidable (_ ∧ _))

/-- What an engine with these settings shows its application of a peer's identity and parts. -/
def shown (s : Settings) (identity : Bytes) (ps : List Part) : List Part :=
  (if s.deliverIdentity then [(Part.ofBytes identity).set .identity] else []) ++ ps.map Part.onWire

variable {s t : Settings} {bytes : Bytes} {ps : List Part}

theorem speech_prefix {more : List Part} (h : ps <+: more) : s.speech ps <+: s.speech more := by
  obtain ⟨rest, rfl⟩ := h
  refine ⟨rest.flatMap (·.frame .v2), ?_⟩
  simp only [speech, List.flatMap_append, List.append_assoc]

theorem takes_of_prefix {more : List Part} (h : ps <+: more) (ht : t.takes s more) :
    t.takes s ps :=
  ⟨ht.1, fun p hp => ht.2 p (h.subset hp)⟩

theorem shown_append (t : Settings) (identity : Bytes) (ps more : List Part) :
    t.shown identity (ps ++ more) = t.shown identity ps ++ more.map Part.onWire := by
  simp only [shown, List.map_append, List.append_assoc]

theorem classify_speech (s : Settings) (ps : List Part) :
    Greeting.classify (s.speech ps) = some (.versioned .v2 s.role.byte) := by
  rw [speech, ← List.append_assoc]
  exact Greeting.classify_greeting (.new s) _

theorem frames_speech (s : Settings) (ps : List Part) :
    (s.speech ps).drop Greeting.size = (Part.ofBytes s.identity :: ps).flatMap (·.frame .v2) := by
  have hlen : ((Greeting.new s).signature ++ (Greeting.new s).tailBytes).length =
      Greeting.size := by
    simp [Greeting.signature, Greeting.tailBytes, Greeting.size]
  rw [speech, ← List.append_assoc, ← hlen, List.drop_left]
  rfl

theorem classify_of_prefix (h : bytes <+: s.speech ps) {n : Negotiated}
    (hn : Greeting.classify bytes = some n) : n = .versioned .v2 s.role.byte := by
  obtain ⟨rest, he⟩ := h
  have hc := Greeting.classify_append hn rest
  rw [he, classify_speech] at hc
  cases n with
  | versionless prebuffered => cases hc
  | versioned revision role =>
    cases hc
    rfl

theorem opening_prefix_speech (s : Settings) (ps : List Part) : s.opening <+: s.speech ps := by
  rw [opening, speech, List.prefix_append_right_inj]
  exact List.prefix_append ..

theorem eq_opening (h : bytes <+: s.speech ps) (hl : bytes.length = Greeting.size) :
    bytes = s.opening := by
  have hp := List.prefix_of_prefix_length_le h (s.opening_prefix_speech ps)
    (by rw [hl, length_opening])
  exact hp.eq_of_length (hl.trans s.length_opening.symm)

theorem looksVersioned_of_prefix (h : bytes <+: s.speech ps) :
    Greeting.looksVersioned bytes = decide (Greeting.signatureSize ≤ bytes.length) := by
  by_cases hl : Greeting.signatureSize ≤ bytes.length
  · have hs : (Greeting.new s).signature <+: bytes :=
      List.prefix_of_prefix_length_le (List.prefix_append ..) h (by rw [length_signature]; exact hl)
    obtain ⟨rest, rfl⟩ := hs
    rw [decide_eq_true hl]
    apply Greeting.looksVersioned_append
    have h8 := Bytes.length_bigEndian 8 ((Greeting.new s).identitySize + 1)
    rw [Greeting.signature, List.cons_append, Greeting.looksVersioned,
      List.getElem?_append_right (by omega), h8]
    rfl
  · rw [decide_eq_false hl]
    exact eq_false_of_ne_true fun ht => hl (Greeting.length_of_looksVersioned ht)

theorem due_prefix {u : Settings} {ps' : List Part} (h : bytes <+: u.speech ps') {begun : Bool}
    (hb : begun = false → ps = []) :
    (Greeting.new s).signature ++ s.due bytes begun ps <+: s.speech ps := by
  rw [speech, List.prefix_append_right_inj, due]
  cases hn : Greeting.classify bytes with
  | none =>
    simp only
    split
    · exact List.prefix_append ..
    · exact List.nil_prefix
  | some n =>
    cases classify_of_prefix h hn
    rw [List.prefix_append_right_inj]
    cases begun with
    | true => exact List.prefix_rfl
    | false =>
      rw [hb rfl]
      exact List.nil_prefix

theorem due_eq {u : Settings} {ps' : List Part} (h : bytes <+: u.speech ps')
    (hn : Greeting.classify bytes ≠ none) :
    (Greeting.new s).signature ++ s.due bytes true ps = s.speech ps := by
  obtain ⟨n, hn⟩ := Option.ne_none_iff_exists'.1 hn
  cases classify_of_prefix h hn
  rw [due, hn]
  rfl

theorem drain_speech (h : t.takes s ps) :
    ((Scanner.new .v2 t.bodyLimit).drain ((s.speech ps).drop Greeting.size)).parts =
        Part.ofBytes s.identity :: ps.map Part.onWire ∧
      ((Scanner.new .v2 t.bodyLimit).drain ((s.speech ps).drop Greeting.size)).fault = none := by
  rw [frames_speech]
  have hd := Scanner.drain_frames (s := .new .v2 t.bodyLimit) rfl (Part.ofBytes s.identity :: ps)
    (List.forall_mem_cons.2 h)
  rwa [List.map_cons, Part.onWire_ofBytes] at hd

/-- A speech is delivered as the identity and the parts that were spoken. -/
theorem delivered_speech (h : t.takes s ps) :
    t.delivered (s.speech ps) = t.shown s.identity ps := by
  have hparts : t.decoded .v2 ((s.speech ps).drop Greeting.size) =
      Part.ofBytes s.identity :: ps.map Part.onWire := (drain_speech h).1
  rw [delivered, classify_speech]
  change t.interpret false (t.decoded .v2 ((s.speech ps).drop Greeting.size)) = _
  rw [hparts]
  rfl

theorem fault_speech (h : t.takes s ps) (hb : bytes <+: s.speech ps) :
    ((Scanner.new .v2 t.bodyLimit).drain (bytes.drop Greeting.size)).fault = none :=
  Scanner.fault_drain_of_prefix (hb.drop Greeting.size) (drain_speech h).2

end Settings

end Zmtp
