import Zmtp.Proofs.Frame.Reader

namespace Zmtp

namespace Drain

variable {σ : Type} {d d' d'' : Drain σ}

/-- A drain that goes on after another, which left no fault. -/
def after (d : Drain σ) (parts : List Part) (rest : Bytes) (asked : List Nat) : Drain σ :=
  { d with parts := parts ++ d.parts, rest := rest ++ d.rest, requests := asked ++ d.requests }

/-- The same but for the input that was left over. -/
structure Agrees (d d' : Drain σ) : Prop where
  state : d.state = d'.state
  parts : d.parts = d'.parts
  fault : d.fault = d'.fault
  requests : d.requests = d'.requests

namespace Agrees

theorem refl (d : Drain σ) : d.Agrees d := ⟨rfl, rfl, rfl, rfl⟩

theorem symm (h : d.Agrees d') : d'.Agrees d :=
  ⟨h.state.symm, h.parts.symm, h.fault.symm, h.requests.symm⟩

theorem trans (h : d.Agrees d') (h' : d'.Agrees d'') : d.Agrees d'' :=
  ⟨h.state.trans h'.state, h.parts.trans h'.parts, h.fault.trans h'.fault,
    h.requests.trans h'.requests⟩

theorem after (h : d.Agrees d') (parts : List Part) (rest rest' : Bytes) (asked : List Nat) :
    (d.after parts rest asked).Agrees (d'.after parts rest' asked) :=
  ⟨h.state, congrArg (parts ++ ·) h.parts, h.fault, congrArg (asked ++ ·) h.requests⟩

end Agrees

end Drain

namespace Scanner

variable {s s' : Scanner} {a : Bytes}

theorem run_nil (h : s.weight = 0) : s.run [] = ⟨s, .ok none, [], []⟩ := by
  obtain ⟨revision, limit, phase⟩ := s
  cases phase with
  | head reader => rfl
  | body more buffer =>
    have hroom : 0 < buffer.room := by
      apply Nat.pos_of_ne_zero
      intro h0
      simp only [weight, h0, if_true] at h
      cases h
    have hfill : buffer.fill [] = buffer := by
      simp only [Buffer.fill_eq, List.take_nil, List.reverse_nil, List.nil_append, List.length_nil,
        Nat.sub_zero, Nat.min_zero, List.drop_zero]
    rw [run]
    simp only
    rw [runBody_of_lt (a := []) hroom, hfill]

theorem weight_of_run_none {rest : Bytes} {asked : List Nat}
    (h : s.run a = ⟨s', .ok none, rest, asked⟩) : s'.weight = 0 := by
  have happ := run_append_of_none (s := s) (a := a) (by rw [h]) []
  rw [List.append_nil, h] at happ
  have hout : (s'.run []).outcome = .ok none := (congrArg Scan.outcome happ).symm
  obtain ⟨revision, limit, phase⟩ := s'
  cases phase with
  | head reader => rfl
  | body more buffer =>
    apply if_neg
    intro h0
    rw [run] at hout
    simp only at hout
    rw [runBody_of_room (h0 ▸ Nat.zero_le _)] at hout
    cases hout

end Scanner

namespace FrameReader

variable {r r' : FrameReader} {a rest : Bytes} {asked : List Nat} {p : Part} {fault : WireFault}

theorem readFrom_eq (hf : r.fault = none) (input : Bytes) :
    r.readFrom input = match r.scanner.run input with
      | ⟨s, .error fault, rest, asked⟩ =>
        ⟨(r.advance s asked).poison fault, .error fault, rest, asked⟩
      | ⟨s, .ok part, rest, asked⟩ => ⟨r.advance s asked, .ok part, rest, asked⟩ := by
  cases hr : r.scanner.run input with
  | mk s outcome rest asked => cases outcome <;> simp only [readFrom, hf, hr]

theorem run_of_readFrom {part : Option Part} (h : r.readFrom a = ⟨r', .ok part, rest, asked⟩) :
    r.fault = none ∧ ∃ s, r.scanner.run a = ⟨s, .ok part, rest, asked⟩ ∧ r' = r.advance s asked := by
  cases hf : r.fault with
  | some fault =>
    rw [readFrom, hf] at h
    cases h
  | none =>
    rw [readFrom_eq hf] at h
    cases hs : r.scanner.run a with
    | mk s outcome rest' asked' =>
      rw [hs] at h
      cases outcome with
      | error fault => cases h
      | ok part =>
        cases h
        exact ⟨rfl, s, rfl, rfl⟩

theorem load_readFrom (h : r.readFrom a = ⟨r', .ok (some p), rest, asked⟩) :
    rest.length + r'.scanner.weight < a.length + r.scanner.weight := by
  obtain ⟨-, s, hs, rfl⟩ := run_of_readFrom h
  exact Scanner.load_run hs

/-- Reads part after part from the given input, until it gives none. -/
def readEach (r : FrameReader) (input : Bytes) : Drain FrameReader :=
  match _h : r.readFrom input with
  | ⟨r, .error fault, _, asked⟩ => ⟨r, [], some fault, input, asked⟩
  | ⟨r, .ok none, rest, asked⟩ => ⟨r, [], none, rest, asked⟩
  | ⟨r, .ok (some p), rest, asked⟩ => (r.readEach rest).after [p] [] asked
termination_by input.length + r.scanner.weight
decreasing_by exact load_readFrom _h

/-- Reads an input that comes in pieces, up to the first fault. -/
def readPieces (r : FrameReader) : List Bytes → Drain FrameReader
  | [] => ⟨r, [], none, [], []⟩
  | input :: pieces =>
    match r.readEach input with
    | ⟨r, parts, some fault, rest, asked⟩ => ⟨r, parts, some fault, rest ++ pieces.flatten, asked⟩
    | ⟨r, parts, none, rest, asked⟩ => (r.readPieces pieces).after parts rest asked

theorem readEach_of_error (h : r.readFrom a = ⟨r', .error fault, rest, asked⟩) :
    r.readEach a = ⟨r', [], some fault, a, asked⟩ := by
  rw [readEach]
  split
  · next h' =>
    cases h.symm.trans h'
    rfl
  · next h' => cases h.symm.trans h'
  · next h' => cases h.symm.trans h'

theorem readEach_of_none (h : r.readFrom a = ⟨r', .ok none, rest, asked⟩) :
    r.readEach a = ⟨r', [], none, rest, asked⟩ := by
  rw [readEach]
  split
  · next h' => cases h.symm.trans h'
  · next h' =>
    cases h.symm.trans h'
    rfl
  · next h' => cases h.symm.trans h'

theorem readEach_of_some (h : r.readFrom a = ⟨r', .ok (some p), rest, asked⟩) :
    r.readEach a = (r'.readEach rest).after [p] [] asked := by
  rw [readEach]
  split
  · next h' => cases h.symm.trans h'
  · next h' => cases h.symm.trans h'
  · next h' =>
    cases h.symm.trans h'
    rfl

theorem advance_advance (r : FrameReader) (s s' : Scanner) (asked asked' : List Nat) :
    (r.advance s asked).advance s' asked' = r.advance s' (asked ++ asked') := by
  simp only [advance, BodyStore.allocateAll, List.foldl_append]

/-- Reading part after part is what draining the scanner does at once. -/
theorem readEach_eq (r : FrameReader) (input : Bytes) : r.readEach input = r.readAllFrom input := by
  cases hf : r.fault with
  | some fault =>
    have hr : r.readFrom input = ⟨r, .error fault, input, []⟩ := by rw [readFrom, hf]
    rw [readEach_of_error hr, readAllFrom, hf]
  | none =>
    induction hn : input.length + r.scanner.weight using Nat.strongRecOn generalizing r input with
    | ind n ih =>
      have hr := readFrom_eq hf input
      rw [readAllFrom, hf]
      cases hs : r.scanner.run input with
      | mk s outcome rest asked =>
        rw [hs] at hr
        cases outcome with
        | error fault => rw [readEach_of_error hr, Scanner.drain_of_error hs]
        | ok part =>
          cases part with
          | none => rw [readEach_of_none hr, Scanner.drain_of_none hs]
          | some p =>
            have hlt := Scanner.load_run hs
            have hscan : (r.advance s asked).scanner = s := rfl
            rw [readEach_of_some hr, Scanner.drain_of_some hs,
              ih _ (hn ▸ hlt) (r.advance s asked) rest hf rfl, readAllFrom,
              show (r.advance s asked).fault = none from hf, hscan]
            cases s.drain rest with
            | mk s' parts fault rest' asked' =>
              cases fault <;> simp only [Drain.after, advance_advance] <;> rfl

theorem readEach_drain (hf : r.fault = none) (input : Bytes) :
    (r.readEach input).parts = (r.scanner.drain input).parts ∧
      (r.readEach input).fault = (r.scanner.drain input).fault ∧
        (r.readEach input).state.fault = (r.scanner.drain input).fault := by
  rw [readEach_eq, readAllFrom, hf]
  cases r.scanner.drain input with
  | mk s parts fault rest asked =>
    cases fault with
    | none => exact ⟨rfl, rfl, hf⟩
    | some fault => exact ⟨rfl, rfl, rfl⟩

theorem scanner_readEach (hf : r.fault = none) (input : Bytes) :
    (r.readEach input).state.scanner = (r.scanner.drain input).state := by
  rw [readEach_eq, readAllFrom, hf]
  cases r.scanner.drain input with
  | mk s parts fault rest asked => cases fault <;> rfl

/-- No fault was met, and no part is complete and held back. -/
structure Idle (r : FrameReader) : Prop where
  fault : r.fault = none
  weight : r.scanner.weight = 0

theorem readEach_nil (h : r.Idle) : r.readEach [] = ⟨r, [], none, [], []⟩ := by
  have hr := readFrom_eq h.fault []
  rw [Scanner.run_nil h.weight] at hr
  exact readEach_of_none hr

theorem idle_readEach (h : (r.readEach a).fault = none) :
    (r.readEach a).state.Idle ∧ (r.readEach a).rest = [] := by
  induction r, a using readEach.induct with
  | case1 r input r' fault rest asked hr =>
    rw [readEach_of_error hr] at h
    cases h
  | case2 r input r' rest asked hr =>
    rw [readEach_of_none hr]
    obtain ⟨hf, s, hs, rfl⟩ := run_of_readFrom hr
    have hrest := Scanner.rest_run_of_none (s := r.scanner) (a := input) (by rw [hs])
    rw [hs] at hrest
    exact ⟨⟨hf, Scanner.weight_of_run_none hs⟩, hrest⟩
  | case3 r input r' rest asked p hr ih =>
    rw [readEach_of_some hr] at h ⊢
    exact ih h

theorem readEach_append (h : (r.readEach a).fault = none) (b : Bytes) :
    (r.readEach (a ++ b)).Agrees
      (((r.readEach a).state.readEach b).after (r.readEach a).parts [] (r.readEach a).requests) := by
  simp only [readEach_eq] at h ⊢
  cases hf : r.fault with
  | some fault =>
    rw [readAllFrom, hf] at h
    cases h
  | none =>
    rw [readAllFrom, hf] at h
    rw [readAllFrom, readAllFrom.eq_1 r a, hf]
    have happ := Scanner.drain_append (s := r.scanner) (a := a)
    cases hd : r.scanner.drain a with
    | mk s parts fault rest asked =>
      rw [hd] at h happ
      cases fault with
      | some fault => cases h
      | none =>
        obtain ⟨rest', he⟩ := happ rfl b
        have hscan : (r.advance s asked).scanner = s := rfl
        simp only
        rw [he, readAllFrom, show (r.advance s asked).fault = none from hf, hscan]
        simp only
        cases s.drain b with
        | mk s' parts' fault' rest'' asked' =>
          cases fault' <;> simp only [Drain.after, advance_advance] <;> exact ⟨rfl, rfl, rfl, rfl⟩

theorem readEach_append_of_fault (h : (r.readEach a).fault = some fault) (b : Bytes) :
    (r.readEach (a ++ b)).Agrees (r.readEach a) := by
  simp only [readEach_eq] at h ⊢
  cases hf : r.fault with
  | some fault' =>
    rw [readAllFrom, readAllFrom.eq_1 r a, hf]
    exact ⟨rfl, rfl, rfl, rfl⟩
  | none =>
    rw [readAllFrom, hf] at h
    rw [readAllFrom, readAllFrom.eq_1 r a, hf]
    have happ (hd : (r.scanner.drain a).fault = some fault) := Scanner.drain_append_of_fault hd
    cases hd : r.scanner.drain a with
    | mk s parts fault' rest asked =>
      rw [hd] at h happ
      cases fault' with
      | none => cases h
      | some fault' =>
        cases h
        simp only
        rw [happ rfl b]
        exact ⟨rfl, rfl, rfl, rfl⟩

theorem readPieces_of_fault {input : Bytes} {pieces : List Bytes}
    (h : (r.readEach input).fault = some fault) :
    (r.readPieces (input :: pieces)).Agrees (r.readEach input) := by
  rw [readPieces]
  cases hd : r.readEach input with
  | mk r' parts fault' rest asked =>
    rw [hd] at h
    cases h
    exact ⟨rfl, rfl, rfl, rfl⟩

theorem readPieces_of_none {input : Bytes} (h : (r.readEach input).fault = none)
    (pieces : List Bytes) :
    r.readPieces (input :: pieces) =
      ((r.readEach input).state.readPieces pieces).after (r.readEach input).parts
        (r.readEach input).rest (r.readEach input).requests := by
  rw [readPieces]
  cases hd : r.readEach input with
  | mk r' parts fault' rest asked =>
    rw [hd] at h
    cases h
    rfl

theorem readPieces_cons {pieces : List Bytes}
    (ih : ∀ r : FrameReader, r.Idle → (r.readPieces pieces).Agrees (r.readEach pieces.flatten))
    (r : FrameReader) (input : Bytes) :
    (r.readPieces (input :: pieces)).Agrees (r.readEach (input ++ pieces.flatten)) := by
  cases hf : (r.readEach input).fault with
  | some fault =>
    exact (readPieces_of_fault hf).trans (readEach_append_of_fault hf _).symm
  | none =>
    rw [readPieces_of_none hf]
    have hrest := (ih _ (idle_readEach hf).1).after (r.readEach input).parts
      (r.readEach input).rest [] (r.readEach input).requests
    exact hrest.trans (readEach_append hf _).symm

theorem readPieces_of_idle (h : r.Idle) (pieces : List Bytes) :
    (r.readPieces pieces).Agrees (r.readEach pieces.flatten) := by
  induction pieces generalizing r with
  | nil =>
    rw [List.flatten_nil, readEach_nil h]
    exact .refl _
  | cons input pieces ih => exact readPieces_cons (fun _ => ih) r input

theorem rest_readPieces {pieces : List Bytes} (h : (r.readPieces pieces).fault = none) :
    (r.readPieces pieces).rest = [] := by
  induction pieces generalizing r with
  | nil => rfl
  | cons input pieces ih =>
    cases hf : (r.readEach input).fault with
    | some fault =>
      rw [(readPieces_of_fault hf).fault, hf] at h
      cases h
    | none =>
      rw [readPieces_of_none hf] at h ⊢
      have hrest := ih h
      simp only [Drain.after, (idle_readEach hf).2, hrest, List.append_nil]

/-- A way to cut the input of a reader into pieces, some of which may be empty. Only a reader that has
nothing to tell can do without a piece. -/
structure Cut (r : FrameReader) (input : Bytes) where
  pieces : List Bytes
  flatten : pieces.flatten = input
  idle : pieces = [] → r.Idle

theorem readPieces_cut {input : Bytes} (cut : r.Cut input) :
    (r.readPieces cut.pieces).Agrees (r.readEach input) := by
  obtain ⟨pieces, rfl, hidle⟩ := cut
  cases pieces with
  | nil => exact readPieces_of_idle (hidle rfl) []
  | cons piece pieces => exact readPieces_cons (fun _ hr => readPieces_of_idle hr pieces) r piece

/-- It makes no difference to a reader, whatever state it is in, where its input is cut. The parts, the
storage that is asked for and the first fault are the same, and so is the reader that remains. -/
theorem readPieces_agrees (r : FrameReader) {input : Bytes} (cut cut' : r.Cut input) :
    (r.readPieces cut.pieces).Agrees (r.readPieces cut'.pieces) :=
  (readPieces_cut cut).trans (readPieces_cut cut').symm

/-- A reader in the middle of a header. -/
def midHeader : FrameReader := ((new .v2 4 8).readFrom [1]).reader

/-- The rest of that frame, another frame, and a byte that begins none. -/
def atOnce : midHeader.Cut [2, 7, 8, 0, 1, 9, 0xf0] := ⟨[[2, 7, 8, 0, 1, 9, 0xf0]], rfl, nofun⟩

def inPieces : midHeader.Cut [2, 7, 8, 0, 1, 9, 0xf0] :=
  ⟨[[], [2, 7], [8], [], [0, 1], [9, 0xf0]], rfl, nofun⟩

theorem readPieces_agrees_inPieces :
    (midHeader.readPieces inPieces.pieces).parts = [.ofMore [7, 8] true, .ofBytes [9]] ∧
      (midHeader.readPieces inPieces.pieces).fault = some (.reservedBits 0xf0) ∧
      (midHeader.readPieces inPieces.pieces).Agrees (midHeader.readPieces atOnce.pieces) :=
  ⟨by decide +kernel, by decide +kernel, readPieces_agrees midHeader inPieces atOnce⟩

end FrameReader

end Zmtp
