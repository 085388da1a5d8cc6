import Zmtp.Frame.FrameReader
import Zmtp.Proofs.Frame.Scan

namespace Zmtp

/-- Filling a body directly is no different from scanning what it is filled with. -/
theorem Scanner.run_fill {s : Scanner} {more : Bool} {buffer : Buffer}
    (hs : s.phase = .body more buffer) {input : Bytes} (hi : input.length ≤ buffer.room)
    (rest : Bytes) :
    { s with phase := .body more (buffer.fill input) }.run rest = s.run (input ++ rest) := by
  rw [run, run, hs]
  change s.runBody more (buffer.fill input) rest = s.runBody more buffer (input ++ rest)
  by_cases hlt : input.length < buffer.room
  · exact (runBody_append_of_lt hlt rest).symm
  · have hr : buffer.room ≤ input.length := Nat.le_of_not_lt hlt
    have hz : (buffer.fill input).room = 0 := by
      rw [Buffer.room_fill, Nat.sub_eq_zero_of_le hr]
    have hle : (buffer.fill input).room ≤ rest.length := hz ▸ Nat.zero_le _
    rw [runBody_append_of_room hr, runBody_of_room hr, runBody_of_room hle, Scan.extend,
      Buffer.bytes_fill, hz, List.take_zero, List.append_nil, List.drop_zero,
      List.drop_of_length_le hi, List.nil_append]

theorem Scanner.drain_congr {s s' : Scanner} {a b : Bytes} (asked : List Nat)
    (h : s.run a = (s'.run b).after asked) :
    (s.drain a).parts = (s'.drain b).parts ∧ (s.drain a).fault = (s'.drain b).fault := by
  cases hb : s'.run b with
  | mk t outcome rest asked =>
    rw [hb] at h
    cases outcome with
    | error fault =>
      rw [drain_of_error h, drain_of_error hb]
      exact ⟨rfl, rfl⟩
    | ok part =>
      cases part with
      | none =>
        rw [drain_of_none h, drain_of_none hb]
        exact ⟨rfl, rfl⟩
      | some p =>
        rw [drain_of_some h, drain_of_some hb]
        exact ⟨rfl, rfl⟩

namespace FrameReader

variable {r r' : FrameReader} {s : Scanner} {fed input rest : Bytes} {parts : List Part}
  {p : Part} {asked : List Nat}

/-- The parts that are complete in what was read already. -/
def left (r : FrameReader) : List Part := (r.scanner.drain r.pending).parts

/-- A reader that was fed and has handed out parts goes on as a scanner would that is given all of
its input at once. -/
structure Follows (s : Scanner) (fed : Bytes) (parts : List Part) (r : FrameReader) : Prop where
  parts : ∀ more,
    (s.drain (fed ++ more)).parts = parts ++ (r.scanner.drain (r.pending ++ more)).parts
  fault : ∀ more, (s.drain (fed ++ more)).fault = (r.scanner.drain (r.pending ++ more)).fault

/-- All rooms that are offered are larger than zero. -/
structure Roomy (r : FrameReader) : Prop where
  threshold : 0 < r.threshold
  staging : 0 < r.staging.size

theorem Follows.left (h : Follows s fed parts r) : (s.drain fed).parts = parts ++ r.left := by
  have hp := h.parts []
  rwa [List.append_nil, List.append_nil] at hp

theorem Follows.feed (h : Follows s fed parts r)
    (hr : ∀ more, (r'.scanner.drain (r'.pending ++ more)).parts =
        (r.scanner.drain (r.pending ++ (input ++ more))).parts ∧
      (r'.scanner.drain (r'.pending ++ more)).fault =
        (r.scanner.drain (r.pending ++ (input ++ more))).fault) :
    Follows s (fed ++ input) parts r' where
  parts more := by rw [List.append_assoc, h.parts, (hr more).1]
  fault more := by rw [List.append_assoc, h.fault, (hr more).2]

theorem Follows.congr (h : Follows s fed parts r) (hs : r'.scanner = r.scanner)
    (hp : r'.pending = r.pending) : Follows s fed parts r' := by
  constructor
  · intro more
    rw [hs, hp]
    exact h.parts more
  · intro more
    rw [hs, hp]
    exact h.fault more

theorem follows_ofSettings (revision : Revision) (s : Settings) :
    Follows (.new revision s.bodyLimit) [] [] (ofSettings revision s) :=
  ⟨fun _ => rfl, fun _ => rfl⟩

theorem roomy_new (revision : Revision) (bufferSize limit : Nat) :
    (new revision bufferSize limit).Roomy where
  threshold := Nat.lt_of_lt_of_le Nat.zero_lt_one (Nat.le_max_right ..)
  staging := by
    change 0 < (Buffer.new _).size
    rw [Buffer.size_new]
    exact Nat.lt_of_lt_of_le Nat.zero_lt_one (Nat.le_max_right ..)

theorem roomy_ofSettings (revision : Revision) (s : Settings) : (ofSettings revision s).Roomy :=
  have h := roomy_new revision s.inputBatch s.bodyLimit
  ⟨h.threshold, h.staging⟩

theorem Follows.prime (h : Follows s fed parts r) (hp : r.pending = []) (input : Bytes) :
    Follows s (fed ++ input) parts (r.prime input) :=
  h.feed fun more => by rw [hp, List.nil_append]; exact ⟨rfl, rfl⟩

theorem size_grow (b : Buffer) (n : Nat) : b.size ≤ (b.grow n).size := by
  simp only [Buffer.size, Buffer.grow]
  omega

theorem Roomy.prime (h : r.Roomy) (input : Bytes) : (r.prime input).Roomy where
  threshold := h.threshold
  staging := by
    apply Nat.lt_of_lt_of_le h.staging
    simp only [FrameReader.prime, Buffer.size_count]
    change _ ≤ (r.staging.rewind.grow input.length).size
    rw [← Buffer.size_rewind]
    exact size_grow ..

theorem offer_cases {room : Nat} (h : r.offer = (room, r')) (hi : input.length ≤ room) :
    ((r'.deposit input).filled input.length).fault = r.fault ∧
      (((r'.deposit input).filled input.length).scanner = r.scanner ∧
          ((r'.deposit input).filled input.length).pending = input ∨
        ∃ more buffer, r.scanner.phase = .body more buffer ∧ input.length ≤ buffer.room ∧
          ((r'.deposit input).filled input.length).scanner =
            { r.scanner with phase := .body more (buffer.fill input) } ∧
          ((r'.deposit input).filled input.length).pending = r.pending) := by
  have hstaging (h : r.offerStaging = (room, r')) :
      ((r'.deposit input).filled input.length).fault = r.fault ∧
        ((r'.deposit input).filled input.length).scanner = r.scanner ∧
          ((r'.deposit input).filled input.length).pending = input := by
    cases h
    refine ⟨rfl, rfl, ?_⟩
    change (((r.staging.rewind.deposit input).rewind).count input.length).bytes = input
    have he : (r.staging.rewind.deposit input).rewind = r.staging.rewind.deposit input := by
      simp [Buffer.rewind, Buffer.deposit, Buffer.bytes, Buffer.size]
    have hroom : (r.staging.rewind.deposit input).room = r.staging.rewind.room := rfl
    rw [he, Buffer.bytes_count, hroom, Nat.min_eq_left hi, Buffer.peek_deposit hi,
      Buffer.bytes_deposit]
    rfl
  rw [offer] at h
  split at h
  · obtain ⟨hf, hs⟩ := hstaging h
    exact ⟨hf, .inl hs⟩
  · next more buffer hph =>
    split at h
    · cases h
      have hfill : (buffer.deposit input).count input.length = buffer.fill input := by
        rw [Buffer.fill, List.take_of_length_le hi]
      simp only [deposit, filled, modifyBody, hph, if_true, hfill]
      exact ⟨trivial, .inr ⟨more, buffer, rfl, hi, rfl, trivial⟩⟩
    · obtain ⟨hf, hs⟩ := hstaging h
      exact ⟨hf, .inl hs⟩

theorem offer_frame {room : Nat} (h : r.offer = (room, r')) (hp : r.pending = []) :
    r'.scanner = r.scanner ∧ r'.pending = [] ∧ r'.fault = r.fault := by
  rw [offer] at h
  split at h
  · cases h
    exact ⟨rfl, rfl, rfl⟩
  · split at h
    · cases h
      exact ⟨rfl, hp, rfl⟩
    · cases h
      exact ⟨rfl, rfl, rfl⟩

theorem revision_filled {room : Nat} (h : r.offer = (room, r')) (hi : input.length ≤ room) :
    ((r'.deposit input).filled input.length).scanner.revision = r.scanner.revision := by
  obtain ⟨-, ⟨hs, -⟩ | ⟨more, buffer, -, -, hs, -⟩⟩ := offer_cases h hi
  · rw [hs]
  · rw [hs]

theorem Follows.filled (h : Follows s fed parts r) (hp : r.pending = []) {room : Nat}
    (ho : r.offer = (room, r')) (hi : input.length ≤ room) :
    Follows s (fed ++ input) parts ((r'.deposit input).filled input.length) := by
  apply h.feed
  intro more
  rw [hp, List.nil_append]
  rcases (offer_cases ho hi).2 with ⟨hs, hpend⟩ | ⟨b, buffer, hph, hroom, hs, hpend⟩
  · rw [hs, hpend]
    exact ⟨rfl, rfl⟩
  · rw [hs, hpend, hp, List.nil_append]
    exact Scanner.drain_congr [] (Scanner.run_fill hph hroom more)

theorem Roomy.offer (h : r.Roomy) {room : Nat} (ho : r.offer = (room, r')) :
    0 < room ∧ r'.Roomy := by
  have hstaging (ho : r.offerStaging = (room, r')) : 0 < room ∧ r'.Roomy := by
    cases ho
    have hs := h.staging
    refine ⟨?_, h.threshold, ?_⟩
    · change 0 < r.staging.size
      exact hs
    · rw [Buffer.size_rewind]
      exact hs
  rw [FrameReader.offer] at ho
  split at ho
  · exact hstaging ho
  · split at ho
    · next hle =>
      cases ho
      exact ⟨Nat.lt_of_lt_of_le h.threshold hle, h.threshold, h.staging⟩
    · exact hstaging ho

theorem Roomy.modifyBody (h : r.Roomy) (f : Buffer → Buffer) : (r.modifyBody f).Roomy := by
  rw [FrameReader.modifyBody]
  split <;> exact ⟨h.threshold, h.staging⟩

theorem Roomy.deposit (h : r.Roomy) (input : Bytes) : (r.deposit input).Roomy := by
  rw [FrameReader.deposit]
  split
  · exact h.modifyBody _
  · exact ⟨h.threshold, h.staging⟩

theorem Roomy.filled (h : r.Roomy) (n : Nat) : (r.filled n).Roomy := by
  rw [FrameReader.filled]
  split
  · have h' := h.modifyBody (·.count n)
    exact ⟨h'.threshold, h'.staging⟩
  · refine ⟨h.threshold, ?_⟩
    change 0 < (r.staging.rewind.count n).size
    rw [Buffer.size_count, Buffer.size_rewind]
    exact h.staging

theorem read_eq (hf : r.fault = none) :
    r.read = match r.scanner.run r.pending with
      | ⟨s, .error fault, rest, asked⟩ =>
        ⟨(r.advance s asked).poison fault, .error fault, rest, asked⟩
      | ⟨s, .ok part, rest, asked⟩ =>
        ⟨{ r.advance s asked with pending := rest }, .ok part, rest, asked⟩ := by
  rw [read, readFrom, hf]
  cases r.scanner.run r.pending with
  | mk s outcome rest asked => cases outcome <;> rfl

@[simp] theorem revision_readFrom (r : FrameReader) (input : Bytes) :
    (r.readFrom input).reader.scanner.revision = r.scanner.revision := by
  have hs := r.scanner.revision_run input
  rw [readFrom]
  split
  · rfl
  · split <;> rwa [‹r.scanner.run input = _›] at hs

@[simp] theorem revision_read (r : FrameReader) :
    r.read.reader.scanner.revision = r.scanner.revision := by
  have hs := r.revision_readFrom r.pending
  rw [read]
  split <;> rwa [‹r.readFrom r.pending = _›] at hs

theorem Roomy.read (h : r.Roomy) : r.read.reader.Roomy := by
  rw [FrameReader.read, readFrom]
  cases r.fault with
  | some fault => exact h
  | none =>
    cases r.scanner.run r.pending with
    | mk s outcome rest asked => cases outcome <;> exact ⟨h.threshold, h.staging⟩

/-- A part that is complete is read before the stream is. -/
def Quiet (r : FrameReader) : Prop := r.pending = [] → r.left = []

theorem Quiet.congr (h : r.Quiet) (hs : r'.scanner = r.scanner) (hp : r'.pending = r.pending) :
    r'.Quiet := by
  intro hp'
  rw [left, hs, hp]
  exact h (hp.symm.trans hp')

theorem quiet_of_head {reader : HeadReader} (hs : r.scanner.phase = .head reader) : r.Quiet := by
  intro hp
  have hr : r.scanner.run [] = ⟨{ r.scanner with phase := .head reader }, .ok none, [], []⟩ := by
    rw [Scanner.run, hs]
    rfl
  rw [left, hp, Scanner.drain_of_none hr]

theorem fault_of_read {part : Option Part} (hr : r.read = ⟨r', .ok part, rest, asked⟩) :
    r.fault = none := by
  cases hf : r.fault with
  | none => rfl
  | some fault =>
    rw [read, readFrom, hf] at hr
    cases hr

theorem fault_read {part : Option Part} (hr : r.read = ⟨r', .ok part, rest, asked⟩) :
    r'.fault = none := by
  have hf := fault_of_read hr
  rw [read_eq hf] at hr
  cases hs : r.scanner.run r.pending with
  | mk s' outcome rest' asked' =>
    rw [hs] at hr
    cases outcome with
    | error fault => cases hr
    | ok part =>
      cases hr
      exact hf

theorem quiet_of_read_some (hr : r.read = ⟨r', .ok (some p), rest, asked⟩) : r'.Quiet := by
  rw [read_eq (fault_of_read hr)] at hr
  cases hs : r.scanner.run r.pending with
  | mk s' outcome rest' asked' =>
    rw [hs] at hr
    cases outcome with
    | error fault => cases hr
    | ok part =>
      cases hr
      exact quiet_of_head (Scanner.phase_of_run hs)

theorem left_of_read_none (hr : r.read = ⟨r', .ok none, rest, asked⟩) :
    r'.pending = [] ∧ r'.left = [] ∧ ∀ more,
      (r.scanner.drain (r.pending ++ more)).parts = (r'.scanner.drain more).parts ∧
        (r.scanner.drain (r.pending ++ more)).fault = (r'.scanner.drain more).fault := by
  rw [read_eq (fault_of_read hr)] at hr
  cases hs : r.scanner.run r.pending with
  | mk s' outcome rest' asked' =>
    rw [hs] at hr
    cases outcome with
    | error fault => cases hr
    | ok part =>
      cases hr
      have hrest : rest = [] := by
        have hrest := Scanner.rest_run_of_none (s := r.scanner) (a := r.pending) (by rw [hs])
        rwa [hs] at hrest
      have hd (more : Bytes) := Scanner.drain_congr asked (by
        have happ := Scanner.run_append_of_none (a := r.pending) (by rw [hs]) more
        rwa [hs] at happ)
      refine ⟨hrest, ?_, hd⟩
      have hl := (hd []).1
      rw [List.append_nil, Scanner.drain_of_none hs] at hl
      rw [left, hrest]
      exact hl.symm

theorem Follows.read_some (h : Follows s fed parts r)
    (hr : r.read = ⟨r', .ok (some p), rest, asked⟩) : Follows s fed (parts ++ [p]) r' := by
  rw [read_eq (fault_of_read hr)] at hr
  cases hs : r.scanner.run r.pending with
  | mk s' outcome rest' asked' =>
    rw [hs] at hr
    cases outcome with
    | error fault => cases hr
    | ok part =>
      cases hr
      have happ (more : Bytes) := Scanner.run_append (a := r.pending) (by rw [hs]; nofun) more
      rw [hs] at happ
      constructor
      · intro more
        rw [h.parts, Scanner.drain_of_some (happ more), List.append_assoc]
        rfl
      · intro more
        rw [h.fault, Scanner.drain_of_some (happ more)]
        rfl

theorem Follows.read_none (h : Follows s fed parts r)
    (hr : r.read = ⟨r', .ok none, rest, asked⟩) : Follows s fed parts r' := by
  obtain ⟨hp, -, hd⟩ := left_of_read_none hr
  constructor
  · intro more
    rw [h.parts, (hd more).1, hp, List.nil_append]
  · intro more
    rw [h.fault, (hd more).2, hp, List.nil_append]

theorem Follows.read_error (h : Follows s fed parts r) (hf : r.fault = none) {fault : WireFault}
    (hr : r.read = ⟨r', .error fault, rest, asked⟩) : (s.drain fed).fault = some fault := by
  rw [read_eq hf] at hr
  cases hs : r.scanner.run r.pending with
  | mk s' outcome rest' asked' =>
    rw [hs] at hr
    cases outcome with
    | ok part => cases hr
    | error fault' =>
      cases hr
      have hfault := h.fault []
      rwa [List.append_nil, List.append_nil, Scanner.drain_of_error hs] at hfault

end FrameReader

end Zmtp
