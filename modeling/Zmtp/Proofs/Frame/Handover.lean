import Zmtp.Proofs.Frame.Pieces

namespace Zmtp

/-- The same buffer where other bytes lie past its filled part. -/
def Buffer.soil (b : Buffer) (contents : Bytes) : Buffer := { b with beyond := contents }

/-- A body that becomes complete does not depend on what lay past its filled part. -/
theorem Scanner.run_soil {s : Scanner} {more : Bool} {buffer : Buffer}
    (hs : s.phase = .body more buffer) (contents input : Bytes) :
    { s with phase := .body more (buffer.soil contents) }.run input = s.run input ∨
      ∃ t t', s.run input = ⟨t, .ok none, [], []⟩ ∧
        { s with phase := .body more (buffer.soil contents) }.run input =
          ⟨t', .ok none, [], []⟩ := by
  have hrun : s.run input = s.runBody more buffer input := by rw [run, hs]
  by_cases hr : buffer.room ≤ input.length
  · have hsoiled : (buffer.soil contents).room ≤ input.length := hr
    apply Or.inl
    rw [hrun, run, runBody_of_room hr]
    simp only
    rw [runBody_of_room hsoiled, Buffer.bytes_fill, Buffer.bytes_fill]
    rfl
  · have hlt : input.length < buffer.room := Nat.lt_of_not_le hr
    exact .inr ⟨_, _, hrun.trans (runBody_of_lt hlt), runBody_of_lt (a := input) hlt⟩

theorem Scanner.drain_soil {s : Scanner} {more : Bool} {buffer : Buffer}
    (hs : s.phase = .body more buffer) (contents input : Bytes) :
    ({ s with phase := .body more (buffer.soil contents) }.drain input).parts =
        (s.drain input).parts ∧
      ({ s with phase := .body more (buffer.soil contents) }.drain input).fault =
        (s.drain input).fault := by
  rcases run_soil hs contents input with heq | ⟨t, t', ht, ht'⟩
  · exact drain_congr [] heq
  · rw [drain_of_none ht, drain_of_none ht']
    exact ⟨rfl, rfl⟩

namespace FrameReader

variable {r r' : FrameReader} {s : Scanner} {fed input rest : Bytes} {parts : List Part}
  {asked : List Nat}

/-- The same reader where other bytes lie in the storage of a body that is not complete. -/
def soil (r : FrameReader) (contents : Bytes) : FrameReader := r.modifyBody (·.soil contents)

theorem soil_frame (r : FrameReader) (contents : Bytes) :
    (r.soil contents).fault = r.fault ∧ (r.soil contents).pending = r.pending ∧
      (r.soil contents).scanner.weight = r.scanner.weight := by
  rw [soil, modifyBody]
  cases hs : r.scanner.phase with
  | head reader => exact ⟨rfl, rfl, rfl⟩
  | body more buffer =>
    refine ⟨rfl, rfl, ?_⟩
    simp only [Scanner.weight, hs]
    rfl

theorem soil_pending (r : FrameReader) (contents pending : Bytes) :
    { r with pending }.soil contents = { r.soil contents with pending } := by
  obtain ⟨⟨revision, limit, phase⟩, store, threshold, staging, _, direct, fault⟩ := r
  cases phase <;> rfl

theorem Follows.soil (h : Follows s fed parts r) (contents : Bytes) :
    Follows s fed parts (r.soil contents) := by
  rw [FrameReader.soil, modifyBody]
  cases hs : r.scanner.phase with
  | head reader => exact h
  | body more buffer =>
    constructor
    · intro behind
      rw [h.parts]
      exact congrArg (parts ++ ·) (Scanner.drain_soil hs contents _).1.symm
    · intro behind
      rw [h.fault]
      exact (Scanner.drain_soil hs contents _).2.symm

theorem setStore_filled (r : FrameReader) (store : BodyStore) (n : Nat) :
    (r.setStore store).filled n = (r.filled n).setStore store := by
  obtain ⟨⟨revision, limit, phase⟩, _, threshold, staging, pending, direct, fault⟩ := r
  cases direct with
  | false => rfl
  | true => cases phase <;> rfl

theorem idle_of_read_none (hr : r.read = ⟨r', .ok none, rest, asked⟩) : r'.Idle := by
  have hf := fault_read hr
  rw [read_eq (fault_of_read hr)] at hr
  cases hs : r.scanner.run r.pending with
  | mk s' outcome rest' asked' =>
    rw [hs] at hr
    cases outcome with
    | error fault => cases hr
    | ok part =>
      cases hr
      exact ⟨hf, Scanner.weight_of_run_none hs⟩

theorem read_pending (hf : r.fault = none) (input : Bytes) :
    { r with pending := input }.read = match r.readFrom input with
      | ⟨r', .error fault, rest, asked⟩ => ⟨r', .error fault, rest, asked⟩
      | ⟨r', .ok part, rest, asked⟩ => ⟨{ r' with pending := rest }, .ok part, rest, asked⟩ := by
  rw [read_eq (by exact hf), readFrom_eq hf]
  cases r.scanner.run input with
  | mk s outcome rest asked => cases outcome <;> rfl

theorem left_of_read_error (hf : r.fault = none) {fault : WireFault}
    (hr : r.read = ⟨r', .error fault, rest, asked⟩) : r.left = [] := by
  rw [read_eq hf] at hr
  cases hs : r.scanner.run r.pending with
  | mk s' outcome rest' asked' =>
    rw [hs] at hr
    cases outcome with
    | ok part => cases hr
    | error fault' => rw [left, Scanner.drain_of_error hs]

theorem Roomy.readFrom (h : r.Roomy) (input : Bytes) : (r.readFrom input).reader.Roomy := by
  rw [FrameReader.readFrom]
  cases r.fault with
  | some fault => exact h
  | none =>
    cases r.scanner.run input with
    | mk s outcome rest asked => cases outcome <;> exact ⟨h.threshold, h.staging⟩

end FrameReader

/-- How far a round is in which bytes are handed to a reader. -/
inductive Handover.Stage where
  | closed
  /-- So many bytes lie in the room that was offered, and the reader was not told of them. -/
  | written (n : Nat)
  /-- The reader is asked for the parts of its pending input. -/
  | staged
  /-- The reader is asked for the parts of an input, of which so much is left. -/
  | given (rest : Bytes)
  | failed (fault : WireFault)
  deriving DecidableEq

namespace Handover.Stage

def isWritten : Stage → Bool
  | written _ => true
  | _ => false

def isReading : Stage → Bool
  | staged => true
  | given _ => true
  | _ => false

end Handover.Stage

/-- A reader that bytes are handed to in rounds. -/
structure Handover where
  reader : FrameReader
  stage : Handover.Stage
  /-- All bytes that were handed over. -/
  fed : Bytes
  /-- The parts that the reader has told. -/
  told : List Part

namespace Handover

/-- One call of a reader. -/
inductive Call where
  /-- Takes the room that is offered and copies bytes into it. -/
  | write (input : Bytes)
  | filled
  | prime (input : Bytes)
  | give (input : Bytes)
  /-- Asks for the next part. -/
  | next
  | setStore (store : BodyStore)
  /-- Storage may hold anything where nothing was written yet. -/
  | soil (contents : Bytes)

def new (revision : Revision) (bufferSize limit : Nat) : Handover :=
  ⟨.new revision bufferSize limit, .closed, [], []⟩

def tell (h : Handover) (reading : Reading) (stage : Stage) : Handover :=
  match reading.outcome with
  | .error fault => { h with reader := reading.reader, stage := .failed fault }
  | .ok none => { h with reader := reading.reader, stage := .closed }
  | .ok (some p) => { h with reader := reading.reader, stage, told := h.told ++ [p] }

def next (h : Handover) : Handover :=
  match h.stage with
  | .staged => h.tell h.reader.read .staged
  | .given rest => h.tell (h.reader.readFrom rest) (.given (h.reader.readFrom rest).rest)
  | _ => h

def play (h : Handover) : Call → Handover
  | .write input =>
    { h with
      reader := h.reader.offer.2.deposit input
      stage := .written input.length
      fed := h.fed ++ input }
  | .filled =>
    match h.stage with
    | .written n => { h with reader := h.reader.filled n, stage := .staged }
    | _ => h
  | .prime input =>
    { h with reader := h.reader.prime input, stage := .staged, fed := h.fed ++ input }
  | .give input => { h with stage := .given input, fed := h.fed ++ input }
  | .next => h.next
  | .setStore store => { h with reader := h.reader.setStore store }
  | .soil contents => { h with reader := h.reader.soil contents }

def run (h : Handover) (cs : List Call) : Handover := cs.foldl play h

/-- A round begins when the one before is over, and then parts are asked for until there is none. -/
def Admits (h : Handover) : Call → Prop
  | .write input => h.stage = .closed ∧ input ≠ [] ∧ input.length ≤ h.reader.offer.1
  | .filled => h.stage.isWritten
  | .prime _ => h.stage = .closed
  | .give _ => h.stage = .closed
  | .next => h.stage.isReading
  | .setStore _ => True
  | .soil _ => ¬h.stage.isWritten

def Admitted : Handover → List Call → Prop
  | _, [] => True
  | h, c :: cs => h.Admits c ∧ Admitted (h.play c) cs

instance (h : Handover) : DecidablePred h.Admits
  | .write _ => inferInstanceAs (Decidable (_ ∧ _))
  | .filled => inferInstanceAs (Decidable (_ = true))
  | .prime _ => inferInstanceAs (Decidable (_ = _))
  | .give _ => inferInstanceAs (Decidable (_ = _))
  | .next => inferInstanceAs (Decidable (_ = true))
  | .setStore _ => inferInstanceAs (Decidable True)
  | .soil _ => inferInstanceAs (Decidable (¬_))

instance decidableAdmitted : ∀ h cs, Decidable (Admitted h cs)
  | _, [] => inferInstanceAs (Decidable True)
  | h, c :: cs =>
    have := decidableAdmitted (h.play c) cs
    inferInstanceAs (Decidable (h.Admits c ∧ Admitted (h.play c) cs))

/-- What the reader has told and what it would go on to tell is what a scanner tells that is given
all bytes at once. -/
inductive Sound (s : Scanner) : Handover → Prop where
  | closed {r fed told} (follows : r.Follows s fed told) (idle : r.Idle) (pending : r.pending = [])
      (roomy : r.Roomy) : Sound s ⟨r, .closed, fed, told⟩
  | written {r n fed told} (follows : (r.filled n).Follows s fed told)
      (fault : (r.filled n).fault = none) (roomy : (r.filled n).Roomy) :
      Sound s ⟨r, .written n, fed, told⟩
  | staged {r fed told} (follows : r.Follows s fed told) (fault : r.fault = none)
      (roomy : r.Roomy) : Sound s ⟨r, .staged, fed, told⟩
  | given {r rest fed told} (follows : { r with pending := rest }.Follows s fed told)
      (fault : r.fault = none) (pending : r.pending = []) (roomy : r.Roomy) :
      Sound s ⟨r, .given rest, fed, told⟩
  | failed {r fault fed told} (parts : (s.drain fed).parts = told)
      (met : (s.drain fed).fault = some fault) : Sound s ⟨r, .failed fault, fed, told⟩

variable {s : Scanner} {h : Handover} {r : FrameReader} {fed : Bytes} {told : List Part}
  {stage : Stage}

theorem sound_new (revision : Revision) (bufferSize limit : Nat) :
    Sound (.new revision limit) (new revision bufferSize limit) :=
  .closed ⟨fun _ => rfl, fun _ => rfl⟩ ⟨rfl, rfl⟩ rfl (FrameReader.roomy_new ..)

theorem Sound.next_staged (hfollows : r.Follows s fed told) (hfault : r.fault = none)
    (hroomy : r.Roomy) : Sound s (next ⟨r, .staged, fed, told⟩) := by
  have hroomy' := hroomy.read
  rw [next]
  simp only
  cases hr : r.read with
  | mk r' outcome rest asked =>
    rw [hr] at hroomy'
    cases outcome with
    | error fault =>
      have hparts := hfollows.left
      rw [FrameReader.left_of_read_error hfault hr, List.append_nil] at hparts
      exact .failed hparts (hfollows.read_error hfault hr)
    | ok part =>
      cases part with
      | none =>
        exact .closed (hfollows.read_none hr) (FrameReader.idle_of_read_none hr)
          (FrameReader.left_of_read_none hr).1 hroomy'
      | some p => exact .staged (hfollows.read_some hr) (FrameReader.fault_read hr) hroomy'

theorem Sound.next_given {rest : Bytes} (hfollows : { r with pending := rest }.Follows s fed told)
    (hfault : r.fault = none) (hpending : r.pending = []) (hroomy : r.Roomy) :
    Sound s (next ⟨r, .given rest, fed, told⟩) := by
  have hroomy' := hroomy.readFrom rest
  have hread := FrameReader.read_pending hfault rest
  rw [next]
  simp only
  cases hr : r.readFrom rest with
  | mk r' outcome rest' asked =>
    rw [hr] at hroomy' hread
    cases outcome with
    | error fault =>
      have hparts := hfollows.left
      rw [FrameReader.left_of_read_error (by exact hfault) hread, List.append_nil] at hparts
      exact .failed hparts (hfollows.read_error (by exact hfault) hread)
    | ok part =>
      have hfault' := FrameReader.fault_read hread
      have hpending' : r'.pending = [] := by
        obtain ⟨-, t, -, rfl⟩ := FrameReader.run_of_readFrom hr
        exact hpending
      cases part with
      | none =>
        have hrest := (FrameReader.left_of_read_none hread).1
        have hself : { r' with pending := rest' } = r' := by
          change rest' = [] at hrest
          rw [hrest, ← hpending']
        have hidle := FrameReader.idle_of_read_none hread
        have hnone := hfollows.read_none hread
        rw [hself] at hidle hnone
        exact .closed hnone hidle hpending' hroomy'
      | some p => exact .given (hfollows.read_some hread) hfault' hpending' hroomy'

theorem Sound.setStore (hs : Sound s h) (store : BodyStore) :
    Sound s (h.play (.setStore store)) := by
  cases hs with
  | closed follows idle pending roomy =>
    exact .closed (follows.congr rfl rfl) ⟨idle.fault, idle.weight⟩ pending
      ⟨roomy.threshold, roomy.staging⟩
  | @written r n fed told follows fault roomy =>
    apply Sound.written
    · rw [FrameReader.setStore_filled]
      exact follows.congr rfl rfl
    · rw [FrameReader.setStore_filled]
      exact fault
    · rw [FrameReader.setStore_filled]
      exact ⟨roomy.threshold, roomy.staging⟩
  | staged follows fault roomy =>
    exact .staged (follows.congr rfl rfl) fault ⟨roomy.threshold, roomy.staging⟩
  | given follows fault pending roomy =>
    exact .given (follows.congr rfl rfl) fault pending ⟨roomy.threshold, roomy.staging⟩
  | failed parts met => exact .failed parts met

theorem Sound.soil (hs : Sound s h) (ha : ¬h.stage.isWritten) (contents : Bytes) :
    Sound s (h.play (.soil contents)) := by
  cases hs with
  | @closed r fed told follows idle pending roomy =>
    obtain ⟨hfault, hpending, hweight⟩ := r.soil_frame contents
    exact .closed (follows.soil contents) ⟨hfault.trans idle.fault, hweight.trans idle.weight⟩
      (hpending.trans pending) (roomy.modifyBody _)
  | written => exact absurd rfl ha
  | @staged r fed told follows fault roomy =>
    exact .staged (follows.soil contents) ((r.soil_frame contents).1.trans fault)
      (roomy.modifyBody _)
  | @given r rest fed told follows fault pending roomy =>
    obtain ⟨hfault, hpending, -⟩ := r.soil_frame contents
    refine .given ?_ (hfault.trans fault) (hpending.trans pending) (roomy.modifyBody _)
    rw [← FrameReader.soil_pending]
    exact follows.soil contents
  | failed parts met => exact .failed parts met

theorem Sound.play {c : Call} (hs : Sound s h) (ha : h.Admits c) : Sound s (h.play c) := by
  cases c with
  | write input =>
    obtain ⟨hover, -, hroom⟩ := ha
    cases hs with
    | @closed r fed told follows idle pending roomy =>
      obtain ⟨-, hroomy⟩ := roomy.offer rfl
      exact .written (follows.filled pending rfl hroom)
        ((FrameReader.offer_cases rfl hroom).1.trans idle.fault)
        ((hroomy.deposit input).filled input.length)
    | _ => cases hover
  | filled =>
    cases hs with
    | written follows fault roomy => exact .staged follows fault roomy
    | _ => cases ha
  | prime input =>
    cases hs with
    | closed follows idle pending roomy =>
      exact .staged (follows.prime pending input) idle.fault (roomy.prime input)
    | _ => cases ha
  | give input =>
    cases hs with
    | closed follows idle pending roomy =>
      refine .given ?_ idle.fault pending roomy
      exact follows.feed fun more => by rw [pending, List.nil_append]; exact ⟨rfl, rfl⟩
    | _ => cases ha
  | next =>
    cases hs with
    | staged follows fault roomy => exact .next_staged follows fault roomy
    | given follows fault pending roomy => exact .next_given follows fault pending roomy
    | _ => cases ha
  | setStore store => exact hs.setStore store
  | soil contents => exact hs.soil ha contents

theorem Sound.run {cs : List Call} (hs : Sound s h) (ha : Admitted h cs) : Sound s (h.run cs) := by
  induction cs generalizing h with
  | nil => exact hs
  | cons c cs ih => exact ih (hs.play ha.1) ha.2

theorem Sound.drain_of_closed (hs : Sound s h) (hstage : h.stage = .closed) :
    (s.drain h.fed).parts = h.told ∧ (s.drain h.fed).fault = none := by
  cases hs with
  | @closed r fed told follows idle pending roomy =>
    have hdrain := Scanner.drain_of_none (Scanner.run_nil idle.weight)
    have hparts := follows.left
    have hfault := follows.fault []
    rw [FrameReader.left, pending, hdrain, List.append_nil] at hparts
    rw [List.append_nil, pending, List.append_nil, hdrain] at hfault
    exact ⟨hparts, hfault⟩
  | _ => cases hstage

theorem Sound.drain_of_failed (hs : Sound s h) {fault : WireFault} (hstage : h.stage = .failed fault)
    (more : Bytes) :
    (s.drain (h.fed ++ more)).parts = h.told ∧
      (s.drain (h.fed ++ more)).fault = some fault := by
  cases hs with
  | failed parts met =>
    cases hstage
    rw [Scanner.drain_append_of_fault met]
    exact ⟨parts, met⟩
  | _ => cases hstage

def load (h : Handover) : Nat :=
  match h.stage with
  | .given rest => rest.length + h.reader.scanner.weight
  | _ => h.reader.load

theorem next_cases (hs : h.stage.isReading) :
    h.next.stage = .closed ∨ (∃ fault, h.next.stage = .failed fault) ∨
      h.next.stage.isReading ∧ h.next.load < h.load := by
  obtain ⟨r, stage, fed, told⟩ := h
  cases stage with
  | staged =>
    rw [next]
    simp only
    cases hr : r.read with
    | mk r' outcome rest asked =>
      cases outcome with
      | error fault => exact .inr (.inl ⟨fault, rfl⟩)
      | ok part =>
        cases part with
        | none => exact .inl rfl
        | some p => exact .inr (.inr ⟨rfl, FrameReader.load_read hr⟩)
  | given input =>
    rw [next]
    simp only
    cases hr : r.readFrom input with
    | mk r' outcome rest asked =>
      cases outcome with
      | error fault => exact .inr (.inl ⟨fault, rfl⟩)
      | ok part =>
        cases part with
        | none => exact .inl rfl
        | some p => exact .inr (.inr ⟨rfl, FrameReader.load_readFrom hr⟩)
  | _ => cases hs

theorem exists_end (hs : h.stage.isReading) :
    ∃ n, Admitted h (List.replicate n .next) ∧
      ((h.run (List.replicate n .next)).stage = .closed ∨
        ∃ fault, (h.run (List.replicate n .next)).stage = .failed fault) := by
  induction hn : h.load using Nat.strongRecOn generalizing h with
  | ind n ih =>
    rcases next_cases hs with hover | hfailed | ⟨hreading, hlt⟩
    · exact ⟨1, ⟨hs, trivial⟩, .inl hover⟩
    · exact ⟨1, ⟨hs, trivial⟩, .inr hfailed⟩
    · obtain ⟨k, hadmitted, hend⟩ := ih _ (hn ▸ hlt) hreading rfl
      exact ⟨k + 1, ⟨hs, hadmitted⟩, hend⟩

/-- However bytes are handed to a new reader, by rooms that it offers, by priming it or by giving
them to it, it tells the same parts and meets the same first fault as a reader that is given all of
them at once. Between rounds nothing is pending and there is room for more, and no round goes on for
ever. -/
theorem told_eq_readEach (revision : Revision) (bufferSize limit : Nat) (cs : List Call)
    (ha : Admitted (new revision bufferSize limit) cs) :
    let last := (new revision bufferSize limit).run cs
    let once := (FrameReader.new revision bufferSize limit).readEach
    (last.stage = .closed →
      last.told = (once last.fed).parts ∧ (once last.fed).fault = none ∧
        last.reader.hasPending = false ∧ 0 < last.reader.offer.1) ∧
      (∀ fault, last.stage = .failed fault → ∀ more,
        last.told = (once (last.fed ++ more)).parts ∧
          (once (last.fed ++ more)).fault = some fault) ∧
      (last.stage.isReading →
        ∃ n, Admitted last (List.replicate n .next) ∧
          ((last.run (List.replicate n .next)).stage = .closed ∨
            ∃ fault, (last.run (List.replicate n .next)).stage = .failed fault)) := by
  intro last once
  have hsound : Sound (.new revision limit) last := (sound_new revision bufferSize limit).run ha
  have honce (input : Bytes) :
      (once input).parts = ((Scanner.new revision limit).drain input).parts ∧
        (once input).fault = ((Scanner.new revision limit).drain input).fault := by
    have hd := FrameReader.readEach_drain (r := .new revision bufferSize limit) rfl input
    exact ⟨hd.1, hd.2.1⟩
  refine ⟨?_, ?_, exists_end⟩
  · intro hstage
    rw [(honce _).1, (honce _).2]
    generalize last = h at hsound hstage
    cases hsound with
    | @closed r fed told follows idle pending roomy =>
      have hparts := follows.parts []
      have hfault := follows.fault []
      rw [List.append_nil, pending, List.append_nil,
        Scanner.drain_of_none (Scanner.run_nil idle.weight)] at hparts hfault
      refine ⟨?_, hfault, ?_, (roomy.offer rfl).1⟩
      · rw [hparts, List.append_nil]
      · rw [FrameReader.hasPending, pending]
        rfl
    | _ => cases hstage
  · intro fault hstage more
    rw [(honce _).1, (honce _).2]
    generalize last = h at hsound hstage
    cases hsound with
    | @failed r fault' fed told parts met =>
      cases hstage
      rw [Scanner.drain_append_of_fault met]
      exact ⟨parts.symm, met⟩
    | _ => cases hstage

/-- A body of five bytes of which four are written directly, in two pieces, and the last is primed
together with the next frame. What follows is given. -/
def mixed : List Call :=
  [.write [1, 5], .filled, .next, .soil [9, 9, 9, 9, 9, 9], .setStore (.new (.paged 64)),
    .write [1, 2, 3], .setStore (.new .heap), .filled, .next,
    .write [4], .filled, .next, .prime [5, 0, 1, 9], .next, .setStore (.new (.paged 8)), .next,
    .next, .give [0, 0, 0x80, 1], .next, .next]

theorem told_eq_readEach_mixed :
    let last := (new .v2 2 5).run mixed
    let once := (FrameReader.new .v2 2 5).readEach
    last.stage = .failed (.reservedBits 0x80) ∧
      last.told = [.ofMore [1, 2, 3, 4, 5] true, .ofBytes [9], .ofBytes []] ∧
      last.told = (once (last.fed ++ [7])).parts ∧
      (once (last.fed ++ [7])).fault = some (.reservedBits 0x80) := by
  intro last once
  have hstage : last.stage = .failed (.reservedBits 0x80) := by decide +kernel
  obtain ⟨-, hfailed, -⟩ := told_eq_readEach .v2 2 5 mixed (by decide +kernel)
  obtain ⟨hparts, hfault⟩ := hfailed (.reservedBits 0x80) hstage [7]
  exact ⟨hstage, by decide +kernel, hparts, hfault⟩

end Handover

end Zmtp
