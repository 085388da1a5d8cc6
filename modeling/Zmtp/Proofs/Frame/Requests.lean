import Zmtp.Proofs.Frame.Grammar
import Zmtp.Proofs.Frame.Handover

namespace Zmtp

namespace Scanner

variable {s s' t t' : Scanner} {a b heard input rest : Bytes} {asked new : List Nat} {p : Part}

theorem runBody_take {more : Bool} {buffer : Buffer} (h : buffer.room ≤ a.length)
    (behind : Bytes) :
    s.runBody more buffer (a.take buffer.room ++ behind) =
      { s.runBody more buffer a with rest := behind } := by
  have htake : (a.take buffer.room).length = buffer.room := List.length_take_of_le h
  have hroom : buffer.room ≤ (a.take buffer.room ++ behind).length := by
    rw [List.length_append, htake]
    exact Nat.le_add_right ..
  rw [runBody_of_room h, runBody_of_room hroom, Buffer.bytes_fill, Buffer.bytes_fill,
    List.take_left' htake, List.drop_left' htake]

theorem runBody_used {more : Bool} {buffer : Buffer}
    (h : s.runBody more buffer a = ⟨s', .ok (some p), rest, asked⟩) :
    ∃ used, a = used ++ rest ∧ ∀ behind,
      s.runBody more buffer (used ++ behind) = ⟨s', .ok (some p), behind, asked⟩ := by
  obtain ⟨-, hroom⟩ := weight_runBody (p := p) (by rw [h])
  obtain rfl : a.drop buffer.room = rest := by rw [← s.rest_runBody more buffer a, h]
  refine ⟨a.take buffer.room, (List.take_append_drop ..).symm, ?_⟩
  intro behind
  rw [runBody_take hroom, h]

theorem runHead_used {reader : HeadReader}
    (h : s.runHead reader a = ⟨s', .ok (some p), rest, asked⟩) :
    ∃ used, a = used ++ rest ∧ ∀ behind,
      s.runHead reader (used ++ behind) = ⟨s', .ok (some p), behind, asked⟩ := by
  induction a generalizing reader with
  | nil => cases h
  | cons x a ih =>
    rw [runHead] at h
    cases hp : reader.push s.limit x with
    | error fault =>
      rw [hp] at h
      cases h
    | ok step =>
      rw [hp] at h
      cases step with
      | pending next =>
        obtain ⟨used, rfl, hrun⟩ := ih h
        refine ⟨x :: used, rfl, ?_⟩
        intro behind
        rw [List.cons_append, runHead_pending hp]
        exact hrun behind
      | done head =>
        simp only at h
        cases hb : s.runBody head.more (.new head.size) a with
        | mk t outcome behind new =>
          rw [hb] at h
          cases h
          obtain ⟨used, rfl, hrun⟩ := runBody_used hb
          refine ⟨x :: used, rfl, ?_⟩
          intro behind
          rw [List.cons_append, runHead_done hp]
          exact congrArg (fun c : Scan => { c with requests := [head.size] }) (hrun behind)

/-- What a part is made of is the front of the input, whatever comes behind it. -/
theorem run_used (h : s.run a = ⟨s', .ok (some p), rest, asked⟩) :
    ∃ used, a = used ++ rest ∧ ∀ behind,
      s.run (used ++ behind) = ⟨s', .ok (some p), behind, asked⟩ := by
  simp only [run] at h ⊢
  cases hph : s.phase with
  | head reader =>
    simp only [hph] at h ⊢
    exact runHead_used h
  | body more buffer =>
    simp only [hph] at h ⊢
    exact runBody_used h

theorem requests_drain_congr (asked : List Nat) (h : s.run a = (t.run b).after asked) :
    (s.drain a).requests = asked ++ (t.drain b).requests := by
  cases hb : t.run b with
  | mk t' outcome rest new =>
    rw [hb] at h
    cases outcome with
    | error fault => rw [drain_of_error h, drain_of_error hb]
    | ok part =>
      cases part with
      | none => rw [drain_of_none h, drain_of_none hb]
      | some p =>
        rw [drain_of_some h, drain_of_some hb]
        exact List.append_assoc ..

theorem requests_drain_nil (s : Scanner) : (s.drain []).requests = [] := by
  cases hph : s.phase with
  | head reader =>
    have hrun : s.run [] = ⟨{ s with phase := .head reader }, .ok none, [], []⟩ := by
      rw [run, hph]
      rfl
    rw [drain_of_none hrun]
  | body more buffer =>
    by_cases hr : buffer.room = 0
    · have hrun : s.run [] = s.runBody more buffer [] := by rw [run, hph]
      rw [runBody_of_room (by rw [hr]; exact Nat.zero_le _), List.drop_nil] at hrun
      rw [drain_of_some hrun, drain_of_none (run_nil rfl)]
      rfl
    · have hweight : s.weight = 0 := by
        rw [weight, hph]
        exact if_neg hr
      rw [drain_of_none (run_nil hweight)]

/-- A scanner that has come to `t` by hearing some bytes and has asked for storage on the way goes on
to ask as `s` does that is given all bytes at once. -/
def Hears (s : Scanner) (heard : Bytes) (asked : List Nat) (t : Scanner) : Prop :=
  ∀ more, (s.drain (heard ++ more)).requests = asked ++ (t.drain more).requests

theorem Hears.requests (h : s.Hears heard asked t) : (s.drain heard).requests = asked := by
  have hnil := h []
  rwa [requests_drain_nil, List.append_nil, List.append_nil] at hnil

theorem Hears.run {part : Option Part} (h : s.Hears heard asked t)
    (hr : t.run input = ⟨t', .ok part, rest, new⟩) :
    ∃ used, input = used ++ rest ∧ s.Hears (heard ++ used) (asked ++ new) t' := by
  cases part with
  | none =>
    have hrest := rest_run_of_none (s := t) (a := input) (by rw [hr])
    rw [hr] at hrest
    cases hrest
    refine ⟨input, (List.append_nil input).symm, ?_⟩
    intro more
    have happ := run_append_of_none (s := t) (a := input) (by rw [hr]) more
    rw [hr] at happ
    rw [List.append_assoc, h, requests_drain_congr new happ, List.append_assoc]
  | some p =>
    obtain ⟨used, hsplit, hused⟩ := run_used hr
    refine ⟨used, hsplit, ?_⟩
    intro more
    rw [List.append_assoc, h, drain_of_some (hused more), List.append_assoc]

theorem Hears.refused {fault : WireFault} (h : s.Hears heard asked t)
    (hr : t.run input = ⟨t', .error fault, rest, new⟩) :
    (s.drain (heard ++ input)).requests = asked ++ new := by
  have hin := h input
  rwa [drain_of_error hr] at hin

theorem Hears.fill {more : Bool} {buffer : Buffer} (h : s.Hears heard asked t)
    (ht : t.phase = .body more buffer) (hi : input.length ≤ buffer.room) :
    s.Hears (heard ++ input) asked { t with phase := .body more (buffer.fill input) } := by
  intro behind
  rw [List.append_assoc, h, requests_drain_congr [] (run_fill ht hi behind), List.nil_append]

theorem Hears.soil {more : Bool} {buffer : Buffer} (h : s.Hears heard asked t)
    (ht : t.phase = .body more buffer) (contents : Bytes) :
    s.Hears heard asked { t with phase := .body more (buffer.soil contents) } := by
  intro behind
  rw [h]
  apply congrArg (asked ++ ·)
  rcases run_soil ht contents behind with heq | ⟨u, u', hu, hu'⟩
  · exact requests_drain_congr [] heq.symm
  · rw [drain_of_none hu, drain_of_none hu']

end Scanner

namespace FrameReader

variable {r : FrameReader} {fault : WireFault}

/-- What a reading is made of: a scan, after whose fault nothing is pending. -/
structure Scans (r : FrameReader) (input : Bytes) (reading : Reading) : Prop where
  run : r.scanner.run input =
    ⟨reading.reader.scanner, reading.outcome, reading.rest, reading.requests⟩
  poisoned : ∀ fault, reading.outcome = .error fault →
    reading.reader.fault = some fault ∧ reading.reader.pending = []

theorem scans_readFrom (hf : r.fault = none) (input : Bytes) :
    r.Scans input (r.readFrom input) := by
  rw [readFrom_eq hf]
  cases hs : r.scanner.run input with
  | mk s outcome rest asked =>
    cases outcome with
    | error fault =>
      refine ⟨hs, ?_⟩
      rintro fault ⟨⟩
      exact ⟨rfl, rfl⟩
    | ok part => exact ⟨hs, nofun⟩

theorem scans_read (hf : r.fault = none) : r.Scans r.pending r.read := by
  have h := scans_readFrom hf r.pending
  rw [read]
  cases hr : r.readFrom r.pending with
  | mk r' outcome rest asked =>
    rw [hr] at h
    cases outcome with
    | error fault => exact h
    | ok part =>
      refine ⟨h.run, ?_⟩
      rintro fault ⟨⟩

theorem pending_read {part : Option Part} (ho : r.read.outcome = .ok part) :
    r.read.reader.pending = r.read.rest := by
  rw [read] at ho ⊢
  cases hr : r.readFrom r.pending with
  | mk r' outcome rest asked =>
    rw [hr] at ho
    cases outcome with
    | error fault => cases ho
    | ok part => rfl

/-- What may be done with a reader at any time. -/
inductive Call where
  | read
  | readFrom (input : Bytes)
  | offer
  /-- Copies bytes into the room that was offered last. -/
  | deposit (input : Bytes)
  | filled (n : Nat)
  | prime (input : Bytes)
  | setStore (store : BodyStore)

/-- The call makes input pending. -/
def Call.supplies : Call → Bool
  | filled n => n != 0
  | prime input => !input.isEmpty
  | _ => false

def call (r : FrameReader) : Call → FrameReader
  | .read => r.read.reader
  | .readFrom input => (r.readFrom input).reader
  | .offer => r.offer.2
  | .deposit input => r.deposit input
  | .filled n => r.filled n
  | .prime input => r.prime input
  | .setStore store => r.setStore store

def perform (r : FrameReader) (cs : List Call) : FrameReader := cs.foldl call r

/-- Whatever is read, the same fault is all that comes of it. No storage is asked for, and the reader
stays as it is. -/
structure Refuses (r : FrameReader) (fault : WireFault) : Prop where
  read : r.read = ⟨r, .error fault, r.pending, []⟩
  readFrom : ∀ input, r.readFrom input = ⟨r, .error fault, input, []⟩

/-- Whatever is done with the reader, it refuses to read on, and nothing is pending until input is
supplied. -/
def Ended (r : FrameReader) (fault : WireFault) : Prop :=
  ∀ cs : List Call, (r.perform cs).Refuses fault ∧
    ((∀ c ∈ cs, c.supplies = false) → (r.perform cs).hasPending = false)

theorem refuses_of_fault (h : r.fault = some fault) : r.Refuses fault := by
  have hfrom (input : Bytes) : r.readFrom input = ⟨r, .error fault, input, []⟩ := by
    rw [readFrom, h]
  exact ⟨by rw [read, hfrom], hfrom⟩

theorem modifyBody_frame (r : FrameReader) (f : Buffer → Buffer) :
    (r.modifyBody f).fault = r.fault ∧ (r.modifyBody f).pending = r.pending := by
  rw [modifyBody]
  split <;> exact ⟨rfl, rfl⟩

theorem fault_call (h : r.fault = some fault) (c : Call) : (r.call c).fault = some fault := by
  cases c with
  | read => rwa [call, (refuses_of_fault h).read]
  | readFrom input => rwa [call, (refuses_of_fault h).readFrom]
  | offer =>
    rw [call, offer]
    split
    · exact h
    · split <;> exact h
  | deposit input =>
    rw [call, deposit]
    split
    · exact (r.modifyBody_frame _).1.trans h
    · exact h
  | filled n =>
    rw [call, filled]
    split
    · exact (r.modifyBody_frame _).1.trans h
    · exact h
  | prime input => exact h
  | setStore store => exact h

theorem pending_call (h : r.fault = some fault) (hp : r.pending = []) {c : Call}
    (hc : c.supplies = false) : (r.call c).pending = [] := by
  cases c with
  | read => rwa [call, (refuses_of_fault h).read]
  | readFrom input => rwa [call, (refuses_of_fault h).readFrom]
  | offer =>
    rw [call, offer]
    split
    · rfl
    · split
      · exact hp
      · rfl
  | deposit input =>
    rw [call, deposit]
    split
    · exact (r.modifyBody_frame _).2.trans hp
    · exact hp
  | filled n =>
    obtain rfl : n = 0 := by simpa [Call.supplies] using hc
    rw [call, filled]
    split
    · exact (r.modifyBody_frame _).2.trans hp
    · change (r.staging.rewind.count 0).bytes = []
      rw [Buffer.bytes_count]
      simp [Buffer.peek, Buffer.rewind, Buffer.bytes]
  | prime input =>
    have hnil : input = [] := by simpa [Call.supplies] using hc
    exact hnil
  | setStore store => exact hp

theorem fault_perform (h : r.fault = some fault) (cs : List Call) :
    (r.perform cs).fault = some fault := by
  induction cs generalizing r with
  | nil => exact h
  | cons c cs ih => exact ih (fault_call h c)

theorem pending_perform (hf : r.fault = some fault) (hp : r.pending = []) {cs : List Call}
    (hc : ∀ c ∈ cs, c.supplies = false) : (r.perform cs).pending = [] := by
  induction cs generalizing r with
  | nil => exact hp
  | cons c cs ih =>
    rw [List.forall_mem_cons] at hc
    exact ih (fault_call hf c) (pending_call hf hp hc.1) hc.2

theorem ended_of_fault (hf : r.fault = some fault) (hp : r.pending = []) : r.Ended fault := by
  intro cs
  refine ⟨refuses_of_fault (fault_perform hf cs), ?_⟩
  intro hc
  rw [hasPending, pending_perform hf hp hc]
  rfl

theorem Scans.ended {input : Bytes} {reading : Reading} (h : r.Scans input reading)
    (ho : reading.outcome = .error fault) : reading.reader.Ended fault :=
  ended_of_fault (h.poisoned fault ho).1 (h.poisoned fault ho).2

end FrameReader

namespace Handover

/-- The sizes of the storage that a call asks for. -/
def requests (h : Handover) : Call → List Nat
  | .next =>
    match h.stage with
    | .staged => h.reader.read.requests
    | .given rest => (h.reader.readFrom rest).requests
    | _ => []
  | _ => []

/-- The sizes of the storage that calls ask for, one call after the other. -/
def asked : Handover → List Call → List Nat
  | _, [] => []
  | h, c :: cs => h.requests c ++ asked (h.play c) cs

/-- The last of the bytes that were handed over, as far as the reader has not come to them. -/
def unread (h : Handover) : Bytes :=
  match h.stage with
  | .written n => h.fed.drop (h.fed.length - n)
  | .staged => h.reader.pending
  | .given rest => rest
  | _ => []

/-- The storage that was asked for is what a scanner asks for that is given, all at once, the bytes
that the reader has come to. -/
inductive Tallied (s : Scanner) (asked : List Nat) : Handover → Prop where
  | closed {r fed told} (hears : s.Hears fed asked r.scanner) :
      Tallied s asked ⟨r, .closed, fed, told⟩
  | written {r n fed told heard front input} (requests : (s.drain front).requests = asked)
      (offered : fed = front ++ input) (length : input.length = n)
      (hears : s.Hears heard asked (r.filled n).scanner)
      (split : fed = heard ++ (r.filled n).pending) : Tallied s asked ⟨r, .written n, fed, told⟩
  | staged {r fed told heard} (hears : s.Hears heard asked r.scanner)
      (split : fed = heard ++ r.pending) : Tallied s asked ⟨r, .staged, fed, told⟩
  | given {r rest fed told heard} (hears : s.Hears heard asked r.scanner)
      (split : fed = heard ++ rest) : Tallied s asked ⟨r, .given rest, fed, told⟩
  | failed {r fault fed told} (requests : (s.drain fed).requests = asked)
      (met : r.fault = some fault) (pending : r.pending = []) :
      Tallied s asked ⟨r, .failed fault, fed, told⟩

variable {s : Scanner} {h : Handover} {r : FrameReader} {fed heard input : Bytes}
  {told : List Part} {stage : Stage} {asked : List Nat}

theorem tallied_new (revision : Revision) (bufferSize limit : Nat) :
    Tallied (.new revision limit) [] (new revision bufferSize limit) :=
  .closed fun _ => rfl

theorem Tallied.tell {reading : Reading} (hscans : r.Scans input reading)
    (hears : s.Hears heard asked r.scanner) (hsplit : fed = heard ++ input)
    (hgo : ∀ {heard told part}, reading.outcome = .ok part → fed = heard ++ reading.rest →
      s.Hears heard (asked ++ reading.requests) reading.reader.scanner →
        Tallied s (asked ++ reading.requests) ⟨reading.reader, stage, fed, told⟩) (now : Stage) :
    Tallied s (asked ++ reading.requests) (tell ⟨r, now, fed, told⟩ reading stage) := by
  have hrun := hscans.run
  have hpoisoned := hscans.poisoned
  obtain ⟨r', outcome, rest, new⟩ := reading
  cases outcome with
  | error fault =>
    obtain ⟨hmet, hpending⟩ := hpoisoned fault rfl
    refine .failed ?_ hmet hpending
    rw [hsplit]
    exact hears.refused hrun
  | ok part =>
    obtain ⟨used, hused, hears'⟩ := hears.run hrun
    rw [hused, ← List.append_assoc] at hsplit
    cases part with
    | none =>
      have hrest := Scanner.rest_run_of_none (s := r.scanner) (a := input) (by rw [hrun])
      rw [hrun] at hrest
      simp only at hrest
      rw [hrest, List.append_nil] at hsplit
      rw [hsplit]
      exact .closed hears'
    | some p => exact hgo rfl hsplit hears'

theorem Tallied.setStore (ht : Tallied s asked h) (store : BodyStore) :
    Tallied s asked (h.play (.setStore store)) := by
  cases ht with
  | closed hears => exact .closed hears
  | @written r n fed told heard front input requests offered length hears split =>
    refine .written requests offered length (?_ : s.Hears heard asked _) ?_
    · rw [FrameReader.setStore_filled]
      exact hears
    · rw [FrameReader.setStore_filled]
      exact split
  | staged hears split => exact .staged hears split
  | given hears split => exact .given hears split
  | failed requests met pending => exact .failed requests met pending

theorem Tallied.soil (ht : Tallied s asked h) (ha : ¬h.stage.isWritten) (contents : Bytes) :
    Tallied s asked (h.play (.soil contents)) := by
  have hsoil {r : FrameReader} {heard : Bytes} (hears : s.Hears heard asked r.scanner) :
      s.Hears heard asked (r.soil contents).scanner := by
    rw [FrameReader.soil, FrameReader.modifyBody]
    cases hph : r.scanner.phase with
    | head reader => exact hears
    | body more buffer => exact hears.soil hph contents
  cases ht with
  | closed hears => exact .closed (hsoil hears)
  | written => exact absurd rfl ha
  | @staged r fed told heard hears split =>
    refine .staged (hsoil hears) ?_
    rw [(r.soil_frame contents).2.1]
    exact split
  | given hears split => exact .given (hsoil hears) split
  | @failed r fault fed told requests met pending =>
    obtain ⟨hfault, hpending, -⟩ := r.soil_frame contents
    exact .failed requests (hfault.trans met) (hpending.trans pending)

theorem Tallied.write {r' : FrameReader} {room : Nat} (ho : r.offer = (room, r'))
    (hroom : input.length ≤ room) (hears : s.Hears fed asked r.scanner) (hp : r.pending = []) :
    Tallied s asked ⟨r'.deposit input, .written input.length, fed ++ input, told⟩ := by
  rcases (FrameReader.offer_cases ho hroom).2 with ⟨hs, hpend⟩ | ⟨more, buffer, hph, hle, hs, hpend⟩
  · refine .written hears.requests rfl rfl (?_ : s.Hears fed asked _) ?_
    · rw [hs]
      exact hears
    · rw [hpend]
  · refine .written hears.requests rfl rfl (?_ : s.Hears (fed ++ input) asked _) ?_
    · rw [hs]
      exact hears.fill hph hle
    · rw [hpend, hp, List.append_nil]

theorem Tallied.play {c : Call} (hs : Sound s h) (ht : Tallied s asked h) (ha : h.Admits c) :
    Tallied s (asked ++ h.requests c) (h.play c) := by
  have hquiet (hr : h.requests c = []) (ht : Tallied s asked (h.play c)) :
      Tallied s (asked ++ h.requests c) (h.play c) := by
    rw [hr, List.append_nil]
    exact ht
  cases c with
  | write input =>
    obtain ⟨hover, -, hroom⟩ := ha
    apply hquiet rfl
    cases ht with
    | closed hears =>
      cases hs with
      | closed follows idle pending roomy => exact .write rfl hroom hears pending
    | _ => cases hover
  | filled =>
    apply hquiet rfl
    cases ht with
    | written requests offered length hears split => exact .staged hears split
    | _ => cases ha
  | prime input =>
    apply hquiet rfl
    cases ht with
    | closed hears => exact .staged hears rfl
    | _ => cases ha
  | give input =>
    apply hquiet rfl
    cases ht with
    | closed hears => exact .given hears rfl
    | _ => cases ha
  | next =>
    cases ht with
    | @staged r fed told heard hears split =>
      cases hs with
      | staged follows fault roomy =>
        apply Tallied.tell (FrameReader.scans_read fault) hears split
        intro heard told part ho hsplit hears'
        rw [← FrameReader.pending_read ho] at hsplit
        exact .staged hears' hsplit
    | @given r rest fed told heard hears split =>
      cases hs with
      | given follows fault pending roomy =>
        apply Tallied.tell (FrameReader.scans_readFrom fault rest) hears split
        intro heard told part ho hsplit hears'
        exact .given hears' hsplit
    | _ => cases ha
  | setStore store =>
    apply hquiet rfl
    exact ht.setStore store
  | soil contents =>
    apply hquiet rfl
    exact ht.soil ha contents

theorem Tallied.run {cs : List Call} (hs : Sound s h) (ht : Tallied s asked h)
    (ha : Admitted h cs) : Tallied s (asked ++ h.asked cs) (h.run cs) := by
  induction cs generalizing h asked with
  | nil =>
    rw [Handover.asked, List.append_nil]
    exact ht
  | cons c cs ih =>
    rw [Handover.asked, ← List.append_assoc]
    exact ih (hs.play ha.1) (ht.play hs ha.1) ha.2

theorem Tallied.exists_heard (ht : Tallied s asked h) :
    ∃ heard, h.fed = heard ++ h.unread ∧ (s.drain heard).requests = asked := by
  cases ht with
  | @closed r fed told hears => exact ⟨fed, (List.append_nil fed).symm, hears.requests⟩
  | @written r n fed told heard front input requests offered length hears split =>
    refine ⟨front, ?_, requests⟩
    have hdrop : fed.drop (fed.length - n) = input := by
      rw [offered, List.length_append, length, Nat.add_sub_cancel]
      exact List.drop_left
    change fed = front ++ fed.drop (fed.length - n)
    rw [hdrop, offered]
  | staged hears split => exact ⟨_, split, hears.requests⟩
  | given hears split => exact ⟨_, split, hears.requests⟩
  | @failed r fault fed told requests met pending =>
    exact ⟨fed, (List.append_nil fed).symm, requests⟩

/-- The storage that a reader asks for, however bytes are handed to it, is what the headers in the
bytes that it has come to announce, once for each of them, and never more than the limit. For a frame
that is refused it asks for none. From the first fault on, the reader tells nothing but that fault,
whatever is done with it. -/
theorem asked_eq_heads (revision : Revision) (bufferSize limit : Nat) (cs : List Call)
    (ha : Admitted (new revision bufferSize limit) cs) :
    let last := (new revision bufferSize limit).run cs
    let asked := (new revision bufferSize limit).asked cs
    (∃ heard, last.fed = heard ++ last.unread ∧
        asked = (Grammar.heads revision limit heard).map Head.size) ∧
      (∀ n ∈ asked, n ≤ limit) ∧
      (∀ fault, last.stage = .failed fault →
        (Grammar.parse revision limit last.fed).fault = some fault ∧
          asked = last.told.map Part.size ∧ last.reader.Ended fault) ∧
      ∀ (r : FrameReader) (fault : WireFault), r.fault = none →
        (r.read.outcome = .error fault → r.read.reader.Ended fault) ∧
          ∀ input, (r.readFrom input).outcome = .error fault →
            (r.readFrom input).reader.Ended fault := by
  intro last asked
  have hsound : Sound (.new revision limit) last := (sound_new revision bufferSize limit).run ha
  have htallied : Tallied (.new revision limit) asked last :=
    (tallied_new revision bufferSize limit).run (sound_new revision bufferSize limit) ha
  have hdrain (input : Bytes) :
      ((Scanner.new revision limit).drain input).parts =
          (Grammar.parse revision limit input).parts ∧
        ((Scanner.new revision limit).drain input).fault =
            (Grammar.parse revision limit input).fault ∧
          ((Scanner.new revision limit).drain input).requests =
            (Grammar.heads revision limit input).map Head.size :=
    Scanner.drain_eq_grammar rfl input
  obtain ⟨heard, hfed, hasked⟩ := htallied.exists_heard
  rw [(hdrain heard).2.2] at hasked
  refine ⟨⟨heard, hfed, hasked.symm⟩, ?_, ?_, ?_⟩
  · intro n hn
    rw [← hasked] at hn
    obtain ⟨head, hhead, rfl⟩ := List.mem_map.1 hn
    exact Grammar.size_le_of_mem_heads hhead
  · intro fault hstage
    obtain ⟨htold, hfault⟩ := hsound.drain_of_failed hstage []
    rw [List.append_nil] at htold hfault
    rw [(hdrain last.fed).1] at htold
    rw [(hdrain last.fed).2.1] at hfault
    generalize last = h at hstage htallied htold hfault
    cases htallied with
    | @failed r fault' fed told requests met pending =>
      cases hstage
      refine ⟨hfault, ?_, FrameReader.ended_of_fault met pending⟩
      rw [← requests, (hdrain fed).2.2, Grammar.heads_of_fault hfault, htold]
    | _ => cases hstage
  · intro r fault hf
    refine ⟨(FrameReader.scans_read hf).ended, ?_⟩
    intro input
    exact (FrameReader.scans_readFrom hf input).ended

theorem asked_eq_heads_mixed :
    let last := (new .v2 2 5).run mixed
    let later : List FrameReader.Call :=
      [.offer, .deposit [0, 1, 7], .filled 3, .setStore (.new .heap), .prime [0, 0]]
    (new .v2 2 5).asked mixed = [5, 1, 0] ∧ last.told.map Part.size = [5, 1, 0] ∧
      (last.reader.perform later).pending = [0, 0] ∧
        (last.reader.perform later).Refuses (.reservedBits 0x80) := by
  intro last later
  have hstage : last.stage = .failed (.reservedBits 0x80) := by decide +kernel
  obtain ⟨-, -, hfailed, -⟩ := asked_eq_heads .v2 2 5 mixed (by decide +kernel)
  obtain ⟨-, hasked, hended⟩ := hfailed (.reservedBits 0x80) hstage
  have htold : last.told.map Part.size = [5, 1, 0] := by decide +kernel
  exact ⟨hasked.trans htold, htold, by decide +kernel, (hended later).1⟩

end Handover

end Zmtp
