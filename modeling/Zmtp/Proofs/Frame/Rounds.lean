import Zmtp.Proofs.Frame.Bounds

namespace Zmtp

/-- A loop, one round at a time: so many rounds went on, and the next one ended it with a result. -/
inductive Loops {α β : Type} (round : α → β ⊕ α) : α → Nat → β → Prop where
  | ends {a : α} {b : β} (h : round a = .inl b) : Loops round a 0 b
  | goesOn {a a' : α} {n : Nat} {b : β} (h : round a = .inr a') (rest : Loops round a' n b) :
      Loops round a (n + 1) b

/-- A loop comes to an end if every round that goes on leaves fewer rounds to be made. -/
theorem exists_loops {α β : Type} {round : α → β ⊕ α} {I : α → Nat → Prop} {Q : β → Prop}
    (hends : ∀ a n b, I a n → round a = .inl b → Q b)
    (hgoes : ∀ a n a', I a n → round a = .inr a' → ∃ n' < n, I a' n') {a : α} {n : Nat}
    (h : I a n) : ∃ k b, Loops round a k b ∧ k ≤ n ∧ Q b := by
  induction n using Nat.strongRecOn generalizing a with
  | ind n ih =>
    cases hr : round a with
    | inl b => exact ⟨0, b, .ends hr, Nat.zero_le n, hends a n b h hr⟩
    | inr a' =>
      obtain ⟨n', hlt, h'⟩ := hgoes a n a' h hr
      obtain ⟨k, b, hl, hk, hq⟩ := ih n' hlt h'
      exact ⟨k + 1, b, .goesOn hr hl, Nat.lt_of_le_of_lt hk hlt, hq⟩

namespace Machine

open Slip

/-- One round of `run`. -/
def round (input : Bytes) : Machine × Nat → Except Slip Ran ⊕ Machine × Nat
  | (m, pos) =>
    match m.cursor.remaining with
    | .error slip => .inl (.error slip)
    | .ok 0 =>
      match m.step with
      | .error slip => .inl (.error slip)
      | .ok ⟨.error fault, m⟩ => .inl (.ok ⟨.error fault, m⟩)
      | .ok ⟨.ok (some p), m⟩ => .inl (.ok ⟨.ok (pos, some p), m⟩)
      | .ok ⟨.ok none, m⟩ => .inr (m, pos)
    | .ok (_ + 1) =>
      if pos = input.length then .inl (.ok ⟨.ok (pos, none), m⟩)
      else
        match m.feed input pos with
        | .error slip => .inl (.error slip)
        | .ok (n, m) => .inr (m, pos + n)

variable {m m' : Machine} {input : Bytes} {k : Nat} {fault : WireFault}

theorem run_eq_round (m : Machine) (input : Bytes) (pos : Nat) :
    m.run input pos = match round input (m, pos) with
      | .inl ran => ran
      | .inr (m, pos) => m.run input pos := by
  rw [run_eq, round]
  cases m.cursor.remaining with
  | error slip => rfl
  | ok left =>
    cases left with
    | zero =>
      cases m.step with
      | error slip => rfl
      | ok turn =>
        obtain ⟨outcome, m'⟩ := turn
        cases outcome with
        | error fault => rfl
        | ok part => cases part <;> rfl
    | succ left =>
      by_cases hp : pos = input.length
      · simp only [if_pos hp]
      · simp only [if_neg hp]
        cases m.feed input pos <;> rfl

theorem run_of_loops {a : Machine × Nat} {b : Except Slip Ran} (h : Loops (round input) a k b) :
    a.1.run input a.2 = b := by
  induction h with
  | ends h => rw [run_eq_round, h]
  | goesOn h rest ih =>
    rw [run_eq_round, h]
    exact ih

theorem rank_le (m : Machine) : m.rank ≤ 2 := by
  rw [rank]
  split
  · split
    · exact Nat.le_succ 1
    · exact Nat.le_refl 2
  · exact Nat.zero_le 2

/-- How many rounds are left at most: three for each byte of the input, and one for each step that
uses no input. -/
def toll (input : Bytes) (a : Machine × Nat) : Nat := 3 * (input.length - a.2) + a.1.rank

theorem toll_round {a a' : Machine × Nat} (h : round input a = .inr a') :
    toll input a' < toll input a := by
  obtain ⟨m, pos⟩ := a
  rw [round] at h
  split at h
  · cases h
  · next hr =>
    split at h
    · cases h
    · cases h
    · cases h
    · next m' hs =>
      cases h
      exact Nat.add_lt_add_left (rank_lt hr hs) _
  · next left hr =>
    split at h
    · cases h
    · next hp =>
      split at h
      · cases h
      · next n m' hf =>
        cases h
        have hrank := rank_le m'
        have hpos := feed_pos hr hp hf
        rw [toll, toll]
        simp only
        omega

/-- Whatever a machine is like, its run comes to an end. -/
theorem loops_run (m : Machine) (input : Bytes) :
    ∃ k, Loops (round input) (m, 0) k (m.run input 0) ∧ k ≤ 3 * input.length + 2 := by
  have hends (a : Machine × Nat) (n : Nat) (b : Except Slip Ran) (_ : toll input a ≤ n)
      (_ : round input a = .inl b) : True := trivial
  have hgoes (a : Machine × Nat) (n : Nat) (a' : Machine × Nat) (h : toll input a ≤ n)
      (hr : round input a = .inr a') : ∃ n' < n, toll input a' ≤ n' :=
    ⟨toll input a', Nat.lt_of_lt_of_le (toll_round hr) h, Nat.le_refl _⟩
  have htoll : toll input (m, 0) ≤ 3 * input.length + 2 := Nat.add_le_add_left (rank_le m) _
  obtain ⟨k, b, hl, hk, -⟩ := exists_loops hends hgoes htoll
  obtain rfl := run_of_loops hl
  exact ⟨k, hl, hk⟩

/-- Where the target is refused nothing changes, and the store makes no difference. -/
structure Steady (f : Machine → Except Slip Turn) : Prop where
  refused : ∀ {m m' : Machine} {fault : WireFault}, f m = .ok ⟨.error fault, m'⟩ →
    m' = m ∧ ∀ store, f { m with store } = .ok ⟨.error fault, { m with store }⟩

namespace Steady

variable {f g : Machine → Except Slip Turn}

theorem of_never (h : ∀ m m' fault, f m ≠ .ok ⟨.error fault, m'⟩) : Steady f := by
  constructor
  intro m m' fault hf
  exact absurd hf (h m m' fault)

theorem refuse (fault : WireFault) : Steady fun m => .ok ⟨.error fault, m⟩ := by
  constructor
  rintro m m' fault' ⟨⟩
  exact ⟨rfl, fun _ => rfl⟩

theorem ite (c : Prop) [Decidable c] (hf : Steady f) (hg : Steady g) :
    Steady fun m => if c then f m else g m := by
  by_cases hc : c
  · simp only [if_pos hc]
    exact hf
  · simp only [if_neg hc]
    exact hg

theorem bind {α : Type} {x : Machine → Except Slip α} {f : α → Machine → Except Slip Turn}
    (hx : ∀ m store, x { m with store } = x m) (hf : ∀ a, Steady (f a)) :
    Steady fun m => x m >>= fun a => f a m := by
  constructor
  intro m m' fault h
  obtain ⟨a, ha, h⟩ := bind_eq_ok h
  obtain ⟨rfl, hstore⟩ := (hf a).refused h
  refine ⟨rfl, fun store => ?_⟩
  simp only [hx, ha]
  exact hstore store

theorem announce {size : Machine → Except WireFault Nat} {next : Machine → Except Slip Turn}
    (hs : ∀ m store, size { m with store } = size m)
    (hn : ∀ m m' fault, next m ≠ .ok ⟨.error fault, m'⟩) :
    Steady fun m => m.announce (size m) next := by
  constructor
  intro m m' fault h
  cases hsize : size m with
  | error fault' =>
    simp only [hsize] at h
    cases h
    refine ⟨rfl, fun store => ?_⟩
    simp only [hs, hsize]
    rfl
  | ok n =>
    simp only [hsize] at h
    exact absurd h (hn _ _ _)

end Steady

theorem expectHeader_ne_refused (m m' : Machine) (want : Nat) (part : FramePart)
    (fault : WireFault) : m.expectHeader want part ≠ .ok ⟨.error fault, m'⟩ := by
  intro h
  obtain ⟨cursor, -, h⟩ := bind_eq_ok h
  cases h

theorem expectBody_ne_refused (m m' : Machine) (fault : WireFault) :
    m.expectBody ≠ .ok ⟨.error fault, m'⟩ := nofun

theorem steady_oneByteSizeV1 : Steady oneByteSizeV1 := by
  refine .bind (fun _ _ => rfl) fun first => .ite _ (.of_never ?_) (.ite _ (.refuse _) ?_)
  · exact fun m m' => expectHeader_ne_refused m m' 8 .eightByteSize
  · refine .bind (fun _ _ => rfl) fun size => .announce (fun _ _ => rfl) ?_
    exact fun m m' => expectHeader_ne_refused m m' 1 .flags

theorem steady_eightByteSizeV1 : Steady eightByteSizeV1 := by
  refine .bind (fun _ _ => rfl) fun field => .announce (fun _ _ => rfl) ?_
  exact fun m m' => expectHeader_ne_refused m m' 1 .flags

theorem steady_flagsV1 : Steady flagsV1 :=
  .bind (fun _ _ => rfl) fun _ => .of_never fun _ => expectBody_ne_refused _

theorem steady_flagsV2 : Steady flagsV2 := by
  refine .bind (fun _ _ => rfl) fun flags => .ite _ (.refuse _) (.ite _ (.of_never ?_) (.of_never ?_))
  · exact fun m m' => expectHeader_ne_refused _ m' 8 .eightByteSize
  · exact fun m m' => expectHeader_ne_refused _ m' 1 .oneByteSize

theorem steady_oneByteSizeV2 : Steady oneByteSizeV2 :=
  .bind (fun _ _ => rfl) fun _ => .announce (fun _ _ => rfl) expectBody_ne_refused

theorem steady_eightByteSizeV2 : Steady eightByteSizeV2 :=
  .bind (fun _ _ => rfl) fun _ => .announce (fun _ _ => rfl) expectBody_ne_refused

theorem steady_messageReady : Steady messageReady := by
  apply Steady.of_never
  intro m m' fault h
  obtain ⟨taken, -, h⟩ := bind_eq_ok h
  obtain ⟨cursor, -, h⟩ := bind_eq_ok h
  cases h

theorem steady_step : Steady step := by
  constructor
  intro m m' fault h
  obtain ⟨revision, limit, part, size, more, cursor, store⟩ := m
  cases part with
  | oneByteSize =>
    cases revision with
    | v1 => exact steady_oneByteSizeV1.refused h
    | v2 => exact steady_oneByteSizeV2.refused h
  | eightByteSize =>
    cases revision with
    | v1 => exact steady_eightByteSizeV1.refused h
    | v2 => exact steady_eightByteSizeV2.refused h
  | flags =>
    cases revision with
    | v1 => exact steady_flagsV1.refused h
    | v2 => exact steady_flagsV2.refused h
  | body => exact steady_messageReady.refused h

/-- The target is complete, and whatever the store is, a step refuses it and changes nothing. -/
structure Refuses (m : Machine) (fault : WireFault) : Prop where
  remaining : m.cursor.remaining = .ok 0
  step : ∀ store, step { m with store } = .ok ⟨.error fault, { m with store }⟩

theorem Refuses.run (h : m.Refuses fault) (input : Bytes) (pos : Nat) :
    m.run input pos = .ok ⟨.error fault, m⟩ := by
  have hstep : m.step = .ok ⟨.error fault, m⟩ := h.step m.store
  rw [run_eq, h.remaining]
  simp only [hstep]

theorem refuses_of_round {a : Machine × Nat}
    (h : round input a = .inl (.ok ⟨.error fault, m'⟩)) : m'.Refuses fault := by
  obtain ⟨m, pos⟩ := a
  rw [round] at h
  split at h
  · cases h
  · next hr =>
    split at h
    · cases h
    · next hs =>
      cases h
      obtain ⟨rfl, hstep⟩ := steady_step.refused hs
      exact ⟨hr, hstep⟩
    · cases h
    · cases h
  · split at h
    · cases h
    · split at h
      · cases h
      · cases h

theorem refuses_of_run (h : m.run input 0 = .ok ⟨.error fault, m'⟩) : m'.Refuses fault := by
  have hloops {a : Machine × Nat} {k : Nat} {b : Except Slip Ran}
      (hl : Loops (round input) a k b) (hb : b = .ok ⟨.error fault, m'⟩) : m'.Refuses fault := by
    induction hl with
    | ends hr => exact refuses_of_round (hb ▸ hr)
    | goesOn _ _ ih => exact ih hb
  obtain ⟨k, hl, -⟩ := loops_run m input
  exact hloops hl h

end Machine

theorem HeadReader.push_start_ne_done (revision : Revision) (limit : Nat) (b : UInt8) (head : Head) :
    (start revision).push limit b ≠ .ok (.done head) := by
  intro h
  cases revision with
  | v1 =>
    rw [start, push] at h
    split at h
    · cases h
    · split at h
      · cases h
      · cases hc : checkSize limit (b.toNat - 1) with
        | error fault =>
          rw [hc] at h
          cases h
        | ok size =>
          rw [hc] at h
          cases h
  | v2 =>
    rw [start, push] at h
    split at h
    · cases h
    · split at h
      · cases h
      · cases h

namespace Scanner

variable {s s' : Scanner} {input rest : Bytes} {asked : List Nat} {p : Part}

/-- What a frame that is begun may save of its two bytes at least. -/
def credit (s : Scanner) : Nat := if s.phase = .head (.start s.revision) then 0 else 2

theorem credit_le (s : Scanner) : s.credit ≤ 2 := by
  rw [credit]
  split
  · exact Nat.zero_le 2
  · exact Nat.le_refl 2

theorem credit_new (revision : Revision) (limit : Nat) : (new revision limit).credit = 0 := if_pos rfl

theorem weight_le_one (s : Scanner) : s.weight ≤ 1 := by
  rw [weight]
  split
  · exact Nat.zero_le 1
  · split
    · exact Nat.le_refl 1
    · exact Nat.zero_le 1

/-- A part that is complete uses two bytes, unless its frame was begun before. -/
theorem credit_run (h : s.run input = ⟨s', .ok (some p), rest, asked⟩) :
    rest.length + s'.credit + 2 ≤ input.length + s.credit := by
  have hcredit : s'.credit = 0 := if_pos (phase_of_run h)
  rw [hcredit, Nat.add_zero]
  by_cases hstart : s.phase = .head (.start s.revision)
  · rw [credit, if_pos hstart]
    simp only [run, hstart] at h
    cases input with
    | nil => cases h
    | cons b input =>
      cases hpush : (HeadReader.start s.revision).push s.limit b with
      | error fault =>
        rw [runHead, hpush] at h
        cases h
      | ok step =>
        cases step with
        | done head => exact absurd hpush (HeadReader.push_start_ne_done _ _ _ _)
        | pending next =>
          simp only [runHead_pending hpush] at h
          have hload := load_runHead (p := p) (by rw [h])
          rw [h] at hload
          have hrest : rest.length + s'.weight < input.length := hload
          rw [List.length_cons]
          omega
  · rw [credit, if_neg hstart]
    have hload := load_run h
    have hweight := s.weight_le_one
    omega

theorem length_drain_le (s : Scanner) (input : Bytes) :
    (s.drain input).parts.length ≤ (input.length + s.credit) / 2 := by
  induction hn : input.length + s.weight using Nat.strongRecOn generalizing s input with
  | ind n ih =>
    cases hr : s.run input with
    | mk s' outcome rest asked =>
      cases outcome with
      | error fault =>
        rw [drain_of_error hr]
        exact Nat.zero_le _
      | ok part =>
        cases part with
        | none =>
          rw [drain_of_none hr]
          exact Nat.zero_le _
        | some p =>
          have hrest := ih _ (hn ▸ load_run hr) s' rest rfl
          have hcredit := credit_run hr
          rw [drain_of_some hr, List.length_cons]
          omega

end Scanner

namespace FrameReader

variable {r r' : FrameReader} {input rest : Bytes} {asked : List Nat} {p : Part}

/-- How many parts can be complete in an input, at most. -/
def budget (r : FrameReader) (input : Bytes) : Nat := (input.length + r.scanner.credit) / 2

theorem budget_le (r : FrameReader) (input : Bytes) : r.budget input ≤ input.length / 2 + 1 := by
  have hcredit := r.scanner.credit_le
  rw [budget]
  omega

theorem budget_readFrom (h : (r.readFrom input).outcome = .ok (some p)) :
    (r.readFrom input).reader.budget (r.readFrom input).rest < r.budget input := by
  cases hr : r.readFrom input with
  | mk r' outcome rest asked =>
    rw [hr] at h
    cases h
    obtain ⟨-, s, hs, rfl⟩ := run_of_readFrom hr
    have hcredit := Scanner.credit_run hs
    change (rest.length + s.credit) / 2 < (input.length + r.scanner.credit) / 2
    omega

theorem budget_read (h : r.read.outcome = .ok (some p)) :
    r.read.reader.budget r.read.reader.pending < r.budget r.pending := by
  cases ho : (r.readFrom r.pending).outcome with
  | error fault =>
    rw [read_of_error ho, ho] at h
    cases h
  | ok part =>
    obtain ⟨hout, hreader⟩ := read_of_ok ho
    obtain rfl := Except.ok.inj (hout.symm.trans h)
    rw [hreader]
    exact budget_readFrom ho

end FrameReader

namespace IndexedReader

open FrameReader Slip

variable {d d' : IndexedReader} {r : FrameReader} {input : Bytes}

/-- What was remembered as a fault is what the machine refuses. -/
def Halted (d : IndexedReader) : Prop :=
  ∀ fault, d.fault = some fault → d.machine.Refuses fault

theorem Halted.congr (h : d.Halted) (hm : d'.machine = d.machine) (hf : d'.fault = d.fault) :
    d'.Halted := by
  rw [Halted, hm, hf]
  exact h

theorem halted_of_none (h : d.fault = none) : d.Halted := by
  intro fault hf
  cases h.symm.trans hf

theorem Halted.readFrom {outcome : Except WireFault (Nat × Option Part)} (h : d.Halted)
    (hr : d.readFrom input = .ok (outcome, d')) : d'.Halted := by
  cases hf : d.fault with
  | some fault =>
    rw [IndexedReader.readFrom, hf] at hr
    cases hr
    exact h
  | none =>
    rw [IndexedReader.readFrom, hf] at hr
    obtain ⟨⟨ran, m⟩, hran, hr⟩ := Machine.bind_eq_ok hr
    cases ran with
    | error fault =>
      cases hr
      rintro fault' ⟨⟩
      exact Machine.refuses_of_run hran
    | ok used =>
      cases hr
      exact halted_of_none rfl

theorem Halted.read {outcome : Except WireFault (Option Part)} (h : d.Halted)
    (hr : d.read = .ok (outcome, d')) : d'.Halted := by
  cases hf : d.fault with
  | some fault =>
    rw [IndexedReader.read, hf] at hr
    cases hr
    exact h
  | none =>
    rw [IndexedReader.read, hf] at hr
    obtain ⟨input, -, hr⟩ := Machine.bind_eq_ok hr
    obtain ⟨⟨ran, d''⟩, hfrom, hr⟩ := Machine.bind_eq_ok hr
    have hhalted := h.readFrom hfrom
    cases ran with
    | error fault =>
      cases hr
      exact hhalted
    | ok used =>
      cases hr
      exact hhalted.congr rfl rfl

theorem Halted.offer {room : Bytes} (h : d.Halted) (ho : d.offer = .ok (room, d')) :
    d'.Halted := by
  have hstaging (ho : d.offerStaging = .ok (room, d')) : d'.Halted := by
    cases ho
    exact h.congr rfl rfl
  rw [IndexedReader.offer] at ho
  split at ho
  · obtain ⟨left, -, ho⟩ := Machine.bind_eq_ok ho
    split at ho
    · obtain ⟨room', -, ho⟩ := Machine.bind_eq_ok ho
      cases ho
      exact h.congr rfl rfl
    · exact hstaging ho
  · exact hstaging ho

theorem fault_of_direct (hm : d.Mirrors r) {room : Bytes} (ho : Offered r room)
    (hd : d.direct = true) : d.fault = none := by
  obtain ⟨more, buffer, hp⟩ := ho.body (hm.direct.symm.trans hd)
  cases hf : r.fault with
  | none => exact hm.fault.trans hf
  | some fault =>
    obtain ⟨⟨reader, hhead⟩, -⟩ := hm.serves.failed fault hf
    cases hhead.symm.trans hp

theorem Halted.deposit (h : d.Halted) (hm : d.Mirrors r) {room : Bytes} (ho : Offered r room)
    (hd : d.deposit input = .ok d') : d'.Halted := by
  rw [IndexedReader.deposit] at hd
  split at hd
  · next hdirect =>
    obtain ⟨cursor, -, hd⟩ := Machine.bind_eq_ok hd
    have hfault := fault_of_direct hm ho hdirect
    cases hd
    exact halted_of_none hfault
  · obtain ⟨staging, -, hd⟩ := Machine.bind_eq_ok hd
    cases hd
    exact h.congr rfl rfl

theorem Halted.filled (h : d.Halted) (hm : d.Mirrors r) {room : Bytes} (ho : Offered r room)
    {n : Nat} (hd : d.filled n = .ok d') : d'.Halted := by
  rw [IndexedReader.filled] at hd
  split at hd
  · next hdirect =>
    obtain ⟨cursor, -, hd⟩ := Machine.bind_eq_ok hd
    have hfault := fault_of_direct hm ho hdirect
    cases hd
    exact halted_of_none hfault
  · cases hd
    exact h.congr rfl rfl

theorem Halted.prime (h : d.Halted) (hd : d.prime input = .ok d') : d'.Halted := by
  obtain ⟨staging, -, hd⟩ := Machine.bind_eq_ok hd
  cases hd
  exact h.congr rfl rfl

theorem Halted.setStore (h : d.Halted) (store : BodyStore) : (d.setStore store).Halted := by
  intro fault hf
  exact ⟨(h fault hf).remaining, (h fault hf).step⟩

variable {u : Usage} {answer : Answer}

theorem Halted.call {c : Call} (h : d.Halted) (hm : d.Mirrors u.reader) (hs : u.Sound)
    (ha : u.Admits c) (hc : d.call c = .ok (answer, d')) : d'.Halted := by
  cases c with
  | read =>
    obtain ⟨⟨outcome, d''⟩, hr, hc⟩ := Machine.bind_eq_ok hc
    cases hc
    exact h.read hr
  | readFrom input =>
    obtain ⟨⟨outcome, d''⟩, hr, hc⟩ := Machine.bind_eq_ok hc
    cases hc
    exact h.readFrom hr
  | offer =>
    obtain ⟨⟨room, d''⟩, ho, hc⟩ := Machine.bind_eq_ok hc
    cases hc
    exact h.offer ho
  | deposit input =>
    obtain ⟨room, hroom, -⟩ := ha
    obtain ⟨d'', hd, hc⟩ := Machine.bind_eq_ok hc
    cases hc
    exact h.deposit hm (hs.room room hroom) hd
  | filled n =>
    obtain ⟨room, hroom, -⟩ := ha
    obtain ⟨d'', hd, hc⟩ := Machine.bind_eq_ok hc
    cases hc
    exact h.filled hm (hs.room room hroom) hd
  | prime input =>
    obtain ⟨d'', hd, hc⟩ := Machine.bind_eq_ok hc
    cases hc
    exact h.prime hd
  | setStore store =>
    cases hc
    exact h.setStore store

theorem Halted.perform {cs : List Call} {answers : List Answer} (h : d.Halted)
    (hm : d.Mirrors u.reader) (hs : u.Sound) (ha : u.AdmitsAll cs)
    (hp : d.perform cs = .ok (answers, d')) : d'.Halted := by
  induction cs generalizing u d answers with
  | nil =>
    cases hp
    exact h
  | cons c cs ih =>
    obtain ⟨⟨answer, d₁⟩, hc, hp⟩ := Machine.bind_eq_ok hp
    obtain ⟨⟨behind, d₂⟩, hcs, hp⟩ := Machine.bind_eq_ok hp
    cases hp
    obtain ⟨d₁', hc', hm'⟩ := Usage.mirrors_call hm hs ha.1
    cases hc.symm.trans hc'
    exact ih (h.call hm hs ha.1 hc) hm' (hs.play ha.1 hm hm') ha.2 hcs

/-- One round of a loop that reads until no part is complete or a fault is met. -/
def readRound {S : Type} (read : S → Except Slip (Except WireFault (Option Part) × S)) :
    S × List Part → Except Slip (Option WireFault × S × List Part) ⊕ S × List Part
  | (s, parts) =>
    match read s with
    | .error slip => .inl (.error slip)
    | .ok (.error fault, s) => .inl (.ok (some fault, s, parts))
    | .ok (.ok none, s) => .inl (.ok (none, s, parts))
    | .ok (.ok (some p), s) => .inr (s, parts ++ [p])

/-- Reads from an input and leaves what was not used of it. -/
def readRest : IndexedReader × Bytes →
    Except Slip (Except WireFault (Option Part) × IndexedReader × Bytes)
  | (d, input) => do
    let (outcome, d) ← d.readFrom input
    match outcome with
    | .error fault => .ok (.error fault, d, input)
    | .ok (used, part) => do
      let rest ← slice input used input.length
      .ok (.ok part, d, rest)

section Loop

variable {S : Type} {read : S → Except Slip (Except WireFault (Option Part) × S)}

theorem length_of_loops {a : S × List Part} {k : Nat} {fault : Option WireFault} {s : S}
    {parts : List Part} (h : Loops (readRound read) a k (.ok (fault, s, parts))) :
    parts.length = a.2.length + k := by
  generalize hb : Except.ok (fault, s, parts) = b at h
  induction h with
  | @ends a b h =>
    subst hb
    rw [readRound] at h
    split at h <;> cases h <;> rfl
  | @goesOn a a' k b h rest ih =>
    rw [ih hb]
    rw [readRound] at h
    split at h <;> cases h
    rw [List.length_append, List.length_singleton, Nat.add_assoc, Nat.add_comm 1 k]

theorem loops_readRound {I : S → Nat → Prop}
    (hread : ∀ s n, I s n → ∃ outcome s', read s = .ok (outcome, s') ∧
      ∀ p, outcome = .ok (some p) → ∃ n' < n, I s' n') {s : S} {n : Nat} (h : I s n) :
    ∃ fault s' parts, Loops (readRound read) (s, []) parts.length (.ok (fault, s', parts)) ∧
      parts.length ≤ n := by
  have hends (a : S × List Part) (n : Nat) (b : Except Slip (Option WireFault × S × List Part))
      (h : I a.1 n) (hr : readRound read a = .inl b) :
      ∃ fault s' parts, b = .ok (fault, s', parts) := by
    obtain ⟨outcome, s', hs, -⟩ := hread _ _ h
    rw [readRound, hs] at hr
    cases outcome with
    | error fault =>
      cases hr
      exact ⟨_, _, _, rfl⟩
    | ok part =>
      cases part with
      | none =>
        cases hr
        exact ⟨_, _, _, rfl⟩
      | some p => cases hr
  have hgoes (a : S × List Part) (n : Nat) (a' : S × List Part) (h : I a.1 n)
      (hr : readRound read a = .inr a') : ∃ n' < n, I a'.1 n' := by
    obtain ⟨outcome, s', hs, hpart⟩ := hread _ _ h
    rw [readRound, hs] at hr
    cases outcome with
    | error fault => cases hr
    | ok part =>
      cases part with
      | none => cases hr
      | some p =>
        cases hr
        exact hpart p rfl
  obtain ⟨k, b, hl, hk, fault, s', parts, rfl⟩ := exists_loops (a := (s, [])) hends hgoes h
  have hlength := length_of_loops hl
  rw [List.length_nil, Nat.zero_add] at hlength
  exact ⟨fault, s', parts, hlength ▸ hl, hlength ▸ hk⟩

end Loop

/-- Whatever input it is given, a reader comes to an end with it. -/
structure Terminates (d : IndexedReader) : Prop where
  /-- A run uses no more than there is, and all of it where no part is complete. -/
  run : ∀ input, ∃ k ran, Loops (Machine.round input) (d.machine, 0) k (.ok ran) ∧
    k ≤ 3 * input.length + 2 ∧ d.machine.run input 0 = .ok ran ∧
    ∀ used part, ran.outcome = .ok (used, part) →
      used ≤ input.length ∧ (part = none → used = input.length)
  /-- Reading from an input over and over tells a part for every two bytes at most, and one for a
  frame that was begun. -/
  readFrom : ∀ input, ∃ fault end' parts,
    Loops (readRound readRest) ((d, input), []) parts.length (.ok (fault, end', parts)) ∧
      parts.length ≤ input.length / 2 + 1
  read : ∃ fault end' parts,
    Loops (readRound IndexedReader.read) (d, []) parts.length (.ok (fault, end', parts)) ∧
      parts.length ≤ (d.len - d.pos) / 2 + 1

theorem Mirrors.run (hm : d.Mirrors r) (hh : d.Halted) (input : Bytes) :
    ∃ ran, d.machine.run input 0 = .ok ran ∧ ∀ used part, ran.outcome = .ok (used, part) →
      used ≤ input.length ∧ (part = none → used = input.length) := by
  cases hf : r.fault with
  | some fault =>
    have hrefuses := hh fault (hm.fault.trans hf)
    refine ⟨_, hrefuses.run input 0, ?_⟩
    rintro used part ⟨⟩
  | none =>
    obtain ⟨ran, hran, hout, -⟩ := hm.serves.run hf input
    refine ⟨ran, hran, ?_⟩
    intro used part hused
    rw [hout] at hused
    cases hr : r.readFrom input with
    | mk r' outcome rest asked =>
      rw [hr] at hused
      cases outcome with
      | error fault => cases hused
      | ok part' =>
        cases hused
        refine ⟨Nat.sub_le .., ?_⟩
        rintro rfl
        obtain ⟨-, s, hs, -⟩ := run_of_readFrom hr
        have hrest := Scanner.rest_run_of_none (s := r.scanner) (a := input) (by rw [hs])
        rw [hs] at hrest
        change rest = [] at hrest
        rw [hrest, List.length_nil, Nat.sub_zero]

theorem Mirrors.loops_readFrom (hm : d.Mirrors r) (input : Bytes) :
    ∃ fault end' parts,
      Loops (readRound readRest) ((d, input), []) parts.length (.ok (fault, end', parts)) ∧
        parts.length ≤ r.budget input := by
  have hread (s : IndexedReader × Bytes) (n : Nat)
      (h : ∃ r, s.1.Mirrors r ∧ r.budget s.2 ≤ n) :
      ∃ outcome s', readRest s = .ok (outcome, s') ∧ ∀ p, outcome = .ok (some p) →
        ∃ n' < n, ∃ r, s'.1.Mirrors r ∧ r.budget s'.2 ≤ n' := by
    obtain ⟨d, input⟩ := s
    obtain ⟨r, hm, hn⟩ := h
    obtain ⟨d', hd', hm'⟩ := hm.readFrom input
    rw [readRest, hd']
    simp only [bind, Except.bind]
    cases ho : (r.readFrom input).outcome with
    | error fault => exact ⟨_, _, rfl, nofun⟩
    | ok part =>
      obtain ⟨used, hk⟩ := r.scanner.exists_kept
      obtain ⟨taken, hinput, -⟩ := (readFrom_of_ok ho).2.2 used hk
      have hlength := congrArg List.length hinput
      rw [List.length_append] at hlength
      have hused : input.length - (r.readFrom input).rest.length = taken.length := by omega
      have htaken : taken.length ≤ input.length := by omega
      have hrest : (input.take input.length).drop taken.length = (r.readFrom input).rest := by
        rw [List.take_length]
        conv_lhs => rw [hinput]
        exact List.drop_left
      simp only [Except.map, hused]
      rw [slice_of_le htaken (Nat.le_refl _), hrest]
      refine ⟨_, _, rfl, ?_⟩
      rintro p ⟨⟩
      exact ⟨_, Nat.lt_of_lt_of_le (budget_readFrom ho) hn, _, hm', Nat.le_refl _⟩
  exact loops_readRound hread ⟨r, hm, Nat.le_refl _⟩

theorem Mirrors.loops_read (hm : d.Mirrors r) :
    ∃ fault end' parts,
      Loops (readRound IndexedReader.read) (d, []) parts.length (.ok (fault, end', parts)) ∧
        parts.length ≤ r.budget r.pending := by
  have hread (d : IndexedReader) (n : Nat) (h : ∃ r, d.Mirrors r ∧ r.budget r.pending ≤ n) :
      ∃ outcome d', d.read = .ok (outcome, d') ∧ ∀ p, outcome = .ok (some p) →
        ∃ n' < n, ∃ r, d'.Mirrors r ∧ r.budget r.pending ≤ n' := by
    obtain ⟨r, hm, hn⟩ := h
    obtain ⟨d', hd', hm'⟩ := hm.read
    refine ⟨_, _, hd', ?_⟩
    intro p ho
    exact ⟨_, Nat.lt_of_lt_of_le (budget_read ho) hn, _, hm', Nat.le_refl _⟩
  exact loops_readRound hread ⟨r, hm, Nat.le_refl _⟩

theorem Mirrors.terminates (hm : d.Mirrors r) (hh : d.Halted) : d.Terminates where
  run input := by
    obtain ⟨k, hl, hk⟩ := Machine.loops_run d.machine input
    obtain ⟨ran, hran, hused⟩ := hm.run hh input
    exact ⟨k, ran, hran ▸ hl, hk, hran, hused⟩
  readFrom input := by
    obtain ⟨fault, end', parts, hl, hparts⟩ := hm.loops_readFrom input
    exact ⟨fault, end', parts, hl, Nat.le_trans hparts (r.budget_le input)⟩
  read := by
    obtain ⟨fault, end', parts, hl, hparts⟩ := hm.loops_read
    have hlength : r.pending.length = d.len - d.pos := by
      rw [hm.staged.pending, List.length_drop, List.length_take_of_le hm.staged.len]
    rw [← hlength]
    exact ⟨fault, end', parts, hl, Nat.le_trans hparts (r.budget_le r.pending)⟩

end IndexedReader

/-- However a reader was used within what it admits, and whether or not it has met a fault, it comes
to an end with what it is given. -/
theorem Usage.terminates_run (revision : Revision) (bufferSize limit : Nat)
    {cs : List FrameReader.Call} (h : (start revision bufferSize limit).AdmitsAll cs) :
    ∃ answers d, (IndexedReader.new revision bufferSize limit).perform cs = .ok (answers, d) ∧
      d.Terminates := by
  have hs := sound_start revision bufferSize limit
  have hm := IndexedReader.mirrors_new revision bufferSize limit
  obtain ⟨answers, d, hperform, -, hm', -⟩ := perform_eq hs hm h
  have hh := (IndexedReader.halted_of_none rfl).perform hm hs h hperform
  exact ⟨answers, d, hperform, hm'.terminates hh⟩

end Zmtp
