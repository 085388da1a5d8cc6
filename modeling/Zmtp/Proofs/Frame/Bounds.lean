import Zmtp.Proofs.Frame.Memory

namespace Zmtp

namespace FrameReader

def answer (r : FrameReader) : Call → Answer
  | .read => .read r.read.outcome
  | .readFrom input =>
    .used ((r.readFrom input).outcome.map fun part =>
      (input.length - (r.readFrom input).rest.length, part))
  | .offer => .room r.offer.2.room
  | .deposit _ => .done
  | .filled _ => .done
  | .prime _ => .done
  | .setStore _ => .done

end FrameReader

/-- The part that is told. -/
def Answer.part : Answer → Option Part
  | .read (.ok part) => part
  | .used (.ok (_, part)) => part
  | _ => none

/-- A reader in use, and what its user knows of it. -/
structure Usage where
  reader : FrameReader
  /-- The room that was offered, as it stands, while it may be written to. -/
  room : Option Bytes
  /-- The input that was supplied and not used so far. -/
  waiting : Bytes
  /-- The input that was used, in the order in which it was. -/
  used : Bytes
  answers : List Answer

namespace Usage

open FrameReader IndexedReader

def start (revision : Revision) (bufferSize limit : Nat) : Usage :=
  ⟨.new revision bufferSize limit, none, [], [], []⟩

/-- What is counted as filled is the front of the room, as it stands then. -/
def counted (u : Usage) (n : Nat) : Bytes := (u.room.getD []).take n

/-- How much of the waiting input is not pending after a call. -/
def gone (u : Usage) (c : Call) : Nat := u.waiting.length - (u.reader.call c).pending.length

def roomAfter (u : Usage) : Call → Option Bytes
  | .offer => some u.reader.offer.2.room
  | .deposit input => u.room.map fun room => input ++ room.drop input.length
  | .read => none
  | .readFrom _ => none
  | .filled _ => none
  | .prime _ => none
  | .setStore _ => u.room

def waitingAfter (u : Usage) : Call → Bytes
  | .read => u.waiting.drop (u.gone .read)
  | .readFrom input => u.waiting.drop (u.gone (.readFrom input))
  | .filled n => if u.reader.direct then u.waiting else u.counted n
  | .prime input => input
  | .offer => u.waiting
  | .deposit _ => u.waiting
  | .setStore _ => u.waiting

/-- The input that a call uses. Once a fault is met none counts as used. -/
def uses (u : Usage) : Call → Bytes
  | .read =>
    match u.reader.read.outcome with
    | .ok _ => u.waiting.take (u.gone .read)
    | .error _ => []
  | .readFrom input =>
    match (u.reader.readFrom input).outcome with
    | .ok _ => input.take (input.length - (u.reader.readFrom input).rest.length)
    | .error _ => []
  | .filled n => if u.reader.direct then u.counted n else []
  | .offer => []
  | .deposit _ => []
  | .prime _ => []
  | .setStore _ => []

def play (u : Usage) (c : Call) : Usage where
  reader := u.reader.call c
  room := u.roomAfter c
  waiting := u.waitingAfter c
  used := u.used ++ u.uses c
  answers := u.answers ++ [u.reader.answer c]

def run (u : Usage) (cs : List Call) : Usage := cs.foldl play u

/-- The room is offered and input is staged only where none is pending, and no more is written or
counted than was offered just before. -/
def Admits (u : Usage) : Call → Prop
  | .offer => u.waiting = []
  | .prime _ => u.waiting = []
  | .deposit input => ∃ room ∈ u.room, input.length ≤ room.length
  | .filled n => ∃ room ∈ u.room, n ≤ room.length
  | .read => True
  | .readFrom _ => True
  | .setStore _ => True

def AdmitsAll (u : Usage) : List Call → Prop
  | [] => True
  | c :: cs => u.Admits c ∧ (u.play c).AdmitsAll cs

def told (u : Usage) : List Part := u.answers.filterMap Answer.part

structure Sound (u : Usage) : Prop where
  waiting : u.waiting = u.reader.pending
  room : ∀ room ∈ u.room, Offered u.reader room
  kept : u.reader.scanner.Kept u.used
  told : ∀ p ∈ u.told, p.data <:+: u.used
  rooms : ∀ room, .room room ∈ u.answers → room ≠ []

variable {u : Usage} {c : Call} {d d' : IndexedReader}

theorem mirrors_call (hm : d.Mirrors u.reader) (hs : u.Sound) (ha : u.Admits c) :
    ∃ d', d.call c = .ok (u.reader.answer c, d') ∧ d'.Mirrors (u.reader.call c) := by
  cases c with
  | read =>
    obtain ⟨d', hd', hm'⟩ := hm.read
    exact ⟨d', by rw [IndexedReader.call, hd']; rfl, hm'⟩
  | readFrom input =>
    obtain ⟨d', hd', hm'⟩ := hm.readFrom input
    exact ⟨d', by rw [IndexedReader.call, hd']; rfl, hm'⟩
  | offer =>
    obtain ⟨d', hd', hm', -⟩ := hm.offer
    exact ⟨d', by rw [IndexedReader.call, hd']; rfl, hm'⟩
  | deposit input =>
    obtain ⟨room, hroom, hl⟩ := ha
    obtain ⟨d', hd', hm'⟩ := hm.deposit (hs.room room hroom) hl
    exact ⟨d', by rw [IndexedReader.call, hd']; rfl, hm'⟩
  | filled n =>
    obtain ⟨room, hroom, hn⟩ := ha
    obtain ⟨d', hd', hm'⟩ := hm.filled (hs.room room hroom) hn
    exact ⟨d', by rw [IndexedReader.call, hd']; rfl, hm'⟩
  | prime input =>
    obtain ⟨d', hd', hm'⟩ := hm.prime input
    exact ⟨d', by rw [IndexedReader.call, hd']; rfl, hm'⟩
  | setStore store => exact ⟨_, rfl, hm.setStore store⟩

theorem Sound.waiting_play (hs : u.Sound) (ha : u.Admits c) :
    u.waitingAfter c = (u.reader.call c).pending := by
  have hsuffix {pending : Bytes} (h : pending <:+ u.reader.pending) :
      u.waiting.drop (u.waiting.length - pending.length) = pending := by
    rw [hs.waiting]
    exact (List.suffix_iff_eq_drop.1 h).symm
  cases c with
  | read => exact hsuffix (pending_read_suffix u.reader)
  | readFrom input => exact hsuffix (pending_readFrom_suffix u.reader input)
  | offer =>
    have hpending : u.reader.pending = [] := hs.waiting.symm.trans ha
    exact ha.trans (offered_offer hpending).pending.symm
  | deposit input =>
    rw [waitingAfter, hs.waiting, FrameReader.call, FrameReader.deposit]
    split
    · exact (modifyBody_frame ..).2.symm
    · rfl
  | filled n =>
    obtain ⟨room, hroom, hn⟩ := ha
    have hoffered := hs.room room hroom
    rw [waitingAfter, FrameReader.call, FrameReader.filled]
    by_cases hd : u.reader.direct = true
    · rw [if_pos hd, if_pos hd, hs.waiting]
      exact (modifyBody_frame ..).2.symm
    · obtain ⟨rfl, hbytes⟩ := hoffered.of_staging (eq_false_of_ne_true hd)
      rw [if_neg hd, if_neg hd, counted, Option.mem_def.1 hroom, Option.getD_some]
      rw [Buffer.length_peek] at hn
      have hcontents : u.reader.staging.contents =
          u.reader.staging.peek u.reader.staging.room := by
        rw [Buffer.contents, hbytes, List.nil_append]
      have hsize : n ≤ u.reader.staging.size := Nat.le_trans hn (Nat.le_add_left ..)
      change _ = (u.reader.staging.rewind.count n).bytes
      rw [Buffer.bytes_count_rewind, Nat.min_eq_left hsize, hcontents]
  | prime input => rfl
  | setStore store => exact hs.waiting

theorem Sound.room_play (hs : u.Sound) (ha : u.Admits c) :
    ∀ room ∈ u.roomAfter c, Offered (u.reader.call c) room := by
  cases c with
  | read => exact nofun
  | readFrom input => exact nofun
  | offer =>
    rintro room ⟨⟩
    exact offered_offer (hs.waiting.symm.trans ha)
  | deposit input =>
    obtain ⟨room, hroom, hl⟩ := ha
    intro room' hroom'
    rw [roomAfter, Option.mem_def.1 hroom] at hroom'
    obtain rfl := Option.some.inj hroom'
    exact (hs.room room hroom).deposit hl
  | filled n => exact nofun
  | prime input => exact nofun
  | setStore store =>
    intro room hroom
    have hoffered := hs.room room hroom
    exact ⟨hoffered.room, hoffered.pending, hoffered.body, hoffered.clean⟩

theorem Sound.kept_read (hs : u.Sound) (hm : d.Mirrors (u.reader.call .read)) :
    (u.reader.call .read).scanner.Kept (u.used ++ u.uses .read) ∧
      ∀ p, (u.reader.answer .read).part = some p → p.data <:+ u.used ++ u.uses .read := by
  rw [uses, FrameReader.answer]
  cases ho : u.reader.read.outcome with
  | error fault => exact ⟨kept_of_fault hm (fault_of_read_error ho) _, nofun⟩
  | ok part =>
    obtain ⟨taken, hpending, hkept, hpart⟩ := read_ok ho hs.kept
    have htake : u.waiting.take (u.gone .read) = taken := by
      have hwaiting : u.waiting = taken ++ u.reader.read.reader.pending :=
        hs.waiting.trans hpending
      have hgone : u.gone .read = taken.length := by
        rw [gone, FrameReader.call, hwaiting, List.length_append, Nat.add_sub_cancel_right]
      rw [hgone, hwaiting, List.take_left]
    simp only
    rw [htake]
    exact ⟨hkept, hpart⟩

theorem Sound.kept_readFrom (hs : u.Sound) {input : Bytes}
    (hm : d.Mirrors (u.reader.call (.readFrom input))) :
    (u.reader.call (.readFrom input)).scanner.Kept (u.used ++ u.uses (.readFrom input)) ∧
      ∀ p, (u.reader.answer (.readFrom input)).part = some p →
        p.data <:+ u.used ++ u.uses (.readFrom input) := by
  rw [uses, FrameReader.answer]
  cases ho : (u.reader.readFrom input).outcome with
  | error fault => exact ⟨kept_of_fault hm (fault_of_readFrom_error ho) _, nofun⟩
  | ok part =>
    obtain ⟨taken, hinput, hkept, hpart⟩ := (readFrom_of_ok ho).2.2 u.used hs.kept
    have htake : input.take (input.length - (u.reader.readFrom input).rest.length) = taken := by
      have hlength := congrArg List.length hinput
      rw [List.length_append] at hlength
      have hused : input.length - (u.reader.readFrom input).rest.length = taken.length := by omega
      rw [hused]
      exact (List.prefix_iff_eq_take.1 ⟨_, hinput.symm⟩).symm
    simp only
    rw [htake]
    exact ⟨hkept, hpart⟩

theorem Sound.kept_filled (hs : u.Sound) {n : Nat} (ha : u.Admits (.filled n)) :
    (u.reader.filled n).scanner.Kept (u.used ++ u.uses (.filled n)) := by
  obtain ⟨room, hroom, hn⟩ := ha
  rw [uses, FrameReader.filled]
  by_cases hd : u.reader.direct = true
  · obtain ⟨more, buffer, hp, rfl⟩ := (hs.room room hroom).of_direct hd
    rw [Buffer.length_peek] at hn
    rw [if_pos hd, if_pos hd, counted, Option.mem_def.1 hroom, Option.getD_some,
      Buffer.take_peek hn]
    apply kept_modifyBody hs.kept
    intro more' buffer' hp'
    cases hp.symm.trans hp'
    rw [Buffer.bytes_count, Nat.min_eq_left hn]
  · rw [if_neg hd, if_neg hd, List.append_nil]
    exact hs.kept

theorem Sound.kept_play (hs : u.Sound) (hm : d.Mirrors (u.reader.call c)) (ha : u.Admits c) :
    (u.reader.call c).scanner.Kept (u.used ++ u.uses c) ∧
      ∀ p, (u.reader.answer c).part = some p → p.data <:+ u.used ++ u.uses c := by
  cases c with
  | read => exact hs.kept_read hm
  | readFrom input => exact hs.kept_readFrom hm
  | offer =>
    rw [uses, List.append_nil, FrameReader.call, scanner_offer]
    exact ⟨hs.kept, by rintro p ⟨⟩⟩
  | deposit input =>
    rw [uses, FrameReader.call, FrameReader.deposit]
    refine ⟨?_, by rintro p ⟨⟩⟩
    split
    · exact kept_modifyBody hs.kept fun _ _ _ => (List.append_nil _).symm
    · rw [List.append_nil]
      exact hs.kept
  | filled n => exact ⟨hs.kept_filled ha, by rintro p ⟨⟩⟩
  | prime input =>
    rw [uses, List.append_nil]
    exact ⟨hs.kept, by rintro p ⟨⟩⟩
  | setStore store =>
    rw [uses, List.append_nil]
    exact ⟨hs.kept, by rintro p ⟨⟩⟩

theorem told_play (u : Usage) (c : Call) :
    (u.play c).told = u.told ++ (u.reader.answer c).part.toList := by
  change (u.answers ++ [u.reader.answer c]).filterMap Answer.part = _
  rw [List.filterMap_append, told]
  cases hp : (u.reader.answer c).part <;> simp [hp]

theorem Sound.play (hs : u.Sound) (ha : u.Admits c) (hd : d.Mirrors u.reader)
    (hm : d'.Mirrors (u.reader.call c)) : (u.play c).Sound := by
  obtain ⟨hkept, hpart⟩ := hs.kept_play hm ha
  refine ⟨hs.waiting_play ha, hs.room_play ha, hkept, ?_, ?_⟩
  · rw [told_play]
    intro p hp
    obtain hp | hp := List.mem_append.1 hp
    · exact (hs.told p hp).trans (List.prefix_append ..).isInfix
    · exact (hpart p (Option.mem_toList.1 hp)).isInfix
  · intro room hroom
    obtain hroom | hroom := List.mem_append.1 hroom
    · exact hs.rooms room hroom
    · cases c with
      | offer =>
        obtain rfl : room = u.reader.offer.2.room := by
          cases List.mem_singleton.1 hroom
          rfl
        obtain ⟨-, -, -, hpos⟩ := hd.offer
        exact List.length_pos_iff.1 hpos
      | read => cases List.mem_singleton.1 hroom
      | readFrom input => cases List.mem_singleton.1 hroom
      | deposit input => cases List.mem_singleton.1 hroom
      | filled n => cases List.mem_singleton.1 hroom
      | prime input => cases List.mem_singleton.1 hroom
      | setStore store => cases List.mem_singleton.1 hroom

theorem sound_start (revision : Revision) (bufferSize limit : Nat) :
    (start revision bufferSize limit).Sound := by
  refine ⟨rfl, nofun, ?_, nofun, nofun⟩
  exact Scanner.kept_of_head rfl []

/-- What the calls do to the reader in memory, they do without a slip. -/
theorem perform_eq (hs : u.Sound) (hm : d.Mirrors u.reader) {cs : List Call} (ha : u.AdmitsAll cs) :
    ∃ answers d', IndexedReader.perform d cs = .ok (answers, d') ∧
      (u.run cs).answers = u.answers ++ answers ∧ d'.Mirrors (u.run cs).reader ∧
        (u.run cs).Sound := by
  induction cs generalizing u d with
  | nil => exact ⟨[], d, rfl, (List.append_nil _).symm, hm, hs⟩
  | cons c cs ih =>
    obtain ⟨d', hcall, hm'⟩ := mirrors_call hm hs ha.1
    obtain ⟨answers, d'', hperform, hanswers, hm'', hs''⟩ := ih (hs.play ha.1 hm hm') hm' ha.2
    refine ⟨u.reader.answer c :: answers, d'', ?_, ?_, hm'', hs''⟩
    · rw [IndexedReader.perform, hcall]
      simp only [bind, Except.bind]
      rw [hperform]
    · refine hanswers.trans ?_
      change (u.answers ++ [u.reader.answer c]) ++ answers = _
      rw [← List.append_cons]

theorem reader_run (u : Usage) (cs : List Call) : (u.run cs).reader = u.reader.perform cs := by
  induction cs generalizing u with
  | nil => rfl
  | cons c cs ih => exact ih (u.play c)

/-- Whatever is done with a reader within what it admits, no index, difference or copy in it fails,
and between two calls its positions are within bounds. It answers as the reader without positions
does, no room that it offers is empty, and each part is a piece of the input that was used. -/
theorem in_bounds_run (revision : Revision) (bufferSize limit : Nat) {cs : List Call}
    (h : (start revision bufferSize limit).AdmitsAll cs) :
    let u := (start revision bufferSize limit).run cs
    ∃ d, (IndexedReader.new revision bufferSize limit).perform cs = .ok (u.answers, d) ∧
      d.InBounds ∧
      u.reader = (FrameReader.new revision bufferSize limit).perform cs ∧
      d.hasPending = u.reader.hasPending ∧
      u.waiting = (d.staging.take d.len).drop d.pos ∧
      (∀ room, .room room ∈ u.answers → room ≠ []) ∧
      ∀ p ∈ u.told, p.data <:+: u.used := by
  intro u
  obtain ⟨answers, d, hperform, hanswers, hm, hs⟩ :=
    perform_eq (sound_start revision bufferSize limit) (mirrors_new revision bufferSize limit) h
  obtain rfl : u.answers = answers := hanswers
  exact ⟨d, hperform, hm.inBounds, reader_run .., hm.hasPending, hs.waiting.trans hm.staged.pending,
    hs.rooms, hs.told⟩

instance (u : Usage) : DecidablePred u.Admits
  | .read => inferInstanceAs (Decidable True)
  | .readFrom _ => inferInstanceAs (Decidable True)
  | .offer => inferInstanceAs (Decidable (_ = _))
  | .deposit input => inferInstanceAs (Decidable (∃ room ∈ u.room, input.length ≤ room.length))
  | .filled n => inferInstanceAs (Decidable (∃ room ∈ u.room, n ≤ room.length))
  | .prime _ => inferInstanceAs (Decidable (_ = _))
  | .setStore _ => inferInstanceAs (Decidable True)

instance decidableAdmitsAll : ∀ (cs : List Call) (u : Usage), Decidable (u.AdmitsAll cs)
  | [], _ => inferInstanceAs (Decidable True)
  | c :: cs, u =>
    have := decidableAdmitsAll cs (u.play c)
    inferInstanceAs (Decidable (u.Admits c ∧ (u.play c).AdmitsAll cs))

/-- A body that comes from the staging buffer, by its own room and from the staging buffer again, and
behind it a header that is refused. -/
def threeWays : List Call :=
  [.prime [0x01, 3, 7], .read, .offer, .deposit [8, 9], .filled 1, .offer, .deposit [9, 0x04],
    .filled 2, .read, .read, .offer, .filled 0]

theorem in_bounds_run_threeWays :
    let u := (start .v2 2 3).run threeWays
    (start .v2 2 3).AdmitsAll threeWays ∧ u.told = [.ofMore [7, 8, 9] true] ∧
      [7, 8, 9] <:+: u.used ∧
      ∃ d, (IndexedReader.new .v2 2 3).perform threeWays = .ok (u.answers, d) ∧ d.InBounds := by
  intro u
  have h : (start .v2 2 3).AdmitsAll threeWays := by decide
  have htold : u.told = [.ofMore [7, 8, 9] true] := by decide
  obtain ⟨d, hperform, hbounds, -, -, -, -, hpieces⟩ := in_bounds_run .v2 2 3 h
  have hpiece : [7, 8, 9] <:+: u.used := hpieces (.ofMore [7, 8, 9] true) (by
    change _ ∈ u.told
    rw [htold]
    exact List.mem_singleton_self _)
  exact ⟨h, htold, hpiece, d, hperform, hbounds⟩

end Usage

end Zmtp
