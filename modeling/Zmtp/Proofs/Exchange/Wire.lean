import Zmtp.Proofs.Engine.World
import Zmtp.Stream.Duplex

namespace Zmtp

/-- How the next read or write goes. -/
inductive Pace where
  /-- At most so many bytes move. A read that has bytes to read brings one at least. -/
  | move (n : Nat)
  /-- The stream is not ready, or was interrupted. -/
  | stall (interrupted : Bool)
  deriving DecidableEq

def IoFault.interrupted : IoFault := ⟨.interrupted, "operation interrupted"⟩

/-- One end of a connection that moves as many bytes at a time as a schedule says. Once the schedule
has run out nothing moves. -/
structure Wire where
  inbound : Channel
  outbound : Channel
  schedule : List Pace
  deriving DecidableEq

namespace Wire

def stalled (interrupted : Bool) : IoFault := if interrupted then .interrupted else .wouldBlock

def read (w : Wire) (room : Nat) : ReadOutcome × Wire :=
  match w.schedule with
  | [] => (.failed .wouldBlock, w)
  | .stall interrupted :: schedule => (.failed (stalled interrupted), { w with schedule })
  | .move n :: schedule =>
    if w.inbound.bytes.isEmpty then
      (if w.inbound.writerGone then .data [] else .failed .wouldBlock, { w with schedule })
    else
      let k := min (max n 1) room
      (.data (w.inbound.bytes.take k),
        { w with schedule, inbound := { w.inbound with bytes := w.inbound.bytes.drop k } })

def write (w : Wire) (slices : List Bytes) : WriteOutcome × Wire :=
  match w.schedule with
  | [] => (.failed .wouldBlock, w)
  | .stall interrupted :: schedule => (.failed (stalled interrupted), { w with schedule })
  | .move n :: schedule =>
    if w.outbound.readerGone then (.failed DuplexEnd.peerGone, { w with schedule })
    else
      let taken := slices.flatten.take n
      (.accepted taken.length,
        { w with schedule, outbound := { w.outbound with bytes := w.outbound.bytes ++ taken } })

def close (w : Wire) : Wire :=
  { w with
    inbound := { w.inbound with readerGone := true }
    outbound := { w.outbound with writerGone := true } }

instance : ByteStream Wire := ⟨read, write, close⟩

theorem isTransient_stalled (interrupted : Bool) : (stalled interrupted).isTransient = true := by
  cases interrupted <;> rfl

variable {w w' : Wire} {room : Nat} {slices : List Bytes}

/-- A read fails for now, or takes bytes from the front of those that are on their way. It takes none
only at the end of the stream. -/
theorem of_read {outcome : ReadOutcome} (h : w.read room = (outcome, w')) :
    (∃ fault, outcome = .failed fault ∧ fault.isTransient = true ∧
        w'.inbound = w.inbound ∧ w'.outbound = w.outbound) ∨
      ∃ bytes rest, outcome = .data bytes ∧ bytes.take room ++ rest = w.inbound.bytes ∧
        w'.inbound = { w.inbound with bytes := rest } ∧ w'.outbound = w.outbound ∧
        (0 < room → bytes.take room ≠ [] ∨ w.inbound.writerGone = true) := by
  rw [read] at h
  split at h
  · cases h
    exact .inl ⟨_, rfl, rfl, rfl, rfl⟩
  · cases h
    exact .inl ⟨_, rfl, isTransient_stalled _, rfl, rfl⟩
  · next n schedule hs =>
    split at h
    · next hb =>
      rw [List.isEmpty_iff] at hb
      cases hg : w.inbound.writerGone with
      | false =>
        rw [hg] at h
        cases h
        exact .inl ⟨_, rfl, rfl, rfl, rfl⟩
      | true =>
        rw [hg] at h
        cases h
        exact .inr ⟨[], [], rfl, by rw [hb, List.take_nil, List.nil_append], by rw [← hb], rfl,
          fun _ => .inr rfl⟩
    · next hb =>
      rw [List.isEmpty_iff] at hb
      cases h
      have htake : (w.inbound.bytes.take (min (max n 1) room)).take room =
          w.inbound.bytes.take (min (max n 1) room) :=
        List.take_of_length_le (Nat.le_trans (List.length_take_le ..) (Nat.min_le_right ..))
      refine .inr ⟨_, _, rfl, ?_, rfl, rfl, fun hroom => .inl ?_⟩
      · rw [htake, List.take_append_drop]
      · rw [htake, ne_eq, List.take_eq_nil_iff, not_or]
        exact ⟨by omega, hb⟩

/-- A write fails for now, or adds bytes behind those that are on their way. It fails for good only
when there is no reader. -/
theorem of_write {outcome : WriteOutcome} (h : w.write slices = (outcome, w')) :
    (∃ fault, outcome = .failed fault ∧
        (fault.isTransient = true ∨ w.outbound.readerGone = true) ∧
        w'.inbound = w.inbound ∧ w'.outbound = w.outbound) ∨
      ∃ n, outcome = .accepted n ∧ w'.inbound = w.inbound ∧ w'.outbound =
        { w.outbound with bytes := w.outbound.bytes ++ slices.flatten.take n } := by
  rw [write] at h
  split at h
  · cases h
    exact .inl ⟨_, rfl, .inl rfl, rfl, rfl⟩
  · cases h
    exact .inl ⟨_, rfl, .inl (isTransient_stalled _), rfl, rfl⟩
  · next n schedule hs =>
    split at h
    · next hg =>
      cases h
      exact .inl ⟨_, rfl, .inr hg, rfl, rfl⟩
    · cases h
      refine .inr ⟨_, rfl, rfl, ?_⟩
      rw [List.length_take, ← List.take_take, List.take_length]

/-- Our ends of both directions are open, and those of the peer unless it is gone. -/
def Open (gone : Bool) (w : Wire) : Prop :=
  w.inbound.writerGone = gone ∧ w.inbound.readerGone = false ∧
    w.outbound.writerGone = false ∧ w.outbound.readerGone = gone

end Wire

namespace Tap

/-- How a stream stands that connects us to a peer who has said `said` and has heard `known`. What is
on its way completes what was heard. -/
structure Joined (said known : Bytes) (gone : Bool) (t : Tap Wire) : Prop where
  heard : t.heard ++ t.inner.inbound.bytes = said
  sent : known ++ t.inner.outbound.bytes = t.sent
  isOpen : t.inner.Open gone

variable {said known : Bytes} {gone : Bool} {t t' : Tap Wire} {room : Nat} {slices : List Bytes}

theorem Joined.congr (h : t.Joined said known gone) (hheard : t'.heard = t.heard)
    (hsent : t'.sent = t.sent) (hi : t'.inner.inbound = t.inner.inbound)
    (ho : t'.inner.outbound = t.inner.outbound) : t'.Joined said known gone := by
  constructor
  · rw [hheard, hi]
    exact h.heard
  · rw [hsent, ho]
    exact h.sent
  · rw [Wire.Open, hi, ho]
    exact h.isOpen

theorem Joined.read (h : t.Joined said known gone) {outcome : ReadOutcome}
    (hr : ByteStream.read t room = (outcome, t')) : t'.Joined said known gone := by
  rcases Wire.of_read (Tap.of_read hr) with
    ⟨fault, rfl, -, hi, ho⟩ | ⟨bytes, rest, rfl, hb, hi, ho, -⟩
  · obtain ⟨hheard, hsent⟩ := of_read_failed hr
    exact h.congr hheard hsent hi ho
  · obtain ⟨hheard, hsent⟩ := of_read_data hr
    constructor
    · rw [hheard, hi, List.append_assoc, hb]
      exact h.heard
    · rw [hsent, ho]
      exact h.sent
    · rw [Wire.Open, hi, ho]
      exact h.isOpen

theorem Joined.write (h : t.Joined said known gone) {outcome : WriteOutcome}
    (hw : ByteStream.write t slices = (outcome, t')) : t'.Joined said known gone := by
  obtain ⟨hheard, ⟨fault, -, hw', hsent⟩ | ⟨n, m, -, hw', hsent⟩⟩ := Tap.of_write hw
  · rcases Wire.of_write hw' with ⟨fault', -, -, hi, ho⟩ | ⟨n, he, -⟩
    · exact h.congr hheard hsent hi ho
    · cases he
  · rcases Wire.of_write hw' with ⟨fault', he, -⟩ | ⟨n', he, hi, ho⟩
    · cases he
    · cases he
      constructor
      · rw [hheard, hi]
        exact h.heard
      · rw [hsent, ho, ← List.append_assoc, h.sent]
      · rw [Wire.Open, hi, ho]
        exact h.isOpen

theorem keeps_joined : ByteStream.Keeps (Tap.Joined said known gone) where
  read h hr := h.read hr
  write h hw := h.write hw

theorem Joined.not_readFails (h : t.Joined said known false) {outcome : ReadOutcome}
    (hr : ByteStream.read t room = (outcome, t')) (hroom : 0 < room) {reason : Teardown} :
    ¬ ReadFails room outcome reason := by
  intro hf
  rcases Wire.of_read (Tap.of_read hr) with ⟨fault, rfl, ht, -⟩ | ⟨bytes, rest, rfl, -, -, -, hne⟩
  · cases hf with
    | io h' =>
      rw [ht] at h'
      cases h'
  · cases hf with
    | closed h' =>
      have hg := (hne hroom).resolve_left (not_not_intro h')
      rw [h.isOpen.1] at hg
      cases hg

theorem Joined.isTransient_of_write (h : t.Joined said known false) {fault : IoFault}
    (hw : ByteStream.write t slices = (.failed fault, t')) : fault.isTransient = true := by
  obtain ⟨-, ⟨fault', he, hw', -⟩ | ⟨n, m, he, -⟩⟩ := Tap.of_write hw
  · cases he
    rcases Wire.of_write hw' with ⟨fault', he, ht, -⟩ | ⟨n, he, -⟩
    · cases he
      apply ht.resolve_right
      intro hg
      rw [h.isOpen.2.2.2] at hg
      cases hg
    · cases he
  · cases he

end Tap

end Zmtp
