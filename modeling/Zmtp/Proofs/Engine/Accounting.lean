import Zmtp.Proofs.Engine.Sending
import Zmtp.Proofs.Engine.Vigilance
import Zmtp.Proofs.Frame.Chunking
import Zmtp.Proofs.Frame.Cursor

namespace Zmtp

namespace Outbox

/-- The size that is kept is that of the chunks, and each of them holds some of it. -/
structure Accounted (o : Outbox) : Prop where
  counted : o.Counted
  solid : o.Solid

/-- What an engine does to its outbox. -/
inductive Becomes (o : Outbox) : Outbox → Prop where
  | same : Becomes o o
  | pushed {chunk : Bytes} (hc : chunk ≠ []) : Becomes o (o.push chunk)
  | filled {chunks : List Bytes} (hc : ∀ c ∈ chunks, c ≠ []) : Becomes o (o.pushBatch chunks)
  | consumed (n : Nat) : Becomes o (o.consume n)

variable {o o' : Outbox} {n : Nat}

theorem accounted_empty : empty.Accounted := ⟨rfl, List.forall_mem_nil _⟩

theorem Accounted.becomes (h : o.Accounted) (hb : o.Becomes o') : o'.Accounted := by
  cases hb with
  | same => exact h
  | pushed hc => exact ⟨h.counted.push _, h.solid.push hc⟩
  | filled hc => exact ⟨h.counted.pushBatch _, h.solid.pushBatch hc⟩
  | consumed n => exact ⟨h.counted.consume n, h.solid.consume n⟩

theorem slices_prefix (o : Outbox) : o.slices.flatten <+: o.chunks.flatten := by
  refine ⟨(o.chunks.drop sliceLimit).flatten, ?_⟩
  rw [slices, ← List.flatten_append, List.take_append_drop]

theorem Counted.consume_spec (h : o.Counted) (hn : n ≤ o.slices.flatten.length) :
    o.slices.flatten.take n ++ (o.consume n).chunks.flatten = o.chunks.flatten ∧
      Slip.minus o.size n = .ok (o.consume n).size ∧ (o.consume n).Counted := by
  have hle : n ≤ o.size := by
    rw [h]
    exact Nat.le_trans hn o.slices_prefix.length_le
  refine ⟨?_, Slip.minus_of_le hle, h.consume n⟩
  rw [o.take_slices hn, Outbox.consume, flatten_dropBytes, List.take_append_drop]

end Outbox

namespace Supply

variable {σ : Type} [Session σ] {room : Nat} {s : Supply σ}

/-- Nothing is left to send: no part is being written, our identity is sent, and the session gives
none. -/
structure Dry (s : Supply σ) : Prop where
  drained : s.writer.hasData = false
  introduced : s.identitySent = true
  spent : (Session.pull s.session).1 = none

theorem hasData_load (w : FrameWriter) (p : Part) : (w.load p).hasData = true := by
  apply eq_true_of_ne_false
  intro h
  have hleft := FrameWriter.left_eq_nil_iff.2 h
  exact Head.encode_ne_nil _ _ (List.append_eq_nil_iff.1 hleft).1

theorem hasData_advance (identity : Bytes) (s : Supply σ) :
    (s.advance identity).writer.hasData = false ↔ s.Dry := by
  rw [advance]
  cases hd : s.writer.hasData with
  | true =>
    rw [if_pos rfl]
    exact iff_of_false (by rw [hd]; exact Bool.noConfusion) fun h => by
      cases hd.symm.trans h.drained
  | false =>
    rw [if_neg Bool.false_ne_true]
    cases hi : s.identitySent with
    | false =>
      rw [if_neg Bool.false_ne_true]
      exact iff_of_false (by rw [hasData_load]; exact Bool.noConfusion) fun h => by
        cases hi.symm.trans h.introduced
    | true =>
      rw [if_pos rfl]
      cases hp : Session.pull s.session with
      | mk given session =>
        cases given with
        | none => exact iff_of_true hd ⟨hd, hi, congrArg Prod.fst hp⟩
        | some p =>
          exact iff_of_false (by rw [hasData_load]; exact Bool.noConfusion) fun h => by
            cases (congrArg Prod.fst hp).symm.trans h.spent

theorem length_gather_le (identity : Bytes) (room : Nat) (s : Supply σ) :
    (s.gather identity room).1.flatten.length ≤ room := by
  induction hn : room using Nat.strongRecOn generalizing room s with
  | ind n ih =>
    subst hn
    by_cases hr : room = 0
    · rw [hr, gather, gatherFrom, dif_pos rfl]
      exact Nat.le_refl 0
    · cases he : (s.advance identity).writer.emit room with
      | none =>
        rw [gather_of_none hr he]
        exact Nat.zero_le room
      | some emitted =>
        obtain ⟨chunk, writer⟩ := emitted
        have hpos := FrameWriter.emit_length_pos he
        have hle := FrameWriter.length_of_emit he
        have hrest := ih (room - chunk.length) (by omega) _ { s.advance identity with writer } rfl
        rw [gather_of_some hr he, List.flatten_cons, List.length_append]
        omega

/-- A batch has something in it unless there is nothing to send. -/
theorem gather_eq_nil_iff (identity : Bytes) (hr : room ≠ 0) :
    (s.gather identity room).1 = [] ↔ s.Dry := by
  rw [← s.hasData_advance identity]
  cases he : (s.advance identity).writer.emit room with
  | none =>
    rw [gather_of_none hr he]
    exact iff_of_true rfl ((FrameWriter.emit_eq_none_iff.1 he).resolve_left hr)
  | some emitted =>
    obtain ⟨chunk, writer⟩ := emitted
    rw [gather_of_some hr he]
    refine iff_of_false (List.cons_ne_nil _ _) fun hd => ?_
    cases he.symm.trans (FrameWriter.emit_eq_none_iff.2 (.inr hd))

end Supply

namespace Engine

section Fill

variable {τ σ : Type} [Session σ] (e : Engine τ σ) (codec : Codec)

/-- Where the bytes of a batch come from. -/
def supply : Supply σ := ⟨codec.writer, e.identitySent, e.session⟩

def batch : List Bytes × Supply σ :=
  (e.supply codec).gather e.settings.identity (max e.settings.outputBatch 1)

theorem outbox_fill : (e.fill codec).outbox = e.outbox.pushBatch (e.batch codec).1 := rfl

theorem solid_batch : ∀ c ∈ (e.batch codec).1, c ≠ [] := Supply.solid_gather _ _ _

theorem chunks_fill : ∃ fresh, (e.fill codec).outbox.chunks = e.outbox.chunks ++ fresh ∧
    (e.fill codec).outbox.size = e.outbox.size + fresh.flatten.length ∧
      (∀ c ∈ fresh, c ≠ []) ∧ fresh.flatten.length ≤ max e.settings.outputBatch 1 := by
  refine ⟨Outbox.joinSmall (e.batch codec).1, rfl, ?_, ?_, ?_⟩
  · rw [Outbox.flatten_joinSmall]
    exact e.outbox.size_pushBatch _
  · exact Outbox.solid_joinSmallFrom (List.forall_mem_nil _) (e.solid_batch codec)
  · rw [Outbox.flatten_joinSmall]
    exact Supply.length_gather_le ..

variable {e codec}

theorem flatten_batch (h : (e.fill codec).outbox.size = e.outbox.size) :
    (e.batch codec).1.flatten = [] := by
  rw [outbox_fill, Outbox.size_pushBatch] at h
  exact List.eq_nil_of_length_eq_zero (by omega)

/-- A batch is empty only where there is nothing to send. -/
theorem size_fill_eq_iff : (e.fill codec).outbox.size = e.outbox.size ↔ (e.supply codec).Dry := by
  have hroom : max e.settings.outputBatch 1 ≠ 0 := by omega
  rw [← Supply.gather_eq_nil_iff e.settings.identity hroom]
  change _ ↔ (e.batch codec).1 = []
  constructor
  · intro h
    rw [List.eq_nil_iff_forall_not_mem]
    intro c hc
    exact e.solid_batch codec c hc (List.flatten_eq_nil_iff.1 (flatten_batch h) c hc)
  · intro h
    rw [outbox_fill, Outbox.size_pushBatch, h]
    rfl

theorem drained_fill (h : (e.fill codec).outbox.size = e.outbox.size) :
    ∃ codec', (e.fill codec).codec = some codec' ∧ codec'.writer.hasData = false := by
  have hroom : max e.settings.outputBatch 1 ≠ 0 := by omega
  exact ⟨_, rfl, FrameWriter.left_eq_nil_iff.1 (Supply.dry_of_gather hroom (flatten_batch h)).1⟩

end Fill

section Steps

variable {τ σ : Type} [ByteStream τ] [Session σ] {u : Prop} {e e' : Engine τ σ}

theorem Step.outbox (hs : Step u e e') : e.outbox.Becomes e'.outbox := by
  have hgreeted {s : EngineState} {input : Bytes} {v : Option Negotiated}
      (hr : e.receiveGreeting input = (s, v)) : e.outbox.Becomes s.outbox := by
    rcases EngineState.receiveGreeting_output hr with ⟨ho, -⟩ | ⟨ho, -⟩
    · rw [ho]
      exact .same
    · rw [ho]
      exact .pushed (List.cons_ne_nil _ _)
  cases hs with
  | greeted hc hread hr => exact hgreeted hr
  | settled hc hread hr hs =>
    change e.outbox.Becomes _
    rw [(EngineState.settle_frame hs).2.1]
    exact hgreeted hr
  | filled hc ho hs hw => exact .filled (Supply.solid_gather _ _ _)
  | drained hc ho hs => exact .filled (Supply.solid_gather _ _ _)
  | wrote ho hw =>
    rw [update, restOutput_eq]
    exact .consumed _
  | blocked hw ht =>
    rw [update, restOutput_eq]
    exact .same
  | _ => exact .same

/-- Whatever is done with an engine, what waits to be written is accounted for. -/
theorem Reached.accounted {s : Settings} {e : Engine (Tap τ) (Ledger σ)} (h : Reached s e) :
    e.outbox.Accounted := by
  apply h.induction (P := fun e => e.outbox.Accounted)
  case hnew => exact fun _ _ _ _ => Outbox.accounted_empty
  case hbegin =>
    intro endpoint monitored t u
    exact Outbox.accounted_empty.becomes (.pushed (List.cons_ne_nil _ _))
  case hstep => exact fun e e' _ he hs => he.becomes hs.outbox
  case hfail => exact fun _ _ _ _ _ _ => Outbox.accounted_empty
  case hworld => exact fun _ _ _ he => he
  case hstop =>
    intro e he
    rw [Engine.stop]
    split
    · exact he
    · exact Outbox.accounted_empty

end Steps

variable {τ σ : Type} [ByteStream τ] [Session σ] {s : Settings}

/-- The bytes that wait to be written are counted right. A batch that is gathered while none wait
stays within its limit and adds chunks of just the size that is counted, none of which is empty. No
small chunk is left out, and only where there is nothing to send is the batch empty. What a write
took of the slices it was offered goes off the front, and off the size, which it does not exceed. So
the outbox of an engine is accounted for, whatever is done with it. -/
theorem batches_accounted {e : Engine τ σ} (codec : Codec) (he : e.outbox.size = 0) {o : Outbox}
    (ho : o.Counted) {n : Nat} (hn : n ≤ o.slices.flatten.length)
    {e' : Engine (Tap τ) (Ledger σ)} (he' : Reached s e') :
    let (filled, small) := e.fillThrough codec []
    (filled = e.fill codec ∧ small = []) ∧
    (filled.outbox.size ≤ max e.settings.outputBatch 1 ∧
      ∃ fresh, filled.outbox.chunks = e.outbox.chunks ++ fresh ∧
        filled.outbox.size = fresh.flatten.length ∧ ∀ c ∈ fresh, c ≠ []) ∧
    (e.outbox.Accounted → filled.outbox.Accounted) ∧
    (filled.outbox.size = 0 → ∃ codec', filled.codec = some codec' ∧
      codec'.writer.hasData = false) ∧
    (filled.outbox.size = 0 ↔ codec.writer.hasData = false ∧ e.identitySent = true ∧
      (Session.pull e.session).1 = none) ∧
    (o.slices.flatten.take n ++ (o.consume n).chunks.flatten = o.chunks.flatten ∧
      Slip.minus o.size n = .ok (o.consume n).size ∧ (o.consume n).Counted) ∧
    e'.outbox.Accounted ∧ ∀ g, e'.handleThrough [] g = (e'.handle g, []) := by
  rw [fillThrough_eq he]
  obtain ⟨fresh, hchunks, hsize, hsolid, hle⟩ := e.chunks_fill codec
  rw [he, Nat.zero_add] at hsize
  have hdry : (e.fill codec).outbox.size = e.outbox.size ↔ (e.supply codec).Dry := size_fill_eq_iff
  have hdrained (h : (e.fill codec).outbox.size = 0) := drained_fill (h.trans he.symm)
  rw [he] at hdry
  refine ⟨⟨rfl, rfl⟩, ⟨hsize ▸ hle, fresh, hchunks, hsize, hsolid⟩, ?_, hdrained, ?_,
    ho.consume_spec hn, he'.accounted, e'.handleThrough_eq⟩
  · exact fun ha => ha.becomes (.filled (e.solid_batch codec))
  constructor
  · intro h
    obtain ⟨hdrained, hintroduced, hspent⟩ := hdry.1 h
    exact ⟨hdrained, hintroduced, hspent⟩
  · rintro ⟨hdrained, hintroduced, hspent⟩
    exact hdry.2 ⟨hdrained, hintroduced, hspent⟩

/-- An engine that has only its identity to send, in batches of two bytes. -/
def sparing : Engine Script LinkSession :=
  Engine.new { role := .router, identity := [0x41], outputBatch := 2 } "" Script.empty
    ⟨Link.new ⟨0⟩ 2⟩

/-- An outbox, of which a write takes the first chunk and a part of the next. -/
def twoChunks : Outbox := ⟨[[1, 2], [3, 4, 5]], 5⟩

theorem batches_accounted_twoChunks :
    let codec := sparing.freshCodec .v2
    let e' := told { role := .dealer, identity := [0x41] } slowPeer oneMessage
      [.writable, .writable, .readable, .writable, .writable]
    (sparing.fillThrough codec []).2 = [] ∧
      (sparing.fillThrough codec []).1.outbox = ⟨[[0, 1]], 2⟩ ∧
      (sparing.fillThrough codec []).1.outbox.size ≤ 2 ∧
      twoChunks.consume 3 = ⟨[[4, 5]], 2⟩ ∧ Slip.minus 5 3 = .ok (twoChunks.consume 3).size ∧
      e'.outbox.Accounted := by
  intro codec e'
  have he' : Reached { role := .dealer, identity := [0x41] } e' :=
    reached_told _ slowPeer oneMessage (by decide)
  have he : sparing.outbox.size = 0 := rfl
  have ho : twoChunks.Counted := rfl
  have hn : 3 ≤ twoChunks.slices.flatten.length := by decide
  obtain ⟨⟨-, hsmall⟩, ⟨hle, -⟩, -, -, -, ⟨-, hminus, -⟩, haccounted, -⟩ :=
    batches_accounted codec he ho hn he'
  refine ⟨hsmall, ?_, hle, by decide, hminus, haccounted⟩
  decide +kernel

end Engine

end Zmtp
