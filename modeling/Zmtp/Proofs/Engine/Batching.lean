import Zmtp.Proofs.Engine.Supply

namespace Zmtp

namespace Outbox

theorem joinSmallFrom_congr {small small' : List Bytes} (he : small.isEmpty = small'.isEmpty)
    (hf : small.reverse.flatten = small'.reverse.flatten) (chunks : List Bytes) :
    joinSmallFrom small chunks = joinSmallFrom small' chunks := by
  induction chunks generalizing small small' with
  | nil => rw [joinSmallFrom, joinSmallFrom, joined, joined, he, hf]
  | cons c cs ih =>
    rw [joinSmallFrom, joinSmallFrom]
    split
    · have hf' : (c :: small).reverse.flatten = (c :: small').reverse.flatten := by simp [hf]
      exact ih (by rfl) hf'
    · rw [joined, joined, he, hf]

end Outbox

/-- An outbox, and small chunks of the same batch that are not in it yet. Their bytes are counted. -/
structure Packer where
  outbox : Outbox
  small : Bytes

namespace Packer

/-- Puts the small chunks into the outbox, in one piece. -/
def close (p : Packer) : Packer :=
  if p.small = [] then p else ⟨{ p.outbox with chunks := p.outbox.chunks ++ [p.small] }, []⟩

def add (p : Packer) (chunk : Bytes) : Packer :=
  let size := p.outbox.size + chunk.length
  if chunk.length ≤ Outbox.joinLimit then ⟨{ p.outbox with size }, p.small ++ chunk⟩
  else ⟨⟨p.close.outbox.chunks ++ [chunk], size⟩, []⟩

/-- What comes of adding chunks one by one. -/
def finish (p : Packer) (chunks : List Bytes) : Packer where
  outbox.chunks :=
    p.outbox.chunks ++ Outbox.joinSmallFrom (if p.small = [] then [] else [p.small]) chunks
  outbox.size := chunks.foldl (fun n c => n + c.length) p.outbox.size
  small := []

variable {p : Packer} {chunk : Bytes}

theorem size_add (p : Packer) (chunk : Bytes) :
    (p.add chunk).outbox.size = p.outbox.size + chunk.length := by
  rw [add]
  split <;> rfl

theorem close_eq (p : Packer) : p.close = p.finish [] := by
  obtain ⟨⟨chunks, size⟩, small⟩ := p
  rw [close, finish, Outbox.joinSmallFrom, Outbox.joined]
  split
  · next hs =>
    cases hs
    simp
  · simp

theorem chunks_close (p : Packer) : p.close.outbox.chunks =
    p.outbox.chunks ++ Outbox.joined (if p.small = [] then [] else [p.small]) := by
  rw [close_eq, finish, Outbox.joinSmallFrom]

theorem finish_add (p : Packer) (hc : chunk ≠ []) (chunks : List Bytes) :
    (p.add chunk).finish chunks = p.finish (chunk :: chunks) := by
  rw [finish, finish, List.foldl_cons, size_add, Outbox.joinSmallFrom, add]
  split
  · next hle =>
    have hne : p.small ++ chunk ≠ [] := fun hn => hc (List.append_eq_nil_iff.1 hn).2
    simp only [if_neg hne]
    refine congrArg (fun chunks' => Packer.mk ⟨p.outbox.chunks ++ chunks', _⟩ []) ?_
    apply Outbox.joinSmallFrom_congr
    · rfl
    · split
      · next hs => simp [hs]
      · simp
  · next hle =>
    simp only [chunks_close, if_true, List.append_assoc, List.singleton_append]

end Packer

namespace Supply

variable {σ : Type} [Session σ] {identity : Bytes} {room : Nat} {s : Supply σ} {chunk : Bytes}
  {writer : FrameWriter}

theorem gatherFrom_eq (identity : Bytes) (chunks : List Bytes) (room : Nat) (s : Supply σ) :
    s.gatherFrom identity chunks room =
      (chunks.reverse ++ (s.gather identity room).1, (s.gather identity room).2) := by
  induction hn : room using Nat.strongRecOn generalizing chunks room s with
  | ind n ih =>
    subst hn
    rw [gather, gatherFrom, gatherFrom]
    split
    · simp
    · simp only
      split
      · simp
      · next chunk writer he =>
        have hlt : room - chunk.length < room := by
          have := FrameWriter.emit_length_pos he
          omega
        rw [ih _ hlt (chunk :: chunks) _ _ rfl, ih _ hlt [chunk] _ _ rfl]
        simp

theorem gather_of_none (hr : room ≠ 0) (he : (s.advance identity).writer.emit room = none) :
    s.gather identity room = ([], s.advance identity) := by
  rw [gather, gatherFrom, dif_neg hr]
  simp only
  split
  · rfl
  · next h => cases he.symm.trans h

theorem gather_of_some (hr : room ≠ 0)
    (he : (s.advance identity).writer.emit room = some (chunk, writer)) :
    s.gather identity room =
      (chunk ::
          (gather identity (room - chunk.length) { s.advance identity with writer }).1,
        (gather identity (room - chunk.length) { s.advance identity with writer }).2) := by
  rw [gather, gatherFrom, dif_neg hr]
  simp only
  split
  · next h => cases he.symm.trans h
  · next h =>
    cases he.symm.trans h
    rw [gatherFrom_eq]
    rfl

/-- Fills a batch chunk by chunk, until it is full or there is nothing to send. -/
def pack (identity : Bytes) (batch : Nat) (p : Packer) (s : Supply σ) : Packer × Supply σ :=
  if _h : p.outbox.size < batch then
    let s := s.advance identity
    match _he : s.writer.emit (batch - p.outbox.size) with
    | none => (p.close, s)
    | some (chunk, writer) => pack identity batch (p.add chunk) { s with writer }
  else (p.close, s)
termination_by batch - p.outbox.size
decreasing_by
  have := FrameWriter.emit_length_pos _he
  rw [Packer.size_add]
  omega

/-- Gathering chunks and joining the small ones is adding them one by one, at the end of which no
small chunk is left out. -/
theorem pack_eq (identity : Bytes) (batch : Nat) (p : Packer) (s : Supply σ) :
    s.pack identity batch p =
      (p.finish (s.gather identity (batch - p.outbox.size)).1,
        (s.gather identity (batch - p.outbox.size)).2) := by
  induction hn : batch - p.outbox.size using Nat.strongRecOn generalizing p s with
  | ind n ih =>
    subst hn
    rw [pack]
    split
    · next hlt =>
      have hroom : batch - p.outbox.size ≠ 0 := Nat.sub_ne_zero_of_lt hlt
      simp only
      split
      · next he => rw [gather_of_none hroom he, Packer.close_eq]
      · next chunk writer he =>
        have hpos := FrameWriter.emit_length_pos he
        have hsize : batch - (p.add chunk).outbox.size = batch - p.outbox.size - chunk.length := by
          rw [Packer.size_add, Nat.sub_add_eq]
        rw [ih _ (by omega) (p.add chunk) _ rfl, gather_of_some hroom he, hsize,
          p.finish_add (List.ne_nil_of_length_pos hpos)]
    · next hge =>
      have hroom : batch - p.outbox.size = 0 := Nat.sub_eq_zero_of_le (Nat.le_of_not_lt hge)
      rw [hroom, gather, gatherFrom, dif_pos rfl, Packer.close_eq]
      rfl

end Supply

namespace Engine

variable {τ σ : Type} [Session σ] {e : Engine τ σ} {codec : Codec}

/-- Gathers a batch with the help of a buffer for its small chunks, which may hold some already. -/
def fillThrough (e : Engine τ σ) (codec : Codec) (buffer : Bytes) : Engine τ σ × Bytes :=
  let supply : Supply σ := ⟨codec.writer, e.identitySent, e.session⟩
  let (packer, supply) :=
    supply.pack e.settings.identity (max e.settings.outputBatch 1) ⟨e.outbox, buffer⟩
  ({ e with
    codec := some { codec with writer := supply.writer }
    identitySent := supply.identitySent
    session := supply.session
    outbox := packer.outbox }, packer.small)

theorem fillThrough_eq (ho : e.outbox.size = 0) : e.fillThrough codec [] = (e.fill codec, []) := by
  rw [fillThrough, Supply.pack_eq, ho, Nat.sub_zero]
  rfl

variable [ByteStream τ]

/-- The stream takes bytes, and small chunks go through a buffer. -/
def onWritableThrough (e : Engine τ σ) (buffer : Bytes) : Engine τ σ × Bytes :=
  if !e.isLive then (e, buffer)
  else if e.outbox.size ≠ 0 then (e.write, buffer)
  else
    match e.codec with
    | none => (e.update (·.resetOut), buffer)
    | some codec =>
      let (e, buffer) := e.fillThrough codec buffer
      if e.outbox.size = 0 then (e.update (·.resetOut), buffer) else (e.write, buffer)

/-- A call of an engine with its buffer. Only those calls that write use the buffer. -/
def handleThrough (e : Engine τ σ) (buffer : Bytes) : Signal → Engine τ σ × Bytes
  | .writable => e.onWritableThrough buffer
  | .resumeOutput =>
    if e.isLive then (e.update (·.setOut)).onWritableThrough buffer else (e, buffer)
  | g => (e.handle g, buffer)

theorem onWritableThrough_eq (e : Engine τ σ) : e.onWritableThrough [] = (e.onWritable, []) := by
  rw [onWritableThrough, onWritable]
  split
  · rfl
  · split
    · rfl
    · next ho =>
      cases hc : e.codec with
      | none => rfl
      | some codec =>
        simp only
        rw [fillThrough_eq (Decidable.not_not.1 ho)]
        simp only
        split <;> rfl

theorem handleThrough_eq (e : Engine τ σ) (g : Signal) :
    e.handleThrough [] g = (e.handle g, []) := by
  cases g with
  | writable => exact onWritableThrough_eq e
  | resumeOutput =>
    rw [handleThrough, handle, resumeOutput, onWritableThrough_eq]
    split <;> rfl
  | _ => rfl

end Engine

end Zmtp
