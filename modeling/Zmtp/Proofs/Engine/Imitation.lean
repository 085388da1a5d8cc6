import Zmtp.Proofs.Engine.Tap

namespace Zmtp

variable {κ τ τ' σ σ' : Type}

/-- Streams that stand in for others. Each goes by a list of orders, and there are orders with which
it does what the other does. -/
structure ByteStream.Imitates [ByteStream τ] [ByteStream τ'] (f : List κ → τ → τ') : Prop where
  read : ∀ t room, ∃ orders, ∀ rest, ByteStream.read (f (orders ++ rest) t) room =
    (ByteStream.read t room).map id (f rest)
  write : ∀ t slices, ∃ orders, ∀ rest, ByteStream.write (f (orders ++ rest) t) slices =
    (ByteStream.write t slices).map id (f rest)
  close : ∀ t rest, ByteStream.close (f rest t) = f rest (ByteStream.close t)

/-- Sessions that do what others do. -/
structure Session.Imitates [Session σ] [Session σ'] (g : σ → σ') : Prop where
  push : ∀ u p, Session.push (g u) p = (Session.push u p).map id g
  pull : ∀ u, Session.pull (g u) = (Session.pull u).map id g
  flush : ∀ u, Session.flush (g u) = g (Session.flush u)
  detach : ∀ u, Session.detach (g u) = g (Session.detach u)

theorem Session.imitates_id [Session σ] : Session.Imitates (id : σ → σ) :=
  ⟨fun _ _ => rfl, fun _ => rfl, fun _ => rfl, fun _ => rfl⟩

namespace Supply

def map (g : σ → σ') (s : Supply σ) : Supply σ' := ⟨s.writer, s.identitySent, g s.session⟩

variable [Session σ] [Session σ'] {g : σ → σ'}

theorem advance_map (hg : Session.Imitates g) (identity : Bytes) (s : Supply σ) :
    (s.map g).advance identity = (s.advance identity).map g := by
  rw [advance, advance]
  by_cases hd : s.writer.hasData
  · rw [if_pos hd]
    exact if_pos hd
  · rw [if_neg hd, if_neg (show ¬ (s.map g).writer.hasData from hd)]
    by_cases hi : s.identitySent
    · rw [if_pos hi, if_pos (show (s.map g).identitySent from hi)]
      rw [show (s.map g).session = g s.session from rfl, hg.pull]
      obtain ⟨_ | p, u⟩ := Session.pull s.session
      · rfl
      · rfl
    · rw [if_neg hi]
      exact if_neg hi

theorem gatherFrom_map (hg : Session.Imitates g) (identity : Bytes) (chunks : List Bytes)
    (room : Nat) (s : Supply σ) :
    (s.map g).gatherFrom identity chunks room =
      (s.gatherFrom identity chunks room).map id (Supply.map g) := by
  -- no chunk is empty, so that less room is left for the next
  induction hn : room using Nat.strongRecOn generalizing chunks room s with
  | ind n ih =>
    subst hn
    rw [gatherFrom, gatherFrom, advance_map hg]
    split
    · rfl
    · simp only
      split
      · next he =>
        split
        · rfl
        · next he' => cases he.symm.trans he'
      · next chunk writer he =>
        split
        · next he' => cases he.symm.trans he'
        · next chunk' writer' he' =>
          cases he.symm.trans he'
          have hlt : room - chunk.length < room := by
            have := FrameWriter.emit_length_pos he
            omega
          exact ih _ hlt _ _ { s.advance identity with writer } rfl

end Supply

namespace Engine

/-- An engine with another stream and another session. -/
def map (f : τ → τ') (g : σ → σ') (e : Engine τ σ) : Engine τ' σ' :=
  ⟨e.toEngineState, f e.stream, g e.session⟩

section

variable {f : τ → τ'} {g : σ → σ'} {e : Engine τ σ}

@[simp] theorem toEngineState_map : (e.map f g).toEngineState = e.toEngineState := rfl

@[simp] theorem stream_map : (e.map f g).stream = f e.stream := rfl

@[simp] theorem session_map : (e.map f g).session = g e.session := rfl

variable [Session σ] [Session σ']

theorem flush_map (hg : Session.Imitates g) (e : Engine τ σ) :
    (e.map f g).flush = e.flush.map f g :=
  congrArg (Engine.mk e.toEngineState (f e.stream)) (hg.flush e.session)

theorem passAll_map (hg : Session.Imitates g) (u : σ) (ps : List Part) :
    passAll (g u) ps = (passAll u ps).map id (Prod.map id g) := by
  induction ps generalizing u with
  | nil => rfl
  | cons p ps ih =>
    rw [passAll, passAll, hg.push]
    obtain ⟨_ | _ | _, u⟩ := Session.push u p
    · exact ih u
    · rfl
    · rfl

theorem passHeld_map (hg : Session.Imitates g) (e : Engine τ σ) :
    (e.map f g).passHeld = e.passHeld.map id (Engine.map f g) := by
  rw [passHeld, passHeld, session_map, passAll_map hg]
  rfl

theorem decode_map (hg : Session.Imitates g) (e : Engine τ σ) (codec : Codec) :
    (e.map f g).decode codec = (e.decode codec).map id (Engine.map f g) := by
  -- a part takes its frame, or the body that it was filled into, off the load of the reader
  induction hn : codec.reader.load using Nat.strongRecOn generalizing e codec with
  | ind n ih =>
    rw [decode, decode]
    split
    · rfl
    · rfl
    · next reader p rest asked hr =>
      have hload := FrameReader.load_read hr
      have hp := passHeld_map (f := f) hg
        { e with held := e.held ++ e.expand p, expected := .payload }
      simp only
      rw [show passHeld { e.map f g with
          held := (e.map f g).held ++ (e.map f g).expand p, expected := .payload } = _ from hp]
      generalize passHeld { e with held := e.held ++ e.expand p, expected := .payload } = passed
      obtain ⟨_ | _ | _, e'⟩ := passed
      · exact ih _ (hn ▸ hload) e' _ rfl
      · rfl
      · rfl

theorem fill_map (hg : Session.Imitates g) (e : Engine τ σ) (codec : Codec) :
    (e.map f g).fill codec = (e.fill codec).map f g := by
  have hs : Supply.gather e.settings.identity (max e.settings.outputBatch 1)
      ⟨codec.writer, e.identitySent, g e.session⟩ = _ :=
    Supply.gatherFrom_map hg _ [] _ ⟨codec.writer, e.identitySent, e.session⟩
  rw [fill, fill, session_map, toEngineState_map, hs]
  rfl

end

section

variable [ByteStream τ] {e : Engine τ σ} {stream : τ} {fault : IoFault} {bytes : Bytes}
  {s : EngineState} {n : Negotiated}

theorem greet_of_failed
    (hr : ByteStream.read e.stream e.greeting.room = (.failed fault, stream)) :
    e.greet = (if fault.isTransient then .pause else .fail (.io fault), { e with stream }) := by
  rw [greet, hr]

theorem greet_of_closed (hr : ByteStream.read e.stream e.greeting.room = (.data bytes, stream))
    (hi : bytes.take e.greeting.room = []) : e.greet = (.fail .closed, { e with stream }) := by
  rw [greet, hr]
  exact dif_pos hi

theorem greet_of_undecided (hr : ByteStream.read e.stream e.greeting.room = (.data bytes, stream))
    (hi : bytes.take e.greeting.room ≠ [])
    (hg : e.receiveGreeting (bytes.take e.greeting.room) = (s, none)) :
    e.greet = greet ⟨s, stream, e.session⟩ := by
  rw [greet, hr]
  simp only [dif_neg hi]
  split
  · next hg' =>
    cases hg.symm.trans hg'
    rfl
  · next hg' => cases hg.symm.trans hg'

theorem greet_of_unsettled {reason : Teardown}
    (hr : ByteStream.read e.stream e.greeting.room = (.data bytes, stream))
    (hi : bytes.take e.greeting.room ≠ [])
    (hg : e.receiveGreeting (bytes.take e.greeting.room) = (s, some n))
    (hs : s.settle n = .error reason) : e.greet = (.fail reason, ⟨s, stream, e.session⟩) := by
  rw [greet, hr]
  simp only [dif_neg hi]
  split
  · next hg' => cases hg.symm.trans hg'
  · next hg' =>
    cases hg.symm.trans hg'
    simp only [hs]

theorem greet_of_settled {s' : EngineState}
    (hr : ByteStream.read e.stream e.greeting.room = (.data bytes, stream))
    (hi : bytes.take e.greeting.room ≠ [])
    (hg : e.receiveGreeting (bytes.take e.greeting.room) = (s, some n))
    (hs : s.settle n = .ok s') : e.greet = (.proceed, ⟨s', stream, e.session⟩) := by
  rw [greet, hr]
  simp only [dif_neg hi]
  split
  · next hg' => cases hg.symm.trans hg'
  · next hg' =>
    cases hg.symm.trans hg'
    simp only [hs]

end

section

variable [ByteStream τ] [Session σ] {e : Engine τ σ}

theorem onReadable_of_greet {progress : Progress} {e' : Engine τ σ} (hl : e.isLive = true)
    (hc : e.codec = none) (hg : e.greet = (progress, e')) :
    (∀ reason, progress = .fail reason → e.onReadable = e'.tearDown reason) ∧
      (progress = .pause → e.onReadable = e') ∧
      (progress = .proceed → e.onReadable = e'.readParts) := by
  have hh : e.isHandshaking = true := by
    rw [EngineState.isHandshaking, hc]
    rfl
  refine ⟨?_, ?_, ?_⟩
  · rintro reason rfl
    simp [onReadable, hl, hh, hg]
  · rintro rfl
    simp [onReadable, hl, hh, hg]
  · rintro rfl
    simp [onReadable, hl, hh, hg]

theorem onWritable_of_codec {codec : Codec} (hl : e.isLive = true) (ho : e.outbox.size = 0)
    (hc : e.codec = some codec) :
    e.onWritable = if (e.fill codec).outbox.size = 0 then (e.fill codec).update (·.resetOut)
      else (e.fill codec).write := by
  rw [onWritable, hl, if_neg Bool.noConfusion, if_neg (not_not_intro ho), hc]

end

variable [ByteStream τ] [ByteStream τ'] {f : List κ → τ → τ'} {g : σ → σ'}

theorem greet_map (hf : ByteStream.Imitates f) (g : σ → σ') (e : Engine τ σ) :
    ∃ orders, ∀ rest, (e.map (f (orders ++ rest)) g).greet =
      e.greet.map id (Engine.map (f rest) g) := by
  -- a greeting that goes on has less room than before
  induction hn : e.greeting.room using Nat.strongRecOn generalizing e with
  | ind n ih =>
    obtain ⟨orders, horders⟩ := hf.read e.stream e.greeting.room
    cases hr : ByteStream.read e.stream e.greeting.room with
    | mk outcome stream =>
      rw [hr] at horders
      cases outcome with
      | failed fault =>
        refine ⟨orders, fun rest => ?_⟩
        rw [greet_of_failed hr, greet_of_failed (e := e.map _ g) (horders rest)]
        rfl
      | data bytes =>
        by_cases hi : bytes.take e.greeting.room = []
        · refine ⟨orders, fun rest => ?_⟩
          rw [greet_of_closed hr hi, greet_of_closed (e := e.map _ g) (horders rest) hi]
          rfl
        · cases hg : e.receiveGreeting (bytes.take e.greeting.room) with
          | mk s heard =>
            cases heard with
            | none =>
              have hroom := EngineState.room_receiveGreeting_lt hg hi (List.length_take_le _ _)
              obtain ⟨orders', ih⟩ := ih _ (hn ▸ hroom) ⟨s, stream, e.session⟩ rfl
              refine ⟨orders ++ orders', fun rest => ?_⟩
              rw [greet_of_undecided hr hi hg, ← ih, List.append_assoc]
              exact greet_of_undecided (e := e.map _ g) (horders (orders' ++ rest)) hi hg
            | some n =>
              refine ⟨orders, fun rest => ?_⟩
              cases hs : s.settle n with
              | error reason =>
                rw [greet_of_unsettled hr hi hg hs,
                  greet_of_unsettled (e := e.map _ g) (horders rest) hi hg hs]
                rfl
              | ok s' =>
                rw [greet_of_settled hr hi hg hs,
                  greet_of_settled (e := e.map _ g) (horders rest) hi hg hs]
                rfl

theorem refill_map (hf : ByteStream.Imitates f) (g : σ → σ') (e : Engine τ σ) (codec : Codec) :
    ∃ orders, ∀ rest, (e.map (f (orders ++ rest)) g).refill codec =
      (e.refill codec).map id (Prod.map id (Engine.map (f rest) g)) := by
  by_cases hp : codec.reader.hasPending
  · refine ⟨[], fun rest => ?_⟩
    rw [refill, refill, if_pos hp, if_pos hp]
    rfl
  · obtain ⟨orders, horders⟩ := hf.read e.stream codec.reader.offer.1
    refine ⟨orders, fun rest => ?_⟩
    rw [refill, refill, if_neg hp, if_neg hp]
    simp only
    rw [stream_map, horders]
    obtain ⟨bytes | fault, stream⟩ := ByteStream.read e.stream codec.reader.offer.1
    · simp only [Prod.map, id]
      cases (bytes.take codec.reader.offer.1).isEmpty <;> rfl
    · rfl

variable [Session σ] [Session σ']

theorem tearDown_map (hf : ByteStream.Imitates f) (hg : Session.Imitates g) (e : Engine τ σ)
    (reason : Teardown) (rest : List κ) :
    (e.map (f rest) g).tearDown reason = (e.tearDown reason).map (f rest) g := by
  rw [tearDown, tearDown, stream_map, session_map, hf.close, hg.flush, hg.detach]
  rfl

theorem receive_map (hf : ByteStream.Imitates f) (hg : Session.Imitates g) (e : Engine τ σ)
    (codec : Codec) :
    ∃ orders, ∀ rest, (e.map (f (orders ++ rest)) g).receive codec =
      (e.receive codec).map (f rest) g := by
  obtain ⟨orders, horders⟩ := refill_map hf g e codec
  refine ⟨orders, fun rest => ?_⟩
  rw [receive, receive, horders]
  obtain ⟨_ | _ | _, codec, e⟩ := e.refill codec
  · simp only [Prod.map, id, decode_map hg]
    obtain ⟨_ | _ | _, e⟩ := e.decode codec
    · exact flush_map hg e
    · exact flush_map hg e
    · exact tearDown_map hf hg e _ rest
  · exact flush_map hg { e with codec := some codec }
  · exact tearDown_map hf hg { e with codec := some codec } _ rest

theorem readParts_map (hf : ByteStream.Imitates f) (hg : Session.Imitates g) (e : Engine τ σ) :
    ∃ orders, ∀ rest, (e.map (f (orders ++ rest)) g).readParts = e.readParts.map (f rest) g := by
  cases hc : e.codec with
  | none =>
    refine ⟨[], fun rest => ?_⟩
    rw [readParts, readParts, toEngineState_map, hc]
    rfl
  | some codec =>
    cases hn : e.congested with
    | true =>
      refine ⟨[], fun rest => ?_⟩
      rw [readParts, readParts, toEngineState_map, hc]
      simp only [hn]
      rfl
    | false =>
      obtain ⟨orders, horders⟩ := receive_map hf hg e codec
      refine ⟨orders, fun rest => ?_⟩
      rw [readParts_of_codec hc hn, readParts_of_codec (e := e.map _ g) hc hn]
      exact horders rest

theorem onReadable_map (hf : ByteStream.Imitates f) (hg : Session.Imitates g) (e : Engine τ σ) :
    ∃ orders, ∀ rest, (e.map (f (orders ++ rest)) g).onReadable = e.onReadable.map (f rest) g := by
  cases hl : e.isLive with
  | false =>
    refine ⟨[], fun rest => ?_⟩
    rw [onReadable, onReadable, toEngineState_map, hl]
    rfl
  | true =>
    cases hc : e.codec with
    | some codec =>
      obtain ⟨orders, hread⟩ := readParts_map hf hg e
      refine ⟨orders, fun rest => ?_⟩
      rw [onReadable_of_codec hl hc, onReadable_of_codec (e := e.map _ g) hl hc]
      exact hread rest
    | none =>
      obtain ⟨orders, hgreet⟩ := greet_map hf g e
      cases he : e.greet with
      | mk progress e' =>
        rw [he] at hgreet
        have hthen := onReadable_of_greet hl hc he
        have hthen' (rest : List κ) :=
          onReadable_of_greet (e := e.map (f (orders ++ rest)) g) hl hc (hgreet rest)
        cases progress with
        | proceed =>
          obtain ⟨orders', hread⟩ := readParts_map hf hg e'
          refine ⟨orders ++ orders', fun rest => ?_⟩
          rw [hthen.2.2 rfl, ← hread, List.append_assoc]
          exact (hthen' (orders' ++ rest)).2.2 rfl
        | pause =>
          refine ⟨orders, fun rest => ?_⟩
          rw [hthen.2.1 rfl]
          exact (hthen' rest).2.1 rfl
        | fail reason =>
          refine ⟨orders, fun rest => ?_⟩
          rw [hthen.1 reason rfl, ← tearDown_map hf hg]
          exact (hthen' rest).1 reason rfl

theorem write_map (hf : ByteStream.Imitates f) (hg : Session.Imitates g) (e : Engine τ σ) :
    ∃ orders, ∀ rest, (e.map (f (orders ++ rest)) g).write = e.write.map (f rest) g := by
  obtain ⟨orders, horders⟩ := hf.write e.stream e.outbox.slices
  refine ⟨orders, fun rest => ?_⟩
  rw [write, write, stream_map, toEngineState_map, horders]
  obtain ⟨n | fault, stream⟩ := ByteStream.write e.stream e.outbox.slices
  · rfl
  · simp only [Prod.map, id]
    split
    · rfl
    · exact tearDown_map hf hg { e with stream } _ rest

theorem onWritable_map (hf : ByteStream.Imitates f) (hg : Session.Imitates g) (e : Engine τ σ) :
    ∃ orders, ∀ rest, (e.map (f (orders ++ rest)) g).onWritable = e.onWritable.map (f rest) g := by
  cases hl : e.isLive with
  | false =>
    refine ⟨[], fun rest => ?_⟩
    rw [onWritable, onWritable, toEngineState_map, hl]
    rfl
  | true =>
    by_cases ho : e.outbox.size = 0
    · cases hc : e.codec with
      | none =>
        refine ⟨[], fun rest => ?_⟩
        rw [onWritable, onWritable, toEngineState_map, hl, if_neg (not_not_intro ho),
          if_neg (not_not_intro ho), hc]
        rfl
      | some codec =>
        obtain ⟨orders, hwrite⟩ := write_map hf hg (e.fill codec)
        by_cases hs : (e.fill codec).outbox.size = 0
        · refine ⟨[], fun rest => ?_⟩
          rw [onWritable_of_codec hl ho hc, onWritable_of_codec (e := e.map _ g) hl ho hc,
            fill_map hg, if_pos hs]
          exact if_pos hs
        · refine ⟨orders, fun rest => ?_⟩
          rw [onWritable_of_codec hl ho hc, onWritable_of_codec (e := e.map _ g) hl ho hc,
            fill_map hg, if_neg hs, ← hwrite rest]
          exact if_neg hs
    · obtain ⟨orders, hwrite⟩ := write_map hf hg e
      refine ⟨orders, fun rest => ?_⟩
      rw [onWritable, onWritable, toEngineState_map, hl, if_pos ho, if_pos ho]
      exact hwrite rest

theorem resumeOutput_map (hf : ByteStream.Imitates f) (hg : Session.Imitates g)
    (e : Engine τ σ) :
    ∃ orders, ∀ rest, (e.map (f (orders ++ rest)) g).resumeOutput =
      e.resumeOutput.map (f rest) g := by
  cases hl : e.isLive with
  | false =>
    refine ⟨[], fun rest => ?_⟩
    rw [resumeOutput, resumeOutput, toEngineState_map, hl]
    rfl
  | true =>
    obtain ⟨orders, hwrite⟩ := onWritable_map hf hg (e.update (·.setOut))
    refine ⟨orders, fun rest => ?_⟩
    rw [resumeOutput, resumeOutput, toEngineState_map, hl]
    exact hwrite rest

theorem resumeInput_map (hf : ByteStream.Imitates f) (hg : Session.Imitates g) (e : Engine τ σ) :
    ∃ orders, ∀ rest, (e.map (f (orders ++ rest)) g).resumeInput =
      e.resumeInput.map (f rest) g := by
  by_cases hl : (!e.isLive || !e.congested) = true
  · refine ⟨[], fun rest => ?_⟩
    rw [resumeInput, resumeInput, toEngineState_map, if_pos hl, if_pos hl]
    rfl
  · cases he : e.passHeld with
    | mk progress e' =>
      cases progress with
      | proceed =>
        obtain ⟨orders, hread⟩ := onReadable_map hf hg
          (e'.update fun s => { s.setIn with congested := false })
        refine ⟨orders, fun rest => ?_⟩
        rw [resumeInput, resumeInput, toEngineState_map, if_neg hl, if_neg hl, passHeld_map hg, he]
        exact hread rest
      | pause =>
        refine ⟨[], fun rest => ?_⟩
        rw [resumeInput, resumeInput, toEngineState_map, if_neg hl, if_neg hl, passHeld_map hg, he]
        exact flush_map hg e'
      | fail reason =>
        refine ⟨[], fun rest => ?_⟩
        rw [resumeInput, resumeInput, toEngineState_map, if_neg hl, if_neg hl, passHeld_map hg, he]
        exact tearDown_map hf hg e' reason rest

theorem start_map (hf : ByteStream.Imitates f) (hg : Session.Imitates g) (e : Engine τ σ) :
    ∃ orders, ∀ rest, (e.map (f (orders ++ rest)) g).start = e.start.map (f rest) g := by
  cases ho : e.isOver with
  | true =>
    refine ⟨[], fun rest => ?_⟩
    rw [start, start, toEngineState_map, ho]
    rfl
  | false =>
    obtain ⟨orders, hread⟩ := onReadable_map hf hg (e.update (·.begin))
    refine ⟨orders, fun rest => ?_⟩
    rw [start, start, toEngineState_map, ho]
    exact hread rest

/-- An engine knows of its stream and its session what they answer, and nothing else. -/
theorem handle_map (hf : ByteStream.Imitates f) (hg : Session.Imitates g) (e : Engine τ σ)
    (s : Signal) :
    ∃ orders, ∀ rest, (e.map (f (orders ++ rest)) g).handle s = (e.handle s).map (f rest) g := by
  cases s with
  | start => exact start_map hf hg e
  | readable => exact onReadable_map hf hg e
  | writable => exact onWritable_map hf hg e
  | resumeInput => exact resumeInput_map hf hg e
  | resumeOutput => exact resumeOutput_map hf hg e

theorem signal_map (hf : ByteStream.Imitates f) (hg : Session.Imitates g) (e : Engine τ σ)
    (s : Signal) :
    ∃ orders, ∀ rest, (e.map (f (orders ++ rest)) g).signal s = (e.signal s).map (f rest) g := by
  by_cases hs : s = .start ∧ e.isOver
  · refine ⟨[], fun rest => ?_⟩
    rw [signal, signal, toEngineState_map, if_pos hs, if_pos hs, session_map, hg.detach]
    rfl
  · obtain ⟨orders, hhandle⟩ := handle_map hf hg e s
    refine ⟨orders, fun rest => ?_⟩
    rw [signal, signal, toEngineState_map, if_neg hs, if_neg hs]
    exact hhandle rest

omit [Session σ] [Session σ'] in
theorem stop_map (hf : ByteStream.Imitates f) (g : σ → σ') (e : Engine τ σ) (rest : List κ) :
    (e.map (f rest) g).stop = e.stop.map id (Engine.map (f rest) g) := by
  rw [stop, stop, toEngineState_map, stream_map, hf.close]
  split
  · rfl
  · rfl

theorem discard_map (hf : ByteStream.Imitates f) (hg : Session.Imitates g) (e : Engine τ σ)
    (rest : List κ) :
    (e.map (f rest) g).discard = e.discard.map id (Engine.map (f rest) g) := by
  rw [discard, discard, stop_map hf]
  obtain ⟨_ | _, e'⟩ := e.stop
  · rfl
  · exact congrArg (fun u => (true, Engine.mk _ _ u)) (hg.detach e'.session)

end Engine

/-- A stream that takes no more than it is offered. -/
def ByteStream.Bounded (τ : Type) [ByteStream τ] : Prop :=
  ∀ (t : τ) slices n t', ByteStream.write t slices = (.accepted n, t') → n ≤ slices.flatten.length

theorem Tap.imitates [ByteStream τ] (h : ByteStream.Bounded τ) :
    ByteStream.Imitates fun (_ : List κ) (t : Tap τ) => t.inner where
  read t room := by
    refine ⟨[], fun _ => ?_⟩
    cases hr : ByteStream.read t room with
    | mk outcome t' => exact Tap.of_read hr
  write t slices := by
    refine ⟨[], fun _ => ?_⟩
    change _ = (t.write slices).map id _
    rw [Tap.write]
    cases hw : ByteStream.write t.inner slices with
    | mk outcome t' =>
      cases outcome with
      | accepted n =>
        simp only [Nat.min_eq_left (h _ _ _ _ hw)]
        rfl
      | failed fault => rfl
  close _ _ := rfl

theorem Ledger.imitates [Session σ] : Session.Imitates (Ledger.inner (σ := σ)) where
  push l p := by
    cases hp : Session.push l p with
    | mk outcome l' => exact Ledger.inner_push hp
  pull := Ledger.inner_pull
  flush _ := rfl
  detach _ := rfl

end Zmtp
