import Zmtp.Proofs.Engine.Batching
import Zmtp.Proofs.Engine.Waking
import Zmtp.Stream.Script

namespace Zmtp

open Relation (ReflTransGen)

namespace Outbox

/-- No chunk is without bytes. -/
def Solid (o : Outbox) : Prop := ∀ c ∈ o.chunks, c ≠ []

variable {o : Outbox} {chunk : Bytes} {small chunks : List Bytes}

theorem Solid.push (h : o.Solid) (hc : chunk ≠ []) : (o.push chunk).Solid := by
  intro c hm
  rcases List.mem_append.1 hm with hm | hm
  · exact h c hm
  · rw [List.mem_singleton.1 hm]
    exact hc

theorem solid_dropBytes (h : ∀ c ∈ chunks, c ≠ []) (n : Nat) :
    ∀ c ∈ dropBytes n chunks, c ≠ [] := by
  induction chunks generalizing n with
  | nil => exact h
  | cons c cs ih =>
    have hcs : ∀ c ∈ cs, c ≠ [] := fun c hm => h c (List.mem_cons_of_mem _ hm)
    rw [dropBytes]
    split
    · exact h
    · split
      · exact ih hcs _
      · next hlt =>
        refine List.forall_mem_cons.2 ⟨?_, hcs⟩
        rw [ne_eq, List.drop_eq_nil_iff]
        exact hlt

theorem Solid.consume (h : o.Solid) (n : Nat) : (o.consume n).Solid := solid_dropBytes h n

theorem solid_joined (h : ∀ c ∈ small, c ≠ []) : ∀ c ∈ joined small, c ≠ [] := by
  cases small with
  | nil => exact h
  | cons c cs =>
    intro c' hm hn
    rw [List.mem_singleton.1 hm, List.flatten_eq_nil_iff] at hn
    exact h c List.mem_cons_self (hn c (List.mem_reverse.2 List.mem_cons_self))

theorem solid_joinSmallFrom (hs : ∀ c ∈ small, c ≠ []) (h : ∀ c ∈ chunks, c ≠ []) :
    ∀ c ∈ joinSmallFrom small chunks, c ≠ [] := by
  induction chunks generalizing small with
  | nil => exact solid_joined hs
  | cons c cs ih =>
    obtain ⟨hc, hcs⟩ := List.forall_mem_cons.1 h
    rw [joinSmallFrom]
    split
    · exact ih (List.forall_mem_cons.2 ⟨hc, hs⟩) hcs
    · intro c' hm
      rcases List.mem_append.1 hm with hm | hm
      · exact solid_joined hs c' hm
      · rcases List.mem_cons.1 hm with rfl | hm
        · exact hc
        · exact ih (List.forall_mem_nil _) hcs c' hm

theorem Solid.pushBatch (h : o.Solid) (hb : ∀ c ∈ chunks, c ≠ []) : (o.pushBatch chunks).Solid := by
  intro c hm
  rcases List.mem_append.1 hm with hm | hm
  · exact h c hm
  · exact solid_joinSmallFrom (List.forall_mem_nil _) hb c hm

theorem Solid.chunks_eq_nil (h : o.Solid) (hc : o.Counted) (hs : o.size = 0) : o.chunks = [] := by
  rw [List.eq_nil_iff_forall_not_mem]
  intro c hm
  exact h c hm (List.flatten_eq_nil_iff.1 (hc.chunks_eq_nil hs) c hm)

end Outbox

theorem Supply.solid_gather {σ : Type} [Session σ] (identity : Bytes) (room : Nat) (s : Supply σ) :
    ∀ c ∈ (s.gather identity room).1, c ≠ [] := by
  induction hn : room using Nat.strongRecOn generalizing room s with
  | ind n ih =>
    subst hn
    by_cases hr : room = 0
    · rw [hr, gather, gatherFrom, dif_pos rfl]
      exact List.forall_mem_nil _
    · cases he : (s.advance identity).writer.emit room with
      | none =>
        rw [gather_of_none hr he]
        exact List.forall_mem_nil _
      | some emitted =>
        obtain ⟨chunk, writer⟩ := emitted
        have hpos := FrameWriter.emit_length_pos he
        rw [gather_of_some hr he]
        exact List.forall_mem_cons.2 ⟨List.ne_nil_of_length_pos hpos, ih _ (by omega) _ _ rfl⟩

/-- What a pull brought. -/
def SessionCall.pulled? : SessionCall → Option (Option Part)
  | pull p => some p
  | _ => none

namespace Logged

variable {σ : Type}

/-- What the last pull brought, if there was one. -/
def lastPull (l : Logged σ SessionCall) : Option (Option Part) :=
  (l.calls.filterMap SessionCall.pulled?).getLast?

theorem lastPull_log (l : Logged σ SessionCall) (inner : σ) (call : SessionCall) :
    (l.log inner call).lastPull = (call.pulled?).or l.lastPull := by
  rw [lastPull, log, List.filterMap_append]
  cases h : call.pulled? with
  | none => simp [h, lastPull]
  | some p => simp [h]

/-- That the last pull brought nothing stays so, whatever else than a pull is done to a session. -/
theorem dries_lastPull [Session σ] :
    Session.Dries fun l : Logged σ SessionCall => l.lastPull = some none where
  push h hp := by
    cases hp
    exact (lastPull_log ..).trans h
  pull hp := by
    obtain ⟨ho, rfl⟩ := Prod.mk.inj hp
    rw [lastPull_log, ho]
    rfl
  flush l h := (lastPull_log ..).trans h

end Logged

namespace EngineState

variable {s s' : EngineState}

/-- No chunk is without bytes, and the stream is read from unless the session has no room. -/
structure Tidy (s : EngineState) : Prop where
  solid : s.outbox.Solid
  reading : s.interest.readable = !s.congested

theorem Tidy.receiveGreeting (h : s.Tidy) {input : Bytes} {v : Option Negotiated}
    (hr : s.receiveGreeting input = (s', v)) : s'.Tidy where
  solid := by
    rcases receiveGreeting_output hr with ⟨ho, -⟩ | ⟨ho, -⟩
    · exact ho ▸ h.solid
    · exact ho ▸ h.solid.push (List.cons_ne_nil _ _)
  reading := by
    rw [readable_receiveGreeting hr, h.reading, (greeted_receiveGreeting hr).congested]

theorem Tidy.settle (h : s.Tidy) {n : Negotiated} (hs : s.settle n = .ok s') : s'.Tidy := by
  obtain ⟨-, ho, hi⟩ := settle_frame hs
  refine ⟨ho ▸ h.solid, ?_⟩
  rw [hi, h.reading, (greeted_settle hs).1.congested]

theorem Tidy.restOutput (h : s.Tidy) : s.restOutput.Tidy := by
  rw [EngineState.restOutput]
  split
  · exact ⟨h.solid, h.reading⟩
  · exact h

end EngineState

namespace Engine

section Calls

variable {τ σ : Type} [ByteStream τ] [Session σ] {u : Prop} {e e' : Engine τ σ}

omit [ByteStream τ] in
theorem solid_fill (h : e.outbox.Solid) (codec : Codec) : (e.fill codec).outbox.Solid :=
  h.pushBatch (Supply.solid_gather _ _ _)

theorem Step.tidy (h : e.Tidy) (hs : Step u e e') : e'.Tidy := by
  cases hs with
  | greeted hc hread hr => exact h.receiveGreeting hr
  | settled hc hread hr hs => exact (h.receiveGreeting hr).settle hs
  | congested hh => exact ⟨h.solid, rfl⟩
  | resumed hh => exact ⟨h.solid, rfl⟩
  | filled hc ho hs hw => exact ⟨solid_fill h.solid _, h.reading⟩
  | drained hc ho hs => exact ⟨solid_fill h.solid _, h.reading⟩
  | @wrote n stream ho hw =>
    have hk : EngineState.Tidy { e.toEngineState with outbox := e.outbox.consume n } :=
      ⟨h.solid.consume n, h.reading⟩
    exact hk.restOutput
  | blocked hw ht => exact h.restOutput
  | _ => exact ⟨h.solid, h.reading⟩

end Calls

variable {τ σ : Type} {e e' : Engine τ (Logged σ SessionCall)} {buffer : Bytes}

/-- An engine that lives and does not lose sight of anything. -/
structure Vigilant (e : Engine τ (Logged σ SessionCall)) : Prop where
  stage : e.stage = .live
  awake : e.Awake fun l => l.lastPull = some none
  tidy : e.Tidy

/-- How an engine stands between two calls. -/
inductive Stands (e : Engine τ (Logged σ SessionCall)) : Prop where
  | fresh (stage : e.stage = .fresh) (codec : e.codec = none) (congested : e.congested = false)
      (held : e.held = []) (outbox : e.outbox = .empty)
  | live (vigilant : e.Vigilant) (rest : e.AtRest)
  | ended (ended : e.isOver = true)

variable [ByteStream τ] [Session σ]

theorem Vigilant.step (h : e.Vigilant) (hs : Step False e e') : e'.Vigilant where
  stage := hs.stage_eq.trans h.stage
  awake := h.awake.step Logged.dries_lastPull hs
  tidy := hs.tidy h.tidy

theorem Vigilant.steps (h : e.Vigilant) (hs : ReflTransGen (Step False) e e') : e'.Vigilant := by
  induction hs with
  | refl => exact h
  | tail _ hs ih => exact ih.step hs

theorem Vigilant.runs (h : e.Vigilant) (hr : Runs False e e')
    (ha : e'.isLive = true → e'.AtRest) : e'.Stands := by
  rcases hr with hs | ⟨e₁, e₂, reason, -, -, rfl⟩
  · have he' := h.steps hs
    exact .live he' (ha (EngineState.isLive_iff.2 he'.stage))
  · exact .ended rfl

omit [ByteStream τ] [Session σ] in
theorem vigilant_begin (hn : e.congested = false) (ho : e.outbox = .empty) :
    (e.update (·.begin)).Vigilant where
  stage := rfl
  awake := by
    refine awake_of_writable rfl ?_ rfl
    change (e.outbox.push e.greeting.signature).Counted
    have hempty : Outbox.empty.Counted := rfl
    rw [ho]
    exact hempty.push _
  tidy := by
    refine ⟨?_, ?_⟩
    · change (e.outbox.push e.greeting.signature).Solid
      rw [ho]
      exact Outbox.Solid.push (List.forall_mem_nil _) (List.cons_ne_nil _ _)
    · change true = !e.congested
      rw [hn]
      rfl

theorem Stands.start (h : e.Stands) (hl : e.isLive = false) : e.start.Stands := by
  cases h with
  | fresh stage codec congested held outbox =>
    have hrest : e.AtRest := .of_codec_none codec congested held
    obtain ⟨hr, ha⟩ := runs_start (u := False) hrest (EngineState.isOver_of_fresh stage)
    exact (vigilant_begin congested outbox).runs hr ha
  | live vigilant rest =>
    cases (EngineState.isLive_iff.2 vigilant.stage).symm.trans hl
  | ended ended =>
    rw [show e.start = e from handle_of_over ended .start]
    exact .ended ended

theorem Stands.signal (h : e.Stands) {g : Signal} (hg : g = .start → e.isLive = false)
    (hw : g = .writable → e.interest.wantsWrite = true) : (e.handle g).Stands := by
  by_cases hstart : g = .start
  · subst hstart
    exact h.start (hg rfl)
  · cases h with
    | fresh stage codec congested held outbox =>
      rw [handle_of_not_live (EngineState.isLive_of_fresh stage) hstart]
      exact .fresh stage codec congested held outbox
    | live vigilant rest =>
      obtain ⟨hr, ha⟩ := runs_handle (u := False) rest hstart fun h =>
        .inl (Bool.and_eq_true_iff.1 (hw h)).2
      exact vigilant.runs hr ha
    | ended ended =>
      rw [handle_of_over ended g]
      exact .ended ended

omit [ByteStream τ] [Session σ] in
theorem Stands.world (h : e.Stands) (t : τ) (v : σ) :
    Stands { e with stream := t, session := { e.session with inner := v } } := by
  cases h with
  | fresh stage codec congested held outbox => exact .fresh stage codec congested held outbox
  | live vigilant rest =>
    exact .live ⟨vigilant.stage, vigilant.awake.congr_session t _ id, vigilant.tidy⟩
      (rest.congr rfl rfl rfl)
  | ended ended => exact .ended ended

/-- The engines with the given settings that calls lead to, each with the buffer for its small chunks.
An engine is told that the stream takes bytes only while it waits for that. Between the calls the
stream and the session do as they like. -/
inductive Served (s : Settings) : Engine τ (Logged σ SessionCall) → Bytes → Prop where
  | new (endpoint : String) (monitored : Bool) (writeRevision : Option Revision) (t : τ) (v : σ) :
      Served s { Engine.new s endpoint t ⟨v, []⟩ with monitored, writeRevision } []
  | signal {e : Engine τ (Logged σ SessionCall)} {buffer : Bytes} (h : Served s e buffer)
      (g : Signal) (hg : g = .start → e.isLive = false)
      (hw : g = .writable → e.interest.wantsWrite = true) :
      Served s (e.handleThrough buffer g).1 (e.handleThrough buffer g).2
  | world {e : Engine τ (Logged σ SessionCall)} {buffer : Bytes} (h : Served s e buffer) (t : τ)
      (v : σ) : Served s { e with stream := t, session := { e.session with inner := v } } buffer
  | stop {e : Engine τ (Logged σ SessionCall)} {buffer : Bytes} (h : Served s e buffer) :
      Served s e.stop.2 buffer
  | discard {e : Engine τ (Logged σ SessionCall)} {buffer : Bytes} (h : Served s e buffer) :
      Served s e.discard.2 buffer

theorem Served.call {s : Settings} (h : Served s e []) (g : Signal)
    (hg : g = .start → e.isLive = false) (hw : g = .writable → e.interest.wantsWrite = true) :
    Served s (e.handle g) [] := by
  have h' := h.signal g hg hw
  rw [handleThrough_eq] at h'
  exact h'

theorem Served.stands {s : Settings} (h : Served s e buffer) : e.Stands ∧ buffer = [] := by
  induction h with
  | new => exact ⟨.fresh rfl rfl rfl rfl rfl, rfl⟩
  | signal h g hg hw ih =>
    obtain ⟨hstands, rfl⟩ := ih
    rw [handleThrough_eq]
    exact ⟨hstands.signal hg hw, rfl⟩
  | world h t v ih => exact ⟨ih.1.world t v, ih.2⟩
  | stop h ih => exact ⟨.ended (isOver_stop _), ih.2⟩
  | discard h ih => exact ⟨.ended (isOver_discard _), ih.2⟩

omit [ByteStream τ] [Session σ] in
theorem Stands.vigilant (h : e.Stands) (hl : e.isLive = true) : e.Vigilant ∧ e.AtRest := by
  cases h with
  | fresh stage =>
    cases (EngineState.isLive_of_fresh stage).symm.trans hl
  | live vigilant rest => exact ⟨vigilant, rest⟩
  | ended ended => cases (isLive_of_over ended).symm.trans hl

/-- Between two calls, an engine waits for all that it needs to go on. It ceases to wait for the stream
to take bytes only when nothing is left to write and the session had nothing to give when it was last
asked, and to wait for bytes only while it holds parts that the session has no room for. -/
theorem Served.no_wakeUp_lost {s : Settings} (h : Served s e buffer) (hl : e.isLive = true) :
    (e.outbox.size = e.outbox.chunks.flatten.length ∧ buffer = []) ∧
      (0 < e.outbox.size → e.interest.wantsWrite = true) ∧
      (e.isHandshaking = false → e.interest.wantsWrite = false →
        e.outbox.chunks = [] ∧ e.identitySent = true ∧
          (∃ codec, e.codec = some codec ∧ codec.writer.hasData = false) ∧
          e.session.lastPull = some none) ∧
      (e.interest.wantsRead = true ↔ e.congested = false) ∧
      (e.congested = true ↔ e.held ≠ []) := by
  obtain ⟨hstands, hbuffer⟩ := h.stands
  obtain ⟨⟨-, awake, tidy⟩, rest⟩ := hstands.vigilant hl
  have hwants : e.interest.wantsWrite = e.interest.writable := by
    rw [Interest.wantsWrite, awake.registered, Bool.true_and]
  refine ⟨⟨awake.counted, hbuffer⟩, ?waits, ?drained, ?reads, ?congested⟩
  case waits =>
    intro hpos
    rw [hwants]
    exact eq_true_of_ne_false fun hn => Nat.ne_of_gt hpos (awake.written hn)
  case drained =>
    intro hdone hn
    rw [hwants] at hn
    obtain ⟨codec, hc⟩ := Option.isSome_iff_exists.1 (Option.isNone_eq_false_iff.1 hdone)
    obtain ⟨hleft, hsent, hdry⟩ := awake.drained hn codec hc
    exact ⟨tidy.solid.chunks_eq_nil awake.counted (awake.written hn), hsent,
      ⟨codec, hc, FrameWriter.left_eq_nil_iff.1 hleft⟩, hdry⟩
  case reads =>
    rw [Interest.wantsRead, awake.registered, Bool.true_and, tidy.reading, Bool.not_eq_true']
  case congested =>
    refine ⟨rest.burdened, fun hne => ?_⟩
    exact eq_true_of_ne_false fun hn => hne (rest.held hn)

/-- An engine after some calls. Its peer greets and sends its identity and three parts at once, and
its session has room for two. -/
def eagerlyServed (gs : List Signal) : Engine Script (Logged LinkSession SessionCall) :=
  gs.foldl signal <| .new { role := .dealer } "peer"
    { Script.empty with
      input := [.data ([0xff, 0, 0, 0, 0, 0, 0, 0, 1, 0x7f, 1, 5] ++ [0, 0] ++
        [0, 1, 0x41, 0, 1, 0x42, 0, 1, 0x43])] }
    ⟨⟨Link.new ⟨0⟩ 2⟩, []⟩

theorem no_wakeUp_lost_eagerPeer :
    let e := eagerlyServed [.start, .writable, .writable, .writable]
    Served { role := .dealer } e [] ∧ e.isLive = true ∧ e.isHandshaking = false ∧
      e.interest.wantsWrite = false ∧ e.outbox.chunks = [] ∧ e.session.lastPull = some none ∧
      e.interest.wantsRead = false ∧ e.held ≠ [] := by
  intro e
  have h₁ : Served { role := .dealer } (eagerlyServed [.start]) [] :=
    (Served.new "peer" true none _ _).call .start (fun _ => rfl) nofun
  have h₂ : Served { role := .dealer } (eagerlyServed [.start, .writable]) [] :=
    h₁.call .writable nofun fun _ => by decide +kernel
  have h₃ : Served { role := .dealer } (eagerlyServed [.start, .writable, .writable]) [] :=
    h₂.call .writable nofun fun _ => by decide +kernel
  have h : Served { role := .dealer } e [] := h₃.call .writable nofun fun _ => by decide +kernel
  have hl : e.isLive = true := by decide +kernel
  have hdone : e.isHandshaking = false := by decide +kernel
  have hn : e.interest.wantsWrite = false := by decide +kernel
  obtain ⟨-, -, hdrained, hreads, hcongested⟩ := Served.no_wakeUp_lost h hl
  obtain ⟨hchunks, -, -, hdry⟩ := hdrained hdone hn
  have hread : e.interest.wantsRead = false := by decide +kernel
  refine ⟨h, hl, hdone, hn, hchunks, hdry, hread, hcongested.1 ?_⟩
  exact eq_true_of_ne_false fun hc => Bool.false_ne_true (hread.symm.trans (hreads.2 hc))

end Engine

end Zmtp
