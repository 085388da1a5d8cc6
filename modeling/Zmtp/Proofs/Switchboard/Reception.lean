import Zmtp.Proofs.Engine.Clearing
import Zmtp.Proofs.Switchboard.Line
import Zmtp.Stream.Script

namespace Zmtp

open Relation (ReflTransGen)
open Engine

/-- A line and the application that has its near end. -/
structure Reception (τ : Type) where
  line : Line τ
  /-- What the application has read. -/
  seen : List Part

namespace Reception

variable {τ : Type}

/-- What happens next. The application does not give up its end. -/
inductive Move (τ : Type) where
  | call (c : Call)
  /-- What is behind the stream changes. -/
  | world (t : τ)
  | read
  | write (p : Part)
  | rollback
  | publish
  | identify (i : Identity)

def new (s : Settings) (endpoint : String) (monitored : Bool) (t : τ) (first : PipeId)
    (highWater : Nat) : Reception τ :=
  ⟨.untold s endpoint monitored t ⟨.new first highWater⟩, []⟩

def link (r : Reception τ) : Link := r.line.session.inner.link

/-- All that the application has read or can read. -/
def visible (r : Reception τ) : List Part := r.seen ++ r.link.left.inbox

def withLink (r : Reception τ) (l : Link) : Reception τ :=
  { r with line := r.line.withWorld r.line.stream.inner ⟨l⟩ }

/-- A connection is taken up once. -/
def Admits (r : Reception τ) : Move τ → Prop
  | .call c => c = .signal .start → r.line.isLive = false
  | _ => True

instance (r : Reception τ) : DecidablePred r.Admits
  | .call c => inferInstanceAs (Decidable (c = .signal .start → r.line.isLive = false))
  | .world _ | .read | .write _ | .rollback | .publish | .identify _ => isTrue trivial

variable [ByteStream τ]

def play (r : Reception τ) : Move τ → Reception τ
  | .call c => { r with line := r.line.call c }
  | .world t => { r with line := r.line.withWorld t r.line.session.inner }
  | .read => { r.withLink (r.link.read .left).2 with
      seen := r.seen ++ (r.link.read .left).1.toList }
  | .write p => r.withLink ((r.link.write? .left p).getD r.link)
  | .rollback => r.withLink (r.link.rollback .left)
  | .publish => r.withLink (r.link.flush .left)
  | .identify i => r.withLink (r.link.setIdentity .left i)

def run (r : Reception τ) (ms : List (Move τ)) : Reception τ := ms.foldl play r

def Admitted : Reception τ → List (Move τ) → Prop
  | _, [] => True
  | r, m :: ms => r.Admits m ∧ Admitted (r.play m) ms

instance decidableAdmitted : ∀ (r : Reception τ) ms, Decidable (Admitted r ms)
  | _, [] => isTrue trivial
  | r, m :: ms =>
    have := decidableAdmitted (r.play m) ms
    inferInstanceAs (Decidable (r.Admits m ∧ Admitted (r.play m) ms))

variable {s : Settings} {r r' : Reception τ} {v : List Part}

/-- What the stream and the application do between two calls takes nothing from what is visible. -/
structure Tends (r r' : Reception τ) : Prop where
  line : ∃ t l, r'.line = r.line.withWorld t l
  left : r'.link.left.live = r.link.left.live
  right : r'.link.right.live = r.link.right.live
  staged : r'.link.right.staged = r.link.right.staged
  visible : r'.visible = r.visible

omit [ByteStream τ] in
theorem tends_withLink {l : Link} {seen : List Part} (hl : l.left.live = r.link.left.live)
    (hr : l.right.live = r.link.right.live) (hs : l.right.staged = r.link.right.staged)
    (hv : seen ++ l.left.inbox = r.visible) : r.Tends { r.withLink l with seen } :=
  ⟨⟨_, _, rfl⟩, hl, hr, hs, hv⟩

theorem play_read_of_cons {p : Part} {ps : List Part} (hi : r.link.left.inbox = p :: ps) :
    r.play .read = { r.withLink { r.link with left := { r.link.left with inbox := ps } } with
      seen := r.seen ++ [p] } := by
  have hr : r.link.read .left =
      (some p, { r.link with left := { r.link.left with inbox := ps } }) := by
    simp only [Link.read, Link.get, hi, Link.update]
  rw [play, hr]
  rfl

theorem tends_read (r : Reception τ) : r.Tends (r.play .read) := by
  cases hi : r.link.left.inbox with
  | nil =>
    have hr : r.link.read .left = (none, r.link) := by simp only [Link.read, Link.get, hi]
    rw [play, hr]
    exact tends_withLink rfl rfl rfl (congrArg (· ++ r.link.left.inbox) (List.append_nil r.seen))
  | cons p ps =>
    rw [play_read_of_cons hi]
    refine tends_withLink rfl rfl rfl ?_
    rw [visible, hi]
    exact List.append_assoc ..

theorem tends_write (r : Reception τ) (p : Part) : r.Tends (r.play (.write p)) := by
  obtain ⟨staged, hw⟩ : ∃ staged, (r.link.write? .left p).getD r.link =
      { r.link with left := { r.link.left with staged } } := by
    rw [Link.write?]
    split <;> exact ⟨_, rfl⟩
  rw [play, hw]
  exact tends_withLink rfl rfl rfl rfl

theorem tends_publish (r : Reception τ) : r.Tends (r.play .publish) := by
  rw [play, Link.flush]
  split <;> exact tends_withLink rfl rfl rfl rfl

theorem tends_play {m : Move τ} (hm : ∀ c, m ≠ .call c) : r.Tends (r.play m) := by
  cases m with
  | call c => exact absurd rfl (hm c)
  | world t => exact ⟨⟨t, _, rfl⟩, rfl, rfl, rfl, rfl⟩
  | read => exact tends_read r
  | write p => exact tends_write r p
  | rollback => exact tends_withLink rfl rfl rfl rfl
  | publish => exact tends_publish r
  | identify i => exact tends_withLink rfl rfl rfl rfl

/-- What is known of a line and its application between two moves. -/
structure Sound (s : Settings) (r : Reception τ) : Prop where
  fresh : r.line.stage = .fresh →
    ∃ endpoint monitored t u, r.line = .untold s endpoint monitored t u
  live : r.line.isLive = true → r.line.Receives s
  serves : r.line.Serves
  attached : r.line.isOver = false → r.link.right.live = true
  taken : r.line.session.taken = r.visible

omit [ByteStream τ] in
theorem sound_new (s : Settings) (endpoint : String) (monitored : Bool) (t : τ) (first : PipeId)
    (highWater : Nat) : (new s endpoint monitored t first highWater).Sound s where
  fresh _ := ⟨endpoint, monitored, t, _, rfl⟩
  live := nofun
  serves := ⟨fun _ => atRest_untold .., rfl, rfl⟩
  attached _ := rfl
  taken := rfl

omit [ByteStream τ] in
theorem Sound.tends (h : r.Sound s) (ht : r.Tends r') : r'.Sound s := by
  obtain ⟨t, l, hline⟩ := ht.line
  refine ⟨?_, ?_, ⟨?_, ht.left.trans h.serves.near, ht.staged.trans h.serves.clear⟩, ?_, ?_⟩
  · rw [hline]
    intro hf
    obtain ⟨endpoint, monitored, t', u, he⟩ := h.fresh hf
    exact ⟨endpoint, monitored, t, l, by rw [he]; rfl⟩
  · rw [hline]
    exact fun hl => (h.live hl).congr rfl
  · rw [hline]
    exact fun ho => (h.serves.rested ho).congr rfl rfl rfl
  · rw [hline, ht.right]
    exact h.attached
  · rw [ht.visible, ← h.taken, hline]
    rfl

omit [ByteStream τ] in
theorem Sound.booked (h : r.Sound s) (ho : r.line.isOver = false) :
    r.line.session.Booked (r.line.session.given ++ r.link.right.inbox) r.seen where
  left := h.serves.near
  right := h.attached ho
  given := rfl
  taken := by
    rw [h.serves.clear, List.append_nil]
    exact h.taken

theorem Sound.runs (h : r.Sound s) {g : Signal} (hg : g = .start → r.line.isLive = false)
    (ho : r.line.isOver = false) :
    r.line.signal g = r.line ∨ (r.line.opened g).Receives s ∧ (r.line.opened g).stage = .live ∧
      Runs True (r.line.opened g) (r.line.signal g) := by
  rw [signal_of_not_over ho]
  have ha := h.serves.rested ho
  by_cases hs : g = .start
  · subst hs
    have hf : r.line.stage = .fresh := Decidable.of_not_not fun hf =>
      Bool.false_ne_true ((hg rfl).symm.trans (isLive_of_not_over ho hf))
    obtain ⟨endpoint, monitored, t, u, he⟩ := h.fresh hf
    refine .inr ⟨?_, rfl, (runs_start ha ho).1⟩
    rw [he]
    exact receives_begin ..
  · cases hl : r.line.isLive with
    | false => exact .inl (handle_of_not_live hl hs)
    | true =>
      rw [opened_of_ne _ hs]
      have hr := (runs_handle (u := True) ha hs fun _ => .inr trivial).1
      exact .inr ⟨h.live hl, EngineState.isLive_iff.1 hl, hr⟩

theorem call_of_over {e : Line τ} (ho : e.isOver = true) (c : Call) :
    e.call c = e ∨ e.call c = { e with session := Session.detach e.session } := by
  cases c with
  | signal g => exact signal_of_over ho g
  | stop => exact .inl (congrArg Prod.snd (stop_of_over ho))
  | discard =>
    rw [Engine.call, Engine.discard, stop_of_over ho]
    exact .inl rfl

theorem Sound.called (h : r.Sound s) {c : Call} (hl : (r.line.call c).isOver = false →
      (r.line.call c).isLive = true ∧ (r.line.call c).Receives s ∧
        (r.line.call c).session.inner.link.right.live = true) :
    (r.play (.call c)).Sound s := by
  obtain ⟨hserves, more, hshows⟩ := h.serves.call c
  refine ⟨?_, ?_, hserves, fun ho => (hl ho).2.2, ?_⟩
  · intro hf
    have hlive := (hl (EngineState.isOver_of_fresh hf)).1
    cases (EngineState.isLive_of_fresh hf).symm.trans hlive
  · exact fun hlive => (hl (EngineState.isOver_of_isLive hlive)).2.1
  · change (r.line.call c).session.taken =
      r.seen ++ (r.line.call c).session.inner.link.left.inbox
    rw [hshows.taken, h.taken, hshows.left, visible, List.append_assoc]
    rfl

theorem reason_ne_of_booked {e e' : Line τ} {reason : Teardown} {published seen : List Part}
    (h : e.Receives s) (hb : e.session.Booked published seen) (hf : Failing e e' reason) :
    reason ≠ .sessionRejected := by
  cases hf with
  | greeting hc hread hf => cases hf <;> nofun
  | unsettled hc hread hg hs =>
    exact absurd hs (h.settle_ne_error hg)
  | reading hc hp ho hread hf => cases hf <;> nofun
  | decoding => nofun
  | rejected hh hp => exact absurd rfl (hb.push hp).2
  | writing => nofun

/-- How a line stands whose connection ended by itself. -/
structure Severed (e : Line τ) : Prop where
  ended : e.isOver = true
  reason : ∃ reason, e.teardown? = some reason ∧ reason ≠ .sessionRejected
  held : e.held = []
  right : e.session.inner.link.right.live = false

theorem Sound.outcome (h : r.Sound s) {g : Signal} (hg : g = .start → r.line.isLive = false)
    (ho : r.line.isOver = false) :
    r.line.signal g = r.line ∨
      ((r.line.signal g).isLive = true ∧ (r.line.signal g).Receives s ∧
        (r.line.signal g).session.inner.link.right.live = true) ∨
      Severed (r.line.signal g) := by
  rcases h.runs hg ho with he | ⟨hreceives, hstage, hr⟩
  · exact .inl he
  · have hb : (r.line.opened g).session.Booked (r.line.session.given ++ r.link.right.inbox)
        r.seen := by
      rw [session_opened]
      exact h.booked ho
    have hbooked {e : Line τ} (hs : ReflTransGen (Step True) (r.line.opened g) e) :
        e.session.Booked (r.line.session.given ++ r.link.right.inbox) r.seen := by
      induction hs with
      | refl => exact hb
      | tail _ hs ih => exact hs.session Ledger.keeps_booked ih
    rcases hr with hs | ⟨e₁, e₂, reason, hs, hf, he⟩
    · have hlive := EngineState.isLive_iff.2 ((stage_eq_of_steps hs).trans hstage)
      exact .inr (.inl ⟨hlive, hreceives.steps hs, (hbooked hs).right⟩)
    · rw [he]
      have hreason := reason_ne_of_booked (hreceives.steps hs) (hbooked hs) hf
      exact .inr (.inr ⟨rfl, ⟨reason, rfl, hreason⟩, rfl, rfl⟩)

theorem Sound.signal (h : r.Sound s) {g : Signal} (hg : g = .start → r.line.isLive = false) :
    (r.play (.call (.signal g))).Sound s := by
  cases ho : r.line.isOver with
  | true =>
    apply h.called
    intro hl
    rcases call_of_over ho (.signal g) with he | he
    · rw [he] at hl
      cases hl.symm.trans ho
    · rw [he] at hl
      cases hl.symm.trans ho
  | false =>
    rcases h.outcome hg ho with he | hlive | ht
    · rw [play, Engine.call, he]
      exact h
    · exact h.called fun _ => hlive
    · apply h.called
      intro hl
      cases hl.symm.trans ht.ended

theorem Sound.play (h : r.Sound s) {m : Move τ} (ha : r.Admits m) : (r.play m).Sound s := by
  cases m with
  | call c =>
    cases c with
    | signal g => exact h.signal fun hg => ha (congrArg Call.signal hg)
    | stop => exact h.called fun ho => nomatch ho.symm.trans (isOver_stop r.line)
    | discard => exact h.called fun ho => nomatch ho.symm.trans (isOver_discard r.line)
  | _ => exact h.tends (tends_play nofun)

theorem Sound.run {ms : List (Move τ)} (h : r.Sound s) (ha : r.Admitted ms) :
    (r.run ms).Sound s := by
  induction ms generalizing r with
  | nil => exact h
  | cons m ms ih => exact ih (h.play ha.1) ha.2

theorem Sound.severed (h : r.Sound s) {g : Signal} (hg : g = .start → r.line.isLive = false)
    (ho : r.line.isOver = false) (hover : (r.line.signal g).isOver = true) :
    Severed (r.line.signal g) := by
  rcases h.outcome hg ho with he | ⟨hlive, -⟩ | hsevered
  · rw [he] at hover
    cases hover.symm.trans ho
  · cases hover.symm.trans (EngineState.isOver_of_isLive hlive)
  · exact hsevered

/-- A call that reads and ends the connection leaves nothing behind. -/
theorem Sound.spent (h : r.Sound s) {g : Signal} (hg : g = .start → r.line.isLive = false)
    (ho : r.line.isOver = false) (hover : (r.line.signal g).isOver = true)
    (hin : g.isInbound = true) : (r.line.signal g).Spent s := by
  obtain ⟨reason, hr, hne⟩ := (h.severed hg ho hover).reason
  rcases h.runs hg ho with he | ⟨hreceives, -, -⟩
  · rw [he] at hover
    cases hover.symm.trans ho
  · rw [signal_of_not_over ho] at hover hr ⊢
    refine (ends_handle (u := True) hin hreceives (h.serves.rested ho) ho hover).spent hreceives ?_
    rw [hr]
    exact fun he => hne (Option.some.inj he)

/-- The connection ended by itself, and so much is visible. -/
structure Ended (v : List Part) (r : Reception τ) : Prop where
  ended : r.line.isOver = true
  right : r.link.right.live = false
  visible : r.visible = v

omit [ByteStream τ] in
theorem Ended.isClosed (h : r.Ended v) : r.link.isClosed .left = true ↔ r.link.left.inbox = [] := by
  simp only [Link.isClosed, Link.peerGone, Link.get, Side.other, h.right, Bool.not_false,
    Bool.true_and, List.isEmpty_iff]

omit [ByteStream τ] in
theorem Ended.tends (h : r.Ended v) (ht : r.Tends r') : r'.Ended v := by
  obtain ⟨t, l, hline⟩ := ht.line
  refine ⟨?_, ht.right.trans h.right, ht.visible.trans h.visible⟩
  rw [hline]
  exact h.ended

theorem Ended.play (h : r.Ended v) (m : Move τ) : (r.play m).Ended v := by
  cases m with
  | call c =>
    rcases call_of_over h.ended c with he | he
    · rw [Reception.play, he]
      exact h
    · rw [Reception.play, he]
      exact ⟨h.ended, rfl, h.visible⟩
  | _ => exact h.tends (tends_play nofun)

theorem Ended.run (h : r.Ended v) (ms : List (Move τ)) : (r.run ms).Ended v := by
  induction ms generalizing r with
  | nil => exact h
  | cons m ms ih => exact ih (h.play m)

theorem inbox_run_read (r : Reception τ) :
    (r.run (List.replicate r.link.left.inbox.length .read)).link.left.inbox = [] := by
  obtain ⟨ps, hi⟩ : ∃ ps, r.link.left.inbox = ps := ⟨_, rfl⟩
  induction ps generalizing r with
  | nil =>
    rw [hi]
    exact hi
  | cons p ps ih =>
    have hr : (r.play .read).link.left.inbox = ps := by
      rw [play_read_of_cons hi]
      rfl
    have hk := ih (r.play .read) hr
    rw [hr] at hk
    rw [hi]
    exact hk

/-- Between any two moves all that the session has accepted is visible to the application. A call
that reads and in which the connection ends by itself leaves neither held parts nor complete frames
behind: what the application can read is all that the bytes of the peer stand for, and when it has
read that it finds its end closed. A call that writes ends the connection only when the stream
fails, and reads nothing. -/
theorem visible_run (s : Settings) (endpoint : String) (monitored : Bool) (t : τ) (first : PipeId)
    (highWater : Nat) (ms : List (Move τ))
    (ha : (new s endpoint monitored t first highWater).Admitted ms) :
    let r := (new s endpoint monitored t first highWater).run ms
    (r.link.right.staged = [] ∧ r.line.session.taken = r.visible) ∧
    ∀ g, r.Admits (.call (.signal g)) → r.line.isOver = false →
      let r' := r.play (.call (.signal g))
      r'.line.isOver = true →
      (∃ reason, r'.line.teardown? = some reason ∧ reason ≠ .sessionRejected) ∧
      (r'.link.right.staged = [] ∧ r'.line.session.taken = r'.visible) ∧
      (g.isInbound = true → r'.visible = s.delivered r'.line.stream.heard ∧ r'.line.held = [] ∧
        ∀ codec, r'.line.codec = some codec →
          codec.reader.pending = [] ∧ codec.reader.left = []) ∧
      (g.isInbound = false → (∃ fault, r'.line.teardown? = some (.io fault)) ∧
        r'.line.stream.heard = r.line.stream.heard) ∧
      (∀ ms', (r'.run ms').visible = r'.visible ∧
        ((r'.run ms').link.isClosed .left = true ↔ (r'.run ms').link.left.inbox = [])) ∧
      let done := r'.run (List.replicate r'.link.left.inbox.length .read)
      done.seen = r'.visible ∧ done.link.isClosed .left = true := by
  intro r
  have h : r.Sound s := (sound_new s endpoint monitored t first highWater).run ha
  refine ⟨⟨h.serves.clear, h.taken⟩, ?_⟩
  intro g hg ho r' hover
  have hg' : g = .start → r.line.isLive = false := fun he => hg (congrArg Call.signal he)
  have h' : r'.Sound s := h.play hg
  have hsevered : Severed r'.line := h.severed hg' ho hover
  have hended : r'.Ended r'.visible := ⟨hover, hsevered.right, rfl⟩
  refine ⟨hsevered.reason, ⟨h'.serves.clear, h'.taken⟩, ?inbound, ?outbound, ?later, ?done⟩
  case inbound =>
    intro hin
    have hspent := h.spent hg' ho hover hin
    exact ⟨h'.taken.symm.trans hspent.taken, hsevered.held, hspent.rest⟩
  case outbound =>
    intro hin
    have hhandle : r'.line = r.line.handle g := signal_of_not_over ho g
    rw [hhandle] at hover ⊢
    obtain ⟨fault, hfault, hheard⟩ := fault_handle hin ho hover
    exact ⟨⟨fault, hfault⟩, hheard⟩
  case later =>
    intro ms'
    have hrun := hended.run ms'
    exact ⟨hrun.visible, hrun.isClosed⟩
  case done =>
    intro done
    have hdone : done.Ended r'.visible := hended.run _
    have hempty : done.link.left.inbox = [] := inbox_run_read r'
    refine ⟨?_, hdone.isClosed.2 hempty⟩
    rw [← hdone.visible, visible, hempty, List.append_nil]

/-- A peer that sends two parts and then what is no frame, all at once. -/
def brokenPeer : Script :=
  { Script.empty with
    input := [.data [0xff, 0, 0, 0, 0, 0, 0, 0, 1, 0x7f, 1, 5, 0, 0, 0, 1, 7, 0, 1, 8, 0xf0]] }

theorem visible_run_brokenPeer :
    let first := new { role := .dealer } "peer" true brokenPeer ⟨0⟩ 1
    let r := first.run [.call (.signal .start), .read]
    let r' := r.play (.call (.signal .resumeInput))
    r.line.held = [.ofBytes [8]] ∧ r'.line.teardown? = some (.decode (.reservedBits 0xf0)) ∧
      r'.visible = [.ofBytes [7], .ofBytes [8]] ∧
      r'.visible = Settings.delivered { role := .dealer } r'.line.stream.heard ∧
      (r'.run [.read]).seen = r'.visible ∧ (r'.run [.read]).link.isClosed .left = true := by
  intro first r r'
  have ha : first.Admitted [.call (.signal .start), .read] := by decide +kernel
  obtain ⟨-, hcall⟩ := visible_run { role := .dealer } "peer" true brokenPeer ⟨0⟩ 1
    [.call (.signal .start), .read] ha
  obtain ⟨-, -, hinbound, -, -, hseen, hclosed⟩ :=
    hcall .resumeInput nofun (by decide +kernel) (by decide +kernel)
  have hlength : r'.link.left.inbox.length = 1 := by decide +kernel
  change (r'.run (List.replicate r'.link.left.inbox.length .read)).seen = r'.visible at hseen
  change (r'.run (List.replicate r'.link.left.inbox.length .read)).link.isClosed .left = true
    at hclosed
  rw [hlength] at hseen hclosed
  exact ⟨by decide +kernel, by decide +kernel, by decide +kernel, (hinbound rfl).1, hseen, hclosed⟩

end Reception

end Zmtp
