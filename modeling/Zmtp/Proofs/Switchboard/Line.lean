import Zmtp.Proofs.Exchange.Books

namespace Zmtp

open Relation (ReflTransGen)

namespace LinkSession

variable {s : LinkSession}

theorem of_not_live (hr : s.link.right.live = false) :
    (∀ p, Session.push s p = (.closed, s)) ∧ Session.pull s = (none, s) ∧ Session.flush s = s := by
  change (∀ p, s.push p = _) ∧ s.pull = _ ∧ s.flush = _
  simp only [push, pull, flush, attached, hr]
  exact ⟨fun _ => rfl, rfl, rfl⟩

theorem left_pull (s : LinkSession) : (Session.pull s).2.link.left = s.link.left := by
  cases hr : s.link.right.live with
  | false => rw [(of_not_live hr).2.1]
  | true =>
    rcases pull_cases hr with ⟨-, hp⟩ | ⟨p, ps, -, hp⟩
    · rw [hp]
    · rw [hp]

end LinkSession

namespace Ledger

variable {near : LinkEnd} {taken visible : List Part} {l l' : Ledger LinkSession}

/-- How a session stands that began with a near end and had taken some parts by then. What it took
since is visible at the near end or staged. -/
structure Tracks (near : LinkEnd) (taken visible : List Part) (l : Ledger LinkSession) : Prop where
  left : l.inner.link.left = { near with inbox := near.inbox ++ visible }
  taken : l.taken = taken ++ (visible ++ l.inner.link.right.staged)
  clear : l.inner.link.right.live = false → l.inner.link.right.staged = []

theorem Tracks.push (h : l.Tracks near taken visible) (hn : near.live = true) {p : Part}
    {outcome : PushOutcome} (hp : Session.push l p = (outcome, l')) :
    l'.Tracks near taken visible := by
  change l.push p = _ at hp
  cases hr : l.inner.link.right.live with
  | false =>
    rw [Ledger.push, (LinkSession.of_not_live hr).1] at hp
    cases hp
    exact h
  | true =>
    have hl : l.inner.link.left.live = true := (congrArg LinkEnd.live h.left).trans hn
    rcases LinkSession.push_cases (p := p) hr hl with hs | hs
    · rw [Ledger.push, hs] at hp
      cases hp
      exact h
    · rw [Ledger.push, hs] at hp
      cases hp
      refine ⟨h.left, ?_, ?_⟩
      · simp only [h.taken, List.append_assoc]
      · intro hr'
        cases hr.symm.trans hr'

theorem Tracks.pull (h : l.Tracks near taken visible) :
    (Session.pull l).2.Tracks near taken visible := by
  obtain ⟨hlive, hstaged⟩ := LinkSession.pull_frame l.inner
  have hleft := LinkSession.left_pull l.inner
  rw [inner_pull] at hlive hstaged hleft
  refine ⟨hleft.trans h.left, ?_, ?_⟩
  · rw [taken_pull, hstaged]
    exact h.taken
  · rw [hlive, hstaged]
    exact h.clear

theorem Tracks.flush (h : l.Tracks near taken visible) (hn : near.live = true) :
    ∃ visible', (Session.flush l).Tracks near taken visible' ∧
      (Session.flush l).inner.link.right.staged = [] := by
  change ∃ visible', l.flush.Tracks near taken visible' ∧ l.flush.inner.link.right.staged = []
  cases hr : l.inner.link.right.live with
  | false =>
    rw [Ledger.flush, (LinkSession.of_not_live hr).2.2]
    exact ⟨visible, h, h.clear hr⟩
  | true =>
    have hl : l.inner.link.left.live = true := (congrArg LinkEnd.live h.left).trans hn
    rw [Ledger.flush, LinkSession.flush_eq hr hl]
    refine ⟨visible ++ l.inner.link.right.staged, ⟨?_, ?_, fun _ => rfl⟩, rfl⟩
    · rw [h.left]
      simp only [List.append_assoc]
    · rw [List.append_nil]
      exact h.taken

theorem Tracks.detach (h : l.Tracks near taken visible) (hs : l.inner.link.right.staged = []) :
    (Session.detach l).Tracks near taken visible := by
  refine ⟨h.left, ?_, fun _ => rfl⟩
  have ht := h.taken
  rw [hs] at ht
  exact ht

theorem keeps_tracks (hn : near.live = true) :
    Session.Keeps fun l : Ledger LinkSession => ∃ visible, l.Tracks near taken visible where
  push := fun ⟨visible, h⟩ hp => ⟨visible, h.push hn hp⟩
  pull := fun _ ⟨visible, h⟩ => ⟨visible, h.pull⟩
  flush := fun _ ⟨_, h⟩ => (h.flush hn).imp fun _ h => h.1

end Ledger

/-- An engine that passes what it reads to the near end of a link. -/
abbrev Line (τ : Type) := Engine (Tap τ) (Ledger LinkSession)

/-- What the owner of an engine can do with it. -/
inductive Call where
  | signal (g : Signal)
  | stop
  | discard
  deriving DecidableEq

namespace Engine

variable {τ σ : Type}

def call [ByteStream τ] [Session σ] (e : Engine τ σ) : Call → Engine τ σ
  | .signal g => e.signal g
  | .stop => e.stop.2
  | .discard => e.discard.2

theorem isLive_of_not_over {e : Engine τ σ} (ho : e.isOver = false) (hf : e.stage ≠ .fresh) :
    e.isLive = true := by
  rw [EngineState.isLive_iff]
  rw [EngineState.isOver] at ho
  cases hs : e.stage with
  | fresh => exact absurd hs hf
  | live => rfl
  | _ =>
    rw [hs] at ho
    cases ho

variable {near : LinkEnd} {taken : List Part} {e e' : Line τ}

/-- How an engine stands between two calls while the near end of its link is there. -/
structure Serves (e : Line τ) : Prop where
  rested : e.isOver = false → e.AtRest
  near : e.session.inner.link.left.live = true
  clear : e.session.inner.link.right.staged = []

/-- What was taken in a call is visible at the near end, and nothing else has changed there. -/
structure Shows (e e' : Line τ) (more : List Part) : Prop where
  taken : e'.session.taken = e.session.taken ++ more
  left : e'.session.inner.link.left =
    { e.session.inner.link.left with inbox := e.session.inner.link.left.inbox ++ more }

theorem Serves.tracks (h : e.Serves) :
    e.session.Tracks e.session.inner.link.left e.session.taken [] where
  left := by rw [List.append_nil]
  taken := by rw [h.clear, List.append_nil, List.append_nil]
  clear _ := h.clear

theorem Serves.after (h : e.Serves) (hrested : e'.isOver = false → e'.AtRest)
    (ht : ∃ visible, e'.session.Tracks e.session.inner.link.left e.session.taken visible)
    (hs : e'.session.inner.link.right.staged = []) : e'.Serves ∧ ∃ more, e.Shows e' more := by
  obtain ⟨more, ht⟩ := ht
  refine ⟨⟨hrested, (congrArg LinkEnd.live ht.left).trans h.near, hs⟩, more, ?_, ht.left⟩
  rw [ht.taken, hs, List.append_nil]

theorem Serves.idle (h : e.Serves) : e.Serves ∧ ∃ more, e.Shows e more :=
  h.after h.rested ⟨[], h.tracks⟩ h.clear

theorem Serves.released (h : e.Serves) {s : EngineState} (ho : s.isOver = true) (stream : Tap τ) :
    Serves ⟨s, stream, e.session⟩ ∧ ∃ more, e.Shows ⟨s, stream, e.session⟩ more :=
  h.after (fun hn => nomatch ho.symm.trans hn) ⟨[], h.tracks⟩ h.clear

theorem Serves.detached (h : e.Serves) {s : EngineState} (ho : s.isOver = true) (stream : Tap τ) :
    Serves ⟨s, stream, Session.detach e.session⟩ ∧
      ∃ more, e.Shows ⟨s, stream, Session.detach e.session⟩ more :=
  h.after (fun hn => nomatch ho.symm.trans hn) ⟨[], h.tracks.detach h.clear⟩ rfl

variable [ByteStream τ]

theorem Runs.tracks {u : Prop} (hn : near.live = true) (hr : Runs u e e')
    (h : ∃ visible, e.session.Tracks near taken visible) :
    ∃ visible, e'.session.Tracks near taken visible := by
  have hsteps {e₁ : Line τ} (hs : ReflTransGen (Step u) e e₁) :
      ∃ visible, e₁.session.Tracks near taken visible := by
    induction hs with
    | refl => exact h
    | tail _ hs ih => exact hs.session (Ledger.keeps_tracks hn) ih
  rcases hr with hs | ⟨e₁, e₂, reason, hs, hf, rfl⟩
  · exact hsteps hs
  · obtain ⟨visible, h₂⟩ := hf.session (Ledger.keeps_tracks hn) (hsteps hs)
    obtain ⟨visible', h₃, hclear⟩ := h₂.flush hn
    exact ⟨visible', h₃.detach hclear⟩

theorem Serves.ran (h : e.Serves) {s : EngineState} (hl : s.stage = .live)
    (hr : Runs True ⟨s, e.stream, e.session⟩ e') (ha : e'.isLive = true → e'.AtRest)
    (hcalm : e'.session.inner.link.right.live = true → e'.session.inner.link.right.staged = []) :
    e'.Serves ∧ ∃ more, e.Shows e' more := by
  have ht := hr.tracks h.near ⟨[], h.tracks⟩
  refine h.after (fun ho => ha (isLive_of_not_over ho (hr.stage_ne hl))) ht ?_
  obtain ⟨visible, ht⟩ := ht
  cases hlive : e'.session.inner.link.right.live with
  | false => exact ht.clear hlive
  | true => exact hcalm hlive

theorem Serves.signal (h : e.Serves) (g : Signal) :
    (e.signal g).Serves ∧ ∃ more, e.Shows (e.signal g) more := by
  cases ho : e.isOver with
  | true =>
    rcases signal_of_over ho g with he | he
    · rw [he]
      exact h.idle
    · rw [he]
      exact h.detached ho e.stream
  | false =>
    rw [signal_of_not_over ho]
    have ha := h.rested ho
    have hcalm := calm_handle Ledger.calms_staged ha (fun _ => h.clear) g
    by_cases hg : g = .start
    · subst hg
      obtain ⟨hr, hrest⟩ := runs_start (u := True) ha ho
      exact h.ran rfl hr hrest hcalm
    · cases hl : e.isLive with
      | false =>
        rw [handle_of_not_live hl hg]
        exact h.idle
      | true =>
        obtain ⟨hr, hrest⟩ := runs_handle (u := True) ha hg fun _ => .inr trivial
        exact h.ran (EngineState.isLive_iff.1 hl) hr hrest hcalm

/-- After any call of an engine, all that it has taken is visible at the near end. -/
theorem Serves.call (h : e.Serves) (c : Call) :
    (e.call c).Serves ∧ ∃ more, e.Shows (e.call c) more := by
  cases c with
  | signal g => exact h.signal g
  | stop =>
    rw [Engine.call, stop]
    split
    · exact h.idle
    · exact h.released rfl _
  | discard =>
    rw [Engine.call, discard, stop]
    by_cases ho : e.isOver = true
    · rw [if_pos ho]
      exact h.idle
    · rw [if_neg ho]
      cases e.isLive with
      | true => exact h.detached rfl _
      | false => exact h.released rfl _

end Engine

end Zmtp
