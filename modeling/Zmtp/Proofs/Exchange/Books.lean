import Zmtp.Proofs.Engine.Waking

namespace Zmtp

namespace LinkSession

variable {s s' : LinkSession} {p : Part}

theorem push_cases (hr : s.link.right.live = true) (hl : s.link.left.live = true) :
    Session.push s p = (.busy, s) ∨
      Session.push s p = (.accepted,
        ⟨{ s.link with right := { s.link.right with staged := s.link.right.staged ++ [p] } }⟩) := by
  change s.push p = _ ∨ s.push p = _
  have hopen : (!s.attached || s.link.peerGone .right) = false := by
    simp only [attached, hr, Link.peerGone, Link.get, Side.other, hl, Bool.not_true, Bool.or_self]
  rw [push, hopen, Link.write?]
  split
  · next hc => cases hc
  · split
    · next hw =>
      split at hw
      · cases hw
      · exact .inl rfl
    · next hw =>
      split at hw
      · cases hw
        exact .inr rfl
      · cases hw

theorem pull_cases (hr : s.link.right.live = true) :
    s.link.right.inbox = [] ∧ Session.pull s = (none, s) ∨
      ∃ p ps, s.link.right.inbox = p :: ps ∧ Session.pull s =
        (some p, ⟨{ s.link with right := { s.link.right with inbox := ps } }⟩) := by
  change _ ∧ s.pull = _ ∨ ∃ p ps, _ ∧ s.pull = _
  rw [pull, attached, hr, Link.read, Link.get]
  cases hi : s.link.right.inbox with
  | nil => exact .inl ⟨rfl, rfl⟩
  | cons p ps => exact .inr ⟨p, ps, rfl, rfl⟩

theorem flush_eq (hr : s.link.right.live = true) (hl : s.link.left.live = true) :
    Session.flush s = ⟨{ s.link with
      left := { s.link.left with inbox := s.link.left.inbox ++ s.link.right.staged }
      right := { s.link.right with staged := [] } }⟩ := by
  change s.flush = _
  simp only [flush, attached, hr, if_true, Link.flush, Link.rollback, Link.update, Link.peerGone,
    Link.get, Side.other, hl, Bool.not_true, Bool.false_eq_true, if_false]

theorem push_frame {outcome : PushOutcome} (h : Session.push s p = (outcome, s')) :
    s'.link.right.live = s.link.right.live ∧ s'.link.right.inbox = s.link.right.inbox := by
  change s.push p = _ at h
  rw [push] at h
  split at h
  · cases h
    exact ⟨rfl, rfl⟩
  · split at h
    · cases h
      exact ⟨rfl, rfl⟩
    · next hw =>
      rw [Link.write?] at hw
      split at hw
      · cases hw
        cases h
        exact ⟨rfl, rfl⟩
      · cases hw

theorem flush_frame (s : LinkSession) :
    (Session.flush s).link.right.live = s.link.right.live ∧
      (Session.flush s).link.right.inbox = s.link.right.inbox ∧
        ((Session.flush s).link.right.live = true → (Session.flush s).link.right.staged = []) := by
  change s.flush.link.right.live = _ ∧ s.flush.link.right.inbox = _ ∧
    (s.flush.link.right.live = true → s.flush.link.right.staged = [])
  rw [flush]
  split
  · simp only [Link.flush]
    split
    · exact ⟨rfl, rfl, fun _ => rfl⟩
    · exact ⟨rfl, rfl, fun _ => rfl⟩
  · next ha => exact ⟨rfl, rfl, fun hr => absurd hr ha⟩

theorem pull_frame (s : LinkSession) :
    (Session.pull s).2.link.right.live = s.link.right.live ∧
      (Session.pull s).2.link.right.staged = s.link.right.staged := by
  cases hr : s.link.right.live with
  | false =>
    have hp : Session.pull s = (none, s) := by
      change s.pull = _
      rw [pull, attached, hr]
      rfl
    rw [hp]
    exact ⟨hr, rfl⟩
  | true =>
    rcases pull_cases hr with ⟨-, hp⟩ | ⟨p, ps, -, hp⟩
    · rw [hp]
      exact ⟨hr, rfl⟩
    · rw [hp]
      exact ⟨hr, rfl⟩

end LinkSession

namespace Ledger

variable {l l' : Ledger LinkSession} {published seen : List Part}

/-- How the session of an application stands that has published and has seen some parts. -/
structure Booked (published seen : List Part) (l : Ledger LinkSession) : Prop where
  left : l.inner.link.left.live = true
  right : l.inner.link.right.live = true
  given : l.given ++ l.inner.link.right.inbox = published
  taken : l.taken = seen ++ (l.inner.link.left.inbox ++ l.inner.link.right.staged)

theorem Booked.push (h : l.Booked published seen) {p : Part} {outcome : PushOutcome}
    (hp : Session.push l p = (outcome, l')) : l'.Booked published seen ∧ outcome ≠ .closed := by
  change l.push p = _ at hp
  rcases LinkSession.push_cases (p := p) h.right h.left with hs | hs
  · rw [Ledger.push, hs] at hp
    cases hp
    exact ⟨h, PushOutcome.noConfusion⟩
  · rw [Ledger.push, hs] at hp
    cases hp
    refine ⟨⟨h.left, h.right, h.given, ?_⟩, PushOutcome.noConfusion⟩
    simp only [h.taken, List.append_assoc]

theorem keeps_booked : Session.Keeps (Ledger.Booked published seen) where
  push h hp := (h.push hp).1
  pull l h := by
    change l.pull.2.Booked published seen
    rcases LinkSession.pull_cases h.right with ⟨-, hs⟩ | ⟨p, ps, hi, hs⟩
    · rw [Ledger.pull, hs]
      exact h
    · rw [Ledger.pull, hs]
      refine ⟨h.left, h.right, ?_, h.taken⟩
      rw [← h.given, hi, List.append_assoc]
      rfl
  flush l h := by
    change l.flush.Booked published seen
    rw [Ledger.flush, LinkSession.flush_eq h.right h.left]
    refine ⟨h.left, h.right, h.given, ?_⟩
    rw [List.append_nil]
    exact h.taken

theorem Booked.detached (h : l.Booked published seen) {l' : Ledger LinkSession}
    (hd : l' = Session.detach (Session.flush l)) :
    l'.given = l.given ∧ l'.taken = l.taken ∧ l'.inner.link.left.live = true ∧
      l'.inner.link.right.live = false ∧ l'.inner.link.right.staged = [] ∧
        l'.taken = seen ++ l'.inner.link.left.inbox := by
  have hf : Session.flush l = { l with inner := Session.flush l.inner } := rfl
  rw [hf, LinkSession.flush_eq h.right h.left] at hd
  subst hd
  exact ⟨rfl, rfl, h.left, rfl, rfl, h.taken⟩

theorem calms_staged : Session.Calms fun l : Ledger LinkSession =>
    l.inner.link.right.live = true → l.inner.link.right.staged = [] where
  flush l := (LinkSession.flush_frame l.inner).2.2
  pull l h := by
    obtain ⟨hlive, hstaged⟩ := LinkSession.pull_frame l.inner
    rw [inner_pull] at hlive hstaged
    rw [hlive, hstaged]
    exact h
  detach l _ := nofun

/-- Once a session has had nothing to send, its application must publish before it has again. -/
theorem dries_inbox (announced : Bool) : Session.Dries fun l : Ledger LinkSession =>
    announced = true → l.inner.link.right.live = true → l.inner.link.right.inbox = [] where
  push h hp := by
    obtain ⟨hlive, hinbox⟩ := LinkSession.push_frame (inner_push hp)
    rw [hlive, hinbox]
    exact h
  pull {l l'} hp _ hlive := by
    have hp' : Session.pull l.inner = (none, l'.inner) := by rw [inner_pull, hp]
    have hlive' := (LinkSession.pull_frame l.inner).1
    rw [hp', hlive] at hlive'
    rcases LinkSession.pull_cases hlive'.symm with ⟨hi, hs⟩ | ⟨p, ps, -, hs⟩
    · rw [(Prod.mk.inj (hp'.symm.trans hs)).2]
      exact hi
    · cases (Prod.mk.inj (hp'.symm.trans hs)).1
  flush l h := by
    obtain ⟨hlive, hinbox, -⟩ := LinkSession.flush_frame l.inner
    change announced = true → (Session.flush l.inner).link.right.live = true →
      (Session.flush l.inner).link.right.inbox = []
    rw [hlive, hinbox]
    exact h

end Ledger

end Zmtp
