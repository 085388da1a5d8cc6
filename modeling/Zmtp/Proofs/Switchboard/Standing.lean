import Zmtp.Proofs.Switchboard.Basic

namespace Zmtp

open Function (update)

namespace Link

variable {l l' : Link} {part : Part}

/-- Whether the near end is there, and what is staged at the far end. Nothing that is done at the
near end changes it, unless that end is given up. -/
def grip (l : Link) : Bool × List Part := (l.left.live, l.right.staged)

@[simp] theorem grip_setIdentity (l : Link) (i : Identity) :
    (l.setIdentity .left i).grip = l.grip := rfl

@[simp] theorem grip_read_left (l : Link) : (l.read .left).2.grip = l.grip := by
  rw [read]
  split <;> rfl

@[simp] theorem grip_rollback_left (l : Link) : (l.rollback .left).grip = l.grip := rfl

theorem grip_write?_left (h : l.write? .left part = some l') : l'.grip = l.grip := by
  rw [write?] at h
  split at h
  · cases h
    rfl
  · cases h

@[simp] theorem grip_flush_left (l : Link) : (l.flush .left).grip = l.grip := by
  rw [flush]
  split <;> rfl

end Link

namespace Router

variable {r r' : Router} {p : PipeId} {l' : Link}

theorem aside_grip : Aside (view Link.grip) := aside_view Link.grip_setIdentity Link.grip_read_left

theorem grip_sendPart (r : Router) (part : Part) :
    (r.sendPart part).view Link.grip = r.view Link.grip := by
  have hmod (t : PipeId) (m : Link → Link)
      (h : ∀ l, r.link? t = some l → (m l).grip = l.grip) :
      (r.modifyLink t m).view Link.grip = r.view Link.grip := view_modifyLink_of_eq h
  rw [sendPart]
  simp only
  split
  · rfl
  · next t _ =>
    split
    · rfl
    · next l hl =>
      have hl' : r.link? t = some l := hl
      split
      · exact hmod t _ fun l _ => l.grip_rollback_left
      · next l' hw =>
        have hg := Link.grip_write?_left hw
        split
        · apply hmod t
          intro k hk
          rw [hg, Option.some.inj (hl'.symm.trans hk)]
        · apply hmod t
          intro k hk
          rw [Link.grip_flush_left, hg, Option.some.inj (hl'.symm.trans hk)]

theorem grip_send (r : Router) (part : Part) :
    ((r.send part).toOption.getD r).view Link.grip = r.view Link.grip := by
  rw [send]
  split
  · exact r.grip_sendPart part
  · rw [address]
    split
    · split
      · split <;> rfl
      · split <;> rfl
    · rfl

theorem grip_rollback (r : Router) : r.rollback.view Link.grip = r.view Link.grip := by
  rw [rollback]
  split
  · rfl
  · exact view_modifyLink_of_eq (r := r) fun l _ => l.grip_rollback_left

/-- Of its own, a router only lets go of links. -/
theorem grip_play {m : RouterMove} (hm : m.isOwn = true) (r : Router) :
    (r.play m).view Link.grip =
      match m with
      | .detach p => update (r.view Link.grip) p none
      | _ => r.view Link.grip := by
  cases m with
  | attach => cases hm
  | far => cases hm
  | detach p => exact view_detach Link.grip r p
  | readable p => exact aside_grip.onReadable r p
  | writable p => rfl
  | send part => exact r.grip_send part
  | rollback => exact r.grip_rollback
  | mandate on => rfl
  | ask => exact aside_grip.hasInput r
  | receive => exact aside_grip.receive r

theorem link?_of_view (h : r'.view Link.grip p = r.view Link.grip p) (hl : r'.link? p = some l') :
    ∃ l, r.link? p = some l ∧ l'.grip = l.grip := by
  have hv : r.view Link.grip p = some l'.grip := by
    rw [← h, view, hl]
    rfl
  obtain ⟨l, hl, hg⟩ := Option.map_eq_some_iff.1 hv
  exact ⟨l, hl, hg.symm⟩

end Router

namespace Engine

variable {τ : Type} {e : Line τ} {t t' : τ} {u u' : LinkSession}

theorem Serves.regrip (h : (e.withWorld t u).Serves) (hg : u'.link.grip = u.link.grip) :
    (e.withWorld t' u').Serves where
  rested ho := (h.rested ho).congr rfl rfl rfl
  near := (congrArg Prod.fst hg).trans h.near
  clear := (congrArg Prod.snd hg).trans h.clear

theorem serves_untold (s : Settings) (endpoint : String) (monitored : Bool) (t : τ) (p : PipeId)
    (highWater : Nat) :
    (untold s endpoint monitored t ⟨.new p highWater⟩ : Line τ).Serves where
  rested _ := atRest_untold ..
  near := rfl
  clear := rfl

end Engine

namespace Watch

variable {w : Watch} {p p' : PipeId} {l l' : Link} {more : List Part} {m : RouterMove}

theorem admits_own (hm : m.isOwn = true) : w.Admits m := by
  cases m with
  | attach => cases hm
  | far => cases hm
  | _ => trivial

theorem published_own (hm : m.isOwn = true) : (w.play m).published = w.published := by
  cases m with
  | attach => cases hm
  | far => cases hm
  | _ => rfl

theorem after_of_none (hl : w.router.link? p = none) : w.after p l' = w := by
  rw [after, hl]

theorem link?_after_of_ne (hp : p' ≠ p) : (w.after p l').router.link? p' = w.router.link? p' := by
  rw [after]
  split
  · rfl
  · exact (Assoc.get?_modify ..).trans (if_neg hp)

theorem link?_after (hl : w.router.link? p = some l) :
    (w.after p l').router.link? p = some l' := by
  rw [after, hl]
  refine (Assoc.get?_modify ..).trans ?_
  rw [if_pos rfl, show w.router.pipes.get? p = some l from hl]
  rfl

theorem published_after_eq_none : (w.after p l').published p' = none ↔ w.published p' = none := by
  rw [after]
  split
  · rfl
  · simp only [Function.update_apply]
    split
    · next h => rw [h, Option.map_eq_none_iff]
    · rfl

theorem intake_after (hl : w.router.link? p = some l)
    (hleft : l'.left = { l.left with inbox := l.left.inbox ++ more }) :
    (w.after p l').router.intake =
        { w.router.intake with
          front := update w.router.intake.front p
            (some { l.front with inbox := l.front.inbox ++ more }) } ∧
      (w.after p l').published = update w.published p ((w.published p).map (· ++ more)) ∧
      (w.after p l').journal = w.journal := by
  have hfront : l'.front = { l.front with inbox := l.front.inbox ++ more } := by
    rw [Link.front, hleft]
    rfl
  rw [after, hl]
  refine ⟨?_, ?_, rfl⟩
  · refine (Router.intake_modifyLink ..).trans ?_
    rw [hl, Option.map_some, hfront]
  · simp only [hleft, List.drop_left]

theorem Holds.after (h : w.Holds) (hl : w.router.link? p = some l)
    (hleft : l'.left = { l.left with inbox := l.left.inbox ++ more }) (hw : Whole more) :
    (w.after p l').Holds := by
  obtain ⟨hi, hp, hj⟩ := intake_after hl hleft
  rw [Holds, hi, hp, hj]
  exact Kept.refill (e := l.front) h (congrArg (Option.map Link.front) hl) hw

end Watch

namespace Whole

variable {a b more : List Part}

theorem of_append (h : Whole (a ++ more)) : Whole more := by
  intro x hx
  apply h x
  rw [List.getLast?_append, hx]
  rfl

theorem not_append (hb : Whole b) (h : ¬ Whole (b ++ more)) : ¬ Whole (a ++ more) :=
  fun ha => h (hb.append ha.of_append)

end Whole

namespace Switchboard

variable {τ : Type} {b : Switchboard τ} {p : PipeId} {e : Line τ}

/-- How a line stands whose near end the router has not got yet. -/
structure Loose (p : PipeId) (e : Line τ) : Prop where
  serves : e.Serves
  named : e.session.inner.link.left.id = p
  whole : Whole e.session.inner.link.left.inbox

/-- What is known of a switchboard between two moves. -/
structure Holds (b : Switchboard τ) : Prop where
  watch : b.watch.Holds
  laid : ∀ p, b.lines p = none → b.watch.published p = none
  attached : ∀ p l e, b.router.link? p = some l → b.lines p = some e →
    (e.withWorld e.stream.inner ⟨l⟩).Serves
  loose : ∀ p e, b.watch.published p = none → b.lines p = some e → Loose p e
  whole : ∀ p e, b.lines p = some e → Whole e.session.taken

theorem Holds.link?_eq_none (h : b.Holds) (hp : b.watch.published p = none) :
    b.router.link? p = none :=
  Option.map_eq_none_iff.1 (Kept.front_eq_none h.watch hp)

theorem holds_new (s : Settings) (ids : IdentitySource) : (new s ids : Switchboard τ).Holds where
  watch := Watch.holds_new s ids
  laid _ _ := rfl
  attached _ _ e _ he := nomatch (he : none = some e)
  loose _ e _ he := nomatch (he : none = some e)
  whole _ e he := nomatch (he : none = some e)

theorem Holds.lay (h : b.Holds) (hp : b.lines p = none) (highWater : Nat) (s : Settings)
    (endpoint : String) (monitored : Bool) (t : τ) :
    Holds { b with
      lines := update b.lines p (some (.untold s endpoint monitored t ⟨.new p highWater⟩)) } where
  watch := h.watch
  laid p' hn := by
    simp only [Function.update_apply] at hn
    split at hn
    · cases hn
    · exact h.laid p' hn
  attached p' l e hl he := by
    have hne : p' ≠ p := by
      rintro rfl
      cases hl.symm.trans (h.link?_eq_none (h.laid p' hp))
    exact h.attached p' l e hl ((Function.update_of_ne hne ..).symm.trans he)
  loose p' e hn he := by
    simp only [Function.update_apply] at he
    split at he
    · next hne =>
      cases he
      exact ⟨Engine.serves_untold .., hne.symm, nofun⟩
    · exact h.loose p' e hn he
  whole p' e he := by
    simp only [Function.update_apply] at he
    split at he
    · cases he
      exact nofun
    · exact h.whole p' e he

theorem Holds.attach (h : b.Holds) (he : b.lines p = some e) (hp : b.watch.published p = none) :
    Holds { b with watch := b.watch.play (.attach e.session.inner.link) } := by
  obtain ⟨hserves, hid, hw⟩ := h.loose p e hp he
  have hview := Router.view_attach Router.aside_grip b.router e.session.inner.link
  rw [hid] at hview
  have hpub : (b.watch.play (.attach e.session.inner.link)).published =
      update b.watch.published p (some e.session.inner.link.left.inbox) := by
    rw [← hid]
    rfl
  refine ⟨h.watch.play ⟨hid.symm ▸ hp, hw⟩ trivial, ?_, ?_, ?_, h.whole⟩
  · intro p' hn
    have hne : p' ≠ p := by
      rintro rfl
      cases he.symm.trans hn
    rw [hpub, Function.update_of_ne hne]
    exact h.laid p' hn
  · intro p' l' e' hl he'
    by_cases hne : p' = p
    · subst hne
      cases he.symm.trans he'
      have hg := congrFun hview p'
      rw [Function.update_self, Router.view,
        show Router.link? (b.router.attach e.session.inner.link) p' = some l' from hl] at hg
      exact Engine.Serves.regrip (t := e.stream.inner) (u := e.session.inner) hserves
        (Option.some.inj hg)
    · have hv := (congrFun hview p').trans (Function.update_of_ne hne ..)
      obtain ⟨l, hl₀, hg⟩ := Router.link?_of_view hv hl
      exact (h.attached p' l e' hl₀ he').regrip hg
  · intro p' e' hn he'
    rw [hpub] at hn
    have hne : p' ≠ p := by
      rintro rfl
      rw [Function.update_self] at hn
      cases hn
    exact h.loose p' e' ((Function.update_of_ne hne ..).symm.trans hn) he'

theorem hangUp_cases (b : Switchboard τ) (m : RouterMove) (p : PipeId) :
    b.hangUp m p = b.lines p ∨ m = .detach p ∧ ∃ l, b.router.link? p = some l ∧
      b.hangUp m p = (b.lines p).map fun e => e.withWorld e.stream.inner ⟨l.drop .left⟩ := by
  cases m with
  | detach p' =>
    simp only [hangUp]
    cases hl : b.router.link? p' with
    | none => exact .inl rfl
    | some l =>
      by_cases hp : p = p'
      · subst hp
        exact .inr ⟨rfl, l, hl, Function.update_self ..⟩
      · exact .inl (Function.update_of_ne hp ..)
  | _ => exact .inl rfl

theorem Holds.own (h : b.Holds) {m : RouterMove} (hm : m.isOwn = true) (hs : b.watch.Spares m) :
    Holds ⟨b.watch.play m, b.hangUp m⟩ := by
  have hgrip := Router.grip_play hm b.router
  refine ⟨h.watch.play (Watch.admits_own hm) hs, ?_, ?_, ?_, ?_⟩
  · intro p hn
    rw [Watch.published_own hm]
    apply h.laid p
    rcases b.hangUp_cases m p with he | ⟨-, l, -, he⟩
    · exact he.symm.trans hn
    · exact Option.map_eq_none_iff.1 (he.symm.trans hn)
  · intro p l' e hl he
    have hne : m ≠ .detach p := by
      rintro rfl
      have hv := (congrFun hgrip p).trans (Function.update_self ..)
      rw [Router.view, show Router.link? (b.router.play (.detach p)) p = some l' from hl] at hv
      cases hv
    have hv : (b.router.play m).view Link.grip p = b.router.view Link.grip p := by
      rw [hgrip]
      cases m with
      | detach p' =>
        exact Function.update_of_ne (fun hp => hne (congrArg RouterMove.detach hp.symm)) ..
      | _ => rfl
    obtain ⟨l, hl₀, hg⟩ := Router.link?_of_view hv hl
    rcases b.hangUp_cases m p with he' | ⟨hd, -⟩
    · exact (h.attached p l e hl₀ (he'.symm.trans he)).regrip hg
    · exact absurd hd hne
  · intro p e hn he
    rw [Watch.published_own hm] at hn
    rcases b.hangUp_cases m p with he' | ⟨-, l, hl, -⟩
    · exact h.loose p e hn (he'.symm.trans he)
    · cases hl.symm.trans (h.link?_eq_none hn)
  · intro p e he
    rcases b.hangUp_cases m p with he' | ⟨-, l, -, he'⟩
    · exact h.whole p e (he'.symm.trans he)
    · obtain ⟨e₀, he₀, rfl⟩ := Option.map_eq_some_iff.1 (he'.symm.trans he)
      exact h.whole p e₀ he₀

theorem joined_of_some {l : Link} (hl : b.router.link? p = some l) (world : τ → τ) :
    b.joined p e world = e.withWorld (world e.stream.inner) ⟨l⟩ := by
  rw [joined, hl]
  rfl

theorem joined_of_none (hl : b.router.link? p = none) (world : τ → τ) :
    b.joined p e world = e.withWorld (world e.stream.inner) e.session.inner := by
  rw [joined, hl]
  rfl

variable [ByteStream τ]

theorem Holds.shows {l : Link} (h : b.Holds) (hl : b.router.link? p = some l)
    (he : b.lines p = some e) (world : τ → τ) (c : Call) :
    ((b.joined p e world).call c).Serves ∧
      ∃ more, ((b.joined p e world).call c).session.taken = e.session.taken ++ more ∧
        ((b.joined p e world).call c).session.inner.link.left =
          { l.left with inbox := l.left.inbox ++ more } := by
  have hs : (b.joined p e world).Serves := by
    rw [joined_of_some hl]
    exact (h.attached p l e hl he).regrip rfl
  obtain ⟨hserves, more, htaken, hleft⟩ := hs.call c
  refine ⟨hserves, more, htaken, ?_⟩
  rw [hleft, joined_of_some hl]
  rfl

theorem Loose.call (h : Loose p e) (t : τ) (c : Call)
    (hr : Whole ((e.withWorld t e.session.inner).call c).session.taken) :
    Loose p ((e.withWorld t e.session.inner).call c) := by
  obtain ⟨hserves, hid, hw⟩ := h
  have hs : (e.withWorld t e.session.inner).Serves :=
    Engine.Serves.regrip (t := e.stream.inner) (u := e.session.inner) hserves rfl
  obtain ⟨hserves', more, htaken, hleft⟩ := hs.call c
  refine ⟨hserves', (congrArg LinkEnd.id hleft).trans hid, ?_⟩
  rw [hleft]
  rw [htaken] at hr
  exact hw.append hr.of_append

theorem Holds.call (h : b.Holds) (he : b.lines p = some e) (world : τ → τ) (c : Call)
    (hr : Whole ((b.joined p e world).call c).session.taken) :
    Holds ⟨b.watch.after p ((b.joined p e world).call c).session.inner.link,
      update b.lines p (some ((b.joined p e world).call c))⟩ := by
  have hlaid (p' : PipeId) (hn : update b.lines p (some ((b.joined p e world).call c)) p' = none) :
      (b.watch.after p ((b.joined p e world).call c).session.inner.link).published p' = none := by
    simp only [Function.update_apply] at hn
    split at hn
    · cases hn
    · exact Watch.published_after_eq_none.2 (h.laid p' hn)
  have hwhole (p' : PipeId) (e' : Line τ)
      (he' : update b.lines p (some ((b.joined p e world).call c)) p' = some e') :
      Whole e'.session.taken := by
    simp only [Function.update_apply] at he'
    split at he'
    · cases he'
      exact hr
    · exact h.whole p' e' he'
  cases hl : b.router.link? p with
  | some l =>
    obtain ⟨hserves, more, htaken, hleft⟩ := h.shows hl he world c
    rw [htaken] at hr
    refine ⟨h.watch.after hl hleft hr.of_append, hlaid, ?_, ?_, hwhole⟩
    · intro p' l' e' hl' he'
      by_cases hp : p' = p
      · subst hp
        cases (Watch.link?_after hl).symm.trans hl'
        cases (Function.update_self ..).symm.trans he'
        exact hserves
      · exact h.attached p' l' e' ((Watch.link?_after_of_ne hp).symm.trans hl')
          ((Function.update_of_ne hp ..).symm.trans he')
    · intro p' e' hn he'
      have hn' := Watch.published_after_eq_none.1 hn
      have hp : p' ≠ p := by
        rintro rfl
        cases hl.symm.trans (h.link?_eq_none hn')
      exact h.loose p' e' hn' ((Function.update_of_ne hp ..).symm.trans he')
  | none =>
    rw [Watch.after_of_none hl] at hlaid ⊢
    refine ⟨h.watch, hlaid, ?_, ?_, hwhole⟩
    · intro p' l' e' hl' he'
      have hp : p' ≠ p := by
        rintro rfl
        cases hl.symm.trans hl'
      exact h.attached p' l' e' hl' ((Function.update_of_ne hp ..).symm.trans he')
    · intro p' e' hn he'
      by_cases hp : p' = p
      · subst hp
        cases (Function.update_self ..).symm.trans he'
        rw [joined_of_none hl] at hr ⊢
        exact (h.loose p' e hn he).call _ c hr
      · exact h.loose p' e' hn ((Function.update_of_ne hp ..).symm.trans he')

theorem Holds.play (h : b.Holds) {m : Move τ} (hr : b.Rounds m) (hs : b.Spares m) :
    (b.play m).Holds := by
  cases m with
  | lay p highWater s endpoint monitored t =>
    rw [Switchboard.play]
    split
    · exact h
    · next hp => exact h.lay hp ..
  | attach p =>
    rw [Switchboard.play]
    split
    · next he hp => exact h.attach he hp
    · exact h
  | call p world c =>
    rw [Switchboard.play]
    split
    · exact h
    · next e he => exact h.call he world c (hr e he)
  | own m =>
    rw [Switchboard.play]
    split
    · next hm => exact h.own hm hs
    · exact h

theorem Holds.run {ms : List (Move τ)} (h : b.Holds) (hr : Always Rounds b ms)
    (hs : Always Spares b ms) : (b.run ms).Holds := by
  induction ms generalizing b with
  | nil => exact h
  | cons m ms ih => exact ih (h.play hr.1 hs.1) hr.2 hs.2

end Switchboard

end Zmtp
