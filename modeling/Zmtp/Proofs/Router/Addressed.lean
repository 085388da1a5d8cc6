import Zmtp.Hub
import Zmtp.Proofs.Router.Letters

namespace Zmtp

open Function (update)

/-- What the far end takes from the link with a move. -/
def Outlet.reads (o : Outlet) : FarMove → List Part
  | .read => if o.live then o.unread.take 1 else []
  | _ => []

/-- What the far end gives up unread with a move. -/
def Outlet.loses (o : Outlet) : FarMove → List Part
  | .drop => if o.live then o.unread else []
  | _ => []

theorem Outlet.eq_of_clear {o o' : Outlet} (h : o'.clear = o.clear) :
    o'.pipe = o.pipe ∧ o'.unread = o.unread ∧ o'.live = o.live := by
  cases o
  cases o'
  cases h
  exact ⟨rfl, rfl, rfl⟩

/-- All that a pipe was due is at its far end: read, given up with it, or still to be read. -/
inductive Arrived : Option Outlet → List Part → List Part → List Part → Prop where
  | nobody : Arrived none [] [] []
  | somebody {o : Outlet} {read lost due : List Part} (h : read ++ (lost ++ o.unread) = due)
      (hl : o.live = true → lost = []) : Arrived (some o) read lost due

namespace Arrived

variable {o o' : Outlet} {x x' : Option Outlet} {read lost due : List Part}

theorem congr (h : Arrived x read lost due) (he : x'.map Outlet.clear = x.map Outlet.clear) :
    Arrived x' read lost due := by
  cases h with
  | nobody =>
    cases x' with
    | none => exact .nobody
    | some o' => cases he
  | @somebody o _ _ _ h hl =>
    cases x' with
    | none => cases he
    | some o' =>
      obtain ⟨-, hu, hv⟩ := Outlet.eq_of_clear (Option.some.inj he)
      exact .somebody (hu ▸ h) (hv ▸ hl)

theorem peer (h : Arrived none read lost due) (hu : o.unread = []) :
    Arrived (some o) read lost due := by
  cases h with
  | nobody => exact .somebody (by rw [hu]; rfl) fun _ => rfl

theorem publish (h : Arrived (some o) read lost due) {more : List Part}
    (hu : o'.unread = o.unread ++ more) (hv : o'.live = o.live) :
    Arrived (some o') read lost (due ++ more) := by
  cases h with
  | somebody h hl =>
    refine .somebody ?_ (hv ▸ hl)
    rw [hu, ← h, List.append_assoc, List.append_assoc]

theorem far (h : Arrived (some o) read lost due) (m : FarMove) :
    Arrived (some (o.heed m)) (read ++ o.reads m) (lost ++ o.loses m) due := by
  cases h with
  | somebody h hl =>
    rw [Outlet.heed]
    cases hv : o.live with
    | false =>
      have hr : o.reads m = [] := by cases m <;> simp [Outlet.reads, hv]
      have hs : o.loses m = [] := by cases m <;> simp [Outlet.loses, hv]
      rw [hr, hs, List.append_nil, List.append_nil]
      exact .somebody h hl
    | true =>
      have hlost := hl hv
      subst hlost
      rw [if_pos rfl]
      cases m with
      | read =>
        refine .somebody ?_ fun _ => rfl
        rw [← h]
        cases hu : o.unread <;> simp [Outlet.reads, Outlet.loses, Outlet.far, hv, hu]
      | drop =>
        refine .somebody ?_ (absurd · Bool.false_ne_true)
        simpa [Outlet.reads, Outlet.loses, Outlet.far, hv] using h
      | write | rollback | flush =>
        refine .somebody ?_ fun _ => rfl
        rw [← h]
        simp [Outlet.reads, Outlet.loses, Outlet.far]

end Arrived

/-- What holds between the links, attached or not, and what was sent. -/
structure Delivers (v : Dispatch) (loose : PipeId → Option Outlet) (next : Nat) (b : Mailbag)
    (read lost : PipeId → List Part) : Prop where
  aimed : v.Aimed b
  apart : ∀ p o, loose p = some o → v.outlet p = none
  /-- Every link is found under its own name, which is not given away again. -/
  known : ∀ p o, (loose p).or (v.outlet p) = some o → o.pipe = p ∧ p.number < next
  arrived : ∀ p, Arrived ((loose p).or (v.outlet p)) (read p) (lost p) (b.payloads p)
  proper : b.Proper

namespace Delivers

variable {v v' : Dispatch} {loose loose' : PipeId → Option Outlet} {next : Nat} {b b' : Mailbag}
  {l : Letter} {read lost : PipeId → List Part} {p : PipeId} {o o' : Outlet} {part : Part}
  {route : Identity → Option PipeId} {accepts : PipeId → Bool}

theorem mono (h : Delivers v loose next b read lost) (ha : v'.Aimed b') (hp : b'.Proper)
    (hapart : ∀ p o, loose' p = some o → v'.outlet p = none)
    (hsame : ∀ p, ((loose' p).or (v'.outlet p)).map Outlet.clear =
      ((loose p).or (v.outlet p)).map Outlet.clear)
    (hpay : ∀ p, b'.payloads p = b.payloads p) : Delivers v' loose' next b' read lost where
  aimed := ha
  apart := hapart
  known p o ho := by
    have hs := hsame p
    rw [ho] at hs
    obtain ⟨o', ho', hc⟩ := Option.map_eq_some_iff.1 hs.symm
    rw [← (Outlet.eq_of_clear hc).1]
    exact h.known p o' ho'
  arrived p := by
    rw [hpay]
    exact (h.arrived p).congr (hsame p)
  proper := hp

theorem send (h : Delivers v loose next b read lost) (ha : v'.Aimed b') (hp : b'.Proper)
    (hsame : ∀ p, (v'.outlet p).map Outlet.clear = (v.outlet p).map Outlet.clear)
    (hpay : ∀ p, b'.payloads p = b.payloads p) : Delivers v' loose next b' read lost := by
  refine h.mono ha hp ?_ ?_ hpay
  · intro p o ho
    have hs := hsame p
    rw [h.apart p o ho] at hs
    exact Option.map_eq_none_iff.1 hs
  · intro p
    cases loose p with
    | none => exact hsame p
    | some o => rfl

theorem outlet_eq_none (h : Delivers v loose next b read lost) (hp : next ≤ p.number) :
    loose p = none ∧ v.outlet p = none := by
  rw [← Option.or_eq_none_iff, ← Option.not_isSome_iff_eq_none, Option.isSome_iff_exists]
  rintro ⟨o, ho⟩
  exact Nat.not_lt.2 hp (h.known p o ho).2

theorem loose_eq_none (h : Delivers v loose next b read lost) (hp : v.outlet p = some o) :
    loose p = none := by
  cases hl : loose p with
  | none => rfl
  | some o' =>
    rw [h.apart p o' hl] at hp
    cases hp

theorem peer (h : Delivers v loose next b read lost) (hp : p.number = next) (ho : o.pipe = p)
    (hu : o.unread = []) (next' : Nat) (hn : next < next') :
    Delivers v (update loose p (some o)) next' b read lost where
  aimed := h.aimed
  apart q o' ho' := by
    by_cases hq : q = p
    · rw [hq]
      exact (h.outlet_eq_none (Nat.le_of_eq hp.symm)).2
    · rw [Function.update_of_ne hq] at ho'
      exact h.apart q o' ho'
  known q o' ho' := by
    by_cases hq : q = p
    · subst hq
      rw [Function.update_self] at ho'
      cases ho'
      exact ⟨ho, hp ▸ hn⟩
    · rw [Function.update_of_ne hq] at ho'
      obtain ⟨hpipe, hlt⟩ := h.known q o' ho'
      exact ⟨hpipe, Nat.lt_trans hlt hn⟩
  arrived q := by
    by_cases hq : q = p
    · subst hq
      obtain ⟨hloose, hv⟩ := h.outlet_eq_none (Nat.le_of_eq hp.symm)
      have ha := h.arrived q
      rw [hloose, hv] at ha
      rw [Function.update_self]
      exact ha.peer hu
    · rw [Function.update_of_ne hq]
      exact h.arrived q
  proper := h.proper

theorem attach (h : Delivers v loose next b read lost) (hp : loose p = some o)
    (ho : o.staged = []) :
    Delivers { v with outlet := update v.outlet p (some o) } (update loose p none) next b read
      lost := by
  have hv := h.apart p o hp
  refine h.mono (h.aimed.arrive hv ho) h.proper ?_ ?_ fun _ => rfl
  · intro q o' ho'
    by_cases hq : q = p
    · rw [hq, Function.update_self] at ho'
      cases ho'
    · rw [Function.update_of_ne hq] at ho'
      exact (Function.update_of_ne hq ..).trans (h.apart q o' ho')
  · intro q
    change ((update loose p none q).or (update v.outlet p (some o) q)).map _ = _
    by_cases hq : q = p
    · subst hq
      rw [Function.update_self, Function.update_self, hp]
      rfl
    · rw [Function.update_of_ne hq, Function.update_of_ne hq]

theorem detach (h : Delivers v loose next b read lost) (hp : v.outlet p = some o) :
    Delivers (v.depart p) (update loose p (some o)) next (b.leave p) read lost := by
  refine h.mono (h.aimed.depart p) (h.proper.leave p) ?_ ?_ fun _ => rfl
  · intro q o' ho'
    by_cases hq : q = p
    · rw [hq]
      exact Function.update_self ..
    · rw [Function.update_of_ne hq] at ho'
      exact (Function.update_of_ne hq ..).trans (h.apart q o' ho')
  · intro q
    change ((update loose p (some o) q).or (update v.outlet p none q)).map _ = _
    by_cases hq : q = p
    · subst hq
      rw [Function.update_self, h.loose_eq_none hp, hp]
      rfl
    · rw [Function.update_of_ne hq, Function.update_of_ne hq]

theorem detach_none (h : Delivers v loose next b read lost) (hp : v.outlet p = none) :
    Delivers (v.depart p) loose next (b.leave p) read lost := by
  refine h.send (h.aimed.depart p) (h.proper.leave p) ?_ fun _ => rfl
  intro q
  change (update v.outlet p none q).map _ = _
  by_cases hq : q = p
  · rw [hq, Function.update_self, hp]
  · rw [Function.update_of_ne hq]

theorem adjust (h : Delivers v loose next b read lost) (hp : loose p = some o)
    (ho : o'.clear = o.clear) : Delivers v (update loose p (some o')) next b read lost := by
  refine h.mono h.aimed h.proper ?_ ?_ fun _ => rfl
  · intro q o₁ ho₁
    by_cases hq : q = p
    · rw [hq]
      exact h.apart p o hp
    · rw [Function.update_of_ne hq] at ho₁
      exact h.apart q o₁ ho₁
  · intro q
    by_cases hq : q = p
    · subst hq
      rw [Function.update_self, hp]
      exact congrArg some ho
    · rw [Function.update_of_ne hq]

theorem touch (h : Delivers v loose next b read lost) (ho : (loose p).or (v.outlet p) = some o)
    (ha : v'.Aimed b) (hapart : ∀ q o, loose' q = some o → v'.outlet q = none)
    (ho' : (loose' p).or (v'.outlet p) = some o') (hpipe : o'.pipe = o.pipe)
    (hother : ∀ q ≠ p, (loose' q).or (v'.outlet q) = (loose q).or (v.outlet q))
    {r s : List Part} (harr : Arrived (some o') r s (b.payloads p)) :
    Delivers v' loose' next b (update read p r) (update lost p s) where
  aimed := ha
  apart := hapart
  known q o₁ ho₁ := by
    by_cases hq : q = p
    · subst hq
      cases ho'.symm.trans ho₁
      rw [hpipe]
      exact h.known q o ho
    · rw [hother q hq] at ho₁
      exact h.known q o₁ ho₁
  arrived q := by
    by_cases hq : q = p
    · subst hq
      rw [ho', Function.update_self, Function.update_self]
      exact harr
    · rw [hother q hq, Function.update_of_ne hq, Function.update_of_ne hq]
      exact h.arrived q
  proper := h.proper

theorem far_attached (h : Delivers v loose next b read lost) (hp : v.outlet p = some o)
    (m : FarMove) :
    Delivers { v with outlet := update v.outlet p (some (o.heed m)) } loose next b
      (update read p (read p ++ o.reads m)) (update lost p (lost p ++ o.loses m)) := by
  have hl : loose p = none := h.loose_eq_none hp
  have hat : (loose p).or (v.outlet p) = some o := by rw [hl, hp]; rfl
  have harr := h.arrived p
  rw [hat] at harr
  refine h.touch hat (h.aimed.heed hp m) ?_ ?_ (o.pipe_heed m) ?_ (harr.far m)
  · intro q o' ho'
    have hq : q ≠ p := by
      rintro rfl
      rw [hl] at ho'
      cases ho'
    exact (Function.update_of_ne hq ..).trans (h.apart q o' ho')
  · rw [hl, Option.none_or]
    exact Function.update_self ..
  · intro q hq
    exact congrArg (loose q).or (Function.update_of_ne hq ..)

theorem far_loose (h : Delivers v loose next b read lost) (hp : loose p = some o) (m : FarMove) :
    Delivers v (update loose p (some (o.heed m))) next b (update read p (read p ++ o.reads m))
      (update lost p (lost p ++ o.loses m)) := by
  have hat : (loose p).or (v.outlet p) = some o := by rw [hp]; rfl
  have harr := h.arrived p
  rw [hat] at harr
  refine h.touch hat h.aimed ?_ ?_ (o.pipe_heed m) ?_ (harr.far m)
  · intro q o' ho'
    by_cases hq : q = p
    · rw [hq]
      exact h.apart p o hp
    · rw [Function.update_of_ne hq] at ho'
      exact h.apart q o' ho'
  · rw [Function.update_self]
    rfl
  · intro q hq
    rw [Function.update_of_ne hq]

theorem clear_outlet (v : Dispatch) (p : PipeId) :
    (v.clear.outlet p).map Outlet.clear = (v.outlet p).map Outlet.clear := by
  rw [Dispatch.clear]
  split
  · rfl
  · next t _ =>
    change (update v.outlet t _ p).map _ = _
    by_cases hp : p = t
    · subst hp
      rw [Function.update_self, Option.map_map]
      rfl
    · rw [Function.update_of_ne hp]

theorem rollback (h : Delivers v loose next b read lost) :
    Delivers { v.clear with moreOut := false } loose next b.withdraw read lost :=
  h.send h.aimed.rollback h.proper.withdraw (clear_outlet v) b.payloads_withdraw

theorem address (h : Delivers v loose next b read lost) (hc : b.current = none)
    (ha : ∀ p, accepts p = (v.outlet p).any Outlet.accepts) (route : Identity → Option PipeId)
    (part : Part) :
    Delivers (if part.hasMore then
      { v with
        moreOut := true
        target := if (route ⟨part.data⟩).any accepts then route ⟨part.data⟩ else v.target }
      else v) loose next (b.note route accepts part) read lost := by
  refine h.send (h.aimed.address hc ha) (h.proper.note ..) ?_ fun _ =>
    Mailbag.payloads_note_none hc
  intro p
  split <;> rfl

theorem carry (h : Delivers v loose next b read lost) (hc : b.current = some l)
    (ha : ∀ p, accepts p = (v.outlet p).any Outlet.accepts) (route : Identity → Option PipeId)
    (part : Part) :
    Delivers (v.carry part) loose next (b.note route accepts part) read lost := by
  have hcarries := h.aimed.carries hc ha part
  have haimed := h.aimed.carry hc ha route part
  have hproper := h.proper.note route accepts part
  have hpay := Mailbag.payloads_note_some hc route accepts part
  generalize v.carry part = v' at hcarries haimed ⊢
  cases hcarries with
  | dropped hd =>
    refine h.send haimed hproper (clear_outlet v) ?_
    intro p
    rw [hpay, Letter.share_of_ne (by rw [hd]; nofun), ite_self, List.append_nil]
  | @staged t o ht ho hd hm =>
    refine h.send haimed hproper ?_ ?_
    · intro p
      change (update v.outlet t _ p).map _ = _
      by_cases hp : p = t
      · rw [hp, Function.update_self, ho]
        rfl
      · rw [Function.update_of_ne hp]
    · intro p
      rw [hpay, hm, if_pos rfl, List.append_nil]
  | @published t o ht ho hd hm =>
    have hl : loose t = none := h.loose_eq_none ho
    have hout (p : PipeId) (hp : p ≠ t) :
        update v.outlet t (some (o.stage part).publish) p = v.outlet p :=
      Function.update_of_ne hp ..
    refine ⟨haimed, ?_, ?_, ?_, hproper⟩
    · intro p o' ho'
      have hp : p ≠ t := by
        rintro rfl
        rw [hl] at ho'
        cases ho'
      exact (hout p hp).trans (h.apart p o' ho')
    · intro p o' ho'
      change (loose p).or (update v.outlet t _ p) = some o' at ho'
      by_cases hp : p = t
      · subst hp
        rw [hl, Function.update_self] at ho'
        cases ho'
        exact h.known p o (by rw [hl, ho]; rfl)
      · rw [hout p hp] at ho'
        exact h.known p o' ho'
    · intro p
      change Arrived ((loose p).or (update v.outlet t _ p)) _ _ _
      have harr := h.arrived p
      rw [hpay, hm, if_neg nofun]
      by_cases hp : p = t
      · subst hp
        rw [hl, ho] at harr
        rw [hl, Function.update_self, Letter.share, if_pos hd]
        refine harr.publish ?_ rfl
        have hstaged : o.staged = l.payload := by
          rw [h.aimed.staged p o ho, if_pos ht, Mailbag.begun, hc]
          rfl
        rw [Letter.payload_add, ← hstaged]
        rfl
      · rw [hout p hp, Letter.share_of_ne, List.append_nil]
        · exact harr
        · rw [hd]
          exact fun he => hp (Option.some.inj he).symm

end Delivers

end Zmtp
