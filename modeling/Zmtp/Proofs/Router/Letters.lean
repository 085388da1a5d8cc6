import Zmtp.Proofs.Router.Dispatch
import Zmtp.Proofs.Router.Journal

namespace Zmtp

open Function (update)

/-- One message as the application sends it. -/
structure Letter where
  /-- The part that came first. -/
  address : Part
  /-- The pipe of the peer that had this name then. -/
  route : Option PipeId
  /-- Whether that pipe accepted writes then. -/
  ready : Bool
  /-- The parts that followed, each with whether the pipe accepted writes when it came. -/
  parts : List (Part × Bool)
  /-- The pipe was given up before the last part. -/
  detached : Bool
  /-- The message was taken back before the last part. -/
  withdrawn : Bool
  deriving DecidableEq

namespace Letter

variable {l : Letter} {p : PipeId} {part : Part} {taken : Bool}

def payload (l : Letter) : List Part := l.parts.map Prod.fst

/-- Nothing has kept the pipe from taking all of the message so far. -/
def sound (l : Letter) : Bool := l.ready && l.parts.all Prod.snd && !l.detached && !l.withdrawn

/-- The pipe that the message goes to, unless it is dropped. -/
def destination (l : Letter) : Option PipeId := if l.sound then l.route else none

/-- What a pipe gets of the message. -/
def share (l : Letter) (p : PipeId) : List Part :=
  if l.destination = some p then l.payload else []

def add (l : Letter) (part : Part) (taken : Bool) : Letter :=
  { l with parts := l.parts ++ [(part, taken)] }

/-- A pipe is given up. -/
def leave (l : Letter) (p : PipeId) : Letter :=
  { l with detached := l.detached || decide (l.route = some p) }

theorem share_of_ne (h : l.destination ≠ some p) : l.share p = [] := if_neg h

theorem payload_add : (l.add part taken).payload = l.payload ++ [part] := List.map_append

theorem route_of_destination (h : l.destination = some p) : l.route = some p := by
  rw [destination] at h
  split at h
  · exact h
  · cases h

theorem destination_add (l : Letter) (part : Part) (taken : Bool) :
    (l.add part taken).destination = if taken then l.destination else none := by
  have hs : (l.add part taken).sound = (taken && l.sound) := by
    simp only [sound, add, List.all_append, List.all_cons, List.all_nil, Bool.and_true]
    cases taken <;> simp
  rw [destination, hs]
  cases taken <;> rfl

theorem destination_leave (l : Letter) (p : PipeId) :
    (l.leave p).destination = if l.destination = some p then none else l.destination := by
  by_cases hr : l.route = some p
  · have hs : (l.leave p).sound = false := by simp [sound, leave, hr]
    rw [destination, hs, destination, hr]
    cases l.sound <;> simp
  · have hl : l.leave p = l := by simp [leave, hr]
    rw [hl, if_neg (mt route_of_destination hr)]

end Letter

/-- What the application has sent. -/
structure Mailbag where
  done : List Letter
  /-- The message whose last part has not come yet. -/
  current : Option Letter
  deriving DecidableEq

namespace Mailbag

variable {b : Mailbag} {l : Letter} {p : PipeId} {part : Part}
  {route : Identity → Option PipeId} {accepts : PipeId → Bool}

def empty : Mailbag := ⟨[], none⟩

/-- All that a pipe gets, message after message. -/
def payloads (b : Mailbag) (p : PipeId) : List Part := b.done.flatMap (·.share p)

/-- Where the current message goes. -/
def bound (b : Mailbag) : Option PipeId := b.current.bind Letter.destination

/-- The parts of the current message so far. -/
def begun (b : Mailbag) : List Part := (b.current.map Letter.payload).getD []

/-- A part goes on with the current message. Otherwise it is the address of a new one, unless it says
that nothing follows. -/
def note (route : Identity → Option PipeId) (accepts : PipeId → Bool) (part : Part) (b : Mailbag) :
    Mailbag :=
  match b.current with
  | none =>
    if part.hasMore then
      let route := route ⟨part.data⟩
      { b with current := some ⟨part, route, route.any accepts, [], false, false⟩ }
    else b
  | some l =>
    let l := l.add part (l.route.any accepts)
    if part.hasMore then { b with current := some l } else ⟨b.done ++ [l], none⟩

/-- A pipe is given up. -/
def leave (p : PipeId) (b : Mailbag) : Mailbag := { b with current := b.current.map (·.leave p) }

/-- The current message is taken back. -/
def withdraw (b : Mailbag) : Mailbag :=
  match b.current with
  | none => b
  | some l => ⟨b.done ++ [{ l with withdrawn := true }], none⟩

theorem note_some (hc : b.current = some l) : b.note route accepts part =
    if part.hasMore then { b with current := some (l.add part (l.route.any accepts)) }
    else ⟨b.done ++ [l.add part (l.route.any accepts)], none⟩ := by
  simp only [note, hc]

theorem payloads_concat (done : List Letter) (l : Letter) (c c' : Option Letter) (p : PipeId) :
    payloads ⟨done ++ [l], c⟩ p = payloads ⟨done, c'⟩ p ++ l.share p := by
  simp only [payloads, List.flatMap_append, List.flatMap_singleton]

theorem payloads_note_none (hc : b.current = none) :
    (b.note route accepts part).payloads p = b.payloads p := by
  simp only [note, hc]
  split <;> rfl

theorem payloads_note_some (hc : b.current = some l) (route : Identity → Option PipeId)
    (accepts : PipeId → Bool) (part : Part) (p : PipeId) :
    (b.note route accepts part).payloads p = b.payloads p ++
      if part.hasMore then [] else (l.add part (l.route.any accepts)).share p := by
  rw [note_some hc]
  split
  · exact (List.append_nil _).symm
  · exact payloads_concat _ _ _ b.current p

theorem payloads_withdraw (b : Mailbag) (p : PipeId) : b.withdraw.payloads p = b.payloads p := by
  rw [withdraw]
  split
  · rfl
  · next l hc =>
    have hs : { l with withdrawn := true }.share p = [] := by
      simp [Letter.share, Letter.destination, Letter.sound]
    rw [payloads_concat _ _ _ b.current, hs, List.append_nil]

/-- Every message that was not taken back is whole. -/
structure Proper (b : Mailbag) : Prop where
  done : ∀ l ∈ b.done, l.withdrawn = false → IsMessage l.payload
  current : ∀ l, b.current = some l → l.withdrawn = false ∧ ∀ x ∈ l.payload, x.hasMore = true

theorem proper_empty : empty.Proper := ⟨nofun, nofun⟩

theorem Proper.note (h : b.Proper) (route : Identity → Option PipeId) (accepts : PipeId → Bool)
    (part : Part) : (b.note route accepts part).Proper := by
  cases hc : b.current with
  | none =>
    simp only [Mailbag.note, hc]
    split
    · exact ⟨h.done, fun l hl => by cases hl; exact ⟨rfl, nofun⟩⟩
    · exact h
  | some l =>
    obtain ⟨hw, hmore⟩ := h.current l hc
    rw [note_some hc]
    split
    · next hm =>
      refine ⟨h.done, ?_⟩
      intro l' hl'
      cases hl'
      refine ⟨hw, ?_⟩
      intro x hx
      rw [Letter.payload_add] at hx
      rcases List.mem_append.1 hx with hx | hx
      · exact hmore x hx
      · rw [List.mem_singleton.1 hx]
        exact hm
    · next hm =>
      refine ⟨?_, nofun⟩
      intro l' hl' hw'
      rcases List.mem_append.1 hl' with hl' | hl'
      · exact h.done l' hl' hw'
      · rw [List.mem_singleton.1 hl', Letter.payload_add]
        exact ⟨l.payload, part, rfl, hmore, eq_false_of_ne_true hm⟩

theorem Proper.leave (h : b.Proper) (p : PipeId) : (b.leave p).Proper := by
  refine ⟨h.done, ?_⟩
  intro l hl
  obtain ⟨k, hk, rfl⟩ := Option.map_eq_some_iff.1 hl
  exact h.current k hk

theorem Proper.withdraw (h : b.Proper) : b.withdraw.Proper := by
  rw [Mailbag.withdraw]
  split
  · exact h
  · refine ⟨?_, nofun⟩
    intro l hl hw
    rcases List.mem_append.1 hl with hl | hl
    · exact h.done l hl hw
    · rw [List.mem_singleton.1 hl] at hw
      cases hw

end Mailbag

namespace Dispatch

theorem clear_of_none {v : Dispatch} (ht : v.target = none) : v.clear = v := by
  rw [clear, ht]

/-- A part goes on with a message, which the given letter is then: it is dropped, or the target takes
it, and publishes all that is staged with the last part. -/
inductive Carries (v : Dispatch) (l : Letter) (part : Part) : Dispatch → Prop where
  | dropped (hd : l.destination = none) : Carries v l part { v.clear with moreOut := part.hasMore }
  | staged {t : PipeId} {o : Outlet} (ht : v.target = some t) (ho : v.outlet t = some o)
      (hd : l.destination = some t) (hm : part.hasMore = true) :
      Carries v l part
        { v with
          moreOut := part.hasMore
          outlet := update v.outlet t (some (o.stage part)) }
  | published {t : PipeId} {o : Outlet} (ht : v.target = some t) (ho : v.outlet t = some o)
      (hd : l.destination = some t) (hm : part.hasMore = false) :
      Carries v l part
        { moreOut := part.hasMore
          outlet := update v.outlet t (some (o.stage part).publish)
          target := none }

/-- Sending is as far as the current message, and only its destination has anything staged. -/
structure Aimed (v : Dispatch) (b : Mailbag) : Prop where
  inside : v.moreOut = b.current.isSome
  target : v.target = b.bound
  attached : ∀ p, v.target = some p → ∃ o, v.outlet p = some o
  staged : ∀ p o, v.outlet p = some o → o.staged = if v.target = some p then b.begun else []

namespace Aimed

variable {v : Dispatch} {b : Mailbag} {l : Letter} {p : PipeId} {o : Outlet} {part : Part}
  {route : Identity → Option PipeId} {accepts : PipeId → Bool}

theorem staged_of_none (h : v.Aimed b) (ht : v.target = none) (ho : v.outlet p = some o) :
    o.staged = [] := by
  rw [h.staged p o ho, ht, if_neg nofun]

theorem target_ne (h : v.Aimed b) (hp : v.outlet p = none) : v.target ≠ some p := by
  intro ht
  obtain ⟨o, ho⟩ := h.attached p ht
  rw [hp] at ho
  cases ho

theorem replace (h : v.Aimed b) (ho : o.staged = if v.target = some p then b.begun else []) :
    Aimed { v with outlet := update v.outlet p (some o) } b where
  inside := h.inside
  target := h.target
  attached q hq := by
    by_cases hqp : q = p
    · exact ⟨o, by rw [hqp]; exact Function.update_self ..⟩
    · obtain ⟨o', ho'⟩ := h.attached q hq
      exact ⟨o', (Function.update_of_ne hqp ..).trans ho'⟩
  staged q o' ho' := by
    change update v.outlet p (some o) q = some o' at ho'
    by_cases hqp : q = p
    · subst hqp
      rw [Function.update_self] at ho'
      cases ho'
      exact ho
    · rw [Function.update_of_ne hqp] at ho'
      exact h.staged q o' ho'

theorem arrive (h : v.Aimed b) (hp : v.outlet p = none) (ho : o.staged = []) :
    Aimed { v with outlet := update v.outlet p (some o) } b := by
  apply h.replace
  rw [if_neg (h.target_ne hp)]
  exact ho

theorem heed (h : v.Aimed b) (hp : v.outlet p = some o) (m : FarMove) :
    Aimed { v with outlet := update v.outlet p (some (o.heed m)) } b := by
  apply h.replace
  rw [Outlet.staged_heed]
  exact h.staged p o hp

theorem depart (h : v.Aimed b) (p : PipeId) : (v.depart p).Aimed (b.leave p) where
  inside := by
    rw [Dispatch.depart, Mailbag.leave, Option.isSome_map]
    exact h.inside
  target := by
    have hb : (b.leave p).bound = if b.bound = some p then none else b.bound := by
      rw [Mailbag.leave, Mailbag.bound, Mailbag.bound]
      cases b.current with
      | none => rfl
      | some l => exact l.destination_leave p
    rw [Dispatch.depart, hb, ← h.target]
  attached q hq := by
    have hqp : q ≠ p := by
      rintro rfl
      rw [Dispatch.depart] at hq
      split at hq
      · cases hq
      · next hne => exact hne hq
    rw [Dispatch.depart] at hq ⊢
    split at hq
    · cases hq
    · obtain ⟨o, ho⟩ := h.attached q hq
      exact ⟨o, by rw [← ho]; exact Function.update_of_ne hqp ..⟩
  staged q o ho := by
    have hb : (b.leave p).begun = b.begun := by
      rw [Mailbag.leave, Mailbag.begun, Mailbag.begun]
      cases b.current <;> rfl
    change update v.outlet p none q = some o at ho
    by_cases hqp : q = p
    · rw [hqp, Function.update_self] at ho
      cases ho
    · rw [Function.update_of_ne hqp] at ho
      rw [h.staged q o ho, hb, Dispatch.depart]
      by_cases ht : v.target = some p
      · simp [ht, Ne.symm hqp]
      · simp [ht]

theorem clear (h : v.Aimed b) : v.clear.target = none ∧
    ∀ p o, v.clear.outlet p = some o → o.staged = [] := by
  rw [Dispatch.clear]
  cases ht : v.target with
  | none => exact ⟨ht, fun p o ho => h.staged_of_none ht ho⟩
  | some t =>
    refine ⟨rfl, ?_⟩
    intro p o ho
    simp only at ho
    by_cases hp : p = t
    · rw [hp, Function.update_self] at ho
      obtain ⟨o', -, rfl⟩ := Option.map_eq_some_iff.1 ho
      rfl
    · rw [Function.update_of_ne hp] at ho
      rw [h.staged p o ho, ht, if_neg fun he => hp (Option.some.inj he).symm]

/-- Nothing is staged and nothing is aimed at: the next message can begin, or the rest of the
current one is dropped. -/
theorem of_clear {v : Dispatch} (hi : v.moreOut = b.current.isSome) (hb : b.bound = none)
    (ht : v.target = none) (hs : ∀ p o, v.outlet p = some o → o.staged = []) : v.Aimed b where
  inside := hi
  target := ht.trans hb.symm
  attached p hp := by rw [ht] at hp; cases hp
  staged p o ho := by
    rw [ht, if_neg nofun]
    exact hs p o ho

theorem of_target {t : PipeId} (hi : v.moreOut = b.current.isSome) (hb : b.bound = some t)
    (ht : v.target = some t) (ho : v.outlet t = some o) (hs : o.staged = b.begun)
    (hother : ∀ q o', q ≠ t → v.outlet q = some o' → o'.staged = []) : v.Aimed b where
  inside := hi
  target := ht.trans hb.symm
  attached p hp := by
    cases ht.symm.trans hp
    exact ⟨o, ho⟩
  staged p o' ho' := by
    rw [ht]
    by_cases hp : p = t
    · subst hp
      cases ho.symm.trans ho'
      rw [if_pos rfl, hs]
    · rw [if_neg fun he => hp (Option.some.inj he).symm]
      exact hother p o' hp ho'

theorem rollback (h : v.Aimed b) : Aimed { v.clear with moreOut := false } b.withdraw := by
  have hc : b.withdraw.current = none := by
    rw [Mailbag.withdraw]
    split
    · next hc => exact hc
    · rfl
  exact of_clear (by rw [hc]; rfl) (by rw [Mailbag.bound, hc]; rfl) h.clear.1 h.clear.2

theorem address (h : v.Aimed b) (hc : b.current = none)
    (ha : ∀ p, accepts p = (v.outlet p).any Outlet.accepts) :
    Aimed (if part.hasMore then
      { v with
        moreOut := true
        target := if (route ⟨part.data⟩).any accepts then route ⟨part.data⟩ else v.target }
      else v) (b.note route accepts part) := by
  have ht : v.target = none := by rw [h.target, Mailbag.bound, hc]; rfl
  simp only [Mailbag.note, hc]
  split
  · refine ⟨rfl, ?_, ?_, ?_⟩
    · simp [Mailbag.bound, Letter.destination, Letter.sound, ht]
    · intro p hp
      simp only [ht] at hp
      split at hp
      · next hany =>
        rw [hp, Option.any_some, ha] at hany
        cases ho : v.outlet p with
        | none => rw [ho] at hany; cases hany
        | some o => exact ⟨o, rfl⟩
      · cases hp
    · intro p o ho
      rw [h.staged_of_none ht ho]
      exact (ite_self []).symm
  · exact h

theorem carries (h : v.Aimed b) (hc : b.current = some l)
    (ha : ∀ p, accepts p = (v.outlet p).any Outlet.accepts) (part : Part) :
    v.Carries (l.add part (l.route.any accepts)) part (v.carry part) := by
  have hbound : v.target = l.destination := by rw [h.target, Mailbag.bound, hc]; rfl
  have hd := Letter.destination_add l part (l.route.any accepts)
  rw [← hbound] at hd
  rw [Dispatch.carry]
  cases ht : v.target with
  | none =>
    have hnone : (l.add part (l.route.any accepts)).destination = none := by
      rw [hd, ht]
      exact ite_self none
    have hdropped : v.Carries (l.add part (l.route.any accepts)) part _ := .dropped hnone
    simp only [clear_of_none ht, ht] at hdropped
    exact hdropped
  | some t =>
    obtain ⟨o, ho⟩ := h.attached t ht
    have htaken : l.route.any accepts = o.accepts := by
      rw [Letter.route_of_destination (hbound.symm.trans ht), Option.any_some, ha, ho]
      rfl
    rw [htaken] at hd ⊢
    simp only [ho]
    cases hacc : o.accepts with
    | false =>
      rw [hacc] at hd
      exact .dropped hd
    | true =>
      rw [hacc, if_pos rfl, ht] at hd
      simp only [if_true]
      split
      · next hm =>
        have hstaged := Carries.staged ht ho hd hm
        rwa [ht] at hstaged
      · next hm => exact .published ht ho hd (eq_false_of_ne_true hm)

theorem carry (h : v.Aimed b) (hc : b.current = some l)
    (ha : ∀ p, accepts p = (v.outlet p).any Outlet.accepts) (route : Identity → Option PipeId)
    (part : Part) :
    (v.carry part).Aimed (b.note route accepts part) := by
  have hinside : part.hasMore = (b.note route accepts part).current.isSome := by
    rw [Mailbag.note_some hc]
    cases part.hasMore <;> rfl
  have hbound : (b.note route accepts part).bound =
      if part.hasMore then (l.add part (l.route.any accepts)).destination else none := by
    rw [Mailbag.note_some hc]
    cases part.hasMore <;> rfl
  have hother {t q : PipeId} {o' : Outlet} (ht : v.target = some t) (hq : q ≠ t)
      (ho' : v.outlet q = some o') : o'.staged = [] := by
    rw [h.staged q o' ho', ht, if_neg fun he => hq (Option.some.inj he).symm]
  have hcarries := h.carries hc ha part
  generalize v.carry part = v' at hcarries ⊢
  cases hcarries with
  | dropped hd =>
    rw [hd, ite_self] at hbound
    exact of_clear hinside hbound h.clear.1 h.clear.2
  | @staged t o ht ho hd hm =>
    have hbegun : (b.note route accepts part).begun = l.payload ++ [part] := by
      rw [Mailbag.note_some hc, if_pos hm, Mailbag.begun]
      exact Letter.payload_add
    rw [hm, if_pos rfl, hd] at hbound
    refine of_target hinside hbound ht (Function.update_self ..) ?_ ?_
    · rw [hbegun, Outlet.stage, h.staged t o ho, if_pos ht, Mailbag.begun, hc]
      rfl
    · intro q o' hq ho'
      exact hother ht hq ((Function.update_of_ne hq ..).symm.trans ho')
  | @published t o ht ho hd hm =>
    rw [hm, if_neg nofun] at hbound
    refine of_clear hinside hbound rfl ?_
    intro q o' ho'
    change update v.outlet t _ q = some o' at ho'
    by_cases hq : q = t
    · rw [hq, Function.update_self] at ho'
      cases ho'
      rfl
    · rw [Function.update_of_ne hq] at ho'
      exact hother ht hq ho'

end Aimed

end Dispatch

end Zmtp
