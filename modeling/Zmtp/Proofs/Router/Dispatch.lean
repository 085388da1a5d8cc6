import Zmtp.Proofs.Router.Aside

namespace Zmtp

open Function (update)

/-- What sending through a link depends on, and what its far end sees. -/
structure Outlet where
  pipe : PipeId
  highWater : Nat
  staged : List Part
  /-- What the far end can read, oldest first. -/
  unread : List Part
  /-- The far end is there. -/
  live : Bool

namespace Outlet

def accepts (o : Outlet) : Bool :=
  o.live && (o.highWater == 0 || decide (o.unread.length + o.staged.length < o.highWater))

def stage (o : Outlet) (part : Part) : Outlet := { o with staged := o.staged ++ [part] }

def publish (o : Outlet) : Outlet := { o with staged := [], unread := o.unread ++ o.staged }

def clear (o : Outlet) : Outlet := { o with staged := [] }

/-- What a move of the far end does. -/
def far (o : Outlet) : FarMove → Outlet
  | .read => { o with unread := o.unread.tail }
  | .drop => { o with unread := [], live := false }
  | .write _ | .rollback | .flush => o

/-- An end that was given up does nothing any more. -/
def heed (o : Outlet) (m : FarMove) : Outlet := if o.live then o.far m else o

theorem pipe_heed (o : Outlet) (m : FarMove) : (o.heed m).pipe = o.pipe := by
  rw [heed]
  cases m <;> split <;> rfl

theorem staged_heed (o : Outlet) (m : FarMove) : (o.heed m).staged = o.staged := by
  rw [heed]
  cases m <;> split <;> rfl

end Outlet

def Link.outlet (l : Link) : Outlet where
  pipe := l.left.id
  highWater := l.highWater
  staged := l.left.staged
  unread := l.right.inbox
  live := l.right.live

namespace Link

variable {l l' : Link} {part : Part}

theorem canWrite_left (l : Link) : l.canWrite .left = l.outlet.accepts := by
  rw [canWrite, peerGone, Bool.not_not]
  rfl

@[simp] theorem outlet_setIdentity (l : Link) (i : Identity) :
    (l.setIdentity .left i).outlet = l.outlet := rfl

@[simp] theorem outlet_read_left (l : Link) : (l.read .left).2.outlet = l.outlet := by
  rw [read]
  split <;> rfl

theorem outlet_rollback_left (l : Link) : (l.rollback .left).outlet = l.outlet.clear := rfl

theorem outlet_write?_left (h : l.write? .left part = some l') :
    l.outlet.accepts = true ∧ l'.outlet = l.outlet.stage part := by
  rw [write?, canWrite_left] at h
  split at h
  · next ha =>
    cases h
    exact ⟨ha, rfl⟩
  · cases h

theorem not_accepts_of_write? (h : l.write? .left part = none) : l.outlet.accepts = false := by
  rw [write?, canWrite_left] at h
  split at h
  · cases h
  · next ha => exact eq_false_of_ne_true ha

theorem outlet_flush_left (h : l.outlet.live = true) :
    (l.flush .left).outlet = l.outlet.publish := by
  have hgone : (l.rollback .left).peerGone .left = false := by
    change (!l.right.live) = false
    rw [show l.right.live = true from h]
    rfl
  simp only [flush, hgone]
  rfl

theorem outlet_act (l : Link) (m : FarMove) : (l.act m).outlet = l.outlet.far m := by
  cases m with
  | write part =>
    rw [act, write?]
    split <;> rfl
  | rollback => rfl
  | flush =>
    rw [act, flush]
    split <;> rfl
  | read =>
    simp only [act, read, Outlet.far]
    split
    · next h =>
      change l.right.inbox = [] at h
      simp only [outlet, h, List.tail_nil]
    · next h =>
      change l.right.inbox = _ at h
      simp only [outlet, h, List.tail_cons]
      rfl
  | drop => rfl

theorem outlet_far (l : Link) (m : FarMove) : (l.far m).outlet = l.outlet.heed m := by
  rw [far, Outlet.heed]
  change _ = if l.right.live = true then _ else _
  split
  · exact l.outlet_act m
  · rfl

end Link

/-- What sending depends on. -/
@[ext] structure Dispatch where
  outlet : PipeId → Option Outlet
  target : Option PipeId
  moreOut : Bool

namespace Dispatch

/-- What is staged for the target is taken back, and the target is given up. -/
def clear (v : Dispatch) : Dispatch :=
  match v.target with
  | none => v
  | some t => { v with outlet := update v.outlet t ((v.outlet t).map Outlet.clear), target := none }

/-- One more part of a message. -/
def carry (v : Dispatch) (part : Part) : Dispatch :=
  match v.target with
  | none => { v with moreOut := part.hasMore }
  | some t =>
    match v.outlet t with
    | none => { v with moreOut := part.hasMore, target := none }
    | some o =>
      if o.accepts then
        if part.hasMore then
          { v with moreOut := part.hasMore, outlet := update v.outlet t (some (o.stage part)) }
        else
          { moreOut := part.hasMore
            outlet := update v.outlet t (some (o.stage part).publish)
            target := none }
      else { v.clear with moreOut := part.hasMore }

/-- A pipe is given up. -/
def depart (v : Dispatch) (p : PipeId) : Dispatch where
  outlet := update v.outlet p none
  target := if v.target = some p then none else v.target
  moreOut := v.moreOut

end Dispatch

namespace Router

variable {r : Router} {p : PipeId}

def dispatch (r : Router) : Dispatch where
  outlet := fun p => (r.link? p).map Link.outlet
  target := r.target
  moreOut := r.moreOut

theorem dispatch_modifyLink (r : Router) (p : PipeId) (f : Link → Link) :
    (r.modifyLink p f).dispatch =
      { r.dispatch with
        outlet := update r.dispatch.outlet p ((r.link? p).map fun l => (f l).outlet) } :=
  Dispatch.ext (view_modifyLink Link.outlet r p f) rfl rfl

theorem canWrite_eq (r : Router) (p : PipeId) :
    r.canWrite p = (r.dispatch.outlet p).any Outlet.accepts := by
  change _ = ((r.link? p).map Link.outlet).any Outlet.accepts
  rw [canWrite]
  cases r.link? p with
  | none => rfl
  | some l => exact l.canWrite_left

theorem aside_outlet : Aside (view Link.outlet) :=
  aside_view Link.outlet_setIdentity Link.outlet_read_left

theorem aside_dispatch : Aside dispatch where
  frame hp ht hm := Dispatch.ext (aside_outlet.frame hp ht hm) ht hm
  setIdentity r p i := Dispatch.ext (aside_outlet.setIdentity r p i) rfl rfl
  read hl := Dispatch.ext (aside_outlet.read hl) rfl rfl

theorem dispatch_attach (r : Router) (l : Link) :
    (r.attach l).dispatch =
      { r.dispatch with outlet := update r.dispatch.outlet l.left.id (some l.outlet) } := by
  rw [aside_dispatch.attach]
  refine Dispatch.ext ?_ rfl rfl
  exact (aside_outlet.attach r l).symm.trans (view_attach aside_outlet r l)

theorem fst_detach (r : Router) (p : PipeId) : (r.detach p).1 = r.link? p :=
  congrArg (·.get? p) (r.pipes_forget p)

theorem dispatch_detach (r : Router) (p : PipeId) :
    (r.detach p).2.dispatch = r.dispatch.depart p := by
  have hframe : ((r.forget p).abandonInput p).target = r.target ∧
      ((r.forget p).abandonInput p).moreOut = r.moreOut := by
    rw [forget, abandonInput]
    split <;> split <;> exact ⟨rfl, rfl⟩
  refine Dispatch.ext (view_detach Link.outlet r p) ?_ hframe.2
  change (if ((r.forget p).abandonInput p).target = some p then none
    else ((r.forget p).abandonInput p).target) = _
  rw [hframe.1]
  rfl

theorem dispatch_rollback (r : Router) :
    r.rollback.dispatch = { r.dispatch.clear with moreOut := false } := by
  rw [rollback, Dispatch.clear]
  cases ht : r.target with
  | none =>
    have ht' : r.dispatch.target = none := ht
    simp only [ht']
    exact Dispatch.ext rfl rfl rfl
  | some t =>
    have ht' : r.dispatch.target = some t := ht
    have hm := dispatch_modifyLink r t (·.rollback .left)
    simp only [ht']
    refine Dispatch.ext ((congrArg Dispatch.outlet hm).trans ?_) rfl rfl
    simp only [dispatch, Option.map_map, Function.comp_def, Link.outlet_rollback_left]

/-- What sending a part does once the message has begun. -/
theorem dispatch_sendPart (r : Router) (part : Part) :
    (r.sendPart part).dispatch = r.dispatch.carry part := by
  rw [sendPart, Dispatch.carry]
  cases ht : r.target with
  | none =>
    simp only [show r.dispatch.target = none from ht]
    exact Dispatch.ext rfl rfl rfl
  | some t =>
    simp only [show r.dispatch.target = some t from ht]
    cases hl : r.link? t with
    | none =>
      have ho : r.dispatch.outlet t = none := congrArg (Option.map Link.outlet) hl
      simp only [link?] at hl
      simp only [ho, link?, hl]
      rfl
    | some l =>
      have ho : r.dispatch.outlet t = some l.outlet := congrArg (Option.map Link.outlet) hl
      have hmod (f : Link → Link) := congrArg Dispatch.outlet (dispatch_modifyLink r t f)
      simp only [hl, Option.map_some] at hmod
      simp only [link?] at hl
      simp only [ho, link?, hl]
      cases hw : l.write? .left part with
      | none =>
        have ht' : r.dispatch.target = some t := ht
        simp only [Link.not_accepts_of_write? hw, Bool.false_eq_true, if_false, Dispatch.clear, ht']
        refine Dispatch.ext ((hmod _).trans ?_) rfl rfl
        rw [ho]
        rfl
      | some l' =>
        obtain ⟨ha, he⟩ := Link.outlet_write?_left hw
        simp only [ha, if_true]
        split
        · refine Dispatch.ext ((hmod _).trans ?_) rfl rfl
          rw [he]
        · have hlive : l'.outlet.live = true := by
            rw [he]
            exact (Bool.and_eq_true_iff.1 ha).1
          refine Dispatch.ext ((hmod _).trans ?_) rfl rfl
          rw [Link.outlet_flush_left hlive, he]

/-- Whom the first part of a message names. -/
def addressee? (r : Router) (i : Identity) : Option PipeId := (r.table.route? i).map Route.pipe

theorem dispatch_address {part : Part} {r' : Router} (h : r.address part = .ok r') :
    r'.dispatch = if part.hasMore then
      { r.dispatch with
        moreOut := true
        target := if (r.addressee? ⟨part.data⟩).any r.canWrite then r.addressee? ⟨part.data⟩
          else r.target }
      else r.dispatch := by
  rw [address] at h
  split at h
  · next hm =>
    rw [if_pos hm, addressee?]
    split at h
    · next route hr =>
      rw [hr]
      split at h
      · next hw =>
        cases h
        simp only [Option.map_some, Option.any_some, hw, if_true]
        rfl
      · next hw =>
        cases h
        simp only [Option.map_some, Option.any_some, hw]
        rfl
    · next hr =>
      rw [hr]
      split at h
      · cases h
      · cases h
        rfl
  · next hm =>
    cases h
    rw [if_neg hm]

end Router

end Zmtp
