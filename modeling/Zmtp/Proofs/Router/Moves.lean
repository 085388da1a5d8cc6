import Zmtp.Proofs.Router.Intake

namespace Zmtp

open Function (update)

/-- What the far end of a link can do. -/
inductive FarMove where
  | write (part : Part)
  | rollback
  | flush
  | read
  | drop

def Link.act (l : Link) : FarMove → Link
  | .write part => (l.write? .right part).getD l
  | .rollback => l.rollback .right
  | .flush => l.flush .right
  | .read => (l.read .right).2
  | .drop => l.drop .right

/-- An end that was given up does nothing any more. -/
def Link.far (l : Link) (m : FarMove) : Link := if l.right.live then l.act m else l

/-- What can happen to a router and at the far ends of its links. -/
inductive RouterMove where
  | attach (l : Link)
  | detach (p : PipeId)
  | readable (p : PipeId)
  | writable (p : PipeId)
  | send (part : Part)
  | rollback
  | mandate (on : Bool)
  | ask
  | receive
  | far (p : PipeId) (m : FarMove)

namespace Router

def play (r : Router) : RouterMove → Router
  | .attach l => r.attach l
  | .detach p => (r.detach p).2
  | .readable p => r.onReadable p
  | .writable p => r.onWritable p
  | .send part => (r.send part).toOption.getD r
  | .rollback => r.rollback
  | .mandate on => { r with mandatory := on }
  | .ask => r.hasInput.2
  | .receive => r.receive.2
  | .far p m => r.modifyLink p (·.far m)

variable {r : Router} {p : PipeId}

theorem intake_modifyLink (r : Router) (p : PipeId) (f : Link → Link) :
    (r.modifyLink p f).intake =
      { r.intake with
        front := update r.intake.front p ((r.link? p).map fun l => (f l).front) } := by
  refine Intake.ext ?_ rfl rfl rfl rfl rfl rfl rfl rfl
  funext p'
  simp only [intake, modifyLink, link?, Assoc.get?_modify, update]
  split
  · next h => subst h; simp [Function.comp_def]
  · rfl

theorem intake_modifyLink_of_front {f : Link → Link}
    (h : ∀ l, r.link? p = some l → (f l).front = l.front) :
    (r.modifyLink p f).intake = r.intake := by
  have he : ((r.link? p).map fun l => (f l).front) = (r.link? p).map Link.front :=
    Option.map_congr h
  rw [intake_modifyLink, he]
  exact Intake.ext (Function.update_eq_self p _) rfl rfl rfl rfl rfl rfl rfl rfl

theorem owner_setActive (t : PeerTable) (i j : Identity) (a : Bool) :
    ((t.setActive i a).route? j).map Route.pipe = (t.route? j).map Route.pipe := by
  simp only [PeerTable.setActive, PeerTable.route?, Assoc.get?_modify]
  split
  · rw [Option.map_map]
    rfl
  · rfl

theorem intake_setActive (r : Router) (i : Identity) (a : Bool) :
    { r with table := r.table.setActive i a }.intake = r.intake :=
  Intake.ext rfl rfl rfl (funext fun j => owner_setActive r.table i j a) rfl rfl rfl rfl rfl

theorem intake_onWritable (r : Router) (p : PipeId) : (r.onWritable p).intake = r.intake := by
  unfold onWritable PeerTable.activate?
  split
  · rfl
  · split
    · exact intake_setActive r _ true
    · rfl

theorem intake_address {part : Part} {r' : Router} (h : r.address part = .ok r') :
    r'.intake = r.intake := by
  unfold address at h
  split at h
  · split at h
    · split at h
      · cases h; rfl
      · cases h; exact intake_setActive r _ false
    · split at h
      · cases h
      · cases h; rfl
  · cases h; rfl

theorem intake_sendPart (r : Router) (part : Part) : (r.sendPart part).intake = r.intake := by
  unfold sendPart
  simp only
  split
  · rfl
  · next t _ =>
    split
    · rfl
    · next l hl =>
      have hl' : r.link? t = some l := hl
      split
      · exact intake_modifyLink_of_front (r := r) fun l _ => l.front_rollback .left
      · next l' hw =>
        have hf := Link.front_write? hw
        split
        · apply intake_modifyLink_of_front (r := r)
          intro k hk
          rw [hf, Option.some.inj (hl'.symm.trans hk)]
        · apply intake_modifyLink_of_front (r := r)
          intro k hk
          rw [Link.front_flush_left, hf, Option.some.inj (hl'.symm.trans hk)]

theorem intake_send (r : Router) (part : Part) :
    ((r.send part).toOption.getD r).intake = r.intake := by
  unfold send
  split
  · exact intake_sendPart r part
  · cases h : r.address part with
    | error => rfl
    | ok r' => exact intake_address h

theorem intake_rollback (r : Router) : r.rollback.intake = r.intake := by
  unfold rollback
  split
  · rfl
  · exact intake_modifyLink_of_front fun l _ => l.front_rollback .left

end Router

/-- What a move of the far end lets the near end read. -/
def Link.publishes (l : Link) : FarMove → List Part
  | .flush => if l.right.live = true ∧ l.left.live = true then l.right.staged else []
  | _ => []

theorem Link.front_act {l : Link} (hr : l.right.live = true) (m : FarMove) :
    (l.act m).front = { l.front with inbox := l.front.inbox ++ l.publishes m } := by
  have hsame (hn : l.publishes m = []) (hf : (l.act m).front = l.front) :
      (l.act m).front = { l.front with inbox := l.front.inbox ++ l.publishes m } := by
    rw [hn, List.append_nil, hf]
  cases m with
  | write part =>
    apply hsame rfl
    rw [act]
    cases hw : l.write? .right part with
    | none => rfl
    | some l' => exact front_write? hw
  | rollback => exact hsame rfl rfl
  | flush =>
    simp only [act, flush, peerGone, publishes, hr, true_and, Side.other]
    cases hl : l.left.live with
    | true => simp [rollback, update, get, hl, front]
    | false => simp [rollback, update, get, hl, front]
  | read =>
    apply hsame rfl
    simp only [act, read]
    split <;> rfl
  | drop => exact hsame rfl rfl

theorem Link.front_far (l : Link) (m : FarMove) :
    (l.far m).front = { l.front with inbox := l.front.inbox ++ l.publishes m } := by
  rw [far]
  split
  · next hr => exact front_act hr m
  · next hr =>
    have hn : l.publishes m = [] := by
      cases m <;> simp [publishes, hr]
    rw [hn, List.append_nil]

namespace Intake

def forget (v : Intake) (p : PipeId) : Intake :=
  if (v.anonymous p).isSome then { v with anonymous := update v.anonymous p none }
  else
    { v with
      name := update v.name p none
      owner := fun i => if v.name p = some i then none else v.owner i
      queue := v.queue.remove p }

/-- The message that a pipe was delivering is given up. -/
def abandon (v : Intake) (p : PipeId) : Intake :=
  if v.source = some p then
    { v with source := none, moreIn := false, prefetchedName := none, prefetchedPart := none }
  else v

/-- A pipe is given up. -/
def depart (v : Intake) (p : PipeId) : Intake :=
  { (v.forget p).abandon p with front := update v.front p none }

end Intake

namespace Router

variable {r : Router} {p : PipeId}

theorem intake_forget (r : Router) (p : PipeId) : (r.forget p).intake = r.intake.forget p := by
  rw [forget, Intake.forget]
  by_cases ha : (r.intake.anonymous p).isSome = true
  · rw [if_pos ha, if_pos (show r.isAnonymous p = true from ha)]
    refine Intake.ext rfl (funext ?_) rfl rfl rfl rfl rfl rfl rfl
    intro p'
    simp only [intake, Assoc.get?_erase, update, eq_rec_constant, dite_eq_ite]
  · rw [if_neg ha, if_neg (show ¬ r.isAnonymous p = true from ha)]
    cases hi : r.table.identity? p with
    | none =>
      have hn : r.intake.name p = none := hi
      simp only [PeerTable.erasePipe, hi, hn]
      refine Intake.ext rfl rfl (Function.update_eq_self_iff.2 hn.symm).symm ?_ rfl rfl rfl rfl rfl
      funext i
      change r.intake.owner i = if none = some i then none else r.intake.owner i
      simp
    | some i =>
      have hn : r.intake.name p = some i := hi
      simp only [PeerTable.erasePipe, hi, hn]
      refine Intake.ext rfl rfl ?_ ?_ rfl rfl rfl rfl rfl
      · funext p'
        simp only [intake, identity?, PeerTable.identity?, Assoc.get?_erase, update,
          eq_rec_constant, dite_eq_ite]
      · funext j
        simp only [Option.some.injEq]
        simp only [intake, PeerTable.route?, Assoc.get?_erase, eq_comm (a := j)]
        split <;> rfl

theorem intake_abandonInput (r : Router) (p : PipeId) :
    (r.abandonInput p).intake = r.intake.abandon p := by
  rw [abandonInput, Intake.abandon]
  by_cases h : r.source = some p
  · rw [if_pos h, if_pos (show r.intake.source = some p from h)]
    rfl
  · rw [if_neg h, if_neg (show ¬ r.intake.source = some p from h)]

theorem front_abandonInput (r : Router) (p : PipeId) :
    ((r.forget p).abandonInput p).intake.front = r.intake.front := by
  rw [intake_abandonInput, intake_forget, Intake.abandon, Intake.forget]
  split <;> split <;> rfl

theorem intake_far (r : Router) (p : PipeId) (m : FarMove) :
    (r.play (.far p m)).intake =
      { r.intake with
        front := update r.intake.front p ((r.link? p).map fun l =>
          { l.front with inbox := l.front.inbox ++ l.publishes m }) } := by
  rw [play, intake_modifyLink]
  simp only [Link.front_far]

theorem intake_detach (r : Router) (p : PipeId) : (r.detach p).2.intake = r.intake.depart p := by
  have hv := intake_abandonInput (r.forget p) p
  rw [intake_forget] at hv
  have hf := front_abandonInput r p
  rw [Intake.depart, ← hv, ← hf]
  refine Intake.ext (funext ?_) rfl rfl rfl rfl rfl rfl rfl rfl
  intro p'
  simp only [detach, intake, link?, Assoc.get?_erase, update, eq_rec_constant, dite_eq_ite]
  split <;> rfl

end Router

end Zmtp
