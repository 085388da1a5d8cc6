import Zmtp.Proofs.Router.Moves

namespace Zmtp

open Function (update)

namespace Router

variable {β γ : Type} {r r' : Router} {p : PipeId} {g : Router → γ}

/-- A view of a router that does not change when parts are taken from its links. -/
structure Aside (g : Router → γ) : Prop where
  frame : ∀ {r r' : Router}, r'.pipes = r.pipes → r'.target = r.target → r'.moreOut = r.moreOut →
    g r' = g r
  setIdentity : ∀ (r : Router) (p : PipeId) (i : Identity),
    g (r.modifyLink p (·.setIdentity .left i)) = g r
  read : ∀ {r : Router} {p : PipeId} {l : Link}, r.link? p = some l →
    g (r.modifyLink p fun _ => (l.read .left).2) = g r

theorem Aside.register (h : Aside g) (r : Router) (p : PipeId) (i : Identity) :
    g (r.register p i) = g r := by
  rw [← h.setIdentity r p i]
  exact h.frame rfl rfl rfl

theorem Aside.identifyAs (h : Aside g) (r : Router) (p : PipeId) (i : Identity) :
    g (r.identifyAs p i).2 = g r := by
  rw [Router.identifyAs]
  split
  · split
    · rfl
    · exact (h.register ..).trans (h.frame rfl rfl rfl)
  · split
    · rfl
    · exact h.register ..

theorem Aside.identify (h : Aside g) (r : Router) (p : PipeId) : g (r.identify p).2 = g r := by
  rw [Router.identify]
  split
  · rfl
  · next l hl =>
    split
    · rfl
    · next part l' hr =>
      have hread := h.read hl
      rw [hr] at hread
      exact (h.identifyAs ..).trans hread

theorem Aside.attach (h : Aside g) (r : Router) (l : Link) :
    g (r.attach l) = g { r with pipes := r.pipes.insert l.left.id l } := by
  have hi := h.identify { r with pipes := r.pipes.insert l.left.id l } l.left.id
  rw [Router.attach, ← hi]
  split
  all_goals
    next hr =>
      rw [hr]
      exact h.frame rfl rfl rfl

theorem Aside.onReadable (h : Aside g) (r : Router) (p : PipeId) : g (r.onReadable p) = g r := by
  have hi := h.identify r p
  rw [Router.onReadable]
  split
  · exact h.frame rfl rfl rfl
  · rfl
  · rw [← hi]
    split
    · next hr =>
      rw [hr]
      exact h.frame rfl rfl rfl
    · next hr => rw [hr]
    · next hr =>
      rw [hr]
      exact h.frame rfl rfl rfl

theorem Aside.readPipe (h : Aside g) (r : Router) (p : PipeId) (pipes : Assoc PipeId Link) :
    g { r with pipes := (readPipe p pipes).2 } = g { r with pipes } := by
  rw [Router.readPipe]
  split
  · rfl
  · next l hl => exact h.read (r := { r with pipes }) hl

theorem Aside.fetch (h : Aside g) (r : Router) : g r.fetch.2 = g r := by
  have hn := FairQueue.next_inv (fun pipes => g { r with pipes })
    (h.readPipe r) r.queue r.pipes
  refine Eq.trans ?_ hn
  rw [Router.fetch]
  split
  · next hq =>
    rw [hq]
    exact h.frame rfl rfl rfl
  · next hq =>
    rw [hq]
    exact h.frame rfl rfl rfl

theorem Aside.receive (h : Aside g) (r : Router) : g r.receive.2 = g r := by
  have hf := h.fetch r
  rw [Router.receive]
  split
  · exact h.frame rfl rfl rfl
  · exact h.frame rfl rfl rfl
  · rw [← hf]
    split
    · next hr => rw [hr]
    · next hr =>
      rw [hr]
      split
      · exact h.frame rfl rfl rfl
      · split
        · rfl
        · exact h.frame rfl rfl rfl

theorem Aside.hasInput (h : Aside g) (r : Router) : g r.hasInput.2 = g r := by
  have hf := h.fetch r
  rw [Router.hasInput]
  split
  · rfl
  · rw [← hf]
    split
    · next hr => rw [hr]
    · next hr =>
      rw [hr]
      split
      · rfl
      · exact h.frame rfl rfl rfl

/-- A view of the links of a router, one by one. -/
def view (f : Link → β) (r : Router) (p : PipeId) : Option β := (r.link? p).map f

variable {f : Link → β}

theorem view_modifyLink (f : Link → β) (r : Router) (p : PipeId) (m : Link → Link) :
    (r.modifyLink p m).view f = update (r.view f) p ((r.link? p).map (f ∘ m)) := by
  funext p'
  simp only [view, modifyLink, link?, Assoc.get?_modify, update]
  split
  · next h =>
    subst h
    simp
  · rfl

theorem view_modifyLink_of_eq {m : Link → Link} (h : ∀ l, r.link? p = some l → f (m l) = f l) :
    (r.modifyLink p m).view f = r.view f := by
  have he : (r.link? p).map (f ∘ m) = r.view f p := Option.map_congr h
  rw [view_modifyLink, he, Function.update_eq_self]

theorem aside_view (hi : ∀ l i, f (l.setIdentity .left i) = f l)
    (hr : ∀ l, f (l.read .left).2 = f l) : Aside (view f) where
  frame hp _ _ := funext fun p => congrArg (fun pipes => (pipes.get? p).map f) hp
  setIdentity _ _ i := view_modifyLink_of_eq fun l _ => hi l i
  read {r p l} hl := view_modifyLink_of_eq fun k hk => by
    rw [← Option.some.inj (hl.symm.trans hk)]
    exact hr l

theorem view_attach (ha : Aside (view f)) (r : Router) (l : Link) :
    (r.attach l).view f = update (r.view f) l.left.id (some (f l)) := by
  rw [ha.attach]
  funext p
  simp only [view, link?, Assoc.get?_insert, update, eq_rec_constant, dite_eq_ite]
  split <;> rfl

theorem pipes_forget (r : Router) (p : PipeId) : ((r.forget p).abandonInput p).pipes = r.pipes := by
  have hforget : (r.forget p).pipes = r.pipes := by
    rw [forget]
    split <;> rfl
  rw [← hforget, abandonInput]
  split <;> rfl

theorem view_detach (f : Link → β) (r : Router) (p : PipeId) :
    (r.detach p).2.view f = update (r.view f) p none := by
  funext p'
  simp only [detach, view, link?, pipes_forget, Assoc.get?_erase, update, eq_rec_constant,
    dite_eq_ite]
  split <;> rfl

end Router

end Zmtp
