import Zmtp.Proofs.Router.Addressed

namespace Zmtp

open Function (update)

/-- What can happen to a router, to the near ends that it does not have, and at the far ends. -/
inductive HubMove where
  | peer (name : String) (highWater : Nat)
  | attach (p : PipeId)
  | detach (p : PipeId)
  /-- What is staged at a near end that is not attached is taken back. -/
  | clear (p : PipeId)
  /-- A near end that is not attached is given up. -/
  | discard (p : PipeId)
  | far (p : PipeId) (m : FarMove)
  | readable (p : PipeId)
  | writable (p : PipeId)
  | send (part : Part)
  | rollback
  | mandate (on : Bool)
  | ask
  | receive

namespace Hub

variable {h : Hub} {p : PipeId}

def play (h : Hub) : HubMove → Hub
  | .peer name highWater => h.addPeer name highWater
  | .attach p => (h.attach? p).getD h
  | .detach p => (h.detach p).2
  | .clear p => { h with loose := h.loose.modify p (·.rollback .left) }
  | .discard p => { h with loose := h.loose.modify p (·.drop .left) }
  | .far p m => h.modifyAt p (·.far m)
  | .readable p => { h with router := h.router.onReadable p }
  | .writable p => { h with router := h.router.onWritable p }
  | .send part => { h with router := (h.router.send part).toOption.getD h.router }
  | .rollback => { h with router := h.router.rollback }
  | .mandate on => { h with router := { h.router with mandatory := on } }
  | .ask => { h with router := h.router.hasInput.2 }
  | .receive => { h with router := h.router.receive.2 }

/-- The outlets of the links that are not attached. -/
def depot (h : Hub) (p : PipeId) : Option Outlet := (h.loose.get? p).map Link.outlet

theorem outlet_linkAt? (h : Hub) (p : PipeId) :
    (h.linkAt? p).map Link.outlet = (h.depot p).or (h.router.dispatch.outlet p) := by
  rw [linkAt?, depot]
  cases h.loose.get? p <;> rfl

theorem depot_modify (h : Hub) (p : PipeId) (f : Link → Link) :
    depot { h with loose := h.loose.modify p f } =
      update h.depot p ((h.loose.get? p).map fun l => (f l).outlet) := by
  funext q
  simp only [depot, Assoc.get?_modify, update, eq_rec_constant, dite_eq_ite]
  split
  · next hq => rw [hq, Option.map_map]; rfl
  · rfl

theorem depot_insert (h : Hub) (p : PipeId) (l : Link) :
    depot { h with loose := h.loose.insert p l } = update h.depot p (some l.outlet) := by
  funext q
  simp only [depot, Assoc.get?_insert, update, eq_rec_constant, dite_eq_ite]
  split <;> rfl

theorem depot_erase (h : Hub) (p : PipeId) :
    depot { h with loose := h.loose.erase p } = update h.depot p none := by
  funext q
  simp only [depot, Assoc.get?_erase, update, eq_rec_constant, dite_eq_ite]
  split <;> rfl

end Hub

/-- A router with its peers, all that was sent, and what the far ends read and gave up unread. -/
structure Post where
  hub : Hub
  bag : Mailbag
  read : PipeId → List Part
  lost : PipeId → List Part

namespace Post

def new (s : Settings) (ids : IdentitySource) : Post :=
  ⟨.new s ids, .empty, fun _ => [], fun _ => []⟩

/-- What the far end of a pipe sees, if there is one. -/
def outlet? (w : Post) (p : PipeId) : Option Outlet := (w.hub.linkAt? p).map Link.outlet

/-- A part that was sent is noted, unless that failed. -/
def note (w : Post) (part : Part) : Mailbag :=
  match w.hub.router.send part with
  | .error _ => w.bag
  | .ok _ => w.bag.note w.hub.router.addressee? w.hub.router.canWrite part

def play (w : Post) (m : HubMove) : Post where
  hub := w.hub.play m
  bag :=
    match m with
    | .send part => w.note part
    | .detach p => w.bag.leave p
    | .rollback => w.bag.withdraw
    | _ => w.bag
  read :=
    match m with
    | .far p m => update w.read p (w.read p ++ (w.outlet? p).elim [] (·.reads m))
    | _ => w.read
  lost :=
    match m with
    | .far p m => update w.lost p (w.lost p ++ (w.outlet? p).elim [] (·.loses m))
    | _ => w.lost

def run (w : Post) (ms : List HubMove) : Post := ms.foldl play w

/-- A pipe is attached with nothing staged. -/
def Admits (w : Post) : HubMove → Prop
  | .attach p => ∀ l ∈ w.hub.loose.get? p, l.left.staged = []
  | _ => True

/-- Every move of a run is admitted when its turn comes. -/
def Admitted : Post → List HubMove → Prop
  | _, [] => True
  | w, m :: ms => w.Admits m ∧ Admitted (w.play m) ms

instance (w : Post) : DecidablePred w.Admits
  | .attach _ => inferInstanceAs (Decidable (∀ _ ∈ _, _ = []))
  | .peer _ _ | .detach _ | .clear _ | .discard _ | .far _ _ | .readable _ | .writable _ | .send _
  | .rollback | .mandate _ | .ask | .receive => isTrue trivial

instance decidableAdmitted : ∀ w ms, Decidable (Admitted w ms)
  | _, [] => isTrue trivial
  | w, m :: ms =>
    have := decidableAdmitted (w.play m) ms
    inferInstanceAs (Decidable (w.Admits m ∧ Admitted (w.play m) ms))

/-- Every message reaches the pipe whose peer had its name, if that pipe took all of it, and else no
pipe at all. -/
structure Exact (w : Post) : Prop where
  /-- At the far end of a link are the messages for its pipe, in the order in which they were sent. -/
  arrived : ∀ p l, w.hub.linkAt? p = some l →
    w.read p ++ (w.lost p ++ l.right.inbox) = w.bag.payloads p ∧
      (l.right.live = true → w.lost p = [])
  /-- Nothing goes to a pipe that there is not. -/
  nowhere : ∀ p, w.hub.linkAt? p = none → w.read p = [] ∧ w.bag.payloads p = []
  /-- A message ends with its last part, unless it was taken back. -/
  whole : ∀ l ∈ w.bag.done, l.withdrawn = false → IsMessage l.payload
  /-- An attached pipe has nothing staged but the message that goes to it. -/
  staged : ∀ p l, w.hub.router.link? p = some l →
    l.left.staged = if w.hub.router.target = some p then w.bag.begun else []
  target : w.hub.router.target = w.bag.bound
  inside : w.hub.router.moreOut = w.bag.current.isSome

/-- What holds between a hub and the history that led to it. -/
def Holds (w : Post) : Prop :=
  Delivers w.hub.router.dispatch w.hub.depot w.hub.nextPipe.number w.bag w.read w.lost

variable {w : Post} {m : HubMove} {p : PipeId}

theorem holds_new (s : Settings) (ids : IdentitySource) : (new s ids).Holds where
  aimed := .of_clear rfl rfl rfl nofun
  apart _ _ := nofun
  known _ _ := nofun
  arrived _ := .nobody
  proper := Mailbag.proper_empty

theorem Holds.peer (h : w.Holds) (name : String) (highWater : Nat) :
    (w.play (.peer name highWater)).Holds := by
  have hd := w.hub.depot_insert w.hub.nextPipe (.new w.hub.nextPipe highWater)
  have hp := Delivers.peer (o := (Link.new w.hub.nextPipe highWater).outlet) h rfl rfl rfl
    (w.hub.nextPipe.number + 1 + 1) (by omega)
  rw [← hd] at hp
  exact hp

theorem Holds.attach (h : w.Holds) (ha : w.Admits (.attach p)) : (w.play (.attach p)).Holds := by
  change Delivers ((w.hub.attach? p).getD w.hub).router.dispatch
    ((w.hub.attach? p).getD w.hub).depot ((w.hub.attach? p).getD w.hub).nextPipe.number _ _ _
  rw [Hub.attach?]
  cases hl : w.hub.loose.get? p with
  | none => exact h
  | some l =>
    have hdepot : w.hub.depot p = some l.outlet := congrArg (Option.map Link.outlet) hl
    have hid : l.left.id = p := (h.known p l.outlet (by rw [hdepot]; rfl)).1
    simp only
    split
    · have hk := Delivers.attach h hdepot (ha l hl)
      rw [← w.hub.depot_erase, ← hid, ← Router.dispatch_attach, hid] at hk
      exact hk
    · exact h

theorem Holds.detach (h : w.Holds) (p : PipeId) : (w.play (.detach p)).Holds := by
  have hr := w.hub.router.dispatch_detach p
  have hfst := w.hub.router.fst_detach p
  change Delivers (w.hub.detach p).2.router.dispatch (w.hub.detach p).2.depot
    (w.hub.detach p).2.nextPipe.number (w.bag.leave p) w.read w.lost
  rw [Hub.detach]
  cases hd : w.hub.router.detach p with
  | mk o router =>
    rw [hd] at hr hfst
    cases o with
    | none =>
      have hv : w.hub.router.dispatch.outlet p = none := congrArg (Option.map Link.outlet) hfst.symm
      have hk := Delivers.detach_none h hv
      rw [← hr] at hk
      exact hk
    | some l =>
      have hv : w.hub.router.dispatch.outlet p = some l.outlet :=
        congrArg (Option.map Link.outlet) hfst.symm
      have hk := Delivers.detach h hv
      rw [← hr, ← w.hub.depot_insert] at hk
      exact hk

theorem Holds.adjust (h : w.Holds) {f : Link → Link}
    (hf : ∀ l : Link, (f l).outlet.clear = l.outlet.clear) (p : PipeId) :
    Holds { w with hub := { w.hub with loose := w.hub.loose.modify p f } } := by
  have hd := w.hub.depot_modify p f
  rw [Holds]
  simp only [hd]
  cases hl : w.hub.loose.get? p with
  | none =>
    have hdepot : w.hub.depot p = none := congrArg (Option.map Link.outlet) hl
    rw [Option.map_none, ← hdepot, Function.update_eq_self]
    exact h
  | some l =>
    have hdepot : w.hub.depot p = some l.outlet := congrArg (Option.map Link.outlet) hl
    exact Delivers.adjust h hdepot (hf l)

theorem Holds.far (h : w.Holds) (p : PipeId) (m : FarMove) : (w.play (.far p m)).Holds := by
  change Delivers (w.hub.modifyAt p (·.far m)).router.dispatch (w.hub.modifyAt p (·.far m)).depot
    (w.hub.modifyAt p (·.far m)).nextPipe.number w.bag
    (update w.read p (w.read p ++ (w.outlet? p).elim [] (·.reads m)))
    (update w.lost p (w.lost p ++ (w.outlet? p).elim [] (·.loses m)))
  rw [Hub.modifyAt, outlet?, w.hub.outlet_linkAt?, Assoc.contains]
  cases hl : w.hub.loose.get? p with
  | some l =>
    have hdepot : w.hub.depot p = some l.outlet := congrArg (Option.map Link.outlet) hl
    have hk := Delivers.far_loose h hdepot m
    have hd := w.hub.depot_modify p (·.far m)
    simp only [hl, Option.map_some, Link.outlet_far] at hd
    rw [← hd] at hk
    rw [hdepot]
    exact hk
  | none =>
    have hdepot : w.hub.depot p = none := congrArg (Option.map Link.outlet) hl
    have hm := w.hub.router.dispatch_modifyLink p (·.far m)
    rw [hdepot]
    cases hr : w.hub.router.link? p with
    | some l =>
      have hv : w.hub.router.dispatch.outlet p = some l.outlet :=
        congrArg (Option.map Link.outlet) hr
      have hk := Delivers.far_attached h hv m
      simp only [hr, Option.map_some, Link.outlet_far] at hm
      rw [← hm] at hk
      rw [hv]
      exact hk
    | none =>
      have hv : w.hub.router.dispatch.outlet p = none := congrArg (Option.map Link.outlet) hr
      simp only [hr, Option.map_none] at hm
      rw [← hv, Function.update_eq_self] at hm
      rw [hv]
      simp only [Option.or_none, Option.elim_none, List.append_nil, Function.update_eq_self]
      change Delivers (w.hub.router.modifyLink p (·.far m)).dispatch _ _ _ _ _
      rw [hm]
      exact h

theorem Holds.send (h : w.Holds) (part : Part) : (w.play (.send part)).Holds := by
  have hin := h.aimed.inside
  change Delivers ((w.hub.router.send part).toOption.getD w.hub.router).dispatch w.hub.depot _
    (w.note part) w.read w.lost
  rw [note]
  cases hs : w.hub.router.send part with
  | error fault => exact h
  | ok r =>
    change Delivers r.dispatch _ _ (w.bag.note _ _ part) _ _
    rw [Router.send] at hs
    cases hc : w.bag.current with
    | none =>
      rw [hc] at hin
      rw [show w.hub.router.moreOut = false from hin] at hs
      have hk := Delivers.address h hc w.hub.router.canWrite_eq w.hub.router.addressee? part
      have hr := Router.dispatch_address hs
      rw [hr]
      exact hk
    | some l =>
      rw [hc] at hin
      rw [show w.hub.router.moreOut = true from hin] at hs
      cases hs
      have hk := Delivers.carry h hc w.hub.router.canWrite_eq w.hub.router.addressee? part
      rw [← Router.dispatch_sendPart] at hk
      exact hk

theorem Holds.of_dispatch (h : w.Holds) {r : Router} (hr : r.dispatch = w.hub.router.dispatch) :
    Holds { w with hub := { w.hub with router := r } } := by
  rw [Holds]
  simp only [hr]
  exact h

theorem Holds.play (h : w.Holds) (ha : w.Admits m) : (w.play m).Holds := by
  cases m with
  | peer name highWater => exact h.peer name highWater
  | attach p => exact h.attach ha
  | detach p => exact h.detach p
  | clear p => exact h.adjust (f := (·.rollback .left)) (fun _ => rfl) p
  | discard p => exact h.adjust (f := (·.drop .left)) (fun _ => rfl) p
  | far p m => exact h.far p m
  | readable p => exact h.of_dispatch (Router.aside_dispatch.onReadable _ p)
  | writable p => exact h.of_dispatch (Router.aside_dispatch.frame rfl rfl rfl)
  | send part => exact h.send part
  | rollback =>
    have hk := Delivers.rollback h
    rw [← Router.dispatch_rollback] at hk
    exact hk
  | mandate on => exact h.of_dispatch rfl
  | ask => exact h.of_dispatch (Router.aside_dispatch.hasInput _)
  | receive => exact h.of_dispatch (Router.aside_dispatch.receive _)

theorem Holds.run {ms : List HubMove} (h : w.Holds) (ha : Admitted w ms) : (w.run ms).Holds := by
  induction ms generalizing w with
  | nil => exact h
  | cons m ms ih => exact ih (h.play ha.1) ha.2

theorem Holds.exact (h : w.Holds) : w.Exact where
  arrived p l hl := by
    have ha := h.arrived p
    rw [← w.hub.outlet_linkAt?, hl] at ha
    cases ha with
    | somebody hd hlost => exact ⟨hd, hlost⟩
  nowhere p hl := by
    have ha := h.arrived p
    rw [← w.hub.outlet_linkAt?, hl] at ha
    generalize w.read p = read, w.lost p = lost, w.bag.payloads p = due at ha ⊢
    cases ha
    exact ⟨rfl, rfl⟩
  whole := h.proper.done
  staged p l hl := h.aimed.staged p l.outlet (congrArg (Option.map Link.outlet) hl)
  target := h.aimed.target
  inside := h.aimed.inside

/-- In every run, a message is delivered whole or not at all: whole to the pipe that its first part
named, if that pipe accepted writes then and took every part, was not given up before the last one,
and the message was not taken back. -/
theorem exact_run (s : Settings) (ids : IdentitySource) (ms : List HubMove)
    (ha : Admitted (new s ids) ms) : ((new s ids).run ms).Exact :=
  ((holds_new s ids).run ha).exact

/-- Two peers, of whom one can hold three parts and the other one, get messages that they take, that
they refuse, that are taken back, and that are cut off. -/
def twoPeers : List HubMove :=
  [.peer "a" 3, .far ⟨1⟩ (.write (.ofBytes [0x41])), .far ⟨1⟩ .flush, .attach ⟨1⟩,
    .peer "b" 1, .far ⟨3⟩ (.write (.ofBytes [0x42])), .far ⟨3⟩ .flush, .attach ⟨3⟩,
    .send (.ofMore [0x41] true), .send (.ofMore [1] true), .send (.ofBytes [2]),
    .send (.ofMore [0x41] true), .send (.ofMore [3] true), .send (.ofMore [4] true),
    .send (.ofBytes [5]), .far ⟨1⟩ .read,
    .send (.ofMore [0x42] true), .send (.ofMore [6] true), .rollback,
    .send (.ofMore [0x42] true), .send (.ofBytes [7]),
    .send (.ofMore [0x42] true), .send (.ofBytes [8]),
    .send (.ofMore [0x41] true), .send (.ofMore [9] true), .detach ⟨1⟩, .send (.ofBytes [10]),
    .clear ⟨1⟩, .attach ⟨1⟩]

theorem exact_run_twoPeers :
    ((new .default ⟨7⟩).run twoPeers).Exact ∧
      ((new .default ⟨7⟩).run twoPeers).read ⟨1⟩ = [.ofMore [1] true] ∧
      ((new .default ⟨7⟩).run twoPeers).bag.payloads ⟨1⟩ = [.ofMore [1] true, .ofBytes [2]] ∧
      ((new .default ⟨7⟩).run twoPeers).bag.payloads ⟨3⟩ = [.ofBytes [7]] ∧
      ((new .default ⟨7⟩).run twoPeers).bag.done.length = 6 :=
  ⟨exact_run .default ⟨7⟩ twoPeers (by decide +kernel), by decide +kernel, by decide +kernel,
    by decide +kernel, by decide +kernel⟩

end Post

end Zmtp
