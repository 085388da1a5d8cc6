import Zmtp.Network
import Zmtp.Proofs.Engine.Imitation
import Zmtp.Proofs.Exchange.Basic

namespace Zmtp

theorem DuplexEnd.bounded : ByteStream.Bounded DuplexEnd := by
  intro d slices n d' h
  change d.write slices = _ at h
  rw [write] at h
  split at h
  · cases h
  · split at h
    · cases h
    · cases h
      cases d.limit with
      | none => exact Nat.le_refl _
      | some k => exact List.length_take_le' ..

namespace Wire

theorem bounded : ByteStream.Bounded Wire := by
  intro w slices n w' h
  change w.write slices = _ at h
  rw [write] at h
  split at h
  · cases h
  · cases h
  · split at h
    · cases h
    · cases h
      exact List.length_take_le' ..

/-- An end of a connection with a schedule in place of its limit. -/
def ofEnd (schedule : List Pace) (d : DuplexEnd) : Wire := ⟨d.inbound, d.outbound, schedule⟩

/-- There is a schedule for all that an end of a connection does. -/
theorem imitates_ofEnd : ByteStream.Imitates ofEnd where
  read d room := by
    refine ⟨[.move room], fun rest => ?_⟩
    change Wire.read _ room = (DuplexEnd.read d room).map id _
    have hk : min (max room 1) room = room := by omega
    simp only [read, DuplexEnd.read, ofEnd, List.cons_append, List.nil_append, hk]
    cases d.inbound.bytes.isEmpty <;> rfl
  write d slices := by
    change ∃ orders, ∀ rest, Wire.write _ slices = (DuplexEnd.write d slices).map id _
    cases hr : d.outbound.readerGone with
    | true =>
      refine ⟨[.move 0], fun rest => ?_⟩
      simp only [write, DuplexEnd.write, ofEnd, List.cons_append, hr]
      rfl
    | false =>
      cases hl : d.limit with
      | none =>
        refine ⟨[.move slices.flatten.length], fun rest => ?_⟩
        simp only [write, DuplexEnd.write, ofEnd, List.cons_append, hr, hl, List.take_length]
        rfl
      | some n =>
        cases n with
        | zero =>
          refine ⟨[.stall false], fun rest => ?_⟩
          simp only [write, DuplexEnd.write, ofEnd, List.cons_append, hr, hl]
          rfl
        | succ n =>
          refine ⟨[.move (n + 1)], fun rest => ?_⟩
          simp only [write, DuplexEnd.write, ofEnd, List.cons_append, hr, hl]
          rfl
  close _ _ := rfl

end Wire

theorem Hub.linkAt?_modifyAt (h : Hub) (p p' : PipeId) (f : Link → Link) :
    (h.modifyAt p f).linkAt? p' = if p' = p then (h.linkAt? p').map f else h.linkAt? p' := by
  by_cases he : p' = p
  · subst he
    rw [if_pos rfl, modifyAt, Assoc.contains]
    cases hp : h.loose.get? p' with
    | some l => simp [linkAt?, Assoc.get?_modify, hp]
    | none => simp [linkAt?, Router.link?, Router.modifyLink, Assoc.get?_modify, hp]
  · rw [if_neg he, modifyAt]
    split
    · simp [linkAt?, Assoc.get?_modify, he]
    · simp [linkAt?, Router.link?, Router.modifyLink, Assoc.get?_modify, he]

theorem Router.attach_new (r : Router) (p : PipeId) (highWater : Nat) :
    r.attach (.new p highWater) = { r with
      pipes := r.pipes.insert p (.new p highWater)
      anonymous := r.anonymous.insert p .pending } := by
  have hl : (r.pipes.insert p (.new p highWater)).get? p = some (.new p highWater) := by
    rw [Assoc.get?_insert, if_pos rfl]
  simp only [attach, identify, link?, Link.new, LinkEnd.new] at hl ⊢
  simp only [hl]
  rfl

namespace Exchange

/-- Two engines and the bytes between them, with the link of the application on the right. -/
def connection (x : Exchange) (leftLimit rightLimit : Option Nat) : Connection where
  left := some x.left.engine.toEngineState
  right := some x.right.engine.toEngineState
  rightward := x.left.outbound
  leftward := x.right.outbound
  leftLimit := leftLimit
  rightLimit := rightLimit
  link := x.right.link

def party (x : Exchange) : Side → Party
  | .left => x.left
  | .right => x.right

variable {e : Talker} {w : Connection.Worker}

theorem store_left (x : Exchange) (h : e.map Tap.inner Ledger.inner = w.map (Wire.ofEnd []) id)
    (announced : Bool) (leftLimit rightLimit : Option Nat) :
    (x.connection leftLimit rightLimit).store .left w false =
      connection ⟨x.left.after e announced, x.right.readBy e⟩ leftLimit rightLimit := by
  have hs : e.toEngineState = w.toEngineState := congrArg Engine.toEngineState h
  have ht : e.stream.inner = Wire.ofEnd [] w.stream := congrArg Engine.stream h
  simp only [connection, Connection.store, Party.after, Party.readBy, hs, ht]
  rfl

theorem store_right (x : Exchange) (h : e.map Tap.inner Ledger.inner = w.map (Wire.ofEnd []) id)
    (announced : Bool) (leftLimit rightLimit : Option Nat) :
    { (x.connection leftLimit rightLimit).store .right w false with link := w.session.link } =
      connection ⟨x.left.readBy e, x.right.after e announced⟩ leftLimit rightLimit := by
  have hs : e.toEngineState = w.toEngineState := congrArg Engine.toEngineState h
  have ht : e.stream.inner = Wire.ofEnd [] w.stream := congrArg Engine.stream h
  have hl : e.session.inner = w.session := congrArg Engine.session h
  simp only [connection, Connection.store, Party.after, Party.readBy, Party.link, hs, ht, hl]
  rfl

end Exchange

/-- What an application does to its link. -/
def Act.onLink (a : Act) (l : Link) : Link :=
  match a with
  | .signal _ _ => l
  | .write p => (l.write? .left p).getD l
  | .rollback => l.rollback .left
  | .publish => l.flush .left
  | .read => (l.read .left).2

theorem Exchange.connection_act (x : Exchange) {a : Act} (ha : ∀ g schedule, a ≠ .signal g schedule)
    (leftLimit rightLimit : Option Nat) :
    (x.act a).connection leftLimit rightLimit = x.connection leftLimit rightLimit ∧
      (x.act a).left.link = a.onLink x.left.link := by
  cases a with
  | signal g schedule => exact absurd rfl (ha g schedule)
  | _ => exact ⟨rfl, rfl⟩

theorem Exchange.connection_swap_act (x : Exchange) {a : Act}
    (ha : ∀ g schedule, a ≠ .signal g schedule) (leftLimit rightLimit : Option Nat) :
    (x.swap.act a).swap.connection leftLimit rightLimit =
        { x.connection leftLimit rightLimit with link := a.onLink x.right.link } ∧
      (x.swap.act a).swap.left.link = x.left.link := by
  cases a with
  | signal g schedule => exact absurd rfl (ha g schedule)
  | _ => exact ⟨rfl, rfl⟩

def EngineState.heeds (s : EngineState) : Signal → Bool
  | .start => s.stage == .fresh
  | .writable => s.interest.wantsWrite
  | _ => true

theorem Party.heeds_eq (p : Party) (g : Signal) : p.heeds g = p.engine.heeds g := by
  cases g <;> rfl

theorem Exchange.play_of_not_heeds (x : Exchange) {s : Side} {g : Signal}
    (hg : ¬ (x.party s).heeds g = true) (schedule : List Pace) :
    x.play (s, .signal g schedule) = x := by
  cases s with
  | left => exact if_neg hg
  | right => exact congrArg Exchange.swap (if_neg hg)

open Connection (Worker)

/-- The engine of a party as it works in a network. -/
def Party.worker (p q : Party) (limit : Option Nat) : Worker :=
  ⟨p.engine.toEngineState, ⟨q.outbound, p.outbound, limit⟩, ⟨p.link⟩⟩

/-- There is a schedule with which the engine of a party does what it does in a network. -/
theorem Party.handle_joined {p : Party} {g : Signal} (hg : p.heeds g = true) (q : Party)
    (limit : Option Nat) :
    ∃ schedule, ((p.joined q schedule).handle g).map Tap.inner Ledger.inner =
      ((p.worker q limit).signal g).map (Wire.ofEnd []) id := by
  have hs : (p.worker q limit).signal g = (p.worker q limit).handle g := by
    rw [Engine.signal, if_neg]
    rintro ⟨rfl, ho⟩
    have hf : p.engine.stage = .fresh := beq_iff_eq.1 hg
    cases (EngineState.isOver_of_fresh hf).symm.trans ho
  rw [hs]
  obtain ⟨schedule, hw⟩ :=
    Engine.handle_map Wire.imitates_ofEnd Session.imitates_id (p.worker q limit) g
  refine ⟨schedule ++ [], ?_⟩
  obtain ⟨_, hj⟩ := Engine.handle_map (κ := Unit) (Tap.imitates Wire.bounded) Ledger.imitates
    (p.joined q (schedule ++ [])) g
  rw [← hw, ← hj []]
  rfl

namespace Network

/-- The two sides of a connection stand as those of an exchange. -/
structure Hosts (n : Network) (name : String) (x : Exchange) : Prop where
  connection : ∃ leftLimit rightLimit,
    n.connections.get? name = some (x.connection leftLimit rightLimit)
  link : (n.pipes.get? name).bind n.linkAt? = some x.left.link

theorem pipes_setSessionLink (n : Network) (name : String) (l : Link) (s : Side) :
    (n.setSessionLink name l s).pipes = n.pipes := by
  cases s with
  | right => rfl
  | left =>
    rw [setSessionLink]
    split
    · rfl
    · rw [Hub.modifyAt]
      split <;> rfl

variable {n : Network} {name : String} {x : Exchange} {c : Connection} {l : Link}

theorem sessionLink?_left_set (hl : (n.pipes.get? name).bind n.linkAt? = some l) (l' : Link) :
    ((n.setSessionLink name l' .left).pipes.get? name).bind
      (n.setSessionLink name l' .left).linkAt? = some l' := by
  rw [pipes_setSessionLink]
  cases hp : n.pipes.get? name with
  | none =>
    rw [hp] at hl
    cases hl
  | some p =>
    rw [hp] at hl
    rw [setSessionLink, hp]
    refine (Hub.linkAt?_modifyAt ..).trans ?_
    rw [if_pos rfl, show n.linkAt? p = some l from hl]
    rfl

theorem run_eq {α : Type} {s : Side} {e : EngineState} (hc : n.connections.get? name = some c)
    (he : c.engine? s = some e) (hl : n.sessionLink? name c s = some l) (gone : Bool)
    (f : Worker → α × Worker) :
    n.run name s gone f = some ((f (c.worker s e l)).1,
      (n.modify name fun k => k.store s (f (c.worker s e l)).2 gone).setSessionLink name
        (f (c.worker s e l)).2.session.link s) := by
  rw [run, hc]
  simp only [Option.bind_eq_bind, Option.bind_some, he, hl, Option.pure_def]

theorem connections_setSessionLink_left (n : Network) (name : String) (l : Link) :
    (n.setSessionLink name l .left).connections = n.connections := by
  rw [setSessionLink]
  split <;> rfl

theorem signal_eq {s : Side} {e : EngineState} (hc : n.connections.get? name = some c)
    (he : c.engine? s = some e) (hl : n.sessionLink? name c s = some l) (g : Signal) :
    n.signal name s g =
      some ((n.modify name fun k => k.store s ((c.worker s e l).signal g) false).setSessionLink name
        ((c.worker s e l).signal g).session.link s) :=
  congrArg (Option.map Prod.snd) (run_eq hc he hl false _)

/-- What an engine of a connection does when it is told something is what it does in an exchange,
with some schedule. -/
theorem Hosts.signal (h : n.Hosts name x) {s : Side} {g : Signal}
    (hg : (x.party s).heeds g = true) :
    ∃ schedule n', n.signal name s g = some n' ∧
      n'.Hosts name (x.play (s, .signal g schedule)) := by
  obtain ⟨leftLimit, rightLimit, hc⟩ := h.connection
  cases s with
  | left =>
    have hl : n.sessionLink? name (x.connection leftLimit rightLimit) .left = some x.left.link :=
      h.link
    obtain ⟨schedule, hj⟩ := Party.handle_joined (p := x.left) hg x.right leftLimit
    have hplay : x.play (.left, .signal g schedule) = _ := if_pos hg
    refine ⟨schedule, _, signal_eq hc rfl hl g, ⟨leftLimit, rightLimit, ?_⟩, ?_⟩
    · rw [connections_setSessionLink_left]
      refine (Assoc.get?_modify ..).trans ?_
      rw [if_pos rfl, hc, hplay]
      exact congrArg some (x.store_left hj ..)
    · refine (sessionLink?_left_set (n := n.modify name _) h.link _).trans ?_
      rw [hplay]
      exact congrArg (fun e => some e.session.link) hj.symm
  | right =>
    obtain ⟨schedule, hj⟩ := Party.handle_joined (p := x.right) hg x.left rightLimit
    have hplay : x.play (.right, .signal g schedule) = _ := congrArg Exchange.swap (if_pos hg)
    refine ⟨schedule, _, signal_eq hc rfl rfl g, ⟨leftLimit, rightLimit, ?_⟩, ?_⟩
    · refine (Assoc.get?_modify ..).trans ?_
      rw [if_pos rfl]
      refine (congrArg (Option.map _) (Assoc.get?_modify ..)).trans ?_
      rw [if_pos rfl, hc, hplay]
      exact congrArg some (x.store_right hj ..)
    · rw [hplay]
      exact h.link

theorem Hosts.act (h : n.Hosts name x) (s : Side) {a : Act}
    (ha : ∀ g schedule, a ≠ .signal g schedule) :
    (n.setSessionLink name (a.onLink (x.party s).link) s).Hosts name (x.play (s, a)) := by
  obtain ⟨leftLimit, rightLimit, hc⟩ := h.connection
  cases s with
  | left =>
    obtain ⟨hconn, hlink⟩ := x.connection_act ha leftLimit rightLimit
    refine ⟨⟨leftLimit, rightLimit, ?_⟩, ?_⟩
    · rw [connections_setSessionLink_left, hc]
      exact congrArg some hconn.symm
    · exact (sessionLink?_left_set h.link _).trans (congrArg some hlink.symm)
  | right =>
    obtain ⟨hconn, hlink⟩ := x.connection_swap_act ha leftLimit rightLimit
    refine ⟨⟨leftLimit, rightLimit, ?_⟩, ?_⟩
    · refine (Assoc.get?_modify ..).trans ?_
      rw [if_pos rfl, hc]
      exact congrArg some hconn.symm
    · exact h.link.trans (congrArg some hlink.symm)

theorem toHub_connect (n : Network) (name : String) (left right : Settings)
    (leftLimit rightLimit : Option Nat) :
    (n.connect name left right leftLimit rightLimit).toHub =
      { router := n.router.attach (.new n.nextPipe left.highWater)
        pipes := n.pipes.insert name n.nextPipe
        loose := (n.loose.insert n.nextPipe (.new n.nextPipe left.highWater)).erase n.nextPipe
        nextPipe := n.nextPipe.succ.succ.succ.succ } := by
  have hl : (n.loose.insert n.nextPipe (.new n.nextPipe left.highWater)).get? n.nextPipe =
      some (.new n.nextPipe left.highWater) := by
    rw [Assoc.get?_insert, if_pos rfl]
  have hid : (Link.new n.nextPipe left.highWater).left.id = n.nextPipe := rfl
  simp only [connect, Hub.attach?, Hub.addPeer, hid, hl]
  rfl

theorem hosts_connect (n : Network) (name : String) (left right : Settings)
    (leftLimit rightLimit : Option Nat) :
    ∃ endpoint endpoint' first first',
      (n.connect name left right leftLimit rightLimit).Hosts name
        ⟨.new left endpoint true first, .new right endpoint' true first'⟩ := by
  refine ⟨"mem://" ++ name ++ "/r", "mem://" ++ name ++ "/d", n.nextPipe, n.nextPipe.succ.succ,
    ⟨leftLimit, rightLimit, ?_⟩, ?_⟩
  · refine (Assoc.get?_insert ..).trans ?_
    rw [if_pos rfl]
    rfl
  · rw [toHub_connect, Router.attach_new]
    simp only [Assoc.get?_insert, if_true, Option.bind_some, Hub.linkAt?, Assoc.get?_erase,
      Router.link?]
    rfl

/-- What one side of a connection does next. An engine is told nothing that it would not heed. -/
def follow (name : String) (n : Network) : Side × Act → Network
  | (s, .signal g _) =>
    match (n.connections.get? name).bind (·.engine? s) with
    | none => n
    | some e => if e.heeds g then (n.signal name s g).getD n else n
  | (s, a) =>
    match (n.connections.get? name).bind (n.sessionLink? name · s) with
    | none => n
    | some l => n.setSessionLink name (a.onLink l) s

theorem Hosts.engine?_eq (h : n.Hosts name x) (s : Side) :
    (n.connections.get? name).bind (·.engine? s) = some (x.party s).engine.toEngineState := by
  obtain ⟨leftLimit, rightLimit, hc⟩ := h.connection
  rw [hc]
  cases s <;> rfl

theorem Hosts.sessionLink?_eq (h : n.Hosts name x) (s : Side) :
    (n.connections.get? name).bind (n.sessionLink? name · s) = some (x.party s).link := by
  obtain ⟨leftLimit, rightLimit, hc⟩ := h.connection
  rw [hc]
  cases s with
  | left => exact h.link
  | right => rfl

theorem Hosts.follow (h : n.Hosts name x) (s : Side) (a : Act) :
    ∃ a', (n.follow name (s, a)).Hosts name (x.play (s, a')) := by
  cases a with
  | signal g schedule =>
    rw [Network.follow, h.engine?_eq]
    simp only
    rw [← Party.heeds_eq]
    split
    · next hg =>
      obtain ⟨schedule', n', hn, h'⟩ := h.signal hg
      rw [hn]
      exact ⟨_, h'⟩
    · next hg =>
      refine ⟨.signal g schedule, ?_⟩
      rw [x.play_of_not_heeds hg]
      exact h
  | _ =>
    rw [Network.follow, h.sessionLink?_eq]
    · exact ⟨_, h.act s fun _ _ => Act.noConfusion⟩
    · exact fun _ _ => Act.noConfusion

theorem Hosts.run {left right : Settings} (h : n.Hosts name x) (hx : x.Reached left right)
    (as : List (Side × Act)) :
    ∃ x', (as.foldl (Network.follow name) n).Hosts name x' ∧ x'.Reached left right := by
  induction as generalizing n x with
  | nil => exact ⟨x, h, hx⟩
  | cons a as ih =>
    obtain ⟨s, a⟩ := a
    obtain ⟨a', h'⟩ := h.follow s a
    exact ih h' (hx.play [(s, a')])

/-- Whatever the two sides of a new connection do, they stand as those of an exchange that is
reached. -/
theorem exists_exchange (n : Network) (name : String) (left right : Settings)
    (leftLimit rightLimit : Option Nat) (as : List (Side × Act)) :
    ∃ x, (as.foldl (follow name) (n.connect name left right leftLimit rightLimit)).Hosts name x ∧
      x.Reached left right := by
  obtain ⟨endpoint, endpoint', first, first', h⟩ :=
    n.hosts_connect name left right leftLimit rightLimit
  exact h.run (.new ..) as

end Network

end Zmtp
