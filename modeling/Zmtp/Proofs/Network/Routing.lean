import Zmtp.Proofs.Network.Pairing
import Zmtp.Proofs.Switchboard.Standing

namespace Zmtp

open Function (update)

theorem Assoc.modify_modify {κ ν : Type} [DecidableEq κ] (m : Assoc κ ν) (k : κ) (v v' : ν) :
    (m.modify k fun _ => v).modify k (fun _ => v') = m.modify k fun _ => v' := by
  apply Assoc.ext
  refine (List.map_map ..).trans (List.map_congr_left ?_)
  intro e _
  by_cases he : e.1 = k
  · simp [he]
  · simp [he]

namespace Router

variable {r : Router} {p : PipeId}

theorem modifyLink_eq_self {f : Link → Link} (h : ∀ l, r.link? p = some l → f l = l) :
    r.modifyLink p f = r :=
  congrArg (fun pipes => { r with pipes }) (Assoc.modify_eq_self h)

theorem modifyLink_of_none (h : r.link? p = none) (f : Link → Link) : r.modifyLink p f = r := by
  apply modifyLink_eq_self
  intro l hl
  cases h.symm.trans hl

theorem modifyLink_modifyLink (r : Router) (p : PipeId) (l l' : Link) :
    (r.modifyLink p fun _ => l).modifyLink p (fun _ => l') = r.modifyLink p fun _ => l' :=
  congrArg (fun pipes => { r with pipes }) (Assoc.modify_modify ..)

end Router

theorem Engine.call_map {τ σ : Type} [ByteStream τ] [Session σ] (hb : ByteStream.Bounded τ)
    (e : Engine (Tap τ) (Ledger σ)) (c : Call) :
    (e.call c).map Tap.inner Ledger.inner = (e.map Tap.inner Ledger.inner).call c := by
  have ht : ByteStream.Imitates fun (_ : List Unit) (t : Tap τ) => t.inner := Tap.imitates hb
  cases c with
  | signal g =>
    obtain ⟨_, hs⟩ := signal_map ht Ledger.imitates e g
    exact (hs []).symm
  | stop => exact congrArg Prod.snd (stop_map ht Ledger.inner e []).symm
  | discard => exact congrArg Prod.snd (discard_map ht Ledger.imitates e []).symm

theorem Engine.call_signal {τ σ : Type} [ByteStream τ] [Session σ] {g : Signal} (hg : g ≠ .start)
    (e : Engine τ σ) : e.call (.signal g) = e.handle g := by
  rw [call, signal, if_neg]
  exact fun h => hg h.1

theorem Engine.exists_calls_serve {τ σ : Type} [ByteStream τ] [Session σ] (e : Engine τ σ) :
    ∃ cs : List Call, e.serve = cs.foldl call e := by
  have hwrite : ∃ cs : List Call,
      (if e.interest.wantsWrite then e.onWritable else e) = cs.foldl call e := by
    split
    · exact ⟨[.signal .writable], (call_signal (g := .writable) (by decide) e).symm⟩
    · exact ⟨[], rfl⟩
  obtain ⟨cs, hwrite⟩ := hwrite
  rw [serve]
  simp only [hwrite]
  split
  · refine ⟨cs ++ [.signal .readable], ?_⟩
    rw [List.foldl_append]
    exact (call_signal (g := .readable) (by decide) _).symm
  · exact ⟨cs, rfl⟩

theorem Engine.foldl_call_map {τ σ : Type} [ByteStream τ] [Session σ] (hb : ByteStream.Bounded τ)
    (e : Engine (Tap τ) (Ledger σ)) (cs : List Call) :
    (cs.foldl call e).map Tap.inner Ledger.inner =
      cs.foldl call (e.map Tap.inner Ledger.inner) := by
  induction cs generalizing e with
  | nil => rfl
  | cons c cs ih =>
    rw [List.foldl_cons, List.foldl_cons, ih, call_map hb]

namespace Hub

theorem pipes_modifyAt (h : Hub) (p : PipeId) (f : Link → Link) :
    (h.modifyAt p f).pipes = h.pipes := by
  rw [modifyAt]
  split <;> rfl

theorem nextPipe_modifyAt (h : Hub) (p : PipeId) (f : Link → Link) :
    (h.modifyAt p f).nextPipe = h.nextPipe := by
  rw [modifyAt]
  split <;> rfl

theorem loose_modifyAt (h : Hub) (p p' : PipeId) (f : Link → Link) :
    (h.modifyAt p f).loose.get? p' =
      if p' = p then (h.loose.get? p').map f else h.loose.get? p' := by
  rw [modifyAt, Assoc.contains]
  cases hp : h.loose.get? p with
  | some l => exact Assoc.get?_modify ..
  | none =>
    change h.loose.get? p' = _
    split
    · next he =>
      rw [he, hp]
      rfl
    · rfl

theorem router_modifyAt {h : Hub} {p : PipeId}
    (hp : ∀ l, h.loose.get? p = some l → h.router.link? p = none) (f : Link → Link) :
    (h.modifyAt p f).router = h.router.modifyLink p f := by
  rw [modifyAt, Assoc.contains]
  cases hl : h.loose.get? p with
  | none => rfl
  | some l => exact (Router.modifyLink_of_none (hp l hl) f).symm

theorem modifyAt_eq_self {h : Hub} {p : PipeId} {l : Link} (hl : h.linkAt? p = some l) :
    (h.modifyAt p fun _ => l) = h := by
  rw [linkAt?] at hl
  rw [modifyAt, Assoc.contains]
  cases hp : h.loose.get? p with
  | some l' =>
    rw [hp] at hl
    cases hl
    refine congrArg (fun loose => { h with loose }) (Assoc.modify_eq_self ?_)
    intro v hv
    exact Option.some.inj (hp.symm.trans hv)
  | none =>
    rw [hp] at hl
    refine congrArg (fun router => { h with router }) (Router.modifyLink_eq_self ?_)
    intro l' hl'
    exact Option.some.inj (hl.symm.trans hl')

end Hub

theorem Watch.router_after (w : Watch) (p : PipeId) (l : Link) :
    (w.after p l).router = w.router.modifyLink p fun _ => l := by
  rw [after]
  split
  · next hl => exact (Router.modifyLink_of_none hl _).symm
  · rfl

namespace Switchboard

variable {τ : Type} [ByteStream τ] {b : Switchboard τ} {p p' : PipeId} {e : Line τ}

theorem joined_play (he : b.lines p = some e) (world : τ → τ) (c : Call) :
    (b.play (.call p world c)).joined p ((b.joined p e world).call c) id =
      (b.joined p e world).call c := by
  rw [play, he, joined, router, Watch.router_after]
  simp only [Router.modifyLink, Router.link?, Assoc.get?_modify, if_true]
  cases b.watch.router.pipes.get? p <;> rfl

/-- The engine of a line has become another, and the router finds the link as it left it. -/
structure Becomes (b : Switchboard τ) (p : PipeId) (e' : Line τ) (b' : Switchboard τ) : Prop where
  lines : b'.lines = update b.lines p (some e')
  router : b'.router = b.router.modifyLink p fun _ => e'.session.inner.link
  published : ∀ p', b'.watch.published p' = none ↔ b.watch.published p' = none

theorem becomes_call (he : b.lines p = some e) (world : τ → τ) (c : Call) :
    b.Becomes p ((b.joined p e world).call c) (b.play (.call p world c)) := by
  rw [play, he]
  exact ⟨rfl, Watch.router_after .., fun _ => Watch.published_after_eq_none⟩

theorem becomes_calls (he : b.lines p = some e) (world : τ → τ) (c : Call) (cs : List Call) :
    b.Becomes p (cs.foldl Engine.call ((b.joined p e world).call c))
      (b.run (.call p world c :: cs.map (.call p id))) := by
  induction cs generalizing b e world c with
  | nil => exact becomes_call he world c
  | cons c' cs ih =>
    have hone := becomes_call he world c
    have he' : (b.play (.call p world c)).lines p = some ((b.joined p e world).call c) := by
      rw [hone.lines, Function.update_self]
    have hrest := ih he' id c'
    rw [joined_play he] at hrest
    refine ⟨?_, ?_, fun p' => (hrest.published p').trans (hone.published p')⟩
    · exact hrest.lines.trans (by rw [hone.lines, Function.update_idem]; rfl)
    · refine hrest.router.trans ?_
      rw [hone.router]
      exact Router.modifyLink_modifyLink ..

end Switchboard

namespace Network

open Connection (Worker)

/-- A switchboard has the router of a network, and the left engine of each connection with the same
state and at the same link. A link has its near end either in the router or loose. -/
structure Mirrors (n : Network) (b : Switchboard DuplexEnd) : Prop where
  router : b.router = n.router
  apart : ∀ p l, n.loose.get? p = some l → n.router.link? p = none
  fresh : ∀ p, n.nextPipe.number ≤ p.number → b.lines p = none ∧ b.watch.published p = none
  known : ∀ name p, n.pipes.get? name = some p → p.number < n.nextPipe.number
  distinct : ∀ name name' p, n.pipes.get? name = some p → n.pipes.get? name' = some p → name = name'
  line : ∀ name p c e, n.pipes.get? name = some p → n.connections.get? name = some c →
    c.left = some e → ∃ l : Line DuplexEnd, b.lines p = some l ∧ l.toEngineState = e ∧
      n.linkAt? p = some ((n.router.link? p).getD l.session.inner.link)

variable {n : Network} {b : Switchboard DuplexEnd} {name : String} {p : PipeId} {c : Connection}
  {e : EngineState} {l : Link}

theorem mirrors_new (s : Settings) (ids : IdentitySource) : (new s ids).Mirrors (.new s ids) where
  router := rfl
  apart _ _ h := nomatch (h : none = some _)
  fresh _ _ := ⟨rfl, rfl⟩
  known _ _ h := nomatch (h : none = some _)
  distinct _ _ _ h := nomatch (h : none = some _)
  line _ _ _ _ h := nomatch (h : none = some _)

theorem Mirrors.modify (h : n.Mirrors b) {f : Connection → Connection}
    (hf : ∀ c e, n.connections.get? name = some c → (f c).left = some e → c.left = some e) :
    (n.modify name f).Mirrors b where
  router := h.router
  apart := h.apart
  fresh := h.fresh
  known := h.known
  distinct := h.distinct
  line name' p c' e hp hc he := by
    rw [show (n.modify name f).connections.get? name' = _ from Assoc.get?_modify ..] at hc
    split at hc
    · next hn =>
      obtain ⟨c, hc', rfl⟩ := Option.map_eq_some_iff.1 hc
      exact h.line name' p c e hp hc' (hf c e (hn ▸ hc') he)
    · exact h.line name' p c' e hp hc he

theorem Mirrors.joined (h : n.Mirrors b) (hp : n.pipes.get? name = some p)
    (hc : n.connections.get? name = some c) (he : c.left = some e) (hl : n.linkAt? p = some l) :
    ∃ line : Line DuplexEnd, b.lines p = some line ∧
      (b.joined p line fun _ => ⟨c.leftward, c.rightward, c.leftLimit⟩).map Tap.inner Ledger.inner =
        c.worker .left e l := by
  obtain ⟨line, hline, rfl, hlink⟩ := h.line name p c e hp hc he
  refine ⟨line, hline, ?_⟩
  cases hl.symm.trans hlink
  rw [← h.router]
  rfl

theorem Mirrors.becomes (h : n.Mirrors b) (hp : n.pipes.get? name = some p)
    (hl : n.linkAt? p = some l) {line : Line DuplexEnd} {b' : Switchboard DuplexEnd}
    (hb : b.Becomes p line b') {n' : Network}
    (hhub : n'.toHub = n.toHub.modifyAt p fun _ => line.session.inner.link)
    (hconnections : ∀ name' c e, n'.connections.get? name' = some c → c.left = some e →
      name' = name ∧ e = line.toEngineState ∨
        name' ≠ name ∧ n.connections.get? name' = some c) : n'.Mirrors b' := by
  have hrouter : n'.router = n.router.modifyLink p fun _ => line.session.inner.link := by
    rw [hhub]
    exact Hub.router_modifyAt (h.apart p) _
  have hlink (p' : PipeId) : n'.router.link? p' = if p' = p
      then (n.router.link? p').map fun _ => line.session.inner.link else n.router.link? p' := by
    rw [hrouter]
    exact Assoc.get?_modify ..
  have hpipes : n'.pipes = n.pipes := by rw [hhub, Hub.pipes_modifyAt]
  have hnext : n'.nextPipe = n.nextPipe := by rw [hhub, Hub.nextPipe_modifyAt]
  constructor
  case router =>
    rw [hb.router, hrouter, h.router]
  case apart =>
    intro p' l' hl'
    rw [hhub, Hub.loose_modifyAt] at hl'
    rw [hlink]
    split
    · next he =>
      rw [if_pos he] at hl'
      obtain ⟨l₀, hl₀, -⟩ := Option.map_eq_some_iff.1 hl'
      rw [h.apart p' l₀ hl₀]
      rfl
    · next he =>
      rw [if_neg he] at hl'
      exact h.apart p' l' hl'
  case fresh =>
    intro p' hp'
    rw [hnext] at hp'
    obtain ⟨hline, hpublished⟩ := h.fresh p' hp'
    refine ⟨?_, (hb.published p').2 hpublished⟩
    have hne : p' ≠ p := by
      rintro rfl
      exact absurd (h.known name p' hp) (Nat.not_lt.2 hp')
    rw [hb.lines, Function.update_of_ne hne]
    exact hline
  case known =>
    rw [hpipes, hnext]
    exact h.known
  case distinct =>
    rw [hpipes]
    exact h.distinct
  case line =>
    intro name' p' c' e' hp' hc' he'
    rw [hpipes] at hp'
    rw [hlink, hhub, Hub.linkAt?_modifyAt, hb.lines]
    rcases hconnections name' c' e' hc' he' with ⟨rfl, rfl⟩ | ⟨hne, hc'⟩
    · cases hp.symm.trans hp'
      refine ⟨line, Function.update_self .., rfl, ?_⟩
      rw [if_pos rfl, if_pos rfl, hl]
      cases n.router.link? p <;> rfl
    · have hne : p' ≠ p := by
        rintro rfl
        exact hne (h.distinct name' name p' hp' hp)
      rw [if_neg hne, if_neg hne, Function.update_of_ne hne]
      exact h.line name' p' c' e' hp' hc' he'

theorem Mirrors.calls (h : n.Mirrors b) (hp : n.pipes.get? name = some p)
    (hc : n.connections.get? name = some c) (he : c.left = some e) (hl : n.linkAt? p = some l)
    (gone : Bool) (call : Call) (cs : List Call) {w : Worker}
    (hw : cs.foldl Engine.call ((c.worker .left e l).call call) = w) :
    ∃ ms, ((n.modify name fun c => c.store .left w gone).setSessionLink name w.session.link
      .left).Mirrors (b.run ms) := by
  obtain ⟨line, hline, hj⟩ := h.joined hp hc he hl
  have hb := Switchboard.becomes_calls hline
    (fun _ => ⟨c.leftward, c.rightward, c.leftLimit⟩) call cs
  have hmap := Engine.foldl_call_map DuplexEnd.bounded
    ((b.joined p line fun _ => ⟨c.leftward, c.rightward, c.leftLimit⟩).call call) cs
  rw [Engine.call_map DuplexEnd.bounded, hj, hw] at hmap
  subst hmap
  refine ⟨_, h.becomes hp hl hb ?_ ?_⟩
  · rw [setSessionLink, show (n.modify name _).pipes.get? name = some p from hp]
    rfl
  · intro name' c' e' hc' he'
    rw [connections_setSessionLink_left, show (n.modify name _).connections.get? name' = _ from
      Assoc.get?_modify ..] at hc'
    by_cases hn : name' = name
    · rw [if_pos hn] at hc'
      obtain ⟨c₀, -, rfl⟩ := Option.map_eq_some_iff.1 hc'
      refine .inl ⟨hn, ?_⟩
      cases gone with
      | true => cases he'
      | false => exact (Option.some.inj he').symm
    · rw [if_neg hn] at hc'
      exact .inr ⟨hn, hc'⟩

theorem run_inv {α : Type} {s : Side} {gone : Bool} {f : Worker → α × Worker} {r : α × Network}
    (h : n.run name s gone f = some r) :
    ∃ c e l, n.connections.get? name = some c ∧ c.engine? s = some e ∧
      n.sessionLink? name c s = some l := by
  rw [run] at h
  simp only [Option.bind_eq_bind, Option.bind_eq_some_iff] at h
  obtain ⟨c, hc, e, he, l, hl, -⟩ := h
  exact ⟨c, e, l, hc, he, hl⟩

theorem Mirrors.idle (h : n.Mirrors b) (hc : n.connections.get? name = some c)
    (he : c.left = some e) (hl : n.sessionLink? name c .left = some l) (gone : Bool) :
    ((n.modify name fun k => k.store .left (c.worker .left e l) gone).setSessionLink name l
      .left).Mirrors b := by
  obtain ⟨p, hp, hl⟩ := Option.bind_eq_some_iff.1 hl
  have hkept : (n.modify name fun k => k.store .left (c.worker .left e l) gone).setSessionLink name
      l .left = n.modify name fun k => k.store .left (c.worker .left e l) gone := by
    rw [setSessionLink, show (n.modify name _).pipes.get? name = some p from hp]
    exact congrArg (Network.mk · _) (Hub.modifyAt_eq_self hl)
  rw [hkept]
  apply h.modify
  intro c' e' hc' he'
  cases hc.symm.trans hc'
  cases gone with
  | true => cases he'
  | false =>
    cases he'
    exact he

/-- What an engine of a connection does by calls is nothing to the switchboard, or calls of an
engine of it. -/
theorem Mirrors.run {α : Type} (h : n.Mirrors b) {s : Side} {gone : Bool}
    {f : Worker → α × Worker} {r : α × Network} (hr : n.run name s gone f = some r)
    (hf : ∀ w, ∃ cs : List Call, (f w).2 = cs.foldl Engine.call w) :
    ∃ ms, r.2.Mirrors (b.run ms) := by
  obtain ⟨c, e, l, hc, he, hl⟩ := run_inv hr
  rw [run_eq hc he hl] at hr
  cases hr
  cases s with
  | right =>
    refine ⟨[], Mirrors.modify (h.modify ?_) fun _ _ _ he => he⟩
    exact fun _ _ _ he => he
  | left =>
    obtain ⟨cs, hw⟩ := hf (c.worker .left e l)
    simp only [hw]
    cases cs with
    | nil => exact ⟨[], h.idle hc he hl gone⟩
    | cons call cs =>
      obtain ⟨p, hp, hl⟩ := Option.bind_eq_some_iff.1 hl
      exact h.calls hp hc he hl gone call cs rfl

section Connect

variable (n : Network) (name : String) (left right : Settings) (leftLimit rightLimit : Option Nat)

theorem link?_connect (p : PipeId) :
    (n.connect name left right leftLimit rightLimit).router.link? p =
      if p = n.nextPipe then some (.new n.nextPipe left.highWater) else n.router.link? p := by
  rw [toHub_connect, Router.attach_new]
  exact Assoc.get?_insert ..

theorem loose_connect (p : PipeId) :
    (n.connect name left right leftLimit rightLimit).loose.get? p =
      if p = n.nextPipe then none else n.loose.get? p := by
  rw [toHub_connect, Assoc.get?_erase, Assoc.get?_insert]
  split <;> rfl

theorem pipes_connect (name' : String) :
    (n.connect name left right leftLimit rightLimit).pipes.get? name' =
      if name' = name then some n.nextPipe else n.pipes.get? name' := by
  rw [toHub_connect, Assoc.get?_insert]

theorem nextPipe_connect : (n.connect name left right leftLimit rightLimit).nextPipe.number =
    n.nextPipe.number + 4 := by
  rw [toHub_connect]
  rfl

end Connect

theorem Mirrors.connect (h : n.Mirrors b) (name : String) (left right : Settings)
    (leftLimit rightLimit : Option Nat) :
    ∃ ms, (n.connect name left right leftLimit rightLimit).Mirrors (b.run ms) := by
  obtain ⟨hline, hpublished⟩ := h.fresh n.nextPipe (Nat.le_refl _)
  let line : Line DuplexEnd := .untold left ("mem://" ++ name ++ "/r") true
    ⟨.empty, .empty, leftLimit⟩ ⟨.new n.nextPipe left.highWater⟩
  refine ⟨[.lay n.nextPipe left.highWater left ("mem://" ++ name ++ "/r") true
    ⟨.empty, .empty, leftLimit⟩, .attach n.nextPipe], ?_⟩
  have hb : b.run [.lay n.nextPipe left.highWater left ("mem://" ++ name ++ "/r") true
      ⟨.empty, .empty, leftLimit⟩, .attach n.nextPipe] =
      ⟨b.watch.play (.attach (.new n.nextPipe left.highWater)),
        update b.lines n.nextPipe (some line)⟩ := by
    simp only [Switchboard.run, List.foldl_cons, List.foldl_nil, Switchboard.play, hline,
      Function.update_self, hpublished]
    rfl
  rw [hb]
  have hne {name' : String} {p : PipeId} (hp : n.pipes.get? name' = some p) : p ≠ n.nextPipe := by
    rintro rfl
    exact Nat.lt_irrefl _ (h.known name' _ hp)
  constructor
  case router =>
    rw [toHub_connect, ← h.router]
    rfl
  case apart =>
    intro p l hl
    rw [loose_connect] at hl
    rw [link?_connect]
    split at hl
    · cases hl
    · next hp =>
      rw [if_neg hp]
      exact h.apart p l hl
  case fresh =>
    intro p hp
    rw [nextPipe_connect] at hp
    have hp' : p ≠ n.nextPipe := by
      rintro rfl
      omega
    obtain ⟨hline', hpublished'⟩ := h.fresh p (by omega)
    exact ⟨(Function.update_of_ne hp' ..).trans hline',
      (Function.update_of_ne hp' ..).trans hpublished'⟩
  case known =>
    intro name' p hp
    rw [pipes_connect] at hp
    rw [nextPipe_connect]
    split at hp
    · cases hp
      omega
    · have := h.known name' p hp
      omega
  case distinct =>
    intro name₁ name₂ p hp₁ hp₂
    rw [pipes_connect] at hp₁ hp₂
    split at hp₁
    · next he₁ =>
      split at hp₂
      · next he₂ => rw [he₁, he₂]
      · cases hp₁
        exact absurd rfl (hne hp₂)
    · split at hp₂
      · cases hp₂
        exact absurd rfl (hne hp₁)
      · exact h.distinct name₁ name₂ p hp₁ hp₂
  case line =>
    intro name' p c e hp hc he
    rw [show (n.connect name left right leftLimit rightLimit).connections.get? name' = _ from
      Assoc.get?_insert ..] at hc
    rw [pipes_connect] at hp
    rw [Hub.linkAt?, loose_connect, link?_connect]
    split at hp
    · next hn =>
      cases hp
      rw [if_pos hn] at hc
      cases hc
      cases he
      refine ⟨line, Function.update_self .., rfl, ?_⟩
      rw [if_pos rfl, if_pos rfl]
      rfl
    · next hn =>
      rw [if_neg hn] at hc
      obtain ⟨l, hl, hrest⟩ := h.line name' p c e hp hc he
      refine ⟨l, (Function.update_of_ne (hne hp) ..).trans hl, ?_⟩
      rw [if_neg (hne hp), if_neg (hne hp)]
      exact hrest

/-- Links change where they are, or their near ends are given up and lie loose. -/
theorem Mirrors.regroup (h : n.Mirrors b) {n' : Network} {b' : Switchboard DuplexEnd}
    (hconnections : n'.connections = n.connections) (hpipes : n'.pipes = n.pipes)
    (hnext : n'.nextPipe = n.nextPipe) (hrouter : b'.router = n'.router)
    (hpublished : b'.watch.published = b.watch.published)
    (hlinks : ∀ p, n'.loose.get? p = n.loose.get? p ∧
        (n'.router.link? p = none ↔ n.router.link? p = none) ∧ b'.lines p = b.lines p ∨
      ∃ l, n'.loose.get? p = some l ∧ n'.router.link? p = none ∧
        b'.lines p = (b.lines p).map fun e => e.withWorld e.stream.inner ⟨l⟩) : n'.Mirrors b' := by
  constructor
  case router => exact hrouter
  case apart =>
    intro p l hl
    rcases hlinks p with ⟨hloose, hlink, -⟩ | ⟨-, -, hlink, -⟩
    · exact hlink.2 (h.apart p l (hloose ▸ hl))
    · exact hlink
  case fresh =>
    intro p hp
    obtain ⟨hline, hnone⟩ := h.fresh p (hnext ▸ hp)
    rw [hpublished]
    refine ⟨?_, hnone⟩
    rcases hlinks p with ⟨-, -, hlines⟩ | ⟨l, -, -, hlines⟩
    · rw [hlines, hline]
    · rw [hlines, hline]
      rfl
  case known =>
    rw [hpipes, hnext]
    exact h.known
  case distinct =>
    rw [hpipes]
    exact h.distinct
  case line =>
    intro name p c e hp hc he
    obtain ⟨line, hline, hstate, hlink⟩ :=
      h.line name p c e (hpipes ▸ hp) (hconnections ▸ hc) he
    rcases hlinks p with ⟨hloose, hnone, hlines⟩ | ⟨l, hloose, hnone, hlines⟩
    · refine ⟨line, hlines.trans hline, hstate, ?_⟩
      rw [Hub.linkAt?] at hlink ⊢
      rw [hloose]
      cases hl : n.loose.get? p with
      | some l =>
        have hp := h.apart p l hl
        rw [hl, hp] at hlink
        rw [hnone.2 hp]
        exact hlink
      | none =>
        rw [hl] at hlink
        cases hl' : n'.router.link? p with
        | none => cases (hnone.1 hl').symm.trans hlink
        | some l => rfl
    · rw [hline] at hlines
      refine ⟨_, hlines, hstate, ?_⟩
      rw [Hub.linkAt?, hloose, hnone]
      rfl

theorem Mirrors.router_play (h : n.Mirrors b) {m : RouterMove} (hm : m.isOwn = true)
    (hd : ∀ p, m ≠ .detach p) :
    Mirrors { n with router := n.router.play m } (b.play (.own m)) := by
  rw [Switchboard.play, if_pos hm]
  have hgrip := Router.grip_play hm n.router
  refine h.regroup rfl rfl rfl ?_ (Watch.published_own hm) ?_
  · exact congrArg (Router.play · m) h.router
  · intro p
    refine .inl ⟨rfl, ?_, ?_⟩
    · have hview : (n.router.play m).view Link.grip = n.router.view Link.grip := by
        rw [hgrip]
        cases m with
        | detach p => exact absurd rfl (hd p)
        | _ => rfl
      have hp := congrFun hview p
      rw [← Option.map_eq_none_iff (f := Link.grip), ← Option.map_eq_none_iff (f := Link.grip)]
      exact iff_of_eq (congrArg (· = none) hp)
    · rcases b.hangUp_cases m p with he | ⟨rfl, -⟩
      · exact he
      · exact absurd rfl (hd p)

theorem Mirrors.detach (h : n.Mirrors b) (p : PipeId) :
    (n.detach p).2.Mirrors (b.play (.own (.detach p))) := by
  have hlink (p' : PipeId) : (n.router.detach p).2.link? p' =
      if p' = p then none else n.router.link? p' := by
    refine (Assoc.get?_erase ..).trans ?_
    rw [Router.pipes_forget]
    rfl
  have hfirst : (n.router.detach p).1 = n.router.link? p :=
    congrArg (·.get? p) (n.router.pipes_forget p)
  have hplay : b.play (.own (.detach p)) =
      ⟨b.watch.play (.detach p), b.hangUp (.detach p)⟩ := rfl
  have hrouter : (b.watch.play (.detach p)).router = (n.router.detach p).2 :=
    congrArg (fun r => (Router.detach r p).2) h.router
  rw [hplay]
  cases hl : n.router.link? p with
  | none =>
    have hdetach : n.router.detach p = (none, (n.router.detach p).2) := by rw [← hl, ← hfirst]
    have hn : (n.detach p).2 = { n with router := (n.router.detach p).2 } := by
      rw [Network.detach, Hub.detach, hdetach]
    rw [hn]
    refine h.regroup rfl rfl rfl hrouter rfl ?_
    intro p'
    refine .inl ⟨rfl, ?_, ?_⟩
    · simp only [hlink]
      split
      · next hp => simp only [hp, hl]
      · exact Iff.rfl
    · rcases b.hangUp_cases (.detach p) p' with he | ⟨hd, l, hl', -⟩
      · exact he
      · cases hd
        rw [h.router] at hl'
        cases hl.symm.trans hl'
  | some l =>
    have hdetach : n.router.detach p = (some l, (n.router.detach p).2) := by rw [← hl, ← hfirst]
    have hn : (n.detach p).2 = { n with
        router := (n.router.detach p).2
        loose := (n.loose.insert p l).modify p (·.drop .left) } := by
      rw [Network.detach, Hub.detach, hdetach]
      simp only [Hub.modifyAt, Assoc.contains, Assoc.get?_insert, if_true, Option.isSome_some]
    rw [hn]
    refine h.regroup rfl rfl rfl hrouter rfl ?_
    intro p'
    by_cases hp : p' = p
    · subst hp
      refine .inr ⟨l.drop .left, ?_, ?_, ?_⟩
      · simp only [Assoc.get?_modify, Assoc.get?_insert, if_true]
        rfl
      · simp only [hlink, if_true]
      · simp only [Switchboard.hangUp, h.router, hl, Function.update_self]
    · refine .inl ⟨?_, ?_, ?_⟩
      · simp only [Assoc.get?_modify, Assoc.get?_insert, if_neg hp]
      · simp only [hlink, if_neg hp]
      · simp only [Switchboard.hangUp, h.router, hl, Function.update_of_ne hp]

/-- The router of a network does something. A near end that it lets go of is dropped. -/
def own (n : Network) : RouterMove → Network
  | .detach p => (n.detach p).2
  | m => { n with router := n.router.play m }

theorem Mirrors.own (h : n.Mirrors b) {m : RouterMove} (hm : m.isOwn = true) :
    (n.own m).Mirrors (b.play (.own m)) := by
  by_cases hd : ∃ p, m = .detach p
  · obtain ⟨p, rfl⟩ := hd
    exact h.detach p
  · rw [not_exists] at hd
    have hown : n.own m = { n with router := n.router.play m } := by
      cases m with
      | detach p => exact absurd rfl (hd p)
      | _ => rfl
    rw [hown]
    exact h.router_play hm hd

/-- What can happen to a network. -/
inductive Deed where
  | connect (name : String) (left right : Settings) (leftLimit rightLimit : Option Nat)
  | signal (name : String) (s : Side) (g : Signal)
  | stop (name : String) (s : Side)
  | drop (name : String) (s : Side)
  | serve (name : String) (s : Side)
  /-- The application on the right does something to its link. -/
  | relink (name : String) (l : Link)
  /-- The router does something. -/
  | own (m : RouterMove)

def play (n : Network) : Deed → Network
  | .connect name left right leftLimit rightLimit => n.connect name left right leftLimit rightLimit
  | .signal name s g => (n.signal name s g).getD n
  | .stop name s => ((n.stop name s).map Prod.snd).getD n
  | .drop name s => (n.drop name s).getD n
  | .serve name s => n.serve name s
  | .relink name l => n.setSessionLink name l .right
  | .own m => if m.isOwn then n.own m else n

theorem Mirrors.run? {α : Type} (h : n.Mirrors b) (name : String) (s : Side) (gone : Bool)
    {f : Worker → α × Worker} (hf : ∀ w, ∃ cs : List Call, (f w).2 = cs.foldl Engine.call w) :
    ∃ ms, (((n.run name s gone f).map Prod.snd).getD n).Mirrors (b.run ms) := by
  cases hr : n.run name s gone f with
  | none => exact ⟨[], h⟩
  | some r => exact h.run hr hf

theorem Mirrors.play (h : n.Mirrors b) (d : Deed) : ∃ ms, (n.play d).Mirrors (b.run ms) := by
  cases d with
  | connect name left right leftLimit rightLimit =>
    exact h.connect name left right leftLimit rightLimit
  | signal name s g => exact h.run? name s false fun _ => ⟨[.signal g], rfl⟩
  | stop name s => exact h.run? name s false fun _ => ⟨[.discard], rfl⟩
  | drop name s => exact h.run? name s true fun _ => ⟨[.discard], rfl⟩
  | serve name s =>
    have hs := h.run? name s false (f := fun e => ((), e.serve)) Engine.exists_calls_serve
    rw [Network.play, Network.serve]
    cases hr : n.run name s false fun e => ((), e.serve) with
    | none => exact ⟨[], h⟩
    | some r =>
      rw [hr] at hs
      exact hs
  | relink name l => exact ⟨[], h.modify fun _ _ _ he => he⟩
  | own m =>
    rw [Network.play]
    split
    · next hm => exact ⟨[.own m], h.own hm⟩
    · exact ⟨[], h⟩

/-- Whatever happens to a network, its router and the engines that have the far ends of its links
stand as those of a run of a switchboard. -/
theorem exists_switchboard (s : Settings) (ids : IdentitySource) (ds : List Deed) :
    ∃ ms, (ds.foldl Network.play (new s ids)).Mirrors ((Switchboard.new s ids).run ms) := by
  induction ds using List.reverseRecOn with
  | nil => exact ⟨[], mirrors_new s ids⟩
  | append_singleton ds d ih =>
    obtain ⟨ms, h⟩ := ih
    obtain ⟨ms', h'⟩ := h.play d
    refine ⟨ms ++ ms', ?_⟩
    rw [List.foldl_append, Switchboard.run, List.foldl_append]
    exact h'

end Network

end Zmtp
