import Zmtp.Proofs.Router.Aside
import Zmtp.Proofs.Router.Envelopes
import Zmtp.Proofs.Switchboard.Line

namespace Zmtp

open Function (update)

/-- Whether a router makes a move by itself. -/
def RouterMove.isOwn : RouterMove → Bool
  | .attach _ | .far _ _ => false
  | .detach _ | .readable _ | .writable _ | .send _ | .rollback | .mandate _ | .ask | .receive => true

/-- A router finds its link as an engine left it. -/
def Watch.after (w : Watch) (p : PipeId) (l : Link) : Watch :=
  match w.router.link? p with
  | none => w
  | some l₀ => { w with
      router := w.router.modifyLink p fun _ => l
      published := update w.published p
        ((w.published p).map (· ++ l.left.inbox.drop l₀.left.inbox.length)) }

/-- A router and the engines that have the far ends of its links. -/
structure Switchboard (τ : Type) where
  watch : Watch
  lines : PipeId → Option (Line τ)

namespace Switchboard

variable {τ : Type}

/-- What happens next. -/
inductive Move (τ : Type) where
  /-- A new engine gets the far end of a new link. -/
  | lay (p : PipeId) (highWater : Nat) (s : Settings) (endpoint : String) (monitored : Bool) (t : τ)
  /-- The router gets the near end. -/
  | attach (p : PipeId)
  /-- Something happens to the stream of an engine, and then the engine is called. -/
  | call (p : PipeId) (world : τ → τ) (c : Call)
  /-- The router does something. -/
  | own (m : RouterMove)

def new (s : Settings) (ids : IdentitySource) : Switchboard τ := ⟨.new s ids, fun _ => none⟩

def router (b : Switchboard τ) : Router := b.watch.router

/-- The engine of a line at the link as it is now. -/
def joined (b : Switchboard τ) (p : PipeId) (e : Line τ) (world : τ → τ) : Line τ :=
  e.withWorld (world e.stream.inner) ⟨(b.router.link? p).getD e.session.inner.link⟩

/-- What is left of the lines when the router does something: a near end that it lets go of is
dropped. -/
def hangUp (b : Switchboard τ) (m : RouterMove) : PipeId → Option (Line τ) :=
  match m with
  | .detach p =>
    match b.router.link? p with
    | none => b.lines
    | some l => update b.lines p
        ((b.lines p).map fun e => e.withWorld e.stream.inner ⟨l.drop .left⟩)
  | _ => b.lines

variable [ByteStream τ]

def play (b : Switchboard τ) : Move τ → Switchboard τ
  | .lay p highWater s endpoint monitored t =>
    match b.lines p with
    | some _ => b
    | none => { b with
        lines := update b.lines p (some (.untold s endpoint monitored t ⟨.new p highWater⟩)) }
  | .attach p =>
    match b.lines p, b.watch.published p with
    | some e, none => { b with watch := b.watch.play (.attach e.session.inner.link) }
    | _, _ => b
  | .call p world c =>
    match b.lines p with
    | none => b
    | some e =>
      let e := (b.joined p e world).call c
      ⟨b.watch.after p e.session.inner.link, update b.lines p (some e)⟩
  | .own m => if m.isOwn then ⟨b.watch.play m, b.hangUp m⟩ else b

def run (b : Switchboard τ) (ms : List (Move τ)) : Switchboard τ := ms.foldl play b

/-- No call of an engine ends in the middle of a message. -/
def Rounds (b : Switchboard τ) : Move τ → Prop
  | .call p world c => ∀ e ∈ b.lines p, Whole ((b.joined p e world).call c).session.taken
  | _ => True

/-- No pipe that leaves displaces another in the middle of a message. -/
def Spares (b : Switchboard τ) : Move τ → Prop
  | .own m => b.watch.Spares m
  | _ => True

/-- Every move of a run is as it should be when its turn comes. -/
def Always (ok : Switchboard τ → Move τ → Prop) : Switchboard τ → List (Move τ) → Prop
  | _, [] => True
  | b, m :: ms => ok b m ∧ Always ok (b.play m) ms

instance (b : Switchboard τ) : DecidablePred b.Rounds
  | .call _ _ _ => inferInstanceAs (Decidable (∀ _ ∈ _, Whole _))
  | .lay .. | .attach _ | .own _ => isTrue trivial

instance (b : Switchboard τ) : DecidablePred b.Spares
  | .own m => inferInstanceAs (Decidable (b.watch.Spares m))
  | .lay .. | .attach _ | .call _ _ _ => isTrue trivial

instance decidableAlways (ok : Switchboard τ → Move τ → Prop) [∀ b, DecidablePred (ok b)] :
    ∀ b ms, Decidable (Always ok b ms)
  | _, [] => isTrue trivial
  | b, m :: ms =>
    have := decidableAlways ok (b.play m) ms
    inferInstanceAs (Decidable (ok b m ∧ Always ok (b.play m) ms))

end Switchboard

end Zmtp
