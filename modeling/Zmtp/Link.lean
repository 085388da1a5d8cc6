import Zmtp.Identity

namespace Zmtp

structure PipeId where
  number : Nat
  deriving DecidableEq

namespace PipeId

def succ (p : PipeId) : PipeId := ⟨p.number + 1⟩

def describe (p : PipeId) : String := "pipe#" ++ toString p.number

end PipeId

inductive Side where
  | left
  | right
  deriving DecidableEq

namespace Side

def other : Side → Side
  | .left => .right
  | .right => .left

@[simp] theorem other_other (s : Side) : s.other.other = s := by cases s <;> rfl

end Side

structure LinkEnd where
  id : PipeId
  live : Bool
  /-- Published by the other end and not read yet, oldest first. -/
  inbox : List Part
  /-- Written here and not published yet, oldest first. -/
  staged : List Part
  /-- Whom the owner of this end takes to be at the other. -/
  identity : Identity
  deriving DecidableEq

namespace LinkEnd

def new (id : PipeId) : LinkEnd := ⟨id, true, [], [], .empty⟩

end LinkEnd

/-- Two ends that pass message parts to each other. What one end writes is staged until it is
published, so that a half-written message can be taken back. -/
structure Link where
  /-- How many parts of one direction may be unread or staged; zero means any number. -/
  highWater : Nat
  left : LinkEnd
  right : LinkEnd
  deriving DecidableEq

namespace Link

/-- A fresh link whose ends take the next two names. -/
def new (first : PipeId) (highWater : Nat) : Link := ⟨highWater, .new first, .new first.succ⟩

def get (l : Link) : Side → LinkEnd
  | .left => l.left
  | .right => l.right

def update (l : Link) (s : Side) (f : LinkEnd → LinkEnd) : Link :=
  match s with
  | .left => { l with left := f l.left }
  | .right => { l with right := f l.right }

/-- The other end is gone, and nothing written here can reach it. -/
def peerGone (l : Link) (s : Side) : Bool := !(l.get s.other).live

/-- The other end is gone and all that it published has been read. -/
def isClosed (l : Link) (s : Side) : Bool := l.peerGone s && (l.get s).inbox.isEmpty

def pending (l : Link) (s : Side) : Nat := (l.get s).inbox.length

def stagedCount (l : Link) (s : Side) : Nat := (l.get s).staged.length

/-- How many parts of the direction that leaves this end are unread or staged. -/
def load (l : Link) (s : Side) : Nat := l.pending s.other + l.stagedCount s

def canWrite (l : Link) (s : Side) : Bool :=
  !l.peerGone s && (l.highWater == 0 || decide (l.load s < l.highWater))

def read (l : Link) (s : Side) : Option Part × Link :=
  match (l.get s).inbox with
  | [] => (none, l)
  | p :: ps => (some p, l.update s fun e => { e with inbox := ps })

/-- Stages a part, or refuses it and changes nothing. -/
def write? (l : Link) (s : Side) (p : Part) : Option Link :=
  if l.canWrite s then some (l.update s fun e => { e with staged := e.staged ++ [p] }) else none

def rollback (l : Link) (s : Side) : Link := l.update s fun e => { e with staged := [] }

/-- Publishes what is staged at this end; it is lost if the other end is gone. -/
def flush (l : Link) (s : Side) : Link :=
  let staged := (l.get s).staged
  let l := l.rollback s
  if l.peerGone s then l else l.update s.other fun e => { e with inbox := e.inbox ++ staged }

def setIdentity (l : Link) (s : Side) (i : Identity) : Link :=
  l.update s fun e => { e with identity := i }

/-- Gives up this end, with all that it holds. What it published stays readable. -/
def drop (l : Link) (s : Side) : Link :=
  l.update s fun e => { e with live := false, inbox := [], staged := [] }

def drain (l : Link) (s : Side) : List Part × Link :=
  ((l.get s).inbox, l.update s fun e => { e with inbox := [] })

end Link

end Zmtp
