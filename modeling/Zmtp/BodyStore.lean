namespace Zmtp

/-- How storage for message bodies is obtained. -/
inductive Placement where
  | heap
  | paged (pageSize : Nat)
  deriving DecidableEq

/-- A piece of storage: `size` bytes of a block from an offset on. -/
structure Region where
  block : Nat
  offset : Nat
  size : Nat
  deriving DecidableEq

namespace Region

def overlaps (a b : Region) : Bool :=
  a.block == b.block && decide (a.offset < b.offset + b.size) &&
    decide (b.offset < a.offset + a.size) && a.size != 0 && b.size != 0

/-- No two of the regions share a byte. -/
def disjoint : List Region → Bool
  | [] => true
  | r :: rs => rs.all (fun s => !r.overlaps s) && disjoint rs

end Region

/-- Hands out storage for message bodies. A paged store carves small bodies out of a shared page and
gives a block of its own to any body larger than a quarter of a page. -/
structure BodyStore where
  placement : Placement
  /-- Blocks handed out so far. -/
  blocks : Nat
  /-- The block that is the current page. -/
  page : Nat
  /-- Bytes left in the current page. -/
  left : Nat
  deriving DecidableEq

namespace BodyStore

def defaultPageSize : Nat := 64 * 1024

def new (placement : Placement) : BodyStore := ⟨placement, 0, 0, 0⟩

def ownBlock (s : BodyStore) (size : Nat) : Region × BodyStore :=
  (⟨s.blocks, 0, size⟩, { s with blocks := s.blocks + 1 })

/-- Opens a new page unless the body fits into the current one. -/
def pageFor (s : BodyStore) (pageSize size : Nat) : BodyStore :=
  if s.left < size then { s with page := s.blocks, blocks := s.blocks + 1, left := pageSize }
  else s

def allocate (s : BodyStore) (size : Nat) : Region × BodyStore :=
  match s.placement with
  | .heap => s.ownBlock size
  | .paged pageSize =>
    if size = 0 then (⟨0, 0, 0⟩, s)
    else if pageSize / 4 < size then s.ownBlock size
    else
      let s := s.pageFor pageSize size
      (⟨s.page, pageSize - s.left, size⟩, { s with left := s.left - size })

def allocateAll (s : BodyStore) (sizes : List Nat) : BodyStore :=
  sizes.foldl (fun s n => (s.allocate n).2) s

end BodyStore

end Zmtp
