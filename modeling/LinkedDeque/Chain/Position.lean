import LinkedDeque.Chain

/-!
# LinkedDeque.Chain.Position

Nodes by position. `Linkage.seek` walks from the nearer end, and `Linkage.find` and
`Linkage.findRelative` look a position up, the latter with negative positions counted back from the
tail.
-/

namespace LinkedDeque.Linkage

variable {α : Type}

def follow (l : Linkage α) (side : Side) : Nat → Handle → Except Fault Handle
  | 0, h => .ok h
  | count + 1, h =>
    match l.link side h with
    | .error e => .error e
    | .ok none => .error .missingLink
    | .ok (some next) => l.follow side count next

/-- The node at a position of a non-empty chain, reached from the head for the first half of the
positions and from the tail for the others. -/
def seek (l : Linkage α) (span : Span) (index : Nat) : Except Fault Handle :=
  if index < span.len.val / 2 then l.follow .after index span.head
  else if index ≤ span.lastIndex then l.follow .before (span.lastIndex - index) span.tail
  else .error .indexPastEnd

def find (l : Linkage α) (index : Nat) : Except Fault (Option Handle) :=
  match l.chain.ends with
  | .empty => .ok none
  | .full span => if index < span.len.val then some <$> l.seek span index else .ok none

/--
The absolute position that a signed one names in a chain of `len` nodes: a negative one counts back
from the length. What lies before the head is no position, and neither is a sum beyond the largest
signed number.
-/
def absoluteIndex? (len : Nat) (index : Int64) : Option Nat :=
  if index.toInt < 0 then
    let sum := index.toInt + len
    if sum < 0 ∨ Int64.maxValue.toInt < sum then none else some sum.toNat
  else some index.toInt.toNat

/-- The node at a signed position: `-1` is the last node, `-length` the first. -/
def findRelative (l : Linkage α) (index : Int64) : Except Fault (Option Handle) :=
  match absoluteIndex? l.length index with
  | none => .ok none
  | some i => l.find i

end LinkedDeque.Linkage
