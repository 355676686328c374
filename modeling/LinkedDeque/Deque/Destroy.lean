import LinkedDeque.Deque.Basic

/-!
# LinkedDeque.Deque.Destroy

The end of a list. Its record is emptied first; then every node is freed and its payload destroyed,
from front to back. A destructor that panics ends this, and the nodes behind are abandoned: the
record no longer leads to them.
-/

namespace LinkedDeque.Deque

open Act

variable {σ α : Type}

/-- Frees the nodes from one on and destroys their payloads; a bound on their number is given. -/
def disposeFrom : Nat → Option Handle → Act σ α Unit
  | _, none => return ()
  | 0, some _ => throw (.fault .endless)
  | fuel + 1, some h => do
    let next ← linking (.getLink .after h)
    let e ← linking (.release h)
    dispose e.value
    disposeFrom fuel next

def clear (override : Option (Destructor σ α)) : Act σ α Unit := do
  let len ← length
  let head ← tip? .before
  let bound ← read fun l => .ok l.heap.size
  linking (.setCursor none)
  linking (.setEnds .empty)
  withOverride override (disposeFrom bound head)
  if 0 < len then log (.destroy len)

/-- Ends a list whose payloads go to its own destructor. -/
def destroy : Act σ α Unit := clear none

/-- Ends a list whose payloads go to the destructor given; the list itself ends after that, also
when the destructor panics. -/
def destroyWith (d : Destructor σ α) : Act σ α Unit := do
  try
    clear (some d)
  catch p =>
    destroy
    throw p
  destroy

end LinkedDeque.Deque
