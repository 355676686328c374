/-!
# LinkedDeque.Allocator

The outcome of node allocations: a pattern says which attempts are refused, counted from when the
pattern was set.
-/

namespace LinkedDeque

/-- A pattern of refusals and the number of attempts made under it. -/
structure Allocator where
  attempts : Nat
  refuses : Nat → Bool

namespace Allocator

def generous : Allocator := ⟨0, fun _ => false⟩

/-- An allocator that starts counting under a pattern. -/
def ofPattern (refuses : Nat → Bool) : Allocator := ⟨0, refuses⟩

/-- The pattern that lets `skip` attempts succeed, refuses the next `n`, and nothing after them. -/
def refuseNext (skip n : Nat) : Nat → Bool := fun k => skip ≤ k && k < skip + n

/-- One attempt: whether it is refused, and the allocator after it. -/
def attempt (a : Allocator) : Bool × Allocator :=
  (a.refuses a.attempts, { a with attempts := a.attempts + 1 })

end Allocator

end LinkedDeque
