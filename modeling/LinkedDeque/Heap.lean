import LinkedDeque.Node

/-!
# LinkedDeque.Heap

The store in which nodes live:

* `Heap.alloc` gives out a handle that was never used before.
* `Heap.free` withdraws a handle for good, so a later use of it is visible as a failed look-up.
* `Heap.put` overwrites a live node, and leaves every other node as it is.
-/

namespace LinkedDeque

/-- Nodes by handle: a cell per handle ever given out, empty once its node was freed. -/
structure Heap (α : Type) where
  cells : Array (Option (Node α))

namespace Heap

variable {α : Type}

def empty : Heap α := ⟨#[]⟩

/-- The number of handles given out so far; every live node has a smaller handle. -/
def size (heap : Heap α) : Nat := heap.cells.size

def get? (heap : Heap α) (h : Handle) : Option (Node α) := heap.cells[h]?.join

def alloc (heap : Heap α) (n : Node α) : Handle × Heap α :=
  (heap.cells.size, ⟨heap.cells.push (some n)⟩)

def put (heap : Heap α) (h : Handle) (n : Node α) : Heap α :=
  ⟨heap.cells.setIfInBounds h (some n)⟩

def free (heap : Heap α) (h : Handle) : Heap α :=
  ⟨heap.cells.setIfInBounds h none⟩

/-- The handles of the live nodes, in the order in which they were given out. -/
def live (heap : Heap α) : List Handle :=
  (List.range heap.size).filter fun h => (heap.get? h).isSome

@[simp] theorem get?_empty (h : Handle) : (empty : Heap α).get? h = none := by
  simp [get?, empty]

theorem lt_size_of_get? {heap : Heap α} {h : Handle} {n : Node α} (hn : heap.get? h = some n) :
    h < heap.size := by
  refine Decidable.byContradiction fun hge => ?_
  have hge' : ¬ h < heap.cells.size := hge
  simp [get?, hge'] at hn

@[simp] theorem size_put (heap : Heap α) (h : Handle) (n : Node α) :
    (heap.put h n).size = heap.size := by simp [put, size]

@[simp] theorem size_free (heap : Heap α) (h : Handle) : (heap.free h).size = heap.size := by
  simp [free, size]

@[simp] theorem size_alloc (heap : Heap α) (n : Node α) :
    (heap.alloc n).2.size = heap.size + 1 := by
  simp [alloc, size]

theorem get?_put_same {heap : Heap α} {h : Handle} (n : Node α) (hlt : h < heap.size) :
    (heap.put h n).get? h = some n := by
  have hlt' : h < heap.cells.size := hlt
  simp [put, get?, hlt']

theorem get?_put_other {heap : Heap α} {h k : Handle} (n : Node α) (hne : k ≠ h) :
    (heap.put h n).get? k = heap.get? k := by
  simp [put, get?, Array.getElem?_setIfInBounds_ne hne.symm]

theorem get?_free_same (heap : Heap α) (h : Handle) : (heap.free h).get? h = none := by
  by_cases hlt : h < heap.cells.size
  · simp [free, get?, hlt]
  · simp [free, get?, hlt]

theorem get?_free_other {heap : Heap α} {h k : Handle} (hne : k ≠ h) :
    (heap.free h).get? k = heap.get? k := by
  simp [free, get?, Array.getElem?_setIfInBounds_ne hne.symm]

theorem get?_alloc_same (heap : Heap α) (n : Node α) :
    (heap.alloc n).2.get? (heap.alloc n).1 = some n := by
  simp [alloc, get?]

theorem get?_alloc_other {heap : Heap α} {n : Node α} {k : Handle} (hne : k ≠ heap.size) :
    (heap.alloc n).2.get? k = heap.get? k := by
  have hne' : k ≠ heap.cells.size := hne
  simp [alloc, get?, Array.getElem?_push, hne']

end Heap

end LinkedDeque
