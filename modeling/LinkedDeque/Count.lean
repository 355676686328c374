import LinkedDeque.Inspect

/-!
# LinkedDeque.Count

The number of nodes of a non-empty chain: at least one, and below `2 ^ 64`. Both bounds are part of
the type, so an empty chain has no count and adding one node too many is visible as `none`.
-/

namespace LinkedDeque

/-- One more than the largest count of nodes that a chain can record: `2 ^ 64`. -/
abbrev capacity : Nat := 18446744073709551616

/-- The number of nodes of a non-empty chain. -/
structure Count where
  val : Nat
  pos : 0 < val
  fits : val < capacity
deriving DecidableEq

namespace Count

def one : Count := ⟨1, by decide, by decide⟩

/-- Zero and numbers of `2 ^ 64` or more are no counts. -/
def ofNat? (n : Nat) : Option Count :=
  if h : 0 < n ∧ n < capacity then some ⟨n, h.1, h.2⟩ else none

/-- The count of `k` more nodes, unless it passes the capacity. -/
def add? (c : Count) (k : Nat) : Option Count :=
  if h : c.val + k < capacity then some ⟨c.val + k, Nat.add_pos_left c.pos k, h⟩ else none

/-- The count of `k` fewer nodes, unless none is left. -/
def sub? (c : Count) (k : Nat) : Option Count :=
  if h : 0 < c.val - k then
    some ⟨c.val - k, h, Nat.lt_of_le_of_lt (Nat.sub_le c.val k) c.fits⟩
  else none

def inspect (c : Count) : Inspect := .wrapped "Length" (.num c.val)

@[ext] theorem ext {c d : Count} (h : c.val = d.val) : c = d := by
  cases c; cases d; simp_all

theorem add?_one_eq_none_iff (c : Count) : c.add? 1 = none ↔ c.val = capacity - 1 := by
  have := c.fits
  unfold add?
  simp only [capacity] at *
  split <;> simp <;> omega

theorem sub?_one_eq_none_iff (c : Count) : c.sub? 1 = none ↔ c.val = 1 := by
  have := c.pos
  unfold sub?
  split <;> simp <;> omega

theorem val_of_add? {c d : Count} {k : Nat} (h : c.add? k = some d) : d.val = c.val + k := by
  unfold add? at h
  split at h
  · cases h; rfl
  · cases h

theorem val_of_sub? {c d : Count} {k : Nat} (h : c.sub? k = some d) : d.val = c.val - k := by
  unfold sub? at h
  split at h
  · cases h; rfl
  · cases h

end Count

end LinkedDeque
