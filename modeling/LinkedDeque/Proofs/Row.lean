import LinkedDeque.Proofs.Linked

/-!
# LinkedDeque.Proofs.Row

A list as a row of entries, parted where the cursor stands:

* `Row.passed` — the entries that the cursor will not yield before it is reset.
* `Row.due`    — the entries that it will yield, the next one first.

The cursor is the node of the first entry that is due, and it is exhausted when none is. An entry
comes into the part where its position lies, and an entry that leaves leaves its part: neither moves
the parting, so the cursor is never on an entry that is gone.
-/

namespace LinkedDeque

variable {α : Type}

/-- The entries of a list, parted at its cursor. -/
structure Row (α : Type) where
  passed : List (Slot α)
  due : List (Slot α)

namespace Row

def empty : Row α := ⟨[], []⟩

def slots (r : Row α) : List (Slot α) := r.passed ++ r.due

def handles (r : Row α) : List Handle := handlesOf r.slots

def entries (r : Row α) : List (Entry α) := r.slots.map Slot.entry

def length (r : Row α) : Nat := r.slots.length

def cursor (r : Row α) : Option Handle := ahead r.due none

def tip? (side : Side) (r : Row α) : Option (Slot α) :=
  match side with
  | .before => r.slots.head?
  | .after => r.slots.getLast?

def filter (p : Slot α → Bool) (r : Row α) : Row α := ⟨r.passed.filter p, r.due.filter p⟩

def erase (h : Handle) (r : Row α) : Row α := r.filter fun s => s.handle ≠ h

/-- Puts an entry at a position. The cursor stays on its entry, which the new one may come before;
behind an exhausted cursor there is no place. -/
def insert (i : Nat) (s : Slot α) (r : Row α) : Row α :=
  if i ≤ r.passed.length then ⟨r.passed.insertIdx i s, r.due⟩
  else ⟨r.passed, r.due.insertIdx (i - r.passed.length) s⟩

def write (h : Handle) (x : α) (r : Row α) : Row α :=
  let f := fun s : Slot α => if s.handle = h then { s with entry := s.entry.update fun _ => x } else s
  ⟨r.passed.map f, r.due.map f⟩

def rewind (r : Row α) : Row α := ⟨[], r.slots⟩

def advance (r : Row α) : Row α := ⟨r.passed ++ r.due.take 1, r.due.drop 1⟩

/-! ## The entries after each change -/

theorem insertIdx_append (i : Nat) (s : Slot α) (a b : List (Slot α)) :
    (a ++ b).insertIdx i s =
      if i ≤ a.length then a.insertIdx i s ++ b else a ++ b.insertIdx (i - a.length) s := by
  induction a generalizing i with
  | nil =>
    cases i with
    | zero => simp
    | succ i => simp
  | cons t a ih =>
    cases i with
    | zero => simp
    | succ i =>
      simp only [List.cons_append, List.insertIdx_succ_cons, ih, List.length_cons,
        Nat.add_le_add_iff_right, Nat.add_sub_add_right]
      split <;> rfl

theorem insertIdx_length (s : Slot α) (a b : List (Slot α)) :
    (a ++ b).insertIdx a.length s = a ++ s :: b := by
  rw [insertIdx_append, if_pos (Nat.le_refl _), List.insertIdx_length_self, List.append_assoc]
  rfl

theorem filter_insertIdx {p : Slot α → Bool} {s : Slot α} (hs : p s = false) (i : Nat)
    (a : List (Slot α)) : (a.insertIdx i s).filter p = a.filter p := by
  induction a generalizing i with
  | nil =>
    cases i with
    | zero => simp [hs]
    | succ i => simp
  | cons t a ih =>
    cases i with
    | zero => simp [hs]
    | succ i => rw [List.insertIdx_succ_cons, List.filter_cons, List.filter_cons, ih i]

section Slots

variable {s t : Slot α} {a b : List (Slot α)} {h : Handle}

@[simp] theorem slots_empty : (empty : Row α).slots = [] := rfl

theorem length_entries (r : Row α) : r.entries.length = r.length := List.length_map _

@[simp] theorem slots_rewind (r : Row α) : r.rewind.slots = r.slots := rfl

@[simp] theorem slots_advance (r : Row α) : r.advance.slots = r.slots := by
  rw [slots, advance, List.append_assoc, List.take_append_drop]
  rfl

theorem advance_exhausted {r : Row α} (hd : r.due = []) : r.advance = r := by
  obtain ⟨passed, due⟩ := r
  cases hd
  simp [advance]

@[simp] theorem slots_filter (p : Slot α → Bool) (r : Row α) :
    (r.filter p).slots = r.slots.filter p := by
  simp [slots, filter]

theorem filter_filter (p q : Slot α → Bool) (r : Row α) :
    (r.filter p).filter q = r.filter fun s => p s && q s := by
  simp [filter, List.filter_filter, Bool.and_comm]

theorem nodup_filter {r : Row α} (p : Slot α → Bool) (hnodup : r.handles.Nodup) :
    (r.filter p).handles.Nodup := by
  rw [handles, slots_filter]
  exact hnodup.sublist (List.filter_sublist.map Slot.handle)

theorem mem_handles_filter {r : Row α} {p : Slot α → Bool} (hnodup : r.handles.Nodup)
    (hs : s ∈ r.slots) : s.handle ∈ (r.filter p).handles ↔ p s = true := by
  rw [handles, slots_filter, handlesOf, List.mem_map]
  constructor
  · rintro ⟨t, ht, he⟩
    rw [List.mem_filter] at ht
    rw [← List.inj_on_of_nodup_map hnodup ht.1 hs he]
    exact ht.2
  · intro hp
    exact ⟨s, List.mem_filter.2 ⟨hs, hp⟩, rfl⟩

@[simp] theorem slots_insert (i : Nat) (s : Slot α) (r : Row α) :
    (r.insert i s).slots = r.slots.insertIdx i s := by
  unfold insert slots
  rw [insertIdx_append]
  split <;> rfl

theorem slots_write (h : Handle) (x : α) (r : Row α) :
    (r.write h x).slots = r.slots.map fun s =>
      if s.handle = h then { s with entry := s.entry.update fun _ => x } else s := by
  simp [slots, write]

@[simp] theorem handles_write (h : Handle) (x : α) (r : Row α) :
    (r.write h x).handles = r.handles := by
  rw [handles, handles, handlesOf, slots_write, List.map_map]
  refine List.map_congr_left ?_
  intro s _
  simp only [Function.comp]
  split <;> rfl

theorem filter_handle_self (ha : h ∉ handlesOf a) : a.filter (fun t => t.handle ≠ h) = a := by
  rw [List.filter_eq_self]
  intro t ht
  have hne : t.handle ≠ h := fun he => ha (he ▸ List.mem_map_of_mem ht)
  simpa using hne

theorem not_mem_of_split (hnodup : (handlesOf (a ++ s :: b)).Nodup) :
    s.handle ∉ handlesOf a ∧ s.handle ∉ handlesOf b := by
  rw [handlesOf, List.map_append, List.map_cons, List.nodup_middle, List.nodup_cons,
    List.mem_append, not_or] at hnodup
  exact hnodup.1

/-- A node is not among those on both sides of its place. -/
theorem not_mem_gap (hnodup : (handlesOf (a ++ s :: b)).Nodup) : s.handle ∉ handlesOf (a ++ b) := by
  rw [handlesOf, List.map_append, List.mem_append, not_or]
  exact not_mem_of_split hnodup

theorem filter_handle_ne (hnodup : (handlesOf (a ++ s :: b)).Nodup) :
    (a ++ s :: b).filter (fun t => t.handle ≠ s.handle) = a ++ b := by
  obtain ⟨ha, hb⟩ := not_mem_of_split hnodup
  rw [List.filter_append, List.filter_cons_of_neg (by simp), filter_handle_self ha,
    filter_handle_self hb]

theorem split_at {r : Row α} {i : Nat} (hs : r.slots[i]? = some s) :
    r.slots = r.slots.take i ++ s :: r.slots.drop (i + 1) ∧ i = (r.slots.take i).length := by
  obtain ⟨hi, hs⟩ := List.getElem?_eq_some_iff.1 hs
  rw [← hs, ← List.drop_eq_getElem_cons hi, List.take_append_drop, List.length_take,
    Nat.min_eq_left (Nat.le_of_lt hi)]
  exact ⟨rfl, rfl⟩

theorem split_unique {a' b' : List (Slot α)} (hnodup : (handlesOf (a ++ s :: b)).Nodup)
    (he : a ++ s :: b = a' ++ t :: b') (hh : s.handle = t.handle) : a = a' ∧ s = t ∧ b = b' := by
  induction a generalizing a' with
  | nil =>
    cases a' with
    | nil => simpa using he
    | cons u a' =>
      rw [List.nil_append, List.cons_append, List.cons.injEq] at he
      rw [List.nil_append, he.2, handlesOf, List.map_cons, List.nodup_cons, hh] at hnodup
      exact absurd (by simp) hnodup.1
  | cons u a ih =>
    rw [List.cons_append, handlesOf, List.map_cons, List.nodup_cons] at hnodup
    cases a' with
    | nil =>
      rw [List.nil_append, List.cons_append, List.cons.injEq] at he
      rw [he.1, ← hh] at hnodup
      exact absurd (by simp) hnodup.1
    | cons v a' =>
      rw [List.cons_append, List.cons_append, List.cons.injEq] at he
      obtain ⟨ha, hs, hb⟩ := ih hnodup.2 he.2
      exact ⟨by rw [he.1, ha], hs, hb⟩

theorem slots_erase {r : Row α} (hr : r.slots = a ++ s :: b) (hnodup : r.handles.Nodup) :
    (r.erase s.handle).slots = a ++ b := by
  rw [erase, slots_filter, hr]
  exact filter_handle_ne (by rw [← hr]; exact hnodup)

/-- An entry of a new node that leaves again leaves the row as it was. -/
theorem erase_insert {r : Row α} (hfresh : s.handle ∉ r.handles) (i : Nat) :
    (r.insert i s).erase s.handle = r := by
  rw [handles, slots, handlesOf, List.map_append, List.mem_append, not_or] at hfresh
  have hpassed := filter_handle_self (a := r.passed) hfresh.1
  have hdue := filter_handle_self (a := r.due) hfresh.2
  rw [insert]
  split
  · rw [erase, filter, filter_insertIdx (by simp), hpassed, hdue]
  · rw [erase, filter, filter_insertIdx (by simp), hpassed, hdue]

/-- Another entry in the place of one that left. -/
theorem slots_insert_erase {r : Row α} (hr : r.slots = a ++ s :: b) (hnodup : r.handles.Nodup) :
    ((r.erase s.handle).insert a.length t).slots = a ++ t :: b := by
  rw [slots_insert, slots_erase hr hnodup, insertIdx_length]

theorem map_write_self (x : α) (ha : h ∉ handlesOf a) :
    (a.map fun t => if t.handle = h then { t with entry := t.entry.update fun _ => x } else t) = a := by
  conv => rhs; rw [← List.map_id a]
  refine List.map_congr_left ?_
  intro t ht
  have hne : t.handle ≠ h := fun he => ha (he ▸ List.mem_map_of_mem ht)
  rw [if_neg hne]
  rfl

theorem slots_write_split {r : Row α} (hr : r.slots = a ++ s :: b) (hnodup : r.handles.Nodup)
    (x : α) : (r.write s.handle x).slots =
      a ++ { s with entry := s.entry.update fun _ => x } :: b := by
  rw [handles, hr] at hnodup
  obtain ⟨ha, hb⟩ := not_mem_of_split hnodup
  rw [slots_write, hr, List.map_append, List.map_cons, map_write_self x ha, map_write_self x hb,
    if_pos rfl]

end Slots

/-! ## The cursor after each change -/

section Cursor

variable {r : Row α} {s : Slot α} {a b : List (Slot α)}

theorem cursor_insert {i : Nat} (hi : i ≤ r.length) : (r.insert i s).cursor = r.cursor := by
  unfold insert
  split
  · rfl
  · rename_i hgt
    rw [length, slots, List.length_append] at hi
    cases hd : r.due with
    | nil => rw [hd] at hi; simp at hi; omega
    | cons t rest =>
      obtain ⟨j, hj⟩ : ∃ j, i - r.passed.length = j + 1 := ⟨i - r.passed.length - 1, by omega⟩
      rw [hj, cursor, cursor, hd, List.insertIdx_succ_cons]
      rfl

@[simp] theorem cursor_write (h : Handle) (x : α) (r : Row α) :
    (r.write h x).cursor = r.cursor := by
  rw [cursor, cursor, write]
  cases r.due with
  | nil => rfl
  | cons s rest =>
    simp only [List.map_cons, ahead_cons]
    split <;> rfl

theorem cursor_mem {h : Handle} (hc : r.cursor = some h) : h ∈ r.handles := by
  have hd : h ∈ handlesOf r.due := mem_of_ahead hc
  rw [handles, handlesOf, slots, List.map_append]
  exact List.mem_append_right _ hd

theorem cursor_erase (hr : r.slots = a ++ s :: b) (hnodup : r.handles.Nodup) :
    (r.erase s.handle).cursor = if r.cursor = some s.handle then ahead b none else r.cursor := by
  rw [erase, cursor, cursor, filter]
  cases hd : r.due with
  | nil => simp
  | cons t rest =>
    have hr' : a ++ s :: b = r.passed ++ t :: rest := by rw [← hr, slots, hd]
    by_cases he : s.handle = t.handle
    · rw [handles, hr] at hnodup
      obtain ⟨-, rfl, rfl⟩ := split_unique hnodup hr' he
      have hkeep := filter_handle_ne (a := []) (s := s) (b := b)
        (hnodup.sublist ((List.sublist_append_right a (s :: b)).map Slot.handle))
      rw [List.nil_append, List.nil_append] at hkeep
      rw [hkeep, ahead_cons, if_pos rfl]
    · have he' : t.handle ≠ s.handle := fun h => he h.symm
      rw [List.filter_cons_of_pos (by simpa using he')]
      simp [he']

end Cursor

end Row

end LinkedDeque
