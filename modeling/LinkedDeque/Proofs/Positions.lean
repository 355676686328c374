import LinkedDeque.Proofs.Scene

/-!
# LinkedDeque.Proofs.Positions

A row by positions rather than by nodes:

* `Row.eraseAt`, `Row.writeAt` — an entry erased or overwritten where it stands. On a row without
  repetition they are what `Row.erase` and `Row.write` do to the node there.
* `Row.cursorIndex?`          — the position of the cursor, and the law by which each change moves it.

A change at a position never looks at a node, so rows with the same entries stay so under it.
-/

namespace LinkedDeque

variable {α : Type}

/-! ## Where the cursor goes -/

/-- A position in a list of `n` entries, unless it lies beyond the last of them. -/
def within (n i : Nat) : Option Nat := if i < n then some i else none

/-- A position after an entry came in at position `i`. -/
def opened (i c : Nat) : Nat := if i ≤ c then c + 1 else c

/-- A position after the entry at position `i` left a list of `n`. The position of the entry itself is
then that of the one behind it, if there is one. -/
def closed (n i c : Nat) : Option Nat := if i < c then some (c - 1) else within (n - 1) c

/-- The position of the first entry that was kept, from position `c` on: the number of those kept before. -/
def survivor (kept : List Bool) (c : Nat) : Option Nat :=
  if true ∈ kept.drop c then some ((kept.take c).count true) else none

namespace Row

variable {r : Row α} {s : Slot α} {a b : List (Slot α)} {i : Nat}

/-! ## Changes at a position -/

/-- A change at a position, made in the part where the position lies. -/
def changeAt (f : Nat → List (Slot α) → List (Slot α)) (i : Nat) (r : Row α) : Row α :=
  if i < r.passed.length then ⟨f i r.passed, r.due⟩ else ⟨r.passed, f (i - r.passed.length) r.due⟩

def eraseAt : Nat → Row α → Row α := changeAt fun i run => run.eraseIdx i

def writeAt (x : α) : Nat → Row α → Row α :=
  changeAt fun i run => run.modify i fun s => { s with entry := s.entry.update fun _ => x }

/-- An entry is in the part that its position says, with the rest of that part around it. -/
theorem part_of_split (hr : r.slots = a ++ s :: b) :
    (∃ c, r.passed = a ++ s :: c ∧ b = c ++ r.due) ∨ ∃ c, r.due = c ++ s :: b ∧ a = r.passed ++ c := by
  rw [slots, List.append_eq_append_iff] at hr
  rcases hr with ⟨c, ha, hdue⟩ | ⟨c, hpassed, hdue⟩
  · exact .inr ⟨c, hdue, ha⟩
  · cases c with
    | nil => exact .inr ⟨[], hdue.symm, by simpa using hpassed.symm⟩
    | cons t c =>
      rw [List.cons_append, List.cons.injEq] at hdue
      obtain ⟨rfl, rfl⟩ := hdue
      exact .inl ⟨c, hpassed, rfl⟩

/-- A change of both parts that only concerns one node is one at the position of that node. -/
theorem eq_changeAt {g : List (Slot α) → List (Slot α)} {f : Nat → List (Slot α) → List (Slot α)}
    (hs : r.slots[i]? = some s) (hnodup : r.handles.Nodup)
    (hkeep : ∀ c, s.handle ∉ handlesOf c → g c = c)
    (hchange : ∀ c d, s.handle ∉ handlesOf c → s.handle ∉ handlesOf d →
      g (c ++ s :: d) = f c.length (c ++ s :: d)) :
    ⟨g r.passed, g r.due⟩ = r.changeAt f i := by
  obtain ⟨hr, hi⟩ := split_at hs
  rw [handles, hr] at hnodup
  obtain ⟨ha, hb⟩ := not_mem_of_split hnodup
  rw [hi]
  generalize r.slots.take i = a, r.slots.drop (i + 1) = b at hr ha hb
  rcases part_of_split hr with ⟨c, hpassed, rfl⟩ | ⟨c, hdue, rfl⟩
  · rw [handlesOf, List.map_append, List.mem_append, not_or] at hb
    rw [changeAt, if_pos (by rw [hpassed]; simp), hkeep _ hb.2, hpassed, hchange a c ha hb.1]
  · rw [handlesOf, List.map_append, List.mem_append, not_or] at ha
    rw [changeAt, if_neg (by simp), List.length_append, Nat.add_sub_cancel_left, hkeep _ ha.1, hdue,
      hchange c b ha.2 hb]

theorem erase_eq_eraseAt (hs : r.slots[i]? = some s) (hnodup : r.handles.Nodup) :
    r.erase s.handle = r.eraseAt i := by
  refine eq_changeAt hs hnodup (fun c hc => filter_handle_self hc) ?_
  intro c d hc hd
  rw [List.filter_append, List.filter_cons_of_neg (by simp), filter_handle_self hc,
    filter_handle_self hd, List.eraseIdx_append_of_length_le (Nat.le_refl _), Nat.sub_self,
    List.eraseIdx_cons_zero]

theorem modify_length (f : Slot α → Slot α) (s : Slot α) (a b : List (Slot α)) :
    (a ++ s :: b).modify a.length f = a ++ f s :: b := by
  induction a with
  | nil => rfl
  | cons t a ih => exact congrArg (t :: ·) ih

theorem write_eq_writeAt (hs : r.slots[i]? = some s) (hnodup : r.handles.Nodup) (x : α) :
    r.write s.handle x = r.writeAt x i := by
  refine eq_changeAt hs hnodup (fun c hc => map_write_self x hc) ?_
  intro c d hc hd
  rw [List.map_append, List.map_cons, map_write_self x hc, map_write_self x hd, if_pos rfl,
    modify_length]

/-- The position of the entry at one end. -/
def tipAt (side : Side) (r : Row α) : Nat :=
  match side with
  | .before => 0
  | .after => r.length - 1

theorem tip?_eq_getElem? (side : Side) (r : Row α) : r.tip? side = r.slots[r.tipAt side]? := by
  cases side with
  | before => exact List.head?_eq_getElem? ..
  | after => exact List.getLast?_eq_getElem? ..

/-! ## The position of the cursor -/

/-- The position of the entry that is due next. -/
def cursorIndex? (r : Row α) : Option Nat :=
  match r.due with
  | [] => none
  | _ :: _ => some r.passed.length

theorem cursorIndex?_lt {c : Nat} (hc : r.cursorIndex? = some c) : c < r.length := by
  rw [cursorIndex?] at hc
  cases hd : r.due with
  | nil =>
    rw [hd] at hc
    cases hc
  | cons t rest =>
    rw [hd] at hc
    cases hc
    rw [length, slots, hd, List.length_append, List.length_cons]
    omega

/-- The entry that is due next is the one at the position of the cursor. -/
theorem getElem?_cursorIndex? (r : Row α) : r.cursorIndex?.bind (r.slots[·]?) = r.due.head? := by
  rw [cursorIndex?, slots]
  cases r.due with
  | nil => rfl
  | cons t rest => simp

theorem cursorIndex?_of_tip? {side : Side} (h : r.tip? side = none) : r.cursorIndex? = none := by
  have hslots : r.slots = [] := by
    cases side with
    | before => exact List.head?_eq_none_iff.1 h
    | after => exact List.getLast?_eq_none_iff.1 h
  rw [cursorIndex?, (List.append_eq_nil_iff.1 hslots).2]

theorem cursorIndex?_insert (hi : i ≤ r.length) :
    (r.insert i s).cursorIndex? = r.cursorIndex?.map (opened i) := by
  rw [length, slots, List.length_append] at hi
  by_cases hle : i ≤ r.passed.length
  · rw [insert, if_pos hle, cursorIndex?, cursorIndex?]
    cases r.due with
    | nil => rfl
    | cons t rest => simp [opened, hle, List.length_insertIdx_of_le_length hle]
  · rw [insert, if_neg hle, cursorIndex?, cursorIndex?]
    cases hd : r.due with
    | nil =>
      rw [hd] at hi
      simp at hi
      omega
    | cons t rest =>
      obtain ⟨j, hj⟩ : ∃ j, i - r.passed.length = j + 1 := ⟨i - r.passed.length - 1, by omega⟩
      simp [opened, hle, hj]

/-- An entry that comes in at the back is behind the cursor. -/
theorem cursorIndex?_opened_length (r : Row α) :
    r.cursorIndex?.map (opened r.length) = r.cursorIndex? := by
  cases hc : r.cursorIndex? with
  | none => rfl
  | some c => rw [Option.map_some, opened, if_neg (Nat.not_le.2 (cursorIndex?_lt hc))]

theorem cursorIndex?_eraseAt (hi : i < r.length) :
    (r.eraseAt i).cursorIndex? = r.cursorIndex?.bind (closed r.length i) := by
  rw [length, slots, List.length_append] at hi ⊢
  by_cases hlt : i < r.passed.length
  · rw [eraseAt, changeAt, if_pos hlt, cursorIndex?, cursorIndex?]
    cases r.due with
    | nil => rfl
    | cons t rest => simp [closed, hlt, List.length_eraseIdx_of_lt hlt]
  · rw [eraseAt, changeAt, if_neg hlt, cursorIndex?, cursorIndex?]
    cases hd : r.due with
    | nil => rfl
    | cons t rest =>
      cases hj : i - r.passed.length with
      | zero => cases rest <;> simp [closed, within, hlt]
      | succ j =>
        have hrest : 0 < rest.length := by
          rw [hd, List.length_cons] at hi
          omega
        simp [closed, within, hlt, hrest]

@[simp] theorem cursorIndex?_write (h : Handle) (x : α) (r : Row α) :
    (r.write h x).cursorIndex? = r.cursorIndex? := by
  rw [cursorIndex?, cursorIndex?, write]
  cases r.due <;> simp

theorem cursorIndex?_rewind (r : Row α) : r.rewind.cursorIndex? = within r.length 0 := by
  rw [cursorIndex?, rewind, length, within]
  cases r.slots <;> simp

theorem cursorIndex?_advance (r : Row α) :
    r.advance.cursorIndex? = r.cursorIndex?.bind fun c => within r.length (c + 1) := by
  rw [length, slots, List.length_append]
  rw [advance, cursorIndex?, cursorIndex?]
  cases r.due with
  | nil => rfl
  | cons t rest => cases rest <;> simp [within]

theorem cursorIndex?_filter (p : Slot α → Bool) (r : Row α) :
    (r.filter p).cursorIndex? = r.cursorIndex?.bind (survivor (r.slots.map p)) := by
  rw [slots, List.map_append]
  rw [filter, cursorIndex?, cursorIndex?]
  cases hd : r.due with
  | nil => rfl
  | cons t rest =>
    have hdue : true ∈ (t :: rest).map p ↔ (t :: rest).filter p ≠ [] := by
      rw [List.mem_map, Ne, List.filter_eq_nil_iff]
      simp only [not_forall, exists_prop, not_not]
    have hfront : (r.passed.map p).count true = (r.passed.filter p).length := by
      rw [List.count, List.countP_map, List.countP_eq_length_filter]
      congr 2
      funext x
      simp
    have hsurvivor : survivor (r.passed.map p ++ (t :: rest).map p) r.passed.length =
        if (t :: rest).filter p ≠ [] then some (r.passed.filter p).length else none := by
      have hlen : (r.passed.map p).length = r.passed.length := List.length_map _
      rw [survivor, ← hlen, List.drop_left, List.take_left, hfront]
      simp only [hdue]
    rw [Option.bind_some, hsurvivor]
    cases (t :: rest).filter p <;> simp

end Row

theorem Linkage.Shows.cursorIndex?_eq {l : Linkage α} {s : Scene α} (hl : l.Shows s) :
    l.cursorIndex? = s.row.cursorIndex? := by
  rw [Linkage.cursorIndex?, hl.cursor, hl.handles_eq, Row.cursor, Row.cursorIndex?]
  cases hd : s.row.due with
  | nil => rfl
  | cons t rest =>
    have hnodup := hl.nodup
    rw [Row.handles, Row.slots, hd, handlesOf, List.map_append, List.map_cons] at hnodup ⊢
    refine List.idxOf?_eq_some_iff.2 ⟨by simp, by simp, ?_⟩
    intro j hj he
    have hmem : t.handle ∈ s.row.passed.map Slot.handle := by
      rw [← he, List.getElem_append_left (by rwa [List.length_map])]
      exact List.getElem_mem _
    exact (List.nodup_append.1 hnodup).2.2 _ hmem _ (List.mem_cons_self ..) rfl

end LinkedDeque
