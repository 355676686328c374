import LinkedDeque.Proofs.Sequence

/-!
# LinkedDeque.Proofs.CursorWalk

The walk of a cursor over a list that changes under it:

* `World.yielded` — the nodes whose entries are answered, one after the other.
* `World.Walk`    — what a walk yields: no entry twice, none that is gone, and none from before the
  cursor; those from the start in their order, and all that are left once it answers none.
* `Row.Onward`    — how a row goes on while some entries are yielded. Rows go on from one to the next.
* `World.walk_of_reset` — from every reset on, whatever is done to the lists, there is a walk.

A node is made with a number that no node had before. So of a row as it was, it is enough to follow
the nodes below the number that the next one would have had then.
-/

namespace LinkedDeque

variable {σ α : Type}

/-- An operation that does not put the cursor back to the front. -/
def Op.GoesOn : Op σ α → Prop
  | cursorReset | cursorFirst _ => False
  | _ => True

/-- A step that does not put the cursor of a list back to the front. -/
def Step.GoesOn (k : Nat) : Step σ α → Prop
  | use j op => j = k → op.GoesOn
  | _ => True

namespace World

/-- The nodes of a list from front to back. A list that is not there has none. -/
def nodes (w : World σ α) (k : Nat) : List Handle :=
  match w.list? k with
  | none => []
  | some d => (w.linkage d).handles

def cursor? (w : World σ α) (k : Nat) : Option Handle := (w.list? k).bind fun d => d.chain.cursor

def entryOf (w : World σ α) (h : Handle) : Option (Entry α) := (w.heap.get? h).map Node.entry

/-- A node stands behind the one under the cursor, toward the back. -/
def Behind (w : World σ α) (k : Nat) (h : Handle) : Prop :=
  ∃ c front back, w.cursor? k = some c ∧ w.nodes k = front ++ c :: back ∧ h ∈ back

def yield? (k : Nat) (s : Step σ α) (w : World σ α) : Option Handle :=
  match s with
  | .use j (.cursorNext _) => if j = k then w.cursor? k else none
  | _ => none

variable [AsBytes α] [AsText α]

/-- The nodes whose entries the steps of a run yield from a list, in order. -/
def yielded (k : Nat) : List (Step σ α) → World σ α → List Handle
  | [], _ => []
  | s :: rest, w => (yield? k s w).toList ++ yielded k rest (w.step s).2

abbrev next (w : World σ α) (k : Nat) (write : Option α) : Except Panic (Answer α) :=
  (w.use k (.cursorNext write)).1.result

/-- The walk of a cursor over a list, through steps from a world where it was put to the front. -/
structure Walk (k : Nat) (w : World σ α) (steps : List (Step σ α)) : Prop where
  /-- A call answers the entry of the node under the cursor, which is in the list. -/
  answers : ∀ {a write}, a <+: steps → (run a w).2.list? k ≠ none →
    (run a w).2.next k write =
        .ok (.entry (((run a w).2.cursor? k).bind (run a w).2.entryOf)) ∧
      ∀ h, (run a w).2.cursor? k = some h →
        h ∈ (run a w).2.nodes k ∧ (run a w).2.entryOf h ≠ none
  /-- No entry is yielded twice. -/
  once : (yielded k steps w).Nodup
  /-- The entries from the start come in the order that they had. -/
  ordered : ((yielded k steps w).filter (· ∈ w.nodes k)).Sublist (w.nodes k)
  /-- An entry from the start that goes before it is yielded is never yielded. -/
  removed : ∀ {a h}, a <+: steps → h ∈ w.nodes k → h ∉ yielded k a w →
    h ∉ (run a w).2.nodes k → h ∉ yielded k steps w
  /-- When a call answers none, the entries from the start that are left have been yielded. -/
  complete : ∀ {a h write}, a <+: steps → (run a w).2.next k write = .ok (.entry none) →
    h ∈ w.nodes k → h ∈ (run a w).2.nodes k → h ∈ yielded k a w
  /-- So have the entries that are left of those that stood behind the cursor, as they came or later. -/
  behind : ∀ {a b h write}, a ++ b <+: steps → (run a w).2.Behind k h →
    (run (a ++ b) w).2.next k write = .ok (.entry none) →
    h ∈ (run (a ++ b) w).2.nodes k → h ∈ yielded k (a ++ b) w
  /-- An entry that came elsewhere is never yielded. -/
  elsewhere : ∀ {a s h}, a ++ [s] <+: steps → h ∉ (run a w).2.nodes k →
    h ∈ (run (a ++ [s]) w).2.nodes k → ¬ (run (a ++ [s]) w).2.Behind k h → h ∉ yielded k steps w
  /-- A call that answers none changes nothing, and so does every later one. -/
  exhausted : ∀ {a b write}, a ++ b <+: steps → (run a w).2.next k write = .ok (.entry none) →
    ((run a w).2.use k (.cursorNext write)).2 = (run a w).2 ∧ yielded k b (run a w).2 = [] ∧
      ∀ write', (run (a ++ b) w).2.list? k ≠ none →
        (run (a ++ b) w).2.next k write' = .ok (.entry none)

end World

/-! ## Rows that go on -/

namespace Row

/-- A row goes on to another one while some of its entries are yielded, as far as the entries of nodes
below a bound are concerned. -/
structure Onward (bound : Handle) (r r' : Row α) (out : List Handle) : Prop where
  order : ((out ++ handlesOf r'.due).filter (· < bound)).Sublist (handlesOf r.due)
  passed : ∀ h ∈ handlesOf r'.passed, h < bound → h ∈ handlesOf r.passed ∨ h ∈ out
  exhausted : r.due = [] → out = [] ∧ r'.due = []
  once : (out ++ handlesOf r'.due).Nodup

theorem mem_handles {r : Row α} {h : Handle} :
    h ∈ r.handles ↔ h ∈ handlesOf r.passed ∨ h ∈ handlesOf r.due := by
  rw [handles, slots, handlesOf, List.map_append, List.mem_append]

theorem nodup_due {r : Row α} (hr : r.handles.Nodup) : (handlesOf r.due).Nodup :=
  hr.sublist ((List.sublist_append_right r.passed r.due).map Slot.handle)

theorem not_passed_of_due {r : Row α} (hr : r.handles.Nodup) {h : Handle}
    (hd : h ∈ handlesOf r.due) : h ∉ handlesOf r.passed := by
  rw [handles, slots, handlesOf, List.map_append, List.nodup_append] at hr
  intro hp
  exact hr.2.2 h hp h hd rfl

theorem due_of_cursor {r : Row α} (hc : r.cursor = none) : r.due = [] := by
  rw [cursor] at hc
  cases hd : r.due with
  | nil => rfl
  | cons s rest =>
    rw [hd] at hc
    cases hc

namespace Onward

variable {bound : Handle} {r r' r'' : Row α} {out out' : List Handle}

theorem due_of_out (hr : Onward bound r r' out) {h : Handle} (hh : h ∈ out) (hlt : h < bound) :
    h ∈ handlesOf r.due := by
  refine hr.order.subset (List.mem_filter.2 ⟨List.mem_append_left _ hh, ?_⟩)
  simpa using hlt

theorem due_of_due (hr : Onward bound r r' out) {h : Handle} (hh : h ∈ handlesOf r'.due)
    (hlt : h < bound) : h ∈ handlesOf r.due := by
  refine hr.order.subset (List.mem_filter.2 ⟨List.mem_append_right _ hh, ?_⟩)
  simpa using hlt

theorem old (hr : Onward bound r r' out) {h : Handle} (hh : h ∈ r'.handles) (hlt : h < bound) :
    h ∈ r.handles := by
  rw [mem_handles] at hh ⊢
  rcases hh with hh | hh
  · rcases hr.passed h hh hlt with hp | ho
    · exact .inl hp
    · exact .inr (hr.due_of_out ho hlt)
  · exact .inr (hr.due_of_due hh hlt)

theorem refl (bound : Handle) (hr : r.handles.Nodup) : Onward bound r r [] where
  order := List.filter_sublist
  passed := fun _ hh _ => .inl hh
  exhausted := fun hd => ⟨rfl, hd⟩
  once := nodup_due hr

theorem trans {bound' : Handle} (hr : Onward bound r r' out) (hr' : Onward bound' r' r'' out')
    (hle : bound ≤ bound') (hlt : ∀ h ∈ out, h < bound') : Onward bound r r'' (out ++ out') where
  order := by
    have hsame : ((out' ++ handlesOf r''.due).filter (· < bound')).filter (· < bound) =
        (out' ++ handlesOf r''.due).filter (· < bound) := by
      rw [List.filter_filter]
      refine List.filter_congr ?_
      intro h _
      have hless : h < bound → h < bound' := fun hh => Nat.lt_of_lt_of_le hh hle
      simpa using hless
    have hcut := hr'.order.filter (· < bound)
    rw [hsame] at hcut
    rw [List.append_assoc, List.filter_append]
    refine List.Sublist.trans (hcut.append_left _) ?_
    rw [← List.filter_append]
    exact hr.order
  passed := by
    intro h hh hb
    rcases hr'.passed h hh (Nat.lt_of_lt_of_le hb hle) with hp | ho
    · rcases hr.passed h hp hb with hp | ho
      · exact .inl hp
      · exact .inr (List.mem_append_left _ ho)
    · exact .inr (List.mem_append_right _ ho)
  exhausted := by
    intro hd
    obtain ⟨hout, hd'⟩ := hr.exhausted hd
    obtain ⟨hout', hd''⟩ := hr'.exhausted hd'
    exact ⟨by rw [hout, hout']; rfl, hd''⟩
  once := by
    have honce := List.nodup_append.1 hr.once
    rw [List.append_assoc, List.nodup_append]
    refine ⟨honce.1, hr'.once, ?_⟩
    -- what was yielded first is no longer due, so it is neither yielded later nor due in the end
    rintro h hh _ hh' rfl
    have hdue : h ∈ handlesOf r'.due := by
      rcases List.mem_append.1 hh' with ho | hd
      · exact hr'.due_of_out ho (hlt h hh)
      · exact hr'.due_of_due hd (hlt h hh)
    exact honce.2.2 h hh h hdue rfl

theorem advance (bound : Handle) (hr : r.handles.Nodup) :
    Onward bound r r.advance r.cursor.toList := by
  have hout : r.cursor.toList = handlesOf (r.due.take 1) := by
    rw [cursor]
    cases r.due <;> rfl
  have hdue : r.cursor.toList ++ handlesOf r.advance.due = handlesOf r.due := by
    rw [hout, Row.advance, handlesOf, handlesOf, ← List.map_append, List.take_append_drop]
  refine ⟨?_, ?_, ?_, ?_⟩
  · rw [hdue]
    exact List.filter_sublist
  · intro h hh _
    rw [Row.advance, handlesOf, List.map_append, List.mem_append] at hh
    rwa [hout]
  · intro hd
    rw [advance_exhausted hd, cursor, hd]
    exact ⟨rfl, rfl⟩
  · rw [hdue]
    exact nodup_due hr

theorem of_follows (hr : Follows bound r r') (hnodup : r'.handles.Nodup) : Onward bound r r' [] where
  order := hr.due
  passed := by
    intro h hh hlt
    refine .inl (hr.passed.subset (List.mem_filter.2 ⟨hh, ?_⟩))
    simpa using hlt
  exhausted := fun hd => ⟨rfl, hr.exhausted hd⟩
  once := nodup_due hnodup

end Onward

end Row

/-! ## Worlds that go on -/

namespace World

section Cursor

variable {w : World σ α} {strayed : List Handle} {k : Nat} {h : Handle}

theorem Sound.nodes_eq (hw : w.Sound strayed) (k : Nat) : w.nodes k = (w.row k).handles := by
  rw [nodes, row]
  cases hk : w.list? k with
  | none => rfl
  | some d => exact (hw.shows hk).handles_eq

theorem Sound.cursor?_eq (hw : w.Sound strayed) (k : Nat) : w.cursor? k = (w.row k).cursor := by
  rw [cursor?, row]
  cases hk : w.list? k with
  | none => rfl
  | some d => exact (hw.shows hk).cursor

theorem Sound.nodup_row (hw : w.Sound strayed) (k : Nat) : (w.row k).handles.Nodup := by
  rw [row]
  cases hk : w.list? k with
  | none => exact List.nodup_nil
  | some d => exact (hw.shows hk).nodup

theorem Sound.lt_size (hw : w.Sound strayed) (hh : h ∈ (w.row k).handles) : h < w.heap.size := by
  obtain ⟨n, hn⟩ := hw.alive hh
  exact Heap.lt_size_of_get? hn

theorem Sound.mem_row_of_yield? (hw : w.Sound strayed) {s : Step σ α}
    (hs : yield? k s w = some h) : h ∈ (w.row k).handles := by
  unfold yield? at hs
  split at hs
  · split at hs
    · rw [hw.cursor?_eq] at hs
      exact Row.cursor_mem hs
    · cases hs
  · cases hs

theorem Sound.cursor?_mem (hw : w.Sound strayed) (hc : w.cursor? k = some h) :
    h ∈ w.nodes k ∧ w.entryOf h ≠ none := by
  rw [hw.cursor?_eq] at hc
  have hh := Row.cursor_mem hc
  obtain ⟨n, hn⟩ := hw.alive hh
  rw [hw.nodes_eq, entryOf, hn]
  exact ⟨hh, Option.some_ne_none _⟩

/-- An entry stands behind the cursor when it is due, but not as the next one. -/
theorem Sound.behind_iff (hw : w.Sound strayed) :
    w.Behind k h ↔ h ∈ handlesOf (w.row k).due ∧ w.cursor? k ≠ some h := by
  have hnodup := hw.nodup_row k
  rw [Behind, hw.nodes_eq, hw.cursor?_eq, Row.cursor]
  rw [Row.handles, Row.slots] at hnodup ⊢
  cases hd : (w.row k).due with
  | nil =>
    constructor
    · rintro ⟨c, front, back, hc, -⟩
      cases hc
    · rintro ⟨hh, -⟩
      cases hh
  | cons s rest =>
    rw [hd, handlesOf, List.map_append, List.map_cons, List.nodup_middle, List.nodup_cons,
      List.mem_append, not_or] at hnodup
    rw [ahead_cons, handlesOf, List.map_append, List.map_cons]
    constructor
    · rintro ⟨c, front, back, hc, hparts, hh⟩
      obtain rfl : s.handle = c := Option.some.inj hc
      obtain ⟨-, -, rfl⟩ := (List.append_cons_inj_of_notMem hnodup.1.1 hnodup.1.2).1 hparts
      refine ⟨List.mem_cons_of_mem _ hh, fun he => ?_⟩
      exact hnodup.1.2 (Option.some.inj he ▸ hh)
    · rintro ⟨hh, hne⟩
      rcases List.mem_cons.1 hh with rfl | hh
      · exact absurd rfl hne
      · exact ⟨s.handle, _, _, rfl, rfl, hh⟩

end Cursor

/-- A stretch of a run on the way of which a list yields some entries. -/
structure Stretch (k : Nat) (w w' : World σ α) (out : List Handle) : Prop where
  sound : ∃ strayed, w'.Sound strayed
  onward : Row.Onward w.heap.size (w.row k) (w'.row k) out
  heap_le : w.heap.size ≤ w'.heap.size
  lists_le : w.lists.size ≤ w'.lists.size
  out_lt : ∀ h ∈ out, h < w'.heap.size

namespace Stretch

variable {w w' : World σ α} {strayed : List Handle} {k : Nat} {out : List Handle} {h : Handle}

theorem not_yielded (hr : Stretch k w w' out) (hh : h ∉ (w.row k).handles)
    (hlt : h < w.heap.size) : h ∉ out := by
  intro hout
  exact hh (Row.mem_handles.2 (.inr (hr.onward.due_of_out hout hlt)))

theorem left (hr : Stretch k w w' out) (hc : w'.cursor? k = none) (hh : h ∈ w'.nodes k)
    (hlt : h < w.heap.size) : h ∈ handlesOf (w.row k).passed ∨ h ∈ out := by
  obtain ⟨strayed', hw'⟩ := hr.sound
  rw [hw'.cursor?_eq] at hc
  rw [hw'.nodes_eq, Row.mem_handles, Row.due_of_cursor hc] at hh
  rcases hh with hh | hh
  · exact hr.onward.passed h hh hlt
  · cases hh

theorem exhausted (hr : Stretch k w w' out) (hw : w.Sound strayed) (hc : w.cursor? k = none) :
    out = [] ∧ w'.cursor? k = none := by
  obtain ⟨strayed', hw'⟩ := hr.sound
  rw [hw.cursor?_eq] at hc
  obtain ⟨hout, hd⟩ := hr.onward.exhausted (Row.due_of_cursor hc)
  refine ⟨hout, ?_⟩
  rw [hw'.cursor?_eq, Row.cursor, hd]
  rfl

end Stretch

variable [AsBytes α] [AsText α]

theorem run_append (a b : List (Step σ α)) (w : World σ α) :
    (run (a ++ b) w).2 = (run b (run a w).2).2 := by
  induction a generalizing w with
  | nil => rfl
  | cons s a ih => exact ih (w.step s).2

theorem yielded_append (k : Nat) (a b : List (Step σ α)) (w : World σ α) :
    yielded k (a ++ b) w = yielded k a w ++ yielded k b (run a w).2 := by
  induction a generalizing w with
  | nil => rfl
  | cons s a ih =>
    rw [List.cons_append, yielded, yielded, ih, List.append_assoc]
    rfl

section Steps

variable {w : World σ α} {strayed : List Handle} {k : Nat} {s : Step σ α}

theorem step_grows (hw : w.Sound strayed) (s : Step σ α) :
    w.heap.size ≤ (w.step s).2.heap.size ∧ w.lists.size ≤ (w.step s).2.lists.size := by
  cases s with
  | arm refuses => exact ⟨Nat.le_refl _, Nat.le_refl _⟩
  | create default =>
    refine ⟨Nat.le_refl _, ?_⟩
    rw [step, Array.size_push]
    exact Nat.le_succ _
  | use j op =>
    rw [step]
    cases hj : w.list? j with
    | none =>
      rw [use_absent hj]
      exact ⟨Nat.le_refl _, Nat.le_refl _⟩
    | some d =>
      obtain ⟨u, heap', chain', strays, made, hu⟩ := use_eq hj (hw.shows hj) op
      have hfresh := (hu.accounts hw hj).fresh_le
      rw [hu.world]
      refine ⟨Nat.le_trans hfresh (Nat.le_of_eq hu.shows.size.symm), ?_⟩
      cases made with
      | none => exact Nat.le_of_eq Array.size_setIfInBounds.symm
      | some chain =>
        rw [settle, Array.size_push, Array.size_setIfInBounds]
        exact Nat.le_succ _

theorem step_cases (hw : w.Sound strayed) (hk : k < w.lists.size) (s : Step σ α) :
    (∃ op d u heap' chain' strays made, s = .use k op ∧ w.list? k = some d ∧
      Use w k d op u heap' chain' strays made) ∨
    ((w.step s).2.row k = w.row k ∧ yield? k s w = none) := by
  cases s with
  | arm refuses => exact .inr ⟨rfl, rfl⟩
  | create default => exact .inr ⟨create_row w default k, rfl⟩
  | use j op =>
    by_cases hj : j = k
    · subst hj
      cases hd : w.list? j with
      | some d =>
        obtain ⟨u, heap', chain', strays, made, hu⟩ := use_eq hd (hw.shows hd) op
        exact .inl ⟨op, d, u, heap', chain', strays, made, rfl, rfl, hu⟩
      | none =>
        have hcursor : w.cursor? j = none := by rw [cursor?, hd]; rfl
        refine .inr ⟨by rw [step, use_absent hd], ?_⟩
        cases op with
        | cursorNext write => exact (if_pos rfl).trans hcursor
        | _ => rfl
    · refine .inr ⟨?_, ?_⟩
      · rw [step]
        cases hd : w.list? j with
        | none => rw [use_absent hd]
        | some d =>
          obtain ⟨u, heap', chain', strays, made, hu⟩ := use_eq hd (hw.shows hd) op
          exact hu.row_other hw hd (fun h => hj h.symm) (Nat.ne_of_lt hk)
      · cases op with
        | cursorNext write => exact if_neg hj
        | _ => rfl

/-- A step that does not put the cursor back lets the row go on, and yields the entry under the cursor
or none. -/
theorem step_onward (hw : w.Sound strayed) (hk : k < w.lists.size) (hs : s.GoesOn k) :
    Row.Onward w.heap.size (w.row k) ((w.step s).2.row k) (yield? k s w).toList := by
  have hnodup := hw.nodup_row k
  rcases step_cases hw hk s with ⟨op, d, u, heap', chain', strays, made, rfl, hd, hu⟩ | ⟨hrow, hyield⟩
  · have hnodup' := (step_sound hw (.use k op)).nodup_row k
    rw [step, hu.row_self hd] at hnodup' ⊢
    have hfollows : Row.Onward w.heap.size (op.part (w.row k)) u.row [] :=
      .of_follows (hu.course.follows (hw.before hd op)) hnodup'
    have hop : op.GoesOn := hs rfl
    cases op with
    | cursorReset | cursorFirst write => exact hop.elim
    | cursorNext write =>
      have hyield : yield? k (.use k (.cursorNext write)) w = (w.row k).cursor :=
        (if_pos rfl).trans (hw.cursor?_eq k)
      rw [hyield, ← List.append_nil (Option.toList _)]
      refine (Row.Onward.advance _ hnodup).trans hfollows (Nat.le_refl _) ?_
      intro h hh
      exact hw.lt_size (Row.cursor_mem (Option.mem_toList.1 hh))
    | _ => exact hfollows
  · rw [hrow, hyield]
    exact .refl _ hnodup

/-- A step leaves no cursor on a node that is new. -/
theorem step_cursor_lt (hw : w.Sound strayed) (hk : k < w.lists.size) (s : Step σ α) {c : Handle}
    (hc : ((w.step s).2.row k).cursor = some c) : c < w.heap.size := by
  rcases step_cases hw hk s with ⟨op, d, u, heap', chain', strays, made, rfl, hd, hu⟩ | ⟨hrow, -⟩
  · rw [step, hu.row_self hd] at hc
    exact hu.course.cursor_lt (hw.before hd op) hc
  · rw [hrow] at hc
    exact hw.lt_size (Row.cursor_mem hc)

theorem step_stretch (hw : w.Sound strayed) (hk : k < w.lists.size) (hs : s.GoesOn k) :
    Stretch k w (w.step s).2 (yield? k s w).toList := by
  obtain ⟨hheap, hlists⟩ := step_grows hw s
  refine ⟨⟨_, step_sound hw s⟩, step_onward hw hk hs, hheap, hlists, ?_⟩
  intro h hh
  have hlt := hw.lt_size (hw.mem_row_of_yield? (Option.mem_toList.1 hh))
  exact Nat.lt_of_lt_of_le hlt hheap

theorem run_stretch (steps : List (Step σ α)) (hw : w.Sound strayed) (hk : k < w.lists.size)
    (hsteps : ∀ s ∈ steps, s.GoesOn k) : Stretch k w (run steps w).2 (yielded k steps w) := by
  induction steps generalizing w strayed with
  | nil =>
    refine ⟨⟨_, hw⟩, .refl _ (hw.nodup_row k), Nat.le_refl _, Nat.le_refl _, ?_⟩
    intro h hh
    cases hh
  | cons s rest ih =>
    rw [List.forall_mem_cons] at hsteps
    have hone := step_stretch hw hk hsteps.1
    have hmore := ih (step_sound hw s) (Nat.lt_of_lt_of_le hk hone.lists_le) hsteps.2
    refine ⟨hmore.sound, hone.onward.trans hmore.onward hone.heap_le hone.out_lt,
      Nat.le_trans hone.heap_le hmore.heap_le, Nat.le_trans hone.lists_le hmore.lists_le, ?_⟩
    intro h hh
    rcases List.mem_append.1 hh with hh | hh
    · exact Nat.lt_of_lt_of_le (hone.out_lt h hh) hmore.heap_le
    · exact hmore.out_lt h hh

end Steps

/-! ## Calls of a cursor -/

section Calls

variable {w : World σ α} {strayed : List Handle} {k : Nat} {d : Deque σ α}

theorem Sound.next_eq (hw : w.Sound strayed) (hk : w.list? k = some d) (write : Option α) :
    w.next k write = .ok (.entry ((w.cursor? k).bind w.entryOf)) := by
  have hshows := hw.shows hk
  have hleads : Leads (Op.act (.cursorNext write)) (w.view d)
      ((fun a => (a, none)) <$> (.entry <$> ((w.view d).cursorNext write).1),
        ((w.view d).cursorNext write).2) :=
    Op.leads_answer .entry (Leads.cursorNext write (w.view d))
  obtain ⟨hresult, -⟩ := use_leads hk hshows hleads rfl
  rw [next, hresult, hw.cursor?_eq, row_of_list? hk, View.cursorNext_fst, Row.cursor]
  show Except.ok (Answer.entry ((w.linkage d).row.due.head?.map Slot.entry)) = _
  cases hd : (w.linkage d).row.due with
  | nil => rfl
  | cons s rest =>
    have hr : (w.linkage d).row.slots = (w.linkage d).row.passed ++ s :: rest := by
      rw [Row.slots, hd]
    have hnode : w.heap.get? s.handle = some _ := hshows.node hr
    rw [ahead_cons, Option.bind_some, entryOf, hnode]
    rfl

theorem Sound.next_none (hw : w.Sound strayed) {write : Option α}
    (hn : w.next k write = .ok (.entry none)) :
    (∃ d, w.list? k = some d) ∧ w.cursor? k = none := by
  cases hk : w.list? k with
  | none =>
    rw [next, use_absent hk] at hn
    cases hn
  | some d =>
    refine ⟨⟨d, rfl⟩, ?_⟩
    rw [hw.next_eq hk] at hn
    cases hc : w.cursor? k with
    | none => rfl
    | some h =>
      rw [hc, Option.bind_some] at hn
      cases he : w.entryOf h with
      | none => exact absurd he (hw.cursor?_mem hc).2
      | some e =>
        rw [he] at hn
        cases hn

theorem run_cursorNext_exhausted {m : Machine σ α} (hc : m.linkage.chain.cursor = none)
    (write : Option α) : (Op.act (.cursorNext write)).run m = .ok (.entry none, none) m := by
  have hread : (Act.linking .cursor : Act σ α (Option Handle)).run m = .ok none m := by
    refine Act.run_linking_ok m ?_
    rw [LinkM.run_cursor, hc]
  simp only [Op.act, Deque.cursorNext, EStateM.run_bind, hread]
  rfl

theorem use_exhausted (hk : w.list? k = some d) (hc : w.cursor? k = none) (write : Option α) :
    (w.use k (.cursorNext write)).2 = w := by
  obtain ⟨heap, allocator, lists⟩ := w
  have hk' : lists[k]?.join = some d := hk
  rw [cursor?, hk] at hc
  have hrun := run_cursorNext_exhausted
    (m := (⟨⟨heap, d.chain⟩, .ofDefault d.default, allocator, #[]⟩ : Machine σ α)) hc write
  have hlist : lists.setIfInBounds k (some d) = lists := by
    refine Array.ext_getElem? ?_
    intro j
    rw [Array.getElem?_setIfInBounds]
    by_cases hj : k = j
    · subst hj
      rw [if_pos rfl, if_pos (lt_of_list? hk)]
      exact (Option.join_eq_some_iff.1 hk').symm
    · rw [if_neg hj]
  simp only [use, hk', hrun]
  exact congrArg (World.mk heap allocator) hlist

end Calls

/-! ## Walks -/

section Walks

variable {w : World σ α} {strayed : List Handle} {k : Nat} {steps a b : List (Step σ α)} {h : Handle}

variable (hw : w.Sound strayed) (hk : k < w.lists.size) (hsteps : ∀ s ∈ steps, s.GoesOn k)

include hw hk hsteps

theorem first_stretch (ha : a <+: steps) : Stretch k w (run a w).2 (yielded k a w) :=
  run_stretch a hw hk fun s hs => hsteps s (ha.subset hs)

theorem later_stretch (hab : a ++ b <+: steps) :
    Stretch k (run a w).2 (run (a ++ b) w).2 (yielded k b (run a w).2) := by
  have ha : a <+: steps := (List.prefix_append a b).trans hab
  rw [run_append]
  refine run_stretch b (run_sound a hw) ?_ fun s hs => ?_
  · exact Nat.lt_of_lt_of_le hk (first_stretch hw hk hsteps ha).lists_le
  · exact hsteps s (hab.subset (List.mem_append_right a hs))

theorem yielded_ordered (hrow : (w.row k).passed = []) :
    ((yielded k steps w).filter (· ∈ w.nodes k)).Sublist (w.nodes k) := by
  have horder := (first_stretch hw hk hsteps List.prefix_rfl).onward.order
  have hdue : handlesOf (w.row k).due = w.nodes k := by
    rw [hw.nodes_eq, Row.handles, Row.slots, hrow]
    rfl
  rw [hdue, List.filter_append] at horder
  refine (List.monotone_filter_right _ fun h hh => ?_).trans
    ((List.sublist_append_left ..).trans horder)
  rw [decide_eq_true_iff, hw.nodes_eq] at hh
  exact decide_eq_true (hw.lt_size hh)

theorem not_yielded_of_removed (ha : a <+: steps) (hmem : h ∈ w.nodes k)
    (hnot : h ∉ yielded k a w) (hgone : h ∉ (run a w).2.nodes k) : h ∉ yielded k steps w := by
  obtain ⟨b, rfl⟩ := ha
  rw [hw.nodes_eq] at hmem
  rw [(run_sound a hw).nodes_eq] at hgone
  have hfirst := first_stretch hw hk hsteps (List.prefix_append a b)
  have hlater := later_stretch hw hk hsteps List.prefix_rfl
  rw [yielded_append, List.mem_append, not_or]
  refine ⟨hnot, hlater.not_yielded hgone ?_⟩
  exact Nat.lt_of_lt_of_le (hw.lt_size hmem) hfirst.heap_le

theorem yielded_of_left {write : Option α} (hrow : (w.row k).passed = []) (ha : a <+: steps)
    (hnone : (run a w).2.next k write = .ok (.entry none)) (hmem : h ∈ w.nodes k)
    (hleft : h ∈ (run a w).2.nodes k) : h ∈ yielded k a w := by
  obtain ⟨-, hc⟩ := (run_sound a hw).next_none hnone
  rw [hw.nodes_eq] at hmem
  rcases (first_stretch hw hk hsteps ha).left hc hleft (hw.lt_size hmem) with hh | hh
  · rw [hrow] at hh
    cases hh
  · exact hh

theorem yielded_of_behind {write : Option α} (hab : a ++ b <+: steps)
    (hbehind : (run a w).2.Behind k h)
    (hnone : (run (a ++ b) w).2.next k write = .ok (.entry none))
    (hleft : h ∈ (run (a ++ b) w).2.nodes k) : h ∈ yielded k (a ++ b) w := by
  have hwa := run_sound a hw
  obtain ⟨-, hc⟩ := (run_sound (a ++ b) hw).next_none hnone
  have hdue := (hwa.behind_iff.1 hbehind).1
  have hlt := hwa.lt_size (Row.mem_handles.2 (.inr hdue))
  rw [yielded_append, List.mem_append]
  rcases (later_stretch hw hk hsteps hab).left hc hleft hlt with hh | hh
  · exact absurd hh (Row.not_passed_of_due (hwa.nodup_row k) hdue)
  · exact .inr hh

theorem not_yielded_of_elsewhere {s : Step σ α} (has : a ++ [s] <+: steps)
    (hnot : h ∉ (run a w).2.nodes k) (hmem : h ∈ (run (a ++ [s]) w).2.nodes k)
    (hbehind : ¬ (run (a ++ [s]) w).2.Behind k h) : h ∉ yielded k steps w := by
  obtain ⟨b, rfl⟩ := has
  have hwa := run_sound a hw
  have hws := run_sound (a ++ [s]) hw
  have hsa : a ++ [s] <+: a ++ [s] ++ b := List.prefix_append _ b
  have hfirst := first_stretch hw hk hsteps ((List.prefix_append a [s]).trans hsa)
  rw [hwa.nodes_eq] at hnot
  rw [hws.nodes_eq] at hmem
  -- the node was made in this step, so it was not yielded before
  have hnew : ¬ h < (run a w).2.heap.size := fun hlt =>
    hnot ((later_stretch hw hk hsteps hsa).onward.old hmem hlt)
  rw [yielded_append, yielded_append, List.mem_append, List.mem_append]
  rintro ((hh | hh) | hh)
  · exact hnew (hfirst.out_lt h hh)
  · rw [yielded, yielded, List.append_nil] at hh
    exact hnot (hwa.mem_row_of_yield? (Option.mem_toList.1 hh))
  · have hlater := later_stretch hw hk hsteps List.prefix_rfl
    have hdue := hlater.onward.due_of_out hh (hws.lt_size hmem)
    refine hbehind (hws.behind_iff.2 ⟨hdue, fun hc => hnew ?_⟩)
    rw [hws.cursor?_eq, run_append] at hc
    exact step_cursor_lt hwa (Nat.lt_of_lt_of_le hk hfirst.lists_le) s hc

theorem exhausted_of_none {write : Option α} (hab : a ++ b <+: steps)
    (hnone : (run a w).2.next k write = .ok (.entry none)) :
    ((run a w).2.use k (.cursorNext write)).2 = (run a w).2 ∧ yielded k b (run a w).2 = [] ∧
      ∀ write', (run (a ++ b) w).2.list? k ≠ none →
        (run (a ++ b) w).2.next k write' = .ok (.entry none) := by
  have hwa := run_sound a hw
  obtain ⟨⟨d, hd⟩, hc⟩ := hwa.next_none hnone
  obtain ⟨hout, hc'⟩ := (later_stretch hw hk hsteps hab).exhausted hwa hc
  refine ⟨use_exhausted hd hc write, hout, fun write' hlist => ?_⟩
  obtain ⟨d', hd'⟩ := Option.ne_none_iff_exists'.1 hlist
  rw [(run_sound (a ++ b) hw).next_eq hd', hc']
  rfl

theorem Sound.walk (hrow : (w.row k).passed = []) : Walk k w steps where
  answers := by
    intro a write ha hlist
    have hwa := run_sound a hw
    obtain ⟨d, hd⟩ := Option.ne_none_iff_exists'.1 hlist
    exact ⟨hwa.next_eq hd write, fun h hc => hwa.cursor?_mem hc⟩
  once := (first_stretch hw hk hsteps List.prefix_rfl).onward.once.sublist
    (List.sublist_append_left ..)
  ordered := yielded_ordered hw hk hsteps hrow
  removed := not_yielded_of_removed hw hk hsteps
  complete := yielded_of_left hw hk hsteps hrow
  behind := yielded_of_behind hw hk hsteps
  elsewhere := not_yielded_of_elsewhere hw hk hsteps
  exhausted := exhausted_of_none hw hk hsteps

end Walks

/-- From every reset of a cursor on, in any world that a run leads to, steps that do not put it back to
the front are a walk, whatever else they do to the lists. -/
theorem walk_of_reset (before steps : List (Step σ α)) {k : Nat} {d : Deque σ α}
    (hk : (run before start).2.list? k = some d) (hsteps : ∀ s ∈ steps, s.GoesOn k) :
    Walk k ((run before start).2.step (.use k .cursorReset)).2 steps := by
  have hw := run_sound before (start_sound (σ := σ) (α := α))
  generalize (run before start).2 = w at hk hw ⊢
  have hleads : Leads (Op.act .cursorReset) (w.view d)
      ((fun a => (a, none)) <$> .ok .done, (w.view d).cursorReset) :=
    (Leads.cursorReset (w.view d)).bind (Leads.pure _ _)
  obtain ⟨-, -, hrow, chain', hlist⟩ := use_leads hk (hw.shows hk) hleads rfl
  refine (step_sound hw _).walk (lt_of_list? hlist) hsteps ?_
  rw [step, hrow]
  rfl

/-- Three entries, of which the second goes when the first has been yielded. Of the two that come then,
one comes in front of the cursor and one at the end. -/
theorem walk_past_removal :
    let three := [.create none, .use 0 (.insertIdx 0 (.int 3) 8), .use 0 (.insertIdx 1 (.int 5) 8),
      .use 0 (.insertIdx 2 (.int 7) 8)]
    let steps := [.use 0 (.cursorNext none), .use 0 (.eraseIdx 1 none),
      .use 0 (.insertIdx 1 (.int 9) 8), .use 0 (.insertIdx 3 (.int 4) 8), .use 0 (.cursorNext none),
      .use 0 (.cursorNext none), .use 0 (.cursorNext none)]
    let w := ((run three (start : World Unit Payload)).2.step (.use 0 .cursorReset)).2
    Walk 0 w steps ∧ yielded 0 steps w = [0, 2, 4] ∧ (run steps w).2.nodes 0 = [0, 3, 2, 4] := by
  refine ⟨walk_of_reset _ _ rfl ?_, rfl, rfl⟩
  simp [Step.GoesOn, Op.GoesOn]

end World

end LinkedDeque
