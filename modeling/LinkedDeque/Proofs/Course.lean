import LinkedDeque.Proofs.Entries
import Mathlib.Algebra.Order.Group.Multiset
import Mathlib.Tactic.Abel

/-!
# LinkedDeque.Proofs.Course

What an operation does to a view, as a course of small moves:

* `Course`          — the moves. A payload that is in no row is in hand, or in a node that strayed.
* `Course.accounts` — the nodes beside the row are those there were before, and the strays.
* `Course.balance`  — payloads neither appear nor vanish.
* `Course.arrivals` — the payloads that came are those that the course lists.
* `Course.fates`    — payloads go only where the operation may send them.
* `Course.follows`  — on each side of the cursor, the entries from before keep their order.

Each of them is proved once, by induction on a course. An operation needs only its course.
-/

namespace LinkedDeque

variable {σ α : Type}

/-! ## Payloads that come and go -/

def Event.entered? : Event α → Option α
  | .entered x => some x
  | _ => none

/-- The payload that goes with an event, and where it goes. -/
def Event.left? : Event α → Option (Fate × α)
  | .left fate x => some (fate, x)
  | _ => none

def enteredIn (events : Array (Event α)) : List α := events.toList.filterMap Event.entered?

/-- The payloads that went, in order, and where they went. -/
def leftIn (events : Array (Event α)) : List (Fate × α) := events.toList.filterMap Event.left?

abbrev Slot.payload (s : Slot α) : α := s.entry.value

section Events

variable (events : Array (Event α))

@[simp] theorem enteredIn_empty : enteredIn (#[] : Array (Event α)) = [] := rfl

@[simp] theorem leftIn_empty : leftIn (#[] : Array (Event α)) = [] := rfl

theorem enteredIn_push (e : Event α) :
    enteredIn (events.push e) = enteredIn events ++ e.entered?.toList := by
  rw [enteredIn, Array.toList_push, List.filterMap_append]
  cases e <;> rfl

theorem leftIn_push (e : Event α) :
    leftIn (events.push e) = leftIn events ++ e.left?.toList := by
  rw [leftIn, Array.toList_push, List.filterMap_append]
  cases e <;> rfl

end Events

/-! ## The moves -/

/-- A course of moves from one view to another, during an operation that may send payloads to certain
fates. It lists the payloads that came, and ends with some payloads in hand and with some nodes of its
own beside the row. -/
inductive Course (permits : Fate → Prop) (v : View σ α) :
    View σ α → List α → List α → List (Slot α) → Prop
  | start : Course permits v v [] [] []
  | called {w came hand strays} (e : Entry α) (c : Course permits v w came hand strays) :
    Course permits v (w.emit (.called e)) came hand strays
  | logged {w came hand strays} (line : Log) (c : Course permits v w came hand strays) :
    Course permits v (w.log line) came hand strays
  /-- The allocator or a destructor moves on. -/
  | settle {w came hand strays} (allocator : Allocator) (destructors : Destructors σ α)
    (c : Course permits v w came hand strays) :
    Course permits v { w with allocator, destructors } came hand strays
  | receive {w came hand strays} (x : α) (c : Course permits v w came hand strays) :
    Course permits v (w.emit (.entered x)) (came ++ [x]) (x :: hand) strays
  | give {w came hand strays} {x : α} {fate : Fate} (hf : permits fate)
    (c : Course permits v w came (x :: hand) strays) :
    Course permits v (w.emit (.left fate x)) came hand strays
  /-- A payload is placed in the row, in a node of its own. -/
  | place {w came hand strays} {i : Nat} {e : Entry α} (hi : i ≤ w.row.length)
    (c : Course permits v w came (e.value :: hand) strays) :
    Course permits v { w with row := w.row.insert i ⟨w.fresh, e⟩, fresh := w.fresh + 1 } came hand strays
  /-- A payload is taken from the row, before any node is made. -/
  | take {w came hand strays} {s : Slot α} (hs : s ∈ w.row.slots) (hfresh : w.fresh = v.fresh)
    (c : Course permits v w came hand strays) :
    Course permits v { w with row := w.row.erase s.handle } came (s.payload :: hand) strays
  /-- A payload takes the place of another one. -/
  | write {w came hand strays} {s : Slot α} {x : α} (hs : s ∈ w.row.slots)
    (c : Course permits v w came (x :: hand) strays) :
    Course permits v { w with row := w.row.write s.handle x } came (s.payload :: hand) strays
  /-- A payload is put into a node beside the row, and the strays are linked anew. -/
  | make {w came hand strays} {e : Entry α} {rest : Nodes α}
    (hother : ∀ h, h ∉ handlesOf (strays ++ [⟨w.fresh, e⟩]) → rest h = w.rest h)
    (hholds : ∀ s ∈ strays ++ [⟨w.fresh, e⟩], ∃ n, rest s.handle = some n ∧ n.entry = s.entry)
    (c : Course permits v w came (e.value :: hand) strays) :
    Course permits v { w with rest, fresh := w.fresh + 1 } came hand (strays ++ [⟨w.fresh, e⟩])
  /-- All nodes of the row stray. -/
  | abandon {w came hand} (c : Course permits v w came hand []) :
    Course permits v { w with row := .empty, rest := w.rest.lay none w.row.slots } came hand
      w.row.slots
  | release {w came hand strays} {s : Slot α} (c : Course permits v w came hand (s :: strays)) :
    Course permits v { w with rest := w.rest.set s.handle none } came (s.payload :: hand) strays

/-- A view of a heap: the row has no node twice, and none in common with the rest. -/
structure View.Sound (v : View σ α) : Prop where
  nodup : v.row.handles.Nodup
  row_lt : ∀ h ∈ v.row.handles, h < v.fresh
  apart : ∀ h ∈ v.row.handles, v.rest h = none
  unused : ∀ h, v.fresh ≤ h → v.rest h = none

theorem Linkage.Shows.sound {l : Linkage α} {v : View σ α} (hl : l.Shows v.toScene) : v.Sound where
  nodup := hl.nodup
  row_lt := fun _ hh => hl.handle_lt hh
  apart := hl.apart
  unused := by
    intro h hh
    have hnot : h ∉ v.row.handles := fun hmem => absurd (hl.handle_lt hmem) (Nat.not_lt.2 hh)
    rw [← hl.outside h hnot]
    cases hn : l.heap.get? h with
    | none => rfl
    | some n =>
      have hlt := Heap.lt_size_of_get? hn
      rw [hl.size] at hlt
      exact absurd hlt (Nat.not_lt.2 hh)

/-! ## Handles and payloads after each change of a row -/

namespace Row

variable {r : Row α} {s : Slot α}

def payloads (r : Row α) : List α := r.slots.map Slot.payload

theorem mem_handles_insert {i : Nat} (hi : i ≤ r.length) {h : Handle} :
    h ∈ (r.insert i s).handles ↔ h = s.handle ∨ h ∈ r.handles := by
  have hperm := (List.perm_insertIdx s r.slots hi).map Slot.handle
  rw [handles, slots_insert, hperm.mem_iff]
  exact List.mem_cons

theorem handles_erase (h : Handle) (r : Row α) :
    (r.erase h).handles = r.handles.filter (· ≠ h) := by
  rw [handles, handles, erase, slots_filter, handlesOf, handlesOf, List.filter_map]
  rfl

theorem payloads_insert {i : Nat} (hi : i ≤ r.length) :
    (r.insert i s).payloads.Perm (s.payload :: r.payloads) := by
  rw [payloads, slots_insert]
  exact (List.perm_insertIdx s r.slots hi).map Slot.payload

theorem payloads_erase (hs : s ∈ r.slots) (hnodup : r.handles.Nodup) :
    r.payloads.Perm (s.payload :: (r.erase s.handle).payloads) := by
  obtain ⟨a, b, hr⟩ := List.append_of_mem hs
  rw [payloads, payloads, slots_erase hr hnodup, hr]
  exact List.perm_middle.map Slot.payload

theorem payloads_write (hs : s ∈ r.slots) (hnodup : r.handles.Nodup) (x : α) :
    (x :: r.payloads).Perm (s.payload :: (r.write s.handle x).payloads) := by
  obtain ⟨a, b, hr⟩ := List.append_of_mem hs
  rw [payloads, payloads, slots_write_split hr hnodup, hr]
  refine ((List.perm_middle.map Slot.payload).cons x).trans ?_
  refine (List.Perm.swap _ _ _).trans (List.Perm.cons _ ?_)
  rw [List.map_append, List.map_append, List.map_cons]
  exact List.perm_middle.symm

end Row

/-! ## Nodes -/

/-- What a course leaves: nodes that the row and the strays name once each, and the rest as it was. -/
structure Accounts (v w : View σ α) (strays : List (Slot α)) : Prop where
  fresh_le : v.fresh ≤ w.fresh
  row_nodup : w.row.handles.Nodup
  row_lt : ∀ h ∈ w.row.handles, h < w.fresh
  row_new : ∀ h ∈ w.row.handles, v.rest h = none
  nodup : (handlesOf strays).Nodup
  strays_lt : ∀ h ∈ handlesOf strays, h < w.fresh
  strays_new : ∀ h ∈ handlesOf strays, v.rest h = none
  holds : ∀ s ∈ strays, ∃ n, w.rest s.handle = some n ∧ n.entry = s.entry
  other : ∀ h, h ∉ handlesOf strays → w.rest h = v.rest h

namespace Accounts

variable {v w : View σ α} {strays : List (Slot α)} {s : Slot α}

theorem refl (hv : v.Sound) : Accounts v v [] where
  fresh_le := Nat.le_refl _
  row_nodup := hv.nodup
  row_lt := hv.row_lt
  row_new := hv.apart
  nodup := List.nodup_nil
  strays_lt := by simp
  strays_new := by simp
  holds := by simp
  other := fun _ _ => rfl

theorem place (hv : v.Sound) (h : Accounts v w strays) {i : Nat} (hi : i ≤ w.row.length)
    (e : Entry α) : Accounts v
      { w with row := w.row.insert i ⟨w.fresh, e⟩, fresh := w.fresh + 1 } strays := by
  have hle : w.fresh ≤ w.fresh + 1 := Nat.le_succ _
  have hnot : w.fresh ∉ w.row.handles := fun hmem => Nat.lt_irrefl _ (h.row_lt _ hmem)
  refine { h with
    fresh_le := Nat.le_trans h.fresh_le hle
    row_nodup := ?_
    row_lt := ?_
    row_new := ?_
    strays_lt := fun k hk => Nat.lt_of_lt_of_le (h.strays_lt k hk) hle }
  · have hperm := (List.perm_insertIdx ⟨w.fresh, e⟩ w.row.slots hi).map Slot.handle
    show (handlesOf (w.row.insert i ⟨w.fresh, e⟩).slots).Nodup
    rw [Row.slots_insert, hperm.nodup_iff]
    exact List.nodup_cons.2 ⟨hnot, h.row_nodup⟩
  · intro k hk
    rcases (Row.mem_handles_insert hi).1 hk with rfl | hk
    · exact Nat.lt_succ_self _
    · exact Nat.lt_of_lt_of_le (h.row_lt k hk) hle
  · intro k hk
    rcases (Row.mem_handles_insert hi).1 hk with rfl | hk
    · exact hv.unused _ h.fresh_le
    · exact h.row_new k hk

theorem erase (h : Accounts v w strays) (k : Handle) :
    Accounts v { w with row := w.row.erase k } strays := by
  have hsub : ∀ j ∈ (w.row.erase k).handles, j ∈ w.row.handles := by
    intro j hj
    rw [Row.handles_erase] at hj
    exact List.mem_of_mem_filter hj
  refine { h with
    row_nodup := ?_
    row_lt := fun j hj => h.row_lt j (hsub j hj)
    row_new := fun j hj => h.row_new j (hsub j hj) }
  show (w.row.erase k).handles.Nodup
  rw [Row.handles_erase]
  exact h.row_nodup.filter _

theorem write (h : Accounts v w strays) (k : Handle) (x : α) :
    Accounts v { w with row := w.row.write k x } strays := by
  refine { h with row_nodup := ?_, row_lt := ?_, row_new := ?_ }
  · show (w.row.write k x).handles.Nodup
    rw [Row.handles_write]
    exact h.row_nodup
  · intro j hj
    exact h.row_lt j (by rwa [Row.handles_write] at hj)
  · intro j hj
    exact h.row_new j (by rwa [Row.handles_write] at hj)

theorem make (hv : v.Sound) (h : Accounts v w strays) {e : Entry α} {rest : Nodes α}
    (hother : ∀ k, k ∉ handlesOf (strays ++ [⟨w.fresh, e⟩]) → rest k = w.rest k)
    (hholds : ∀ t ∈ strays ++ [⟨w.fresh, e⟩], ∃ n, rest t.handle = some n ∧ n.entry = t.entry) :
    Accounts v { w with rest, fresh := w.fresh + 1 } (strays ++ [⟨w.fresh, e⟩]) := by
  have hle : w.fresh ≤ w.fresh + 1 := Nat.le_succ _
  have hmem : ∀ k, k ∈ handlesOf (strays ++ [⟨w.fresh, e⟩]) ↔ k ∈ handlesOf strays ∨ k = w.fresh := by
    intro k
    simp
  have hnot : w.fresh ∉ handlesOf strays := fun hk => Nat.lt_irrefl _ (h.strays_lt _ hk)
  refine { h with
    fresh_le := Nat.le_trans h.fresh_le hle
    row_lt := fun k hk => Nat.lt_of_lt_of_le (h.row_lt k hk) hle
    nodup := ?_
    strays_lt := ?_
    strays_new := ?_
    holds := hholds
    other := ?_ }
  · rw [handlesOf, List.map_append, List.map_singleton, List.nodup_append]
    refine ⟨h.nodup, List.nodup_singleton _, ?_⟩
    rintro j hj k hk rfl
    have he : j = w.fresh := List.mem_singleton.1 hk
    exact hnot (he ▸ hj)
  · intro k hk
    rcases (hmem k).1 hk with hk | rfl
    · exact Nat.lt_of_lt_of_le (h.strays_lt k hk) hle
    · exact Nat.lt_succ_self _
  · intro k hk
    rcases (hmem k).1 hk with hk | rfl
    · exact h.strays_new k hk
    · exact hv.unused _ h.fresh_le
  · intro k hk
    refine (hother k hk).trans (h.other k fun hs => hk ?_)
    exact (hmem k).2 (.inl hs)

theorem abandon (h : Accounts v w []) :
    Accounts v { w with row := .empty, rest := w.rest.lay none w.row.slots } w.row.slots := by
  have hlaid : Linked (w.rest.lay none w.row.slots) .after none w.row.slots none :=
    Nodes.linked_lay h.row_nodup
  refine { h with
    row_nodup := List.nodup_nil
    row_lt := by simp [Row.handles]
    row_new := by simp [Row.handles]
    nodup := h.row_nodup
    strays_lt := h.row_lt
    strays_new := h.row_new
    holds := fun t ht => hlaid.holds ht
    other := ?_ }
  intro k hk
  exact (Nodes.lay_of_not_mem hk).trans (h.other k (by simp))

theorem release (h : Accounts v w (s :: strays)) :
    Accounts v { w with rest := w.rest.set s.handle none } strays := by
  have hnodup := h.nodup
  rw [handlesOf, List.map_cons, List.nodup_cons] at hnodup
  refine { h with
    nodup := hnodup.2
    strays_lt := fun k hk => h.strays_lt k (List.mem_cons_of_mem _ hk)
    strays_new := fun k hk => h.strays_new k (List.mem_cons_of_mem _ hk)
    holds := ?_
    other := ?_ }
  · intro t ht
    have hne : t.handle ≠ s.handle := fun he => hnodup.1 (he ▸ List.mem_map_of_mem ht)
    obtain ⟨n, hn, hentry⟩ := h.holds t (List.mem_cons_of_mem _ ht)
    exact ⟨n, (Nodes.set_other hne).trans hn, hentry⟩
  · intro k hk
    by_cases he : k = s.handle
    · rw [he, h.strays_new _ (List.mem_cons_self ..)]
      exact Nodes.set_same
    · refine (Nodes.set_other he).trans (h.other k ?_)
      simp only [handlesOf, List.map_cons, List.mem_cons, not_or]
      exact ⟨he, hk⟩

end Accounts

namespace Course

variable {permits : Fate → Prop} {v w : View σ α} {came hand : List α} {strays : List (Slot α)}

theorem mono {permits' : Fate → Prop} (h : ∀ fate, permits fate → permits' fate)
    (c : Course permits v w came hand strays) : Course permits' v w came hand strays := by
  induction c with
  | start => exact .start
  | called e c ih => exact ih.called e
  | logged line c ih => exact ih.logged line
  | settle allocator destructors c ih => exact ih.settle allocator destructors
  | receive x c ih => exact ih.receive x
  | give hf c ih => exact ih.give (h _ hf)
  | place hi c ih => exact ih.place hi
  | take hs hfresh c ih => exact ih.take hs hfresh
  | write hs c ih => exact ih.write hs
  | make hother hholds c ih => exact ih.make hother hholds
  | abandon c ih => exact ih.abandon
  | release c ih => exact ih.release

theorem accounts (hv : v.Sound) (c : Course permits v w came hand strays) : Accounts v w strays := by
  induction c with
  | start => exact .refl hv
  | called e c ih => exact { ih with }
  | logged line c ih => exact { ih with }
  | settle allocator destructors c ih => exact { ih with }
  | receive x c ih => exact { ih with }
  | give hf c ih => exact { ih with }
  | place hi c ih => exact ih.place hv hi _
  | take hs hfresh c ih => exact ih.erase _
  | write hs c ih => exact ih.write _ _
  | make hother hholds c ih => exact ih.make hv hother hholds
  | abandon c ih => exact ih.abandon
  | release c ih => exact ih.release

/-! ## Payloads -/

theorem balance (hv : v.Sound) (c : Course permits v w came hand strays) :
    (enteredIn w.trace : Multiset α) + (leftIn v.trace).map Prod.snd + v.row.payloads =
      (enteredIn v.trace : Multiset α) + (leftIn w.trace).map Prod.snd + w.row.payloads +
        strays.map Slot.payload + hand := by
  induction c with
  | start => simp only [List.map_nil, Multiset.coe_nil, add_zero]
  | called e c ih =>
    simp only [View.emit, enteredIn_push, leftIn_push, Event.entered?, Event.left?,
      Option.toList_none, List.append_nil]
    exact ih
  | logged line c ih =>
    simp only [View.log, View.emit, enteredIn_push, leftIn_push, Event.entered?, Event.left?,
      Option.toList_none, List.append_nil]
    exact ih
  | settle allocator destructors c ih => exact ih
  | @receive w came hand strays x c ih =>
    simp only [View.emit, enteredIn_push, leftIn_push, Event.entered?, Event.left?,
      Option.toList_none, Option.toList_some, List.append_nil, ← Multiset.coe_add,
      ← Multiset.cons_coe, Multiset.coe_nil, ← Multiset.singleton_add] at ih ⊢
    calc (enteredIn w.trace : Multiset α) + ({x} + 0) + _ + _
        = {x} + ((enteredIn w.trace : Multiset α) + (leftIn v.trace).map Prod.snd
            + v.row.payloads) := by abel
      _ = _ := by
        rw [ih]
        abel
  | give hf c ih =>
    simp only [View.emit, enteredIn_push, leftIn_push, Event.entered?, Event.left?,
      Option.toList_none, Option.toList_some, List.append_nil, List.map_append, List.map_cons,
      List.map_nil, ← Multiset.coe_add, ← Multiset.cons_coe, Multiset.coe_nil,
      ← Multiset.singleton_add] at ih ⊢
    rw [ih]
    abel
  | @place w came hand strays i e hi c ih =>
    have hrow := Multiset.coe_eq_coe.2 (Row.payloads_insert (s := ⟨w.fresh, e⟩) hi)
    simp only [← Multiset.cons_coe, ← Multiset.singleton_add] at ih hrow ⊢
    rw [ih, hrow]
    abel
  | @take w came hand strays s hs hfresh c ih =>
    have hrow := Multiset.coe_eq_coe.2 (Row.payloads_erase hs (c.accounts hv).row_nodup)
    simp only [← Multiset.cons_coe, ← Multiset.singleton_add] at hrow ⊢
    rw [ih, hrow]
    abel
  | @write w came hand strays s x hs c ih =>
    have hrow := Multiset.coe_eq_coe.2 (Row.payloads_write hs (c.accounts hv).row_nodup x)
    simp only [← Multiset.cons_coe, ← Multiset.singleton_add] at ih hrow ⊢
    calc _ = _ := ih
      _ = (enteredIn v.trace : Multiset α) + (leftIn w.trace).map Prod.snd
            + strays.map Slot.payload + hand + ({x} + w.row.payloads) := by abel
      _ = _ := by
        rw [hrow]
        abel
  | @make w came hand strays e rest hother hholds c ih =>
    simp only [List.map_append, List.map_cons, List.map_nil, ← Multiset.coe_add,
      ← Multiset.cons_coe, Multiset.coe_nil, ← Multiset.singleton_add] at ih ⊢
    rw [ih]
    abel
  | @abandon w came hand c ih =>
    rw [ih]
    simp only [Row.payloads, Row.slots_empty, List.map_nil, Multiset.coe_nil, add_zero]
  | @release w came hand strays s c ih =>
    simp only [List.map_cons, ← Multiset.cons_coe, ← Multiset.singleton_add] at ih ⊢
    rw [ih]
    abel

theorem arrivals (c : Course permits v w came hand strays) :
    enteredIn w.trace = enteredIn v.trace ++ came := by
  induction c with
  | start => exact (List.append_nil _).symm
  | called e c ih =>
    rw [View.emit, enteredIn_push, ih]
    exact List.append_nil _
  | logged line c ih =>
    rw [View.log, View.emit, enteredIn_push, ih]
    exact List.append_nil _
  | receive x c ih =>
    rw [View.emit, enteredIn_push, ih, List.append_assoc]
    rfl
  | give hf c ih =>
    rw [View.emit, enteredIn_push, ih]
    exact List.append_nil _
  | settle allocator destructors c ih => exact ih
  | place hi c ih => exact ih
  | take hs hfresh c ih => exact ih
  | write hs c ih => exact ih
  | make hother hholds c ih => exact ih
  | abandon c ih => exact ih
  | release c ih => exact ih

theorem fates (c : Course permits v w came hand strays) {fate : Fate} {x : α}
    (h : (fate, x) ∈ leftIn w.trace) : (fate, x) ∈ leftIn v.trace ∨ permits fate := by
  induction c with
  | start => exact .inl h
  | called e c ih =>
    rw [View.emit, leftIn_push] at h
    exact ih (by simpa [Event.left?] using h)
  | logged line c ih =>
    rw [View.log, View.emit, leftIn_push] at h
    exact ih (by simpa [Event.left?] using h)
  | receive y c ih =>
    rw [View.emit, leftIn_push] at h
    exact ih (by simpa [Event.left?] using h)
  | give hf c ih =>
    rw [View.emit, leftIn_push, List.mem_append] at h
    rcases h with h | h
    · exact ih h
    · have he : (fate, x) = _ := List.mem_singleton.1 h
      cases he
      exact .inr hf
  | settle allocator destructors c ih => exact ih h
  | place hi c ih => exact ih h
  | take hs hfresh c ih => exact ih h
  | write hs c ih => exact ih h
  | make hother hholds c ih => exact ih h
  | abandon c ih => exact ih h
  | release c ih => exact ih h

end Course

/-! ## The cursor -/

/-- Handles below a bound, on each side of the cursor of a row: they were there before, in this order,
and an exhausted cursor stays exhausted. -/
structure Follows (bound : Handle) (r r' : Row α) : Prop where
  passed : ((handlesOf r'.passed).filter (· < bound)).Sublist (handlesOf r.passed)
  due : ((handlesOf r'.due).filter (· < bound)).Sublist (handlesOf r.due)
  exhausted : r.due = [] → r'.due = []

theorem filter_insertIdx {p : Handle → Bool} {s : Slot α} (hs : p s.handle = false) (i : Nat)
    (a : List (Slot α)) : (handlesOf (a.insertIdx i s)).filter p = (handlesOf a).filter p := by
  rw [handlesOf, handlesOf, List.filter_map, List.filter_map,
    Row.filter_insertIdx (p := p ∘ Slot.handle) hs]

namespace Follows

variable {bound : Handle} {r r' : Row α} {s : Slot α}

theorem refl (bound : Handle) (r : Row α) : Follows bound r r :=
  ⟨List.filter_sublist, List.filter_sublist, id⟩

theorem insert (hr : Follows bound r r') {i : Nat} (hi : i ≤ r'.length) (hs : bound ≤ s.handle) :
    Follows bound r (r'.insert i s) := by
  have hp : decide (s.handle < bound) = false := by simpa using hs
  unfold Row.insert
  split
  · exact { hr with passed := by rw [filter_insertIdx hp]; exact hr.passed }
  · rename_i hgt
    refine { hr with due := by rw [filter_insertIdx hp]; exact hr.due, exhausted := ?_ }
    intro hd
    rw [Row.length, Row.slots, hr.exhausted hd, List.append_nil] at hi
    omega

theorem filter (hr : Follows bound r r') (p : Slot α → Bool) : Follows bound r (r'.filter p) where
  passed := ((List.filter_sublist.map Slot.handle).filter _).trans hr.passed
  due := ((List.filter_sublist.map Slot.handle).filter _).trans hr.due
  exhausted := fun hd => by rw [Row.filter, hr.exhausted hd, List.filter_nil]

theorem write (hr : Follows bound r r') (h : Handle) (x : α) : Follows bound r (r'.write h x) := by
  have hkeep : ∀ a : List (Slot α), handlesOf (a.map fun s =>
      if s.handle = h then { s with entry := s.entry.update fun _ => x } else s) = handlesOf a := by
    intro a
    rw [handlesOf, List.map_map]
    refine List.map_congr_left ?_
    intro s _
    simp only [Function.comp]
    split <;> rfl
  refine ⟨?_, ?_, fun hd => ?_⟩
  · rw [Row.write, hkeep]
    exact hr.passed
  · rw [Row.write, hkeep]
    exact hr.due
  · rw [Row.write, hr.exhausted hd, List.map_nil]

end Follows

namespace Course

variable {permits : Fate → Prop} {v w : View σ α} {came hand : List α} {strays : List (Slot α)}

theorem follows (hv : v.Sound) (c : Course permits v w came hand strays) :
    Follows v.fresh v.row w.row := by
  induction c with
  | start => exact .refl _ _
  | place hi c ih => exact ih.insert hi (c.accounts hv).fresh_le
  | take hs hfresh c ih => exact ih.filter _
  | write hs c ih => exact ih.write _ _
  | abandon c ih => exact ⟨List.nil_sublist _, List.nil_sublist _, fun _ => rfl⟩
  | called e c ih => exact ih
  | logged line c ih => exact ih
  | settle allocator destructors c ih => exact ih
  | receive x c ih => exact ih
  | give hf c ih => exact ih
  | make hother hholds c ih => exact ih
  | release c ih => exact ih

/-- The cursor does not move onto a new entry. -/
theorem cursor_lt (hv : v.Sound) (c : Course permits v w came hand strays) {h : Handle}
    (hc : w.row.cursor = some h) : h < v.fresh := by
  induction c with
  | start => exact hv.row_lt h (Row.cursor_mem hc)
  | place hi c ih =>
    rw [Row.cursor_insert hi] at hc
    exact ih hc
  | @take w came hand strays s hs hfresh c ih =>
    -- every entry that is left was there before, as no node was made yet
    have hmem : h ∈ w.row.handles := by
      have h' := Row.cursor_mem hc
      rw [Row.handles_erase] at h'
      exact List.mem_of_mem_filter h'
    rw [← hfresh]
    exact (c.accounts hv).row_lt h hmem
  | write hs c ih =>
    rw [Row.cursor_write] at hc
    exact ih hc
  | abandon c ih => cases hc
  | called e c ih => exact ih hc
  | logged line c ih => exact ih hc
  | settle allocator destructors c ih => exact ih hc
  | receive x c ih => exact ih hc
  | give hf c ih => exact ih hc
  | make hother hholds c ih => exact ih hc
  | release c ih => exact ih hc

end Course

end LinkedDeque
