import LinkedDeque.Heap
import Mathlib.Data.List.Induction
import Mathlib.Data.List.Nodup
import Mathlib.Data.List.Perm.Subperm

/-!
# LinkedDeque.Proofs.Linked

Runs of linked nodes, as a predicate on the nodes found under handles:

* `Slot`    — an entry with the handle of its node.
* `ahead`, `behind` — the first handle met when a run is entered at its front or at its back.
* `Linked`  — the nodes of a run link to each other, and at both ends to what the run lies between.
* `Nodes.lay` — nodes with a run of linked nodes laid over them.

`Linked` is stated for a `Side`, so a run read from the other end is the same fact (`Linked.flip`),
and cutting and joining runs is one lemma (`Linked.append`).
-/

namespace LinkedDeque

variable {α : Type}

abbrev Nodes (α : Type) := Handle → Option (Node α)

/-- An entry with the handle of its node. -/
structure Slot (α : Type) where
  handle : Handle
  entry : Entry α

/-- The node of an entry, seen toward a side: the neighbour it comes after, and the one ahead. -/
def Node.between (side : Side) (back : Option Handle) (e : Entry α) (on : Option Handle) : Node α :=
  match side with
  | .after => ⟨e, back, on⟩
  | .before => ⟨e, on, back⟩

namespace Node

variable (side : Side) (back on v : Option Handle) (e : Entry α)

@[simp] theorem between_flip : between side.flip on e back = between side back e on := by
  cases side <;> rfl

@[simp] theorem between_none : between side none e none = detached e := by
  cases side <;> rfl

@[simp] theorem link_between : (between side back e on).link side = on := by
  cases side <;> rfl

@[simp] theorem link_flip_between : (between side back e on).link side.flip = back := by
  cases side <;> rfl

@[simp] theorem entry_between : (between side back e on).entry = e := by
  cases side <;> rfl

@[simp] theorem setLink_between :
    (between side back e on).setLink side v = between side back e v := by
  cases side <;> rfl

@[simp] theorem setLink_flip_between :
    (between side back e on).setLink side.flip v = between side v e on := by
  cases side <;> rfl

@[simp] theorem setValue_between (x : α) :
    (between side back e on).setValue x = between side back (e.update fun _ => x) on := by
  cases side <;> rfl

end Node

abbrev handlesOf (run : List (Slot α)) : List Handle := run.map Slot.handle

/-- The first handle of a run, or what lies beyond an empty one. -/
def ahead : List (Slot α) → Option Handle → Option Handle
  | [], on => on
  | s :: _, _ => some s.handle

/-- The last handle of a run, or what lies before an empty one. -/
def behind : Option Handle → List (Slot α) → Option Handle
  | back, [] => back
  | _, s :: rest => behind (some s.handle) rest

section Ends

variable (back on : Option Handle) (s : Slot α) (a b : List (Slot α))

@[simp] theorem ahead_nil : ahead ([] : List (Slot α)) on = on := rfl

@[simp] theorem ahead_cons : ahead (s :: a) on = some s.handle := rfl

@[simp] theorem behind_nil : behind back ([] : List (Slot α)) = back := rfl

@[simp] theorem behind_cons : behind back (s :: a) = behind (some s.handle) a := rfl

@[simp] theorem ahead_append : ahead (a ++ b) on = ahead a (ahead b on) := by
  cases a <;> rfl

@[simp] theorem behind_append : behind back (a ++ b) = behind (behind back a) b := by
  induction a generalizing back with
  | nil => rfl
  | cons s a ih => exact ih _

@[simp] theorem behind_reverse : behind back a.reverse = ahead a back := by
  cases a <;> simp

@[simp] theorem ahead_reverse : ahead a.reverse on = behind on a := by
  have h := behind_reverse on a.reverse
  rw [List.reverse_reverse] at h
  exact h.symm

theorem ahead_eq_head? : ahead a none = (handlesOf a).head? := by
  cases a <;> rfl

theorem behind_eq_getLast? : behind none a = (handlesOf a).getLast? := by
  rw [← ahead_reverse, ahead_eq_head?, handlesOf, List.map_reverse, List.head?_reverse]

theorem behind_cons_mem : ∃ k ∈ handlesOf (s :: a), behind back (s :: a) = some k := by
  induction a generalizing s back with
  | nil => exact ⟨s.handle, List.mem_singleton_self _, rfl⟩
  | cons t a ih =>
    obtain ⟨k, hk, hlast⟩ := ih (some s.handle) t
    exact ⟨k, List.mem_cons_of_mem _ hk, hlast⟩

variable {back on a}

theorem mem_of_ahead {h : Handle} (hh : ahead a none = some h) : h ∈ handlesOf a := by
  rw [ahead_eq_head?] at hh
  exact List.mem_of_head? hh

theorem mem_of_behind {h : Handle} (hh : behind none a = some h) : h ∈ handlesOf a := by
  rw [behind_eq_getLast?] at hh
  exact List.mem_of_getLast? hh

end Ends

/-- A run of nodes, read toward a side: each links back to the one before it and on to the next; the
first links back to `back` and the last on to `on`. -/
def Linked (look : Nodes α) (side : Side) :
    Option Handle → List (Slot α) → Option Handle → Prop
  | _, [], _ => True
  | back, s :: rest, on =>
    look s.handle = some (.between side back s.entry (ahead rest on)) ∧
      Linked look side (some s.handle) rest on

namespace Linked

variable {look look' : Nodes α} {side : Side} {back on : Option Handle} {a b : List (Slot α)}

theorem append : Linked look side back (a ++ b) on ↔
    Linked look side back a (ahead b on) ∧ Linked look side (behind back a) b on := by
  induction a generalizing back with
  | nil => simp [Linked]
  | cons s a ih => simp [Linked, ih, and_assoc]

theorem flip : Linked look side.flip on a.reverse back ↔ Linked look side back a on := by
  induction a generalizing back with
  | nil => simp [Linked]
  | cons s a ih =>
    rw [List.reverse_cons, append]
    simp [Linked, ih, and_comm]

theorem congr (hl : Linked look side back a on)
    (h : ∀ k ∈ handlesOf a, look' k = look k) : Linked look' side back a on := by
  induction a generalizing back with
  | nil => trivial
  | cons s a ih =>
    obtain ⟨hs, hl⟩ := hl
    have hrest : ∀ k ∈ handlesOf a, look' k = look k := fun k hk => h k (by simp at hk ⊢; right; exact hk)
    exact ⟨(h _ (by simp)).trans hs, ih hl hrest⟩

theorem live (hl : Linked look side back a on) {h : Handle} (hh : h ∈ handlesOf a) :
    ∃ n, look h = some n := by
  induction a generalizing back with
  | nil => simp at hh
  | cons s a ih =>
    obtain ⟨hs, hl⟩ := hl
    rcases List.mem_cons.1 hh with rfl | hh
    · exact ⟨_, hs⟩
    · exact ih hl hh

theorem middle {s : Slot α} (hl : Linked look side back (a ++ s :: b) on) :
    look s.handle = some (.between side (behind back a) s.entry (ahead b on)) :=
  (append.1 hl).2.1

/-- A run says of each of its nodes what it is. -/
theorem agree (hl : Linked look side back a on) (hl' : Linked look' side back a on) {h : Handle}
    (hh : h ∈ handlesOf a) : look' h = look h := by
  obtain ⟨s, hs, rfl⟩ := List.mem_map.1 hh
  obtain ⟨b, c, rfl⟩ := List.append_of_mem hs
  exact hl'.middle.trans hl.middle.symm

theorem of_middle (h : ∀ b s c, a = b ++ s :: c →
      look s.handle = some (.between side (behind back b) s.entry (ahead c on))) :
    Linked look side back a on := by
  induction a generalizing back with
  | nil => trivial
  | cons s a ih => exact ⟨h [] s a rfl, ih fun b t c hr => h (s :: b) t c (by rw [hr]; rfl)⟩

/-- A run with nothing behind it has no node twice: of two places of a node the links back would lead
to one place before the first of them, and to a node between the two. -/
theorem nodup (hl : Linked look side none a on) : (handlesOf a).Nodup := by
  induction a using List.reverseRecOn generalizing on with
  | nil => exact List.nodup_nil
  | append_singleton a s ih =>
    obtain ⟨ha, hs, -⟩ := append.1 hl
    have hnodup := ih ha
    rw [handlesOf, List.map_append, List.nodup_append]
    refine ⟨hnodup, List.nodup_singleton _, ?_⟩
    rintro h hh _ hs' rfl
    obtain rfl : h = s.handle := List.mem_singleton.1 hs'
    obtain ⟨t, ht, he⟩ := List.mem_map.1 hh
    obtain ⟨b, c, rfl⟩ := List.append_of_mem ht
    -- both places give the node the same link back
    have hmid := ha.middle
    rw [he, hs] at hmid
    have hback := congrArg (Option.map (Node.link side.flip)) hmid
    simp only [Option.map_some, Node.link_flip_between, Option.some.injEq] at hback
    rw [behind_append] at hback
    obtain ⟨k, hk, hlast⟩ := behind_cons_mem (behind none b) t c
    rw [handlesOf, List.map_append, List.nodup_append] at hnodup
    exact hnodup.2.2 k (mem_of_behind (hback.symm.trans hlast)) k hk rfl

theorem holds (hl : Linked look side back a on) {s : Slot α} (hs : s ∈ a) :
    ∃ n, look s.handle = some n ∧ n.entry = s.entry := by
  obtain ⟨b, c, rfl⟩ := List.append_of_mem hs
  exact ⟨_, hl.middle, Node.entry_between ..⟩

end Linked

/-! ## Writes -/

namespace Nodes

variable {look : Nodes α} {h k : Handle} {v : Option (Node α)}

def set (look : Nodes α) (h : Handle) (v : Option (Node α)) : Nodes α := fun k =>
  if k = h then v else look k

@[simp] theorem set_same : look.set h v h = v := by simp [set]

theorem set_other (hne : k ≠ h) : look.set h v k = look k := by simp [set, hne]

theorem set_set (w : Option (Node α)) : (look.set h v).set h w = look.set h w := by
  funext k
  by_cases hk : k = h <;> simp [set, hk]

theorem set_eq_self (hv : look h = v) : look.set h v = look := by
  funext k
  by_cases hk : k = h <;> simp [set, hk, hv]

/-- Overwrites the link on one side of a node, if one is named. -/
def point (look : Nodes α) (side : Side) (target v : Option Handle) : Nodes α :=
  match target with
  | none => look
  | some h => look.set h ((look h).map (·.setLink side v))

theorem point_other {side : Side} {target v : Option Handle} (hne : target ≠ some k) :
    look.point side target v k = look k := by
  cases target with
  | none => rfl
  | some h => exact set_other fun he => hne (by rw [he])

end Nodes

namespace Heap

variable {heap : Heap α} {h : Handle} {n : Node α}

theorem look_put (hn : heap.get? h = some n) (m : Node α) :
    (heap.put h m).get? = Nodes.set heap.get? h (some m) := by
  funext k
  by_cases hk : k = h
  · rw [hk, get?_put_same m (lt_size_of_get? hn), Nodes.set_same]
  · rw [get?_put_other m hk, Nodes.set_other hk]

theorem look_free (heap : Heap α) (h : Handle) :
    (heap.free h).get? = Nodes.set heap.get? h none := by
  funext k
  by_cases hk : k = h
  · rw [hk, get?_free_same, Nodes.set_same]
  · rw [get?_free_other hk, Nodes.set_other hk]

theorem look_alloc (heap : Heap α) (n : Node α) :
    (heap.alloc n).2.get? = Nodes.set heap.get? heap.size (some n) := by
  funext k
  by_cases hk : k = heap.size
  · rw [hk, Nodes.set_same]
    exact get?_alloc_same heap n
  · rw [get?_alloc_other hk, Nodes.set_other hk]

theorem get?_size (heap : Heap α) : heap.get? heap.size = none := by
  cases hn : heap.get? heap.size with
  | none => rfl
  | some n => exact absurd (lt_size_of_get? hn) (Nat.lt_irrefl _)

theorem ext_get? {heap' : Heap α} (hsize : heap'.size = heap.size)
    (h : ∀ k, heap'.get? k = heap.get? k) : heap' = heap := by
  obtain ⟨cells⟩ := heap
  obtain ⟨cells'⟩ := heap'
  refine congrArg Heap.mk (Array.ext hsize ?_)
  intro i hi hi'
  have hcell := h i
  simpa [get?, hi, hi'] using hcell

theorem mem_live {heap : Heap α} {h : Handle} : h ∈ heap.live ↔ ∃ n, heap.get? h = some n := by
  rw [live, List.mem_filter, List.mem_range, Option.isSome_iff_exists]
  exact ⟨fun hh => hh.2, fun ⟨n, hn⟩ => ⟨lt_size_of_get? hn, n, hn⟩⟩

theorem length_live_le (heap : Heap α) : heap.live.length ≤ heap.size := by
  have hle := List.length_filter_le (fun h => (heap.get? h).isSome) (List.range heap.size)
  rwa [List.length_range] at hle

end Heap

namespace Linked

variable {look : Nodes α} {side : Side} {back on : Option Handle} {a : List (Slot α)}

theorem set_other (hl : Linked look side back a on) {h : Handle} (hh : h ∉ handlesOf a)
    (v : Option (Node α)) : Linked (look.set h v) side back a on :=
  hl.congr fun _ hk => Nodes.set_other fun he => hh (he ▸ hk)

theorem point_other (hl : Linked look side back a on) {target : Option Handle}
    (hh : ∀ h ∈ handlesOf a, target ≠ some h) (s : Side) (v : Option Handle) :
    Linked (look.point s target v) side back a on :=
  hl.congr fun k hk => Nodes.point_other (hh k hk)

theorem point_back (hl : Linked look side back a on) (hnodup : (handlesOf a).Nodup)
    (v : Option Handle) :
    Linked (look.point side.flip (ahead a none) v) side v a on := by
  cases a with
  | nil => trivial
  | cons s a =>
    obtain ⟨hs, hl⟩ := hl
    rw [handlesOf, List.map_cons, List.nodup_cons] at hnodup
    refine ⟨?_, hl.set_other hnodup.1 _⟩
    simp [Nodes.point, hs]

theorem point_on (hl : Linked look side back a on) (hnodup : (handlesOf a).Nodup)
    (v : Option Handle) :
    Linked (look.point side (behind none a) v) side back a v := by
  have hrev : (handlesOf a.reverse).Nodup := by
    rw [handlesOf, List.map_reverse]
    exact List.nodup_reverse.2 hnodup
  have h := (flip.2 hl).point_back hrev v
  rw [ahead_reverse, Side.flip_flip] at h
  exact flip.1 h

/-- The nodes of a run are live, so a run without repetition is no longer than there are such nodes. -/
theorem length_le_live {heap : Heap α} (hl : Linked heap.get? side back a on)
    (hnodup : (handlesOf a).Nodup) : a.length ≤ heap.live.length := by
  have hsub : handlesOf a ⊆ heap.live := fun h hh => Heap.mem_live.2 (hl.live hh)
  have hle := (hnodup.subperm hsub).length_le
  rwa [List.length_map] at hle

theorem length_le {heap : Heap α} (hl : Linked heap.get? side back a on)
    (hnodup : (handlesOf a).Nodup) : a.length ≤ heap.size :=
  Nat.le_trans (hl.length_le_live hnodup) heap.length_live_le

end Linked

/-! ## Runs as nodes -/

namespace Nodes

variable {rest : Nodes α} {back : Option Handle} {a b : List (Slot α)}

/-- Nodes with a run laid over them, which nothing follows. -/
def lay (rest : Nodes α) (back : Option Handle) : List (Slot α) → Nodes α
  | [] => rest
  | s :: a => (rest.lay (some s.handle) a).set s.handle
      (some (.between .after back s.entry (ahead a none)))

theorem lay_of_not_mem {k : Handle} (hk : k ∉ handlesOf a) : rest.lay back a k = rest k := by
  induction a generalizing back with
  | nil => rfl
  | cons s a ih =>
    rw [handlesOf, List.map_cons, List.mem_cons, not_or] at hk
    rw [lay, set_other hk.1, ih hk.2]

theorem linked_lay (hnodup : (handlesOf a).Nodup) : Linked (rest.lay back a) .after back a none := by
  induction a generalizing back with
  | nil => trivial
  | cons s a ih =>
    rw [handlesOf, List.map_cons, List.nodup_cons] at hnodup
    exact ⟨set_same, (ih hnodup.2).set_other hnodup.1 _⟩

theorem lay_eq_of_linked {look : Nodes α} (hl : Linked look .after back a none) {k : Handle}
    (hk : k ∈ handlesOf a) : rest.lay back a k = look k := by
  induction a generalizing back with
  | nil => simp at hk
  | cons s a ih =>
    obtain ⟨hs, hl⟩ := hl
    by_cases he : k = s.handle
    · rw [lay, he, set_same, hs]
    · rw [lay, set_other he]
      exact ih hl ((List.mem_cons.1 hk).resolve_left he)

section Hide

variable {rest : Nodes α} {run : List (Slot α)} {h : Handle}

def hide (rest : Nodes α) (run : List (Slot α)) : Nodes α := fun h =>
  if h ∈ handlesOf run then none else rest h

theorem hide_of_mem (hh : h ∈ handlesOf run) : rest.hide run h = none := if_pos hh

theorem hide_of_not_mem (hh : h ∉ handlesOf run) : rest.hide run h = rest h := if_neg hh

theorem set_hide (rest : Nodes α) (s : Slot α) (run : List (Slot α)) :
    (rest.set s.handle none).hide run = rest.hide (s :: run) := by
  funext h
  by_cases hh : h ∈ handlesOf run
  · rw [hide_of_mem hh, hide_of_mem (List.mem_cons_of_mem _ hh)]
  · rw [hide_of_not_mem hh]
    by_cases he : h = s.handle
    · rw [he, set_same, hide_of_mem (List.mem_cons_self ..)]
    · rw [set_other he, hide_of_not_mem fun hm => (List.mem_cons.1 hm).elim he hh]

end Hide

end Nodes

end LinkedDeque
