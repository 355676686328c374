import LinkedDeque.Forms
import LinkedDeque.Proofs.CursorIndex
import LinkedDeque.Proofs.Edits

/-!
# LinkedDeque.Proofs.Inverses

What comes in can be taken out again, and what went out can be put back:

* `Linkage.Reversible` — on a chain, either way round, to the last link.
* `World.Reversible`   — on a list of a world: an insertion and the removal that undoes it restore the
  list, and a removal and the insertion that undoes it restore all but the node.
* `insertions_reverse` — both, of every chain and after every run.

A chain is settled by its run, so two edits undo each other as soon as their runs do. The one thing that a
removal loses is a cursor on the entry that left: that moved on, and does not come back with the entry.
-/

namespace LinkedDeque

variable {σ α : Type}

/-! ## Chains -/

namespace LinkM

variable {l : Linkage α} {anchor : Option Handle} {side : Side} {a b : List (Slot α)} {x : Slot α}

/-- Outside a run there is the node that is to fill its gap, and what is outside the filled run. -/
theorem outside_gap {k : Handle} (hk : k ∉ handlesOf (a ++ b)) :
    k = x.handle ∨ k ∉ handlesOf (a ++ x :: b) := by
  by_cases he : k = x.handle
  · exact .inl he
  · refine .inr ?_
    simp only [handlesOf, List.map_append, List.map_cons, List.mem_append, List.mem_cons] at hk ⊢
    rintro (h | h | h)
    · exact hk (.inl h)
    · exact he h
    · exact hk (.inr h)

theorem attach_detach (hs : Spans l.heap.get? l.chain.ends .after (a ++ b)) (hgap : Gap anchor side a b)
    (hx : l.heap.get? x.handle = some (.detached x.entry)) (hfresh : x.handle ∉ handlesOf (a ++ b))
    (hcap : (a ++ b).length + 1 < capacity) :
    ∃ l₁ : Linkage α, (attach x.handle anchor side).run l = .ok () l₁ ∧
      l₁.chain.cursor = l.chain.cursor ∧ (∃ n, l₁.heap.get? x.handle = some n) ∧
      (detach x.handle).run l₁ = .ok () l := by
  obtain ⟨heap₁, ends₁, hattach, hs₁, hsize₁, hkeep₁⟩ := attach_gap hs hgap hx hfresh hcap
  obtain ⟨heap₂, ends₂, hdetach, hs₂, hx₂, hsize₂, hkeep₂⟩ :=
    detach_anywhere (l := ⟨heap₁, ⟨ends₁, l.chain.cursor⟩⟩) hs₁
  refine ⟨_, hattach, rfl, ⟨_, hs₁.linked.middle⟩, ?_⟩
  have hrest : ∀ k, k ∉ handlesOf (a ++ b) → heap₂.get? k = l.heap.get? k := by
    intro k hk
    rcases outside_gap (x := x) hk with rfl | hk'
    · rw [hx₂, hx]
    · exact (hkeep₂ k hk').trans (hkeep₁ k hk')
  obtain ⟨rfl, rfl⟩ := hs.unique hs₂ (hsize₂.trans hsize₁) hrest
  exact hdetach l.chain.cursor

theorem detach_attach (hs : Spans l.heap.get? l.chain.ends .after (a ++ x :: b))
    (hgap : Gap anchor side a b) :
    ∃ heap₁ ends₁, ∀ cursor,
      (detach x.handle).run ⟨l.heap, ⟨l.chain.ends, cursor⟩⟩ =
        .ok () ⟨heap₁, ⟨ends₁, cursor⟩⟩ ∧
      (attach x.handle anchor side).run ⟨heap₁, ⟨ends₁, cursor⟩⟩ =
        .ok () ⟨l.heap, ⟨l.chain.ends, cursor⟩⟩ := by
  obtain ⟨heap₁, ends₁, hdetach, hs₁, hx₁, hsize₁, hkeep₁⟩ := detach_anywhere hs
  refine ⟨heap₁, ends₁, fun cursor => ⟨hdetach cursor, ?_⟩⟩
  have hfresh : x.handle ∉ handlesOf (a ++ b) := Row.not_mem_gap hs.nodup
  have hcap : (a ++ b).length + 1 < capacity := by
    have hlt := hs.length_lt
    simp only [List.length_append, List.length_cons] at hlt ⊢
    omega
  obtain ⟨heap₂, ends₂, hattach, hs₂, hsize₂, hkeep₂⟩ :=
    attach_gap (l := ⟨heap₁, ⟨ends₁, cursor⟩⟩) hs₁ hgap hx₁ hfresh hcap
  obtain ⟨rfl, rfl⟩ := hs.unique hs₂ (hsize₂.trans hsize₁)
    fun k hk => (hkeep₂ k hk).trans (hkeep₁ k hk)
  exact hattach

/-- Unlinking a node that the cursor is not on detaches it. -/
theorem unlink_off {h : Handle} (hn : ∃ n, l.heap.get? h = some n) (hc : l.chain.cursor ≠ some h) :
    (unlink h).run l = (detach h).run l := by
  obtain ⟨n, hn⟩ := hn
  rw [unlink_eq hn, if_neg hc]

end LinkM

/-- The side of its old neighbour on which a node comes back: beyond the neighbour, or beyond the end of
the chain if it had none. -/
def Side.back (side : Side) (neighbour : Option Handle) : Side :=
  match neighbour with
  | none => side
  | some _ => side.flip

namespace Linkage

variable {l : Linkage α} {nodes : List Handle}

/-- A node comes into a chain and goes out again, or goes out and comes back beside the neighbour that it
had on either side. Nothing is left of it but that a cursor on the node has moved on. -/
structure Reversible (l : Linkage α) (nodes : List Handle) : Prop where
  attached : ∀ x e anchor side, l.heap.get? x = some (.detached e) → x ∉ nodes →
    l.length + 1 < capacity → (∀ a, anchor = some a → a ∈ nodes) →
    (do LinkM.attach x anchor side; LinkM.detach x).run l = .ok () l ∧
    (l.chain.cursor ≠ some x → (do LinkM.attach x anchor side; LinkM.unlink x).run l = .ok () l)
  detached : ∀ x side, x ∈ nodes →
    (do
      LinkM.detach x
      LinkM.attach x (l.neighbour? side x) (side.back (l.neighbour? side x))).run l = .ok () l ∧
    (do
      LinkM.unlink x
      LinkM.attach x (l.neighbour? side x) (side.back (l.neighbour? side x))).run l =
        .ok () ⟨l.heap, ⟨l.chain.ends, l.cursorPast x⟩⟩

/-- A run has a gap beside each of its nodes, and at each end. -/
theorem exists_gap {run : List (Slot α)} (hs : Spans l.heap.get? l.chain.ends .after run)
    {anchor : Option Handle} (hanchor : ∀ a, anchor = some a → a ∈ handlesOf run) (side : Side) :
    ∃ a b, run = a ++ b ∧ Gap anchor side a b := by
  cases side with
  | after =>
    obtain ⟨near, far, hrun, hbeside, -⟩ := LinkM.exists_beside hs hanchor
    exact ⟨near, far, hrun, hbeside⟩
  | before =>
    have hanchor' : ∀ a, anchor = some a → a ∈ handlesOf run.reverse := by
      intro a ha
      rw [handlesOf, List.map_reverse]
      exact List.mem_reverse.2 (hanchor a ha)
    obtain ⟨near, far, hrun, hbeside, -⟩ := LinkM.exists_beside hs.of_flip hanchor'
    refine ⟨far.reverse, near.reverse, ?_, ?_⟩
    · rw [← List.reverse_append, ← hrun, List.reverse_reverse]
    · rw [Gap, List.reverse_reverse, List.reverse_reverse]
      exact hbeside

/-- The gap that a node leaves is found again from either of its neighbours. -/
theorem gap_back_side {a b : List (Slot α)} {x : Slot α}
    (hs : Spans l.heap.get? l.chain.ends .after (a ++ x :: b)) (side : Side) :
    Gap (l.neighbour? side x.handle) (side.back (l.neighbour? side x.handle)) a b := by
  rw [neighbour?_eq hs.linked.middle]
  cases side with
  | before =>
    rw [show Side.before = Side.after.flip from rfl, Node.link_flip_between]
    cases hlast : behind none a with
    | none =>
      have hnil : a = [] := by
        rcases List.eq_nil_or_concat a with rfl | ⟨init, t, rfl⟩
        · rfl
        · rw [List.concat_eq_append, behind_append] at hlast
          cases hlast
      rw [hnil]
      exact gap_front b
    | some p => exact .inr ⟨Option.some_ne_none p, hlast.symm⟩
  | after =>
    rw [Node.link_between]
    cases b with
    | nil => exact gap_back a
    | cons t b => exact gap_before a b t

theorem Chained.reversible (h : l.Chained nodes) : l.Reversible nodes := by
  obtain ⟨run, hs, rfl⟩ := chained_iff.1 h
  refine ⟨?_, ?_⟩
  · intro x e anchor side hx hfresh hcap hanchor
    obtain ⟨a, b, rfl, hgap⟩ := exists_gap hs hanchor side
    rw [show l.length = (a ++ b).length from hs.length] at hcap
    obtain ⟨l₁, hattach, hcursor, hlive, hdetach⟩ :=
      LinkM.attach_detach (x := ⟨x, e⟩) hs hgap hx hfresh hcap
    refine ⟨?_, fun hc => ?_⟩
    · rw [EStateM.run_bind, hattach]
      exact hdetach
    · rw [EStateM.run_bind, hattach]
      exact (LinkM.unlink_off hlive (by rwa [hcursor])).trans hdetach
  · intro x side hx
    obtain ⟨s, hmem, rfl⟩ := List.mem_map.1 hx
    obtain ⟨a, b, rfl⟩ := List.append_of_mem hmem
    obtain ⟨heap₁, ends₁, hback⟩ := LinkM.detach_attach hs (gap_back_side hs side)
    refine ⟨?_, ?_⟩
    · rw [EStateM.run_bind, (hback l.chain.cursor).1]
      exact (hback l.chain.cursor).2
    · have hnode := hs.linked.middle
      have hunlink : (LinkM.unlink s.handle).run l =
          (LinkM.detach s.handle).run ⟨l.heap, ⟨l.chain.ends, l.cursorPast s.handle⟩⟩ := by
        rw [LinkM.unlink_eq hnode, cursorPast, neighbour?_eq hnode]
      rw [EStateM.run_bind, hunlink, (hback (l.cursorPast s.handle)).1]
      exact (hback (l.cursorPast s.handle)).2

end Linkage

/-! ## Rows -/

/-- Where a cursor is when an entry left and another one came in its place. -/
theorem opened_closed {n i c : Nat} (hi : i < n) (hc : c < n) :
    (closed n i c).map (opened i) = if c = i then within n (i + 1) else some c := by
  rcases Nat.lt_trichotomy i c with hlt | rfl | hgt
  · rw [closed, if_pos hlt, if_neg (Nat.ne_of_gt hlt), Option.map_some, opened, if_pos (by omega)]
    exact congrArg some (by omega)
  · rw [closed, if_neg (Nat.lt_irrefl i), if_pos rfl, within, within]
    by_cases hlast : i + 1 < n
    · rw [if_pos (by omega), if_pos hlast, Option.map_some, opened, if_pos (Nat.le_refl i)]
    · rw [if_neg (by omega), if_neg hlast]
      rfl
  · rw [closed, if_neg (by omega), if_neg (Nat.ne_of_lt hgt), within, if_pos (by omega),
      Option.map_some, opened, if_neg (by omega)]

namespace Row

variable {r : Row α} {s t : Slot α} {a b : List (Slot α)} {i : Nat}

theorem le_length_erase (hs : r.slots[i]? = some s) (hnodup : r.handles.Nodup) :
    (r.erase s.handle).length + 1 = r.length ∧ i ≤ (r.erase s.handle).length := by
  obtain ⟨hr, hi⟩ := split_at hs
  have herase := slots_erase hr hnodup
  have hlen := congrArg List.length hr
  rw [length, length, herase]
  simp only [List.length_append, List.length_cons] at hlen ⊢
  omega

theorem entries_insert_erase (hs : r.slots[i]? = some s) (hnodup : r.handles.Nodup)
    (he : t.entry = s.entry) : ((r.erase s.handle).insert i t).entries = r.entries := by
  obtain ⟨hr, hi⟩ := split_at hs
  have hslots := slots_insert_erase (t := t) hr hnodup
  rw [← hi] at hslots
  rw [entries, entries, hslots, List.map_append, List.map_cons, he, ← List.map_cons, ← List.map_append,
    ← hr]

theorem cursorIndex?_insert_erase (hs : r.slots[i]? = some s) (hnodup : r.handles.Nodup) :
    ((r.erase s.handle).insert i t).cursorIndex? =
      if r.cursorIndex? = some i then within r.length (i + 1) else r.cursorIndex? := by
  have hi : i < r.length := (List.getElem?_eq_some_iff.1 hs).1
  rw [cursorIndex?_insert (le_length_erase hs hnodup).2, erase_eq_eraseAt hs hnodup, cursorIndex?_eraseAt hi]
  cases hc : r.cursorIndex? with
  | none => rfl
  | some c =>
    simp only [Option.bind_some, Option.some.injEq]
    exact opened_closed hi (cursorIndex?_lt hc)

/-- A cursor that is not at the position of an entry is not on its node. -/
theorem cursor_ne (hs : r.slots[i]? = some s) (hnodup : r.handles.Nodup) (hc : r.cursorIndex? ≠ some i) :
    r.cursor ≠ some s.handle := by
  intro hcursor
  obtain ⟨hr, hlen⟩ := split_at hs
  rw [cursor] at hcursor
  cases hd : r.due with
  | nil =>
    rw [hd] at hcursor
    cases hcursor
  | cons t rest =>
    rw [hd, ahead_cons] at hcursor
    have hsplit : r.slots.take i ++ s :: r.slots.drop (i + 1) = r.passed ++ t :: rest := by
      rw [← hr, slots, hd]
    rw [handles, hr] at hnodup
    obtain ⟨hpassed, -, -⟩ := split_unique hnodup hsplit (Option.some.inj hcursor).symm
    refine hc ?_
    rw [cursorIndex?, hd, ← hpassed, ← hlen]

end Row

namespace View

variable {v u : View σ α} {x : α} {n : UInt64} {e : Entry α} {i : Nat} {side : Side} {s : Slot α}

/-- The view that the next operation on a list starts with. -/
def next (v : View σ α) : View σ α :=
  { v with destructors := .ofDefault v.destructors.default, trace := #[] }

/-- An entry came into the row, in a new node. -/
structure Came (v u : View σ α) (i : Nat) (e : Entry α) : Prop where
  row : u.row = v.row.insert i ⟨v.fresh, e⟩
  rest : u.rest = v.rest
  destructors : u.destructors = v.destructors

/-- An entry left the row. -/
structure Gone (v u : View σ α) (s : Slot α) : Prop where
  row : u.row = v.row.erase s.handle
  rest : u.rest = v.rest
  destructors : u.destructors = v.destructors
  allocator : u.allocator = v.allocator

theorem place_accepts (i : Nat) (e : Entry α) (v : View σ α) :
    ((v.place i e).1 = .ok true ↔ v.allocator.attempt.1 = false ∧ v.row.length + 1 < capacity) ∧
      ((v.place i e).1 = .ok true → v.Came (v.place i e).2 i e) := by
  rw [place, allocate]
  cases ha : v.allocator.attempt with
  | mk refused allocator =>
    cases refused with
    | true => simp
    | false =>
      by_cases hcap : v.row.length + 1 < capacity
      · simp only [hcap, if_true, Bool.false_eq_true, if_false]
        exact ⟨by simp, fun _ => ⟨rfl, rfl, rfl⟩⟩
      · simp [hcap]

/-- An insertion is accepted when there are a node and room for it, and then its entry came in. -/
theorem Placed.accepts {r : Reading σ α (Except (InsertError α) Unit)}
    (h : Placed x ((v.emit (.entered x)).place i ⟨x, n⟩) r) :
    (r.1 = .ok (.ok ()) ↔ v.allocator.attempt.1 = false ∧ v.row.length + 1 < capacity) ∧
      (r.1 = .ok (.ok ()) → v.Came r.2 i ⟨x, n⟩) := by
  obtain ⟨hiff, hcame⟩ := place_accepts i ⟨x, n⟩ (v.emit (.entered x))
  cases hr : (v.emit (.entered x)).place i ⟨x, n⟩ with
  | mk out w =>
    rw [hr] at h hiff hcame
    rcases out with p | _ | _
    · obtain rfl := h
      refine ⟨⟨fun he => ?_, fun hok => ?_⟩, fun he => ?_⟩
      · cases he
      · cases hiff.2 hok
      · cases he
    · obtain rfl := h
      refine ⟨⟨fun he => ?_, fun hok => ?_⟩, fun he => ?_⟩
      · cases he
      · cases hiff.2 hok
      · cases he
    · obtain ⟨line, rfl⟩ := h
      obtain ⟨hrow, hrest, hdestructors⟩ := hcame rfl
      exact ⟨⟨fun _ => hiff.1 rfl, fun _ => rfl⟩, fun _ => ⟨hrow, hrest, hdestructors⟩⟩

theorem pop_gone (hs : v.row.tip? side = some s) :
    (v.pop side).1 = .ok (some s.entry) ∧ v.Gone (v.pop side).2 s := by
  rw [pop, hs]
  exact ⟨rfl, rfl, rfl, rfl, rfl⟩

theorem takeIdx_gone (hs : v.row.slots[i]? = some s) :
    (v.takeIdx i).1 = .ok (.ok s.entry) ∧ v.Gone (v.takeIdx i).2 s := by
  rw [takeIdx, hs]
  exact ⟨rfl, rfl, rfl, rfl, rfl⟩

theorem tip?_insert (side : Side) (s : Slot α) (v : View σ α) :
    (v.row.insert (v.tipIdx side) s).tip? side = some s := by
  cases side with
  | before =>
    rw [Row.tip?, Row.slots_insert, tipIdx, List.insertIdx_zero]
    rfl
  | after =>
    rw [Row.tip?, Row.slots_insert, tipIdx, Row.length, List.insertIdx_length_self]
    exact List.getLast?_concat

/-- An entry that came in and left again has changed nothing. -/
theorem Came.undone {w : View σ α} (hcame : v.Came w i e) (hgone : w.next.Gone u ⟨v.fresh, e⟩)
    (hfresh : v.fresh ∉ v.row.handles) (hstart : v.destructors = .ofDefault v.destructors.default) :
    v.Keeps u := by
  refine ⟨⟨?_, ?_⟩, hgone.rest.trans hcame.rest⟩
  · rw [hgone.row, show w.next.row = w.row from rfl, hcame.row]
    exact Row.erase_insert hfresh i
  · rw [hgone.destructors, hstart, show w.next.destructors = .ofDefault w.destructors.default from rfl,
      hcame.destructors]

end View

/-! ## Worlds -/

namespace World

variable {w w' : World σ α} {strayed : List Handle} {k : Nat} {d : Deque σ α}

/-- The lists of a world are as they were, and so are all nodes. -/
structure Restores (w w' : World σ α) (k : Nat) : Prop where
  lists : w'.lists = w.lists
  nodes : ∀ h, w'.heap.get? h = w.heap.get? h
  contents : w'.contents k = w.contents k
  cursor : w'.cursorIndex? k = w.cursorIndex? k

/-- An entry of a list is as it was but for its node. A cursor on it has moved on. -/
structure Refilled (w w' : World σ α) (k : Nat) (d : Deque σ α) (i : Nat) : Prop where
  contents : w'.contents k = w.contents k
  cursor : w'.cursorIndex? k =
    if w.cursorIndex? k = some i then within (w.contents k).length (i + 1) else w.cursorIndex? k
  list : ∃ d', w'.list? k = some d' ∧ d'.default = d.default ∧
    (w'.linkage d').length = (w.linkage d).length ∧
    (w.cursorIndex? k ≠ some i → d'.chain.cursor = d.chain.cursor)
  others : ∀ j, j ≠ k → w'.list? j = w.list? j

section

variable [AsBytes α] [AsText α]

/-- An insertion into a list is accepted when there are a node and room for it. The removal after it then
hands out what came in, and restores everything. -/
structure Undone (w : World σ α) (k : Nat) (op back : Op σ α) (e : Entry α) : Prop where
  accepted : (w.use k op).1.result = .ok .done ↔
    w.allocator.attempt.1 = false ∧ (w.contents k).length + 1 < capacity
  handed : (w.use k op).1.result = .ok .done →
    ((w.use k op).2.use k back).1.result = .ok (.entry (some e))
  restored : (w.use k op).1.result = .ok .done → w.Restores ((w.use k op).2.use k back).2 k

/-- What comes into a list can be taken out again, and what is taken out can be put back. -/
structure Reversible (w : World σ α) (k : Nat) (d : Deque σ α) : Prop where
  push : ∀ side x n, w.Undone k (.push side x n) (.pop side) ⟨x, n.resolve x⟩
  insertIdx : ∀ i x n, i ≤ (w.contents k).length → w.Undone k (.insertIdx i x n) (.takeIdx i) ⟨x, n⟩
  takeIdx : ∀ i e, (w.contents k)[i]? = some e →
    (w.use k (.takeIdx i)).1.result = .ok (.entry (some e)) ∧
    (((w.use k (.takeIdx i)).2.use k (.insertIdx i e.value e.byteLen)).1.result = .ok .done ↔
      w.allocator.attempt.1 = false) ∧
    (w.allocator.attempt.1 = false →
      w.Refilled ((w.use k (.takeIdx i)).2.use k (.insertIdx i e.value e.byteLen)).2 k d i)

end

theorem Sound.restores (hw : w.Sound strayed) {strayed' : List Handle} (hw' : w'.Sound strayed')
    (hlists : w'.lists = w.lists) (hnodes : ∀ h, w'.heap.get? h = w.heap.get? h) (k : Nat) :
    w.Restores w' k := by
  have hlist : w'.list? k = w.list? k := by rw [list?, hlists, list?]
  have hrow : w'.row k = w.row k := by
    cases hk : w.list? k with
    | none => rw [row_of_not_list? (hlist.trans hk), row_of_not_list? hk]
    | some d =>
      have hframe : (w'.linkage d).Shows
          ⟨(w.linkage d).row, Nodes.hide w'.heap.get? (w.linkage d).row.slots, w'.heap.size⟩ :=
        (hw.shows hk).frame fun h _ => hnodes h
      rw [row_of_list? (hlist.trans hk), row_of_list? hk]
      exact hframe.row_eq
  refine ⟨hlists, hnodes, ?_, ?_⟩
  · rw [hw'.contents_eq, hw.contents_eq, hrow]
  · rw [hw'.cursorIndex?_eq, hw.cursorIndex?_eq, hrow]

variable [AsBytes α] [AsText α]

/-- The list after an operation that keeps it, as the next operation finds it. -/
theorem use_view (hw : w.Sound strayed) (hk : w.list? k = some d) (op : Op σ α)
    (hop : op.isMap = false) (hends : op.endsList = false) :
    ∃ d', (w.use k op).2.list? k = some d' ∧
      (w.use k op).2.view d' = (op.reading (w.view d)).2.next ∧
      (w.use k op).2.lists = w.lists.setIfInBounds k (some d') := by
  obtain ⟨l, hl, huse⟩ := use_reads hw hk op hop
  rw [hends, if_neg Bool.false_ne_true] at huse
  refine ⟨_, ?_, ?_, congrArg (fun r => r.2.lists) huse⟩
  · rw [huse]
    exact (getElem?_setIfInBounds_join (lt_of_list? hk) _ k).trans (if_pos rfl)
  · rw [huse, view, show World.linkage _ _ = l from rfl, hl.scene_eq]
    rfl

/-- Two operations on a list, one after the other: the second finds what the first left. -/
theorem use_next (hw : w.Sound strayed) (hk : w.list? k = some d) (op op' : Op σ α)
    (hop : op.isMap = false) (hends : op.endsList = false) (hop' : op'.isMap = false)
    (hends' : op'.endsList = false) :
    ((w.use k op).2.use k op').1.result = (op'.reading (op.reading (w.view d)).2.next).1 ∧
      ∃ d', ((w.use k op).2.use k op').2.list? k = some d' ∧
        ((w.use k op).2.use k op').2.view d' = (op'.reading (op.reading (w.view d)).2.next).2.next ∧
        ((w.use k op).2.use k op').2.lists = w.lists.setIfInBounds k (some d') := by
  have hw' := use_sound hw k op
  obtain ⟨d', hk', hview, hlists⟩ := use_view hw hk op hop hends
  obtain ⟨d'', hk'', hview', hlists'⟩ := use_view hw' hk' op' hop' hends'
  rw [hlists, Array.setIfInBounds_setIfInBounds] at hlists'
  rw [hview] at hview'
  refine ⟨?_, d'', hk'', hview', hlists'⟩
  rw [use_result hw' hk' op' hop', hview]

omit [AsBytes α] [AsText α] in
theorem answered_inserted {r : Reading σ α (Except (InsertError α) Unit)} :
    (Op.answered Op.inserted r).1 = .ok .done ↔ r.1 = .ok (.ok ()) := by
  obtain ⟨p | e | _, v⟩ := r
  · exact ⟨fun h => (by cases h), fun h => (by cases h)⟩
  · exact ⟨fun h => (by cases h), fun h => (by cases h)⟩
  · exact ⟨fun _ => rfl, fun _ => rfl⟩

omit [AsBytes α] [AsText α] in
/-- A list seen as before is as before, and so are all others. -/
theorem Sound.restored (hw : w.Sound strayed) (hk : w.list? k = some d) {strayed' : List Handle}
    (hw' : w'.Sound strayed') {d' : Deque σ α} (hk' : w'.list? k = some d')
    (hkeeps : (w.view d).Keeps (w'.view d'))
    (hlists : w'.lists = w.lists.setIfInBounds k (some d')) : w.Restores w' k := by
  obtain ⟨hsame, hnodes⟩ := hw.kept hk (u := w'.view d') (hw'.shows hk') hkeeps
  exact hw.restores hw' (hlists.trans hsame) hnodes k

/-- An insertion into a list is undone by a removal that finds the new node. -/
theorem use_undone (hw : w.Sound strayed) (hk : w.list? k = some d) {op back : Op σ α} {i : Nat}
    {e : Entry α} {r : Reading σ α (Except (InsertError α) Unit)}
    (hop : op.isMap = false) (hends : op.endsList = false) (hback : back.isMap = false)
    (hendsBack : back.endsList = false) (hread : op.reading (w.view d) = Op.answered Op.inserted r)
    (haccepts : (r.1 = .ok (.ok ()) ↔
        (w.view d).allocator.attempt.1 = false ∧ (w.view d).row.length + 1 < capacity) ∧
      (r.1 = .ok (.ok ()) → (w.view d).Came r.2 i e))
    (hgone : ∀ u : View σ α, u.row = (w.view d).row.insert i ⟨(w.view d).fresh, e⟩ →
      (back.reading u).1 = .ok (.entry (some e)) ∧
        u.Gone (back.reading u).2 ⟨(w.view d).fresh, e⟩) :
    w.Undone k op back e := by
  have hresult : (w.use k op).1.result = .ok .done ↔ r.1 = .ok (.ok ()) := by
    rw [use_result hw hk op hop, hread]
    exact answered_inserted
  have hlength : (w.contents k).length = (w.view d).row.length := by
    rw [← hw.entries_view hk, Row.length_entries]
  have hcame : (w.use k op).1.result = .ok .done → (w.view d).Came (op.reading (w.view d)).2 i e := by
    intro hdone
    rw [hread]
    exact haccepts.2 (hresult.1 hdone)
  -- the removal starts from the row that the insertion left
  let u := (op.reading (w.view d)).2.next
  obtain ⟨hanswer, d', hk', hview, hlists⟩ := use_next hw hk op back hop hends hback hendsBack
  refine ⟨?_, fun hdone => ?_, fun hdone => ?_⟩
  · rw [hresult, haccepts.1, hlength]
    rfl
  · rw [hanswer]
    exact (hgone u (hcame hdone).row).1
  · have hkeeps := (hcame hdone).undone (hgone u (hcame hdone).row).2 (hw.shows hk).fresh_not_mem rfl
    refine hw.restored hk (use_sound (use_sound hw k op) k back) hk' ?_ hlists
    have hdestructors := congrArg (fun ds : Destructors σ α => Destructors.ofDefault ds.default)
      hkeeps.destructors
    rw [hview]
    exact ⟨⟨hkeeps.row, hdestructors⟩, hkeeps.rest⟩

theorem use_push_undone (hw : w.Sound strayed) (hk : w.list? k = some d) (side : Side) (x : α)
    (n : ByteLen) : w.Undone k (.push side x n) (.pop side) ⟨x, n.resolve x⟩ := by
  refine use_undone hw hk rfl rfl rfl rfl rfl (View.push_placed side).accepts ?_
  intro u hrow
  have htip : u.row.tip? side = some ⟨(w.view d).fresh, ⟨x, n.resolve x⟩⟩ := by
    rw [hrow]
    exact View.tip?_insert side _ _
  obtain ⟨hanswer, hgone⟩ := View.pop_gone htip
  refine ⟨?_, hgone⟩
  rw [Op.reading, Op.answered, hanswer]
  rfl

theorem use_insertIdx_undone (hw : w.Sound strayed) (hk : w.list? k = some d) {i : Nat}
    (hi : i ≤ (w.contents k).length) (x : α) (n : UInt64) :
    w.Undone k (.insertIdx i x n) (.takeIdx i) ⟨x, n⟩ := by
  rw [← hw.entries_view hk, Row.length_entries] at hi
  refine use_undone hw hk rfl rfl rfl rfl rfl (View.insertIdx_placed hi).accepts ?_
  intro u hrow
  have hslot : u.row.slots[i]? = some ⟨(w.view d).fresh, ⟨x, n⟩⟩ := by
    rw [hrow, Row.slots_insert]
    exact List.getElem?_insertIdx_self.trans (if_pos hi)
  obtain ⟨hanswer, hgone⟩ := View.takeIdx_gone hslot
  refine ⟨?_, hgone⟩
  rw [Op.reading, Op.answered, hanswer]
  rfl

omit [AsBytes α] [AsText α] in
/-- A list in which another node holds an entry that was taken out. -/
theorem Sound.refilled (hw : w.Sound strayed) (hk : w.list? k = some d) {strayed' : List Handle}
    (hw' : w'.Sound strayed') {d' : Deque σ α} (hk' : w'.list? k = some d') {i : Nat} {s t : Slot α}
    (hs : (w.view d).row.slots[i]? = some s) (he : t.entry = s.entry)
    (hrow : (w'.view d').row = ((w.view d).row.erase s.handle).insert i t)
    (hdefault : d'.default = d.default) (hlists : w'.lists = w.lists.setIfInBounds k (some d')) :
    w.Refilled w' k d i := by
  have hnodup := hw.nodup_view hk
  have hentries := Row.entries_insert_erase hs hnodup he
  have hlength : (w'.view d').row.length = (w.view d).row.length := by
    rw [hrow, ← Row.length_entries, hentries, Row.length_entries]
  refine ⟨?_, ?_, ⟨d', hk', hdefault, ?_, fun hc => ?_⟩, fun j hj => ?_⟩
  · rw [← hw'.entries_view hk', hrow, hentries, hw.entries_view hk]
  · rw [hw'.cursorIndex?_view hk', hrow, Row.cursorIndex?_insert_erase hs hnodup,
      hw.cursorIndex?_view hk, ← hw.entries_view hk, Row.length_entries]
  · exact (hw'.shows hk').length_eq.trans (hlength.trans (hw.shows hk).length_eq.symm)
  · have hne : (w.view d).row.cursor ≠ some s.handle := by
      refine Row.cursor_ne hs hnodup ?_
      rwa [← hw.cursorIndex?_view hk]
    have hcursor : (w'.view d').row.cursor = (w.view d).row.cursor := by
      rw [hrow, Row.cursor_insert (Row.le_length_erase hs hnodup).2,
        Row.cursor_erase (Row.split_at hs).1 hnodup, if_neg hne]
    exact (hw'.shows hk').cursor.trans (hcursor.trans (hw.shows hk).cursor.symm)
  · rw [list?, hlists]
    exact (getElem?_setIfInBounds_join (lt_of_list? hk) _ j).trans (if_neg hj)

/-- An entry taken out of a list is put back. There is always room for it. -/
theorem use_refilled (hw : w.Sound strayed) (hk : w.list? k = some d) {i : Nat} {e : Entry α}
    (he : (w.contents k)[i]? = some e) :
    (w.use k (.takeIdx i)).1.result = .ok (.entry (some e)) ∧
      (((w.use k (.takeIdx i)).2.use k (.insertIdx i e.value e.byteLen)).1.result = .ok .done ↔
        w.allocator.attempt.1 = false) ∧
      (w.allocator.attempt.1 = false →
        w.Refilled ((w.use k (.takeIdx i)).2.use k (.insertIdx i e.value e.byteLen)).2 k d i) := by
  rw [← hw.entries_view hk, Row.getElem?_entries] at he
  obtain ⟨s, hs, rfl⟩ := Option.map_eq_some_iff.1 he
  obtain ⟨htaken, hgone⟩ := View.takeIdx_gone hs
  -- the insertion starts from the row that the removal left
  let u := ((w.view d).takeIdx i).2.next
  have hrow : u.row = (w.view d).row.erase s.handle := hgone.row
  have hallocator : u.allocator = w.allocator := hgone.allocator
  obtain ⟨hlen, hle⟩ := Row.le_length_erase hs (hw.nodup_view hk)
  rw [← hrow] at hlen hle
  have hroom : u.row.length + 1 < capacity := by
    rw [hlen]
    exact (hw.shows hk).length_lt
  have hplaced : View.Placed s.entry.value ((u.emit (.entered s.entry.value)).place i s.entry)
      (u.insertIdx i s.entry.value s.entry.byteLen) := View.insertIdx_placed hle
  obtain ⟨haccepts, hcame⟩ := hplaced.accepts
  have hgranted : (u.insertIdx i s.entry.value s.entry.byteLen).1 = .ok (.ok ()) ↔
      w.allocator.attempt.1 = false := by
    rw [haccepts, hallocator]
    exact ⟨fun h => h.1, fun h => ⟨h, hroom⟩⟩
  obtain ⟨hanswer, d', hk', hview, hlists⟩ := use_next hw hk (.takeIdx i)
    (.insertIdx i s.entry.value s.entry.byteLen) rfl rfl rfl rfl
  refine ⟨?_, ?_, fun hattempt => ?_⟩
  · rw [use_result hw hk (.takeIdx i) rfl, Op.reading, Op.answered, htaken]
    rfl
  · rw [hanswer]
    exact answered_inserted.trans hgranted
  · have hin := hcame (hgranted.2 hattempt)
    refine hw.refilled hk (use_sound (use_sound hw k _) k _) hk' hs (t := ⟨u.fresh, s.entry⟩) rfl
      ?_ ?_ hlists
    · rw [hview, ← hrow]
      exact hin.row
    · have hdefault := congrArg (fun v : View σ α => v.destructors.default) hview
      refine hdefault.trans ?_
      exact (congrArg Destructors.default hin.destructors).trans
        (congrArg Destructors.default hgone.destructors)

theorem use_reversible (hw : w.Sound strayed) (hk : w.list? k = some d) : w.Reversible k d where
  push := use_push_undone hw hk
  insertIdx := fun _ x n hi => use_insertIdx_undone hw hk hi x n
  takeIdx := fun _ _ he => use_refilled hw hk he

end World

/-- On every chain, and on every list that a run leads to, insertions and removals undo each other. -/
theorem insertions_reverse {β : Type} [AsBytes β] [AsText β] :
    (∀ (l : Linkage α) (nodes : List Handle), l.Chained nodes → l.Reversible nodes) ∧
      ∀ (before : List (Step σ β)) (k : Nat) (d : Deque σ β),
        (World.run before .start).2.list? k = some d → (World.run before .start).2.Reversible k d :=
  ⟨fun _ _ h => h.reversible,
    fun before _ _ hk => World.use_reversible (World.run_sound before World.start_sound) hk⟩

/-- A node comes into a chain beside the cursor and goes out again; the one under the cursor goes out and
comes back, and the cursor has moved on. So it does in a list of two entries of which the first is taken
out and put back. What is pushed onto that list or inserted into it is handed out again, and the list is
as it was. -/
theorem insertions_reverse_winding :
    (do LinkM.attach 4 (some 3) .before; LinkM.unlink 4).run Linkage.winding = .ok () Linkage.winding ∧
    (do LinkM.unlink 3; LinkM.attach 3 (some 0) .after).run Linkage.winding =
      .ok () ⟨Linkage.winding.heap, ⟨Linkage.winding.chain.ends, some 1⟩⟩ ∧
    (let push (n : Int64) : Step Bool Payload := .use 0 (.push .after (.int n) (.exact 8))
      let w := (World.run [.create none, push 2, push 3, .use 0 .cursorReset] .start).2
      let w' := ((w.use 0 (.takeIdx 0)).2.use 0 (.insertIdx 0 (.int 2) 8)).2
      let popped := (w.use 0 (.pushFront (.int 5))).2.use 0 .popFrontEntry
      let taken := (w.use 0 (.insertIdx 1 (.int 7) 9)).2.use 0 (.takeIdx 1)
      (w.cursorIndex? 0 = some 0 ∧ w'.contents 0 = w.contents 0 ∧ w'.cursorIndex? 0 = some 1) ∧
        (popped.1.result = .ok (.entry (some ⟨.int 5, 0⟩)) ∧ w.Restores popped.2 0) ∧
        taken.1.result = .ok (.entry (some ⟨.int 7, 9⟩)) ∧ w.Restores taken.2 0) := by
  obtain ⟨hchains, hlists⟩ := insertions_reverse (σ := Bool) (α := Nat) (β := Payload)
  have hwinding := hchains Linkage.winding [2, 0, 3, 1] Linkage.winding_chained
  refine ⟨(hwinding.attached 4 ⟨6, 4⟩ (some 3) .before rfl (by decide) (by decide) ?_).2 (by decide),
    (hwinding.detached 3 .before (by decide)).2, ?_⟩
  · rintro a ⟨rfl⟩
    decide
  · intro push w w' popped taken
    have hk : w.list? 0 = some ⟨⟨.full ⟨⟨2, by decide, by decide⟩, 0, 1⟩, some 0⟩, none⟩ := rfl
    have hcursor : w.cursorIndex? 0 = some 0 := rfl
    have hreversible := hlists _ 0 _ hk
    have hrefilled := (hreversible.takeIdx 0 ⟨.int 2, 8⟩ rfl).2.2 rfl
    have hpushed := hreversible.push .before (.int 5) (.exact 0)
    have hinserted := hreversible.insertIdx 1 (.int 7) 9 (by decide +kernel)
    have hroom : w.allocator.attempt.1 = false ∧ (w.contents 0).length + 1 < capacity := by
      decide +kernel
    have hin := hpushed.accepted.2 hroom
    have hin' := hinserted.accepted.2 hroom
    refine ⟨⟨hcursor, hrefilled.contents, hrefilled.cursor.trans ?_⟩,
      ⟨hpushed.handed hin, hpushed.restored hin⟩, hinserted.handed hin', hinserted.restored hin'⟩
    rw [if_pos hcursor]
    rfl

end LinkedDeque
