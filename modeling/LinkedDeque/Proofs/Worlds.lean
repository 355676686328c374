import LinkedDeque.Proofs.Effects

/-!
# LinkedDeque.Proofs.Worlds

All lists of a world at once:

* `World.row`     — a list seen as a row.
* `World.strays`  — the nodes that a step leaves behind in no list, and those of a whole run.
* `World.Sound`   — every list shows its row, and every node is in one row or has strayed.
* `World.use_eq`  — what an operation on a list makes of a sound world.
* `World.step_sound`, `World.run_sound` — a step, and so a run, keeps a world sound.
-/

namespace LinkedDeque

variable {σ α : Type}

namespace World

/-- The row of a list. A list that is not there has none. -/
def row (w : World σ α) (k : Nat) : Row α :=
  match w.list? k with
  | none => .empty
  | some d => (w.linkage d).row

/-- The entries of a list. A list that is not there has none. -/
def contents (w : World σ α) (k : Nat) : List (Entry α) :=
  match w.list? k with
  | none => []
  | some d => (w.linkage d).contents

def view (w : World σ α) (d : Deque σ α) : View σ α :=
  ⟨(w.linkage d).scene, .ofDefault d.default, w.allocator, #[]⟩

/-- Every list shows its row, no node is in two of them, and every node that is in none has strayed. -/
structure Sound (w : World σ α) (strays : List Handle) : Prop where
  shows : ∀ {k d}, w.list? k = some d → (w.linkage d).Shows (w.linkage d).scene
  unique : ∀ {j k h}, h ∈ (w.row j).handles → h ∈ (w.row k).handles → j = k
  owned : ∀ {h n}, w.heap.get? h = some n → h ∈ strays ∨ ∃ k, h ∈ (w.row k).handles
  nodup : strays.Nodup
  live : ∀ {h}, h ∈ strays → ∃ n, w.heap.get? h = some n
  apart : ∀ {h k}, h ∈ strays → h ∉ (w.row k).handles

theorem row_of_list? {w : World σ α} {k : Nat} {d : Deque σ α} (hk : w.list? k = some d) :
    w.row k = (w.linkage d).row := by
  rw [row, hk]

theorem lt_of_list? {w : World σ α} {k : Nat} {d : Deque σ α} (hk : w.list? k = some d) :
    k < w.lists.size := by
  rcases Nat.lt_or_ge k w.lists.size with h | h
  · exact h
  · rw [list?, Array.getElem?_eq_none h] at hk
    cases hk

theorem row_of_not_list? {w : World σ α} {k : Nat} (hk : w.list? k = none) : w.row k = .empty := by
  rw [row, hk]

theorem list?_of_mem {w : World σ α} {k : Nat} {h : Handle} (hh : h ∈ (w.row k).handles) :
    ∃ d, w.list? k = some d := by
  cases hk : w.list? k with
  | some d => exact ⟨d, rfl⟩
  | none =>
    rw [row_of_not_list? hk] at hh
    cases hh

namespace Sound

variable {w : World σ α} {strays : List Handle} {k : Nat} {h : Handle}

theorem alive (hw : w.Sound strays) (hh : h ∈ (w.row k).handles) : ∃ n, w.heap.get? h = some n := by
  obtain ⟨d, hk⟩ := list?_of_mem hh
  rw [row_of_list? hk] at hh
  exact (hw.shows hk).spans.linked.live hh

theorem contents_eq (hw : w.Sound strays) (k : Nat) :
    w.contents k = (w.row k).entries := by
  rw [contents, row]
  cases hk : w.list? k with
  | none => rfl
  | some d => exact (hw.shows hk).contents_eq

theorem before {d : Deque σ α} (hw : w.Sound strays) (hk : w.list? k = some d) (op : Op σ α) :
    ({ w.view d with row := op.part (w.row k) } : View σ α).Sound := by
  have hsound : (w.view d).Sound := Linkage.Shows.sound (v := w.view d) (hw.shows hk)
  have hhandles : (op.part (w.row k)).handles = (w.view d).row.handles := by
    rw [Row.handles, Op.slots_part, row_of_list? hk]
    rfl
  exact ⟨by rw [hhandles]; exact hsound.nodup, by rw [hhandles]; exact hsound.row_lt,
    by rw [hhandles]; exact hsound.apart, hsound.unused⟩

end Sound

theorem start_sound : (start : World σ α).Sound [] := by
  have hlist : ∀ k, (start : World σ α).list? k = none := fun _ => rfl
  have hrow : ∀ k, (start : World σ α).row k = .empty := fun _ => rfl
  refine ⟨?_, ?_, ?_, List.nodup_nil, ?_, ?_⟩
  · intro k d hk
    rw [hlist] at hk
    cases hk
  · intro j k h hj
    rw [hrow] at hj
    cases hj
  · intro h n hn
    have hlt := Heap.lt_size_of_get? hn
    exact absurd hlt (Nat.not_lt_zero _)
  · intro h hh
    cases hh
  · intro h k hh
    cases hh

def settle (lists : Array (Option (Deque σ α))) (k : Nat) (left : Option (Deque σ α))
    (made : Option Chain) : Array (Option (Deque σ α)) :=
  match made with
  | none => lists.setIfInBounds k left
  | some chain => (lists.setIfInBounds k left).push (some ⟨chain, none⟩)

theorem getElem?_setIfInBounds_join {lists : Array (Option (Deque σ α))} {k : Nat} (hk : k < lists.size)
    (left : Option (Deque σ α)) (j : Nat) :
    (lists.setIfInBounds k left)[j]?.join = if j = k then left else lists[j]?.join := by
  by_cases hj : j = k
  · rw [hj, if_pos rfl, Array.getElem?_setIfInBounds_self_of_lt hk]
    rfl
  · rw [if_neg hj, Array.getElem?_setIfInBounds_ne fun h => hj h.symm]

theorem getElem?_settle {lists : Array (Option (Deque σ α))} {k : Nat} {left : Option (Deque σ α)}
    {made : Option Chain} (hk : k < lists.size) (j : Nat) :
    (settle lists k left made)[j]?.join =
      if j = k then left
      else if j = lists.size then made.map fun chain => ⟨chain, none⟩
      else lists[j]?.join := by
  have hset := getElem?_setIfInBounds_join hk left
  cases made with
  | none =>
    rw [settle, hset]
    by_cases hj : j = k
    · rw [if_pos hj, if_pos hj]
    · rw [if_neg hj, if_neg hj]
      by_cases hs : j = lists.size
      · rw [if_pos hs, Array.getElem?_eq_none (Nat.le_of_eq hs.symm)]
        rfl
      · rw [if_neg hs]
  | some chain =>
    rw [settle, Array.getElem?_push, Array.size_setIfInBounds]
    by_cases hj : j = k
    · rw [if_pos hj, if_neg (by omega), hset, if_pos hj]
    · rw [if_neg hj]
      by_cases hs : j = lists.size
      · rw [if_pos hs, if_pos hs]
        rfl
      · rw [if_neg hs, if_neg hs, hset, if_neg hj]

variable [AsBytes α] [AsText α]

def strays (s : Step σ α) (w : World σ α) : List Handle :=
  match s with
  | .use k op =>
    match w.list? k with
    | none => []
    | some d => op.abandons (w.linkage d).handles w.heap.size (w.use k op).1.events (w.use k op).1.result
  | _ => []

/-- The nodes that the steps of a run leave behind in no list. -/
def strayed : List (Step σ α) → World σ α → List Handle
  | [], _ => []
  | s :: rest, w => w.strays s ++ strayed rest (w.step s).2

/-- What is answered for an operation on a list that ends in this way. -/
def answer (w : World σ α) : Except Panic (Answer α × Option Chain) → Except Panic (Answer α)
  | .ok (a, none) => .ok a
  | .ok (_, some _) => .ok (.list w.lists.size)
  | .error p => .error p

/-- The chain of the list that an operation makes. -/
def madeBy : Except Panic (Answer α × Option Chain) → Option Chain
  | .ok (_, made) => made
  | .error _ => none

/-- An operation on a list of a world, from its run on the machine of that list. -/
theorem use_run {w : World σ α} {k : Nat} {d : Deque σ α} {op : Op σ α} {u : View σ α}
    {out : Except Panic (Answer α × Option Chain)} {l : Linkage α} (hk : w.list? k = some d)
    (hrun : op.act.run ((w.view d).machine (w.linkage d)) = ending out (u.machine l)) :
    w.use k op = (⟨w.answer out, u.trace⟩, ⟨l.heap, u.allocator, settle w.lists k
      (if op.endsList then none else some ⟨l.chain, u.destructors.default⟩) (madeBy out)⟩) := by
  have hrun' : op.act.run ⟨⟨w.heap, d.chain⟩, .ofDefault d.default, w.allocator, #[]⟩ =
      ending out (u.machine l) := hrun
  have hk' : w.lists[k]?.join = some d := hk
  cases out with
  | error p => simp only [use, hk', hrun', ending, View.machine, answer, madeBy, settle]
  | ok b =>
    obtain ⟨a, made⟩ := b
    cases made <;> simp [use, hk', hrun', ending, View.machine, answer, madeBy, settle]

theorem use_ensures {w : World σ α} {k : Nat} {d : Deque σ α} {op : Op σ α}
    {q : Except Panic (Answer α × Option Chain) → View σ α → Prop} (hk : w.list? k = some d)
    (hshows : (w.linkage d).Shows (w.linkage d).scene) (h : Ensures op.act (w.view d) q) :
    ∃ out u, ∃ l : Linkage α, q out u ∧ l.Shows u.toScene ∧
      w.use k op = (⟨w.answer out, u.trace⟩, ⟨l.heap, u.allocator, settle w.lists k
        (if op.endsList then none else some ⟨l.chain, u.destructors.default⟩) (madeBy out)⟩) := by
  obtain ⟨out, u, l, hrun, hl, hq⟩ := h _ hshows
  exact ⟨out, u, l, hq, hl, use_run hk hrun⟩

/-- An operation on a list of a world: the view it leaves of the list, with the chain, the strays and
the list it makes. -/
structure Use (w : World σ α) (k : Nat) (d : Deque σ α) (op : Op σ α) (u : View σ α) (heap' : Heap α)
    (chain' : Chain) (strays : List (Slot α)) (made : Option Chain) : Prop where
  shows : Linkage.Shows ⟨heap', chain'⟩ u.toScene
  course : Course (op.permits d.default (w.use k op).1.result)
    { w.view d with row := op.part (w.row k) } u (enteredIn u.trace) [] strays
  receives : op.receives (w.row k).entries (w.use k op).1.result (enteredIn u.trace)
  strays : match made with
    | none => handlesOf strays = w.strays (.use k op)
    | some chain => Made u chain strays ∧ w.strays (.use k op) = []
  ended : op.endsList = true → u.row = .empty
  handed : returnedIn u.trace = op.handed (w.use k op).1.result
  events : (w.use k op).1.events = u.trace
  world : (w.use k op).2 = ⟨heap', u.allocator, settle w.lists k
    (if op.endsList then none else some ⟨chain', u.destructors.default⟩) made⟩

theorem use_eq {w : World σ α} {k : Nat} {d : Deque σ α} (hk : w.list? k = some d)
    (hshows : (w.linkage d).Shows (w.linkage d).scene) (op : Op σ α) :
    ∃ u heap' chain' strays made, Use w k d op u heap' chain' strays made := by
  obtain ⟨out, u, ⟨heap', chain'⟩, heffect, hl, huse⟩ :=
    use_ensures hk hshows (op.ensures (v := w.view d) rfl)
  have hrow : w.row k = (w.linkage d).row := row_of_list? hk
  have hhandles : (w.linkage d).handles = (w.linkage d).row.handles := hshows.handles_eq
  have hevents : (w.use k op).1.events = u.trace := by rw [huse]
  have hresult : (w.use k op).1.result = w.answer out := by rw [huse]
  cases heffect with
  | @single out _ came strays course receives abandons ended handed =>
    obtain rfl : enteredIn u.trace = came := course.arrivals
    have hmade : madeBy ((fun a => (a, none)) <$> out : Except Panic (Answer α × Option Chain)) = none := by
      cases out <;> rfl
    replace hresult : (w.use k op).1.result = out := by
      rw [hresult]
      cases out <;> rfl
    rw [hmade] at huse
    refine ⟨u, heap', chain', strays, none, hl, ?_, ?_, ?_, ended, ?_, hevents, by rw [huse]⟩
    · rw [hresult, hrow]
      exact course
    · rw [hresult, hrow]
      exact receives
    · simp only [World.strays, hk]
      rw [hresult, hevents, hhandles]
      exact abandons
    · rw [hresult]
      exact handed
  | @makes a chain _ came strays course receives made goesOn =>
    obtain rfl : enteredIn u.trace = came := course.arrivals
    have hn : (w.use k op).1.result = .ok (.list w.lists.size) := hresult
    refine ⟨u, heap', chain', strays, some chain, hl, ?_, ?_, ⟨made, ?_⟩, ?_, ?_, hevents,
      by rw [huse]; rfl⟩
    · rw [hrow]
      exact course.mono fun _ h => h.elim
    · rw [hn, hrow]
      exact receives _
    · simp only [World.strays, hk, hn]
      cases op <;> rfl
    · intro h
      rw [goesOn] at h
      cases h
    · have hstart : ({ w.view d with row := op.part (w.linkage d).row } : View σ α).trace = #[] := rfl
      rw [hn, Op.Effect.handed_nil hstart course id]
      cases op <;> rfl

namespace Use

variable {w : World σ α} {k : Nat} {d : Deque σ α} {op : Op σ α} {u : View σ α} {heap' : Heap α}
  {chain' : Chain} {strays : List (Slot α)} {made : Option Chain} {strayed : List Handle}

variable (hw : w.Sound strayed) (hk : w.list? k = some d)
  (hu : Use w k d op u heap' chain' strays made)

include hw hk hu

theorem accounts : Accounts { w.view d with row := op.part (w.row k) } u strays :=
  hu.course.accounts (hw.before hk op)

theorem kept {h : Handle} {n : Node α} (hn : w.heap.get? h = some n) (hh : h ∉ (w.row k).handles) :
    heap'.get? h = some n ∧ h ∉ u.row.handles ∧ h ∉ handlesOf strays := by
  have haccounts := accounts hw hk hu
  rw [row_of_list? hk] at hh
  have hrest : (w.view d).rest h = some n := (Nodes.hide_of_not_mem hh).trans hn
  have hstray : h ∉ handlesOf strays := by
    intro hmem
    have hnew : (w.view d).rest h = none := haccounts.strays_new h hmem
    rw [hnew] at hrest
    cases hrest
  have hrow : h ∉ u.row.handles := by
    intro hmem
    have hnew : (w.view d).rest h = none := haccounts.row_new h hmem
    rw [hnew] at hrest
    cases hrest
  refine ⟨?_, hrow, hstray⟩
  rw [show heap'.get? h = u.rest h from hu.shows.outside h hrow]
  exact (haccounts.other h hstray).trans hrest

theorem found {h : Handle} {n : Node α} (hn : heap'.get? h = some n) :
    h ∈ u.row.handles ∨ h ∈ handlesOf strays ∨
      w.heap.get? h = some n ∧ h ∉ (w.row k).handles := by
  have haccounts := accounts hw hk hu
  by_cases hrow : h ∈ u.row.handles
  · exact .inl hrow
  by_cases hstray : h ∈ handlesOf strays
  · exact .inr (.inl hstray)
  rw [show heap'.get? h = u.rest h from hu.shows.outside h hrow, haccounts.other h hstray] at hn
  have hnot : h ∉ (w.linkage d).row.handles := by
    intro hmem
    rw [show (w.view d).rest h = none from Nodes.hide_of_mem hmem] at hn
    cases hn
  refine .inr (.inr ⟨(Nodes.hide_of_not_mem hnot).symm.trans hn, ?_⟩)
  rw [row_of_list? hk]
  exact hnot

theorem stray {s : Slot α} (hs : s ∈ strays) :
    (∃ n, heap'.get? s.handle = some n ∧ n.entry = s.entry) ∧ s.handle ∉ u.row.handles := by
  obtain ⟨n, hn, hentry⟩ := (accounts hw hk hu).holds s hs
  have hrow : s.handle ∉ u.row.handles := by
    intro hmem
    rw [hu.shows.apart _ hmem] at hn
    cases hn
  exact ⟨⟨n, (hu.shows.outside _ hrow).trans hn, hentry⟩, hrow⟩

omit hw in
theorem list?_eq (j : Nat) : (w.use k op).2.list? j =
    if j = k then if op.endsList then none else some ⟨chain', u.destructors.default⟩
    else if j = w.lists.size then made.map fun chain => ⟨chain, none⟩
    else w.list? j := by
  rw [hu.world]
  exact getElem?_settle (lt_of_list? hk) j

omit hw in
theorem row_self : (w.use k op).2.row k = u.row := by
  have hlist := list?_eq hk hu k
  rw [if_pos rfl] at hlist
  cases hends : op.endsList with
  | true =>
    rw [hends, if_pos rfl] at hlist
    rw [row_of_not_list? hlist, hu.ended hends]
  | false =>
    rw [hends, if_neg Bool.false_ne_true] at hlist
    rw [row_of_list? hlist, hu.world]
    exact hu.shows.row_eq

theorem frame {j : Nat} {e : Deque σ α} (hj : j ≠ k) (he : w.list? j = some e) :
    Linkage.Shows ⟨heap', e.chain⟩
      ⟨(w.linkage e).row, Nodes.hide heap'.get? (w.linkage e).row.slots, heap'.size⟩ := by
  refine (hw.shows he).frame ?_
  intro h hh
  have hrow : h ∈ (w.row j).handles := by
    rw [row_of_list? he]
    exact hh
  obtain ⟨n, hn⟩ := hw.alive hrow
  rw [(kept hw hk hu hn fun hmem => hj (hw.unique hrow hmem)).1]
  exact hn.symm

theorem row_other {j : Nat} (hj : j ≠ k) (hsize : j ≠ w.lists.size) :
    (w.use k op).2.row j = w.row j := by
  have hlist := list?_eq hk hu j
  rw [if_neg hj, if_neg hsize] at hlist
  cases he : w.list? j with
  | none => rw [row_of_not_list? (hlist.trans he), row_of_not_list? he]
  | some e =>
    rw [row_of_list? (hlist.trans he), row_of_list? he, hu.world]
    exact (frame hw hk hu hj he).row_eq

theorem shows_made {chain : Chain} (hmade : made = some chain) :
    Linkage.Shows ⟨heap', chain⟩ ⟨⟨strays, []⟩, Nodes.hide heap'.get? strays, heap'.size⟩ := by
  have hstrays := hu.strays
  rw [hmade] at hstrays
  have hm := hstrays.1
  have hslots : (⟨strays, []⟩ : Row α).slots = strays := List.append_nil _
  refine ⟨?_, hm.cursor, ?_, ?_, rfl⟩
  · rw [hslots]
    refine hm.spans.congr ?_
    intro h hh
    obtain ⟨s, hs, rfl⟩ := List.mem_map.1 hh
    exact hu.shows.outside _ (stray hw hk hu hs).2
  · intro h hh
    rw [Row.handles, hslots] at hh
    exact (Nodes.hide_of_not_mem hh).symm
  · intro h hh
    rw [Row.handles, hslots] at hh
    exact Nodes.hide_of_mem hh

theorem row_made :
    (w.use k op).2.row w.lists.size = made.elim .empty fun _ => ⟨strays, []⟩ := by
  have hlist := list?_eq hk hu w.lists.size
  rw [if_neg (Nat.ne_of_gt (lt_of_list? hk)), if_pos rfl] at hlist
  cases made with
  | none => exact row_of_not_list? hlist
  | some chain =>
    rw [row_of_list? hlist, hu.world]
    exact (shows_made hw hk hu rfl).row_eq

theorem mem_row {h : Handle} {j : Nat} (hh : h ∈ ((w.use k op).2.row j).handles) :
    j = k ∧ h ∈ u.row.handles ∨ j = w.lists.size ∧ made ≠ none ∧ h ∈ handlesOf strays ∨
      j ≠ k ∧ h ∈ (w.row j).handles := by
  by_cases hj : j = k
  · rw [hj, row_self hk hu] at hh
    exact .inl ⟨hj, hh⟩
  by_cases hs : j = w.lists.size
  · rw [hs, row_made hw hk hu] at hh
    cases made with
    | none => cases hh
    | some chain =>
      rw [Option.elim_some, Row.handles, Row.slots, List.append_nil] at hh
      exact .inr (.inl ⟨hs, Option.some_ne_none _, hh⟩)
  · rw [row_other hw hk hu hj hs] at hh
    exact .inr (.inr ⟨hj, hh⟩)

theorem mem_row_other {h : Handle} {j : Nat} (hj : j ≠ k) (hh : h ∈ (w.row j).handles) :
    h ∈ ((w.use k op).2.row j).handles := by
  obtain ⟨e, he⟩ := list?_of_mem hh
  rwa [row_other hw hk hu hj (Nat.ne_of_lt (lt_of_list? he))]

omit hw hk in
theorem strays_eq : w.strays (.use k op) = if made = none then handlesOf strays else [] := by
  have hstrays := hu.strays
  cases made with
  | none => exact hstrays.symm
  | some chain => exact hstrays.2

/-- A node of another list is neither in the list nor a stray. -/
theorem apart_other {j : Nat} {h : Handle} (hj : j ≠ k) (hh : h ∈ (w.row j).handles) :
    h ∉ u.row.handles ∧ h ∉ handlesOf strays := by
  obtain ⟨n, hn⟩ := hw.alive hh
  exact (kept hw hk hu hn fun hmem => hj (hw.unique hh hmem)).2

theorem apart_strays {h : Handle} (hh : h ∈ handlesOf strays) : h ∉ u.row.handles := by
  obtain ⟨s, hs, rfl⟩ := List.mem_map.1 hh
  exact (stray hw hk hu hs).2

theorem shows_after {j : Nat} {e : Deque σ α} (he : (w.use k op).2.list? j = some e) :
    ((w.use k op).2.linkage e).Shows ((w.use k op).2.linkage e).scene := by
  have hheap : (w.use k op).2.heap = heap' := by rw [hu.world]
  have hlist := list?_eq hk hu j
  rw [he] at hlist
  rw [World.linkage, hheap]
  split at hlist
  · split at hlist
    · cases hlist
    · cases hlist
      exact hu.shows.own
  · rename_i hj
    split at hlist
    · cases hmade : made with
      | none =>
        rw [hmade] at hlist
        cases hlist
      | some chain =>
        rw [hmade] at hlist
        cases hlist
        exact (shows_made hw hk hu hmade).own
    · exact (frame hw hk hu hj hlist.symm).own

theorem unique_after {i j : Nat} {h : Handle} (hi : h ∈ ((w.use k op).2.row i).handles)
    (hj : h ∈ ((w.use k op).2.row j).handles) : i = j := by
  rcases mem_row hw hk hu hi with ⟨rfl, hi'⟩ | ⟨rfl, -, hi'⟩ | ⟨hik, hi'⟩
  · rcases mem_row hw hk hu hj with ⟨rfl, -⟩ | ⟨-, -, hj'⟩ | ⟨hjk, hj'⟩
    · rfl
    · exact absurd hi' (apart_strays hw hk hu hj')
    · exact absurd hi' (apart_other hw hk hu hjk hj').1
  · rcases mem_row hw hk hu hj with ⟨rfl, hj'⟩ | ⟨rfl, -, -⟩ | ⟨hjk, hj'⟩
    · exact absurd hj' (apart_strays hw hk hu hi')
    · rfl
    · exact absurd hi' (apart_other hw hk hu hjk hj').2
  · rcases mem_row hw hk hu hj with ⟨rfl, hj'⟩ | ⟨rfl, -, hj'⟩ | ⟨-, hj'⟩
    · exact absurd hj' (apart_other hw hk hu hik hi').1
    · exact absurd hj' (apart_other hw hk hu hik hi').2
    · exact hw.unique hi' hj'

theorem owned_after {h : Handle} {n : Node α} (hn : heap'.get? h = some n) :
    h ∈ strayed ++ w.strays (.use k op) ∨ ∃ j, h ∈ ((w.use k op).2.row j).handles := by
  rcases found hw hk hu hn with hh | hh | ⟨hn, hnot⟩
  · exact .inr ⟨k, by rwa [row_self hk hu]⟩
  · rw [strays_eq hu]
    have hmade := row_made hw hk hu
    cases made with
    | none => exact .inl (List.mem_append_right _ hh)
    | some chain =>
      refine .inr ⟨w.lists.size, ?_⟩
      rw [hmade, Option.elim_some, Row.handles, Row.slots, List.append_nil]
      exact hh
  · rcases hw.owned hn with hh | ⟨j, hh⟩
    · exact .inl (List.mem_append_left _ hh)
    · have hj : j ≠ k := fun he => hnot (he ▸ hh)
      exact .inr ⟨j, mem_row_other hw hk hu hj hh⟩

/-- A node that strayed before is as it was, and one that strays now is new to the strays. -/
theorem mem_strayed {h : Handle} (hh : h ∈ strayed ++ w.strays (.use k op)) :
    h ∈ strayed ∧ h ∉ handlesOf strays ∨ h ∉ strayed ∧ h ∈ handlesOf strays ∧ made = none := by
  rcases List.mem_append.1 hh with hh | hh
  · obtain ⟨n, hn⟩ := hw.live hh
    exact .inl ⟨hh, (kept hw hk hu hn (hw.apart hh)).2.2⟩
  · rw [strays_eq hu] at hh
    split at hh
    · rename_i hmade
      refine .inr ⟨fun hold => ?_, hh, hmade⟩
      obtain ⟨n, hn⟩ := hw.live hold
      exact (kept hw hk hu hn (hw.apart hold)).2.2 hh
    · cases hh

theorem live_after {h : Handle} (hh : h ∈ strayed ++ w.strays (.use k op)) :
    ∃ n, heap'.get? h = some n := by
  rcases mem_strayed hw hk hu hh with ⟨hold, -⟩ | ⟨-, hnew, -⟩
  · obtain ⟨n, hn⟩ := hw.live hold
    exact ⟨n, (kept hw hk hu hn (hw.apart hold)).1⟩
  · obtain ⟨s, hs, rfl⟩ := List.mem_map.1 hnew
    obtain ⟨⟨n, hn, -⟩, -⟩ := stray hw hk hu hs
    exact ⟨n, hn⟩

theorem apart_after {h : Handle} {j : Nat} (hh : h ∈ strayed ++ w.strays (.use k op)) :
    h ∉ ((w.use k op).2.row j).handles := by
  intro hj
  rcases mem_strayed hw hk hu hh with ⟨hold, hnot⟩ | ⟨-, hnew, hmade⟩
  · obtain ⟨n, hn⟩ := hw.live hold
    rcases mem_row hw hk hu hj with ⟨-, hj⟩ | ⟨-, -, hj⟩ | ⟨-, hj⟩
    · exact (kept hw hk hu hn (hw.apart hold)).2.1 hj
    · exact hnot hj
    · exact hw.apart hold hj
  · rcases mem_row hw hk hu hj with ⟨-, hj⟩ | ⟨-, hsome, -⟩ | ⟨hjk, hj⟩
    · exact apart_strays hw hk hu hnew hj
    · exact hsome hmade
    · exact (apart_other hw hk hu hjk hj).2 hnew

theorem sound : (w.use k op).2.Sound (strayed ++ w.strays (.use k op)) := by
  have hheap : (w.use k op).2.heap = heap' := by rw [hu.world]
  refine ⟨shows_after hw hk hu, unique_after hw hk hu, ?_, ?_, ?_, apart_after hw hk hu⟩
  · intro h n hn
    rw [hheap] at hn
    exact owned_after hw hk hu hn
  · rw [List.nodup_append]
    refine ⟨hw.nodup, ?_, ?_⟩
    · rw [strays_eq hu]
      split
      · exact (accounts hw hk hu).nodup
      · exact List.nodup_nil
    · rintro h hold _ hnew rfl
      rcases mem_strayed hw hk hu (List.mem_append_right _ hnew) with ⟨-, hnot⟩ | ⟨hnot, -⟩
      · rw [strays_eq hu] at hnew
        split at hnew
        · exact hnot hnew
        · cases hnew
      · exact hnot hold
  · intro h hh
    rw [hheap]
    exact live_after hw hk hu hh

end Use

theorem use_absent {w : World σ α} {k : Nat} (hk : w.list? k = none) (op : Op σ α) :
    w.use k op = (⟨.ok .absent, #[]⟩, w) := by
  have hk' : w.lists[k]?.join = none := hk
  simp only [use, hk']

theorem use_sound {w : World σ α} {strayed : List Handle} (hw : w.Sound strayed) (k : Nat)
    (op : Op σ α) : (w.use k op).2.Sound (strayed ++ w.strays (.use k op)) := by
  cases hk : w.list? k with
  | none =>
    have hnone : w.strays (.use k op) = [] := by simp only [strays, hk]
    rw [use_absent hk, hnone, List.append_nil]
    exact hw
  | some d =>
    obtain ⟨u, heap', chain', strays, made, hu⟩ := use_eq hk (hw.shows hk) op
    exact hu.sound hw hk

theorem create_list? (w : World σ α) (default : Option (Destructor σ α)) (j : Nat) :
    (w.step (.create default)).2.list? j =
      if j = w.lists.size then some ⟨.empty, default⟩ else w.list? j := by
  simp only [step, list?, Array.getElem?_push]
  split <;> rfl

theorem create_row (w : World σ α) (default : Option (Destructor σ α)) (j : Nat) :
    (w.step (.create default)).2.row j = w.row j := by
  have hlist := create_list? w default j
  by_cases hj : j = w.lists.size
  · rw [if_pos hj] at hlist
    have hnone : w.list? j = none := by
      rw [list?, Array.getElem?_eq_none (Nat.le_of_eq hj.symm)]
      rfl
    rw [row_of_list? hlist, row_of_not_list? hnone]
    exact (Linkage.shows_empty w.heap).row_eq
  · rw [if_neg hj] at hlist
    simp only [row, hlist]
    rfl

theorem step_sound {w : World σ α} {strayed : List Handle} (hw : w.Sound strayed) (s : Step σ α) :
    (w.step s).2.Sound (strayed ++ w.strays s) := by
  cases s with
  | use k op => exact use_sound hw k op
  | arm refuses =>
    rw [show w.strays (.arm refuses) = [] from rfl, List.append_nil]
    exact { hw with }
  | create default =>
    rw [show w.strays (.create default) = [] from rfl, List.append_nil]
    have hrow := create_row w default
    refine ⟨?_, ?_, ?_, hw.nodup, hw.live, ?_⟩
    · intro k d hk
      rw [create_list?] at hk
      split at hk
      · cases hk
        exact (Linkage.shows_empty w.heap).own
      · exact hw.shows hk
    · intro j k h hj hk
      rw [hrow] at hj hk
      exact hw.unique hj hk
    · intro h n hn
      rcases hw.owned hn with hh | ⟨k, hk⟩
      · exact .inl hh
      · exact .inr ⟨k, by rwa [hrow]⟩
    · intro h k hh
      rw [hrow]
      exact hw.apart hh

theorem run_sound (steps : List (Step σ α)) {w : World σ α} {strays : List Handle}
    (hw : w.Sound strays) : (run steps w).2.Sound (strays ++ strayed steps w) := by
  induction steps generalizing w strays with
  | nil =>
    rw [show strayed [] w = [] from rfl, List.append_nil]
    exact hw
  | cons s rest ih =>
    have h := ih (step_sound hw s)
    rw [List.append_assoc] at h
    exact h

end World

end LinkedDeque
