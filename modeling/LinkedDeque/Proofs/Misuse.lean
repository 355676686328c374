import LinkedDeque.Proofs.Edits

/-!
# LinkedDeque.Proofs.Misuse

Wrong calls of the chain primitives, each caught by a check:

* `LinkM.attach_again`, `LinkM.attach_anchored`, `LinkM.attach_overflow` — a node that has a neighbour,
  an anchor in an empty chain, a node too many.
* `LinkM.attach_only` — the only node of a chain has no neighbour, and is caught by the check of the ends.
* `LinkM.detach_stranger` — a node that is not in the chain.
* `Linkage.Guarded`   — all of these, for one linkage and every chain that it may be.

Where the check comes before the first write, nothing has changed.
-/

namespace LinkedDeque

variable {α : Type}

namespace LinkM

variable {l : Linkage α} {x y : Handle} {e : Entry α} {n : Node α} {span : Span} {side : Side}

/-! ## Caught at once -/

theorem attach_linked (hn : l.heap.get? x = some n)
    (hlink : n.link .before ≠ none ∨ n.link .after ≠ none) (anchor : Option Handle) (side : Side) :
    (attach x anchor side).run l = .error .linkedNode l := by
  have hcheck : ((n.link .before).isNone && (n.link .after).isNone) = false := by
    rw [Bool.and_eq_false_iff, Option.isNone_eq_false_iff, Option.isNone_eq_false_iff,
      Option.isSome_iff_ne_none, Option.isSome_iff_ne_none]
    exact hlink
  simp only [attach, EStateM.run_bind, run_getLink .before hn, run_getLink .after hn, hcheck,
    run_check_false]

/-- Each node of a chain of two or more has a neighbour. -/
theorem attach_again {run : List (Slot α)} (hs : Spans l.heap.get? l.chain.ends .after run)
    (hlen : 2 ≤ run.length) (hx : x ∈ handlesOf run) (anchor : Option Handle) (side : Side) :
    (attach x anchor side).run l = .error .linkedNode l := by
  obtain ⟨s, hmem, rfl⟩ := List.mem_map.1 hx
  obtain ⟨a, b, rfl⟩ := List.append_of_mem hmem
  refine attach_linked hs.linked.middle ?_ anchor side
  rcases List.eq_nil_or_concat a with rfl | ⟨init, t, rfl⟩
  · cases b with
    | nil => simp at hlen
    | cons t b => exact .inr (Option.some_ne_none t.handle)
  · refine .inl ?_
    rw [List.concat_eq_append, behind_append]
    exact Option.some_ne_none t.handle

theorem attach_anchored (hx : l.heap.get? x = some (.detached e)) (hends : l.chain.ends = .empty)
    (a : Handle) (side : Side) : (attach x (some a) side).run l = .error .anchorInEmpty l := by
  have hbefore : (getLink .before x).run l = .ok none l := run_getLink_eq hx (Node.link_detached _ _)
  have hafter : (getLink .after x).run l = .ok none l := run_getLink_eq hx (Node.link_detached _ _)
  simp only [attach, EStateM.run_bind, hbefore, hafter, Option.isNone_none, Bool.and_self,
    run_check_true, run_ends, hends, Option.isNone_some, run_check_false]

/-- How a node is caught that is to leave a chain of some nodes without being one of them. -/
def strangerFault : List Handle → Fault
  | [] => .emptyChain
  | [_] => .notTheOnlyNode
  | _ => .notTheEnd .after

theorem detach_stranger {run : List (Slot α)} (hs : Spans l.heap.get? l.chain.ends .after run)
    (hx : l.heap.get? x = some (.detached e)) (hfresh : x ∉ handlesOf run) :
    (detach x).run l = .error (strangerFault (handlesOf run)) l := by
  cases run with
  | nil =>
    simp only [detach, EStateM.run_bind, run_ends, hs.eq_empty]
    rfl
  | cons s run =>
    obtain ⟨span, hends⟩ := hs.eq_full (List.cons_ne_nil s run)
    rw [hends] at hs
    have hlen : span.len.val = run.length + 1 := hs.length
    have htail : span.tail ≠ x := by
      rintro rfl
      exact hfresh (mem_of_behind hs.last.symm)
    cases run with
    | nil =>
      have hsub : span.len.sub? 1 = none := (Count.sub?_one_eq_none_iff _).2 hlen
      have hcheck : (span.head == x && span.tail == x) = false := by simp [htail]
      simp only [detach, EStateM.run_bind, run_ends, hends, hsub, hcheck, run_check_false]
      rfl
    | cons t run =>
      obtain ⟨len, hsub, -⟩ := Count.exists_sub?_one (c := span.len) (by simp [hlen])
      have hbefore : (getLink .before x).run l = .ok none l := run_getLink_eq hx (Node.link_detached _ _)
      have hafter : (getLink .after x).run l = .ok none l := run_getLink_eq hx (Node.link_detached _ _)
      have hcheck : (span.tip .after == x) = false := by simpa [Span.tip] using htail
      simp only [detach, EStateM.run_bind, run_ends, hends, hsub, hbefore, hafter, bridge, hcheck,
        run_check_false]
      rfl

/-! ## Caught at the ends -/

/-- A check of the ends of a chain whose two ends are one node with a neighbour. -/
theorem checkEnds_linked (hends : l.chain.ends = .full span) (hhead : span.head = x)
    (htail : span.tail = x) (hn : l.heap.get? x = some n) :
    (n.link .before ≠ none → checkEnds.run l = .error (.beyondTheEnd .before) l) ∧
      (n.link .before = none → n.link .after ≠ none →
        checkEnds.run l = .error (.beyondTheEnd .after) l) := by
  constructor
  · intro hb
    have hcheck : (n.link .before).isNone = false :=
      Option.isNone_eq_false_iff.2 (Option.isSome_iff_ne_none.2 hb)
    simp only [checkEnds, EStateM.run_bind, run_ends, hends, hhead, run_getLink .before hn, hcheck,
      run_check_false]
  · intro hb ha
    have hcheck : (n.link .before).isNone = true := Option.isNone_iff_eq_none.2 hb
    have hcheck' : (n.link .after).isNone = false :=
      Option.isNone_eq_false_iff.2 (Option.isSome_iff_ne_none.2 ha)
    simp only [checkEnds, EStateM.run_bind, run_ends, hends, hhead, htail, run_getLink .before hn,
      run_getLink .after hn, hcheck, hcheck', run_check_true, run_check_false]

theorem setTip_ends (side : Side) (hhead : span.head = x) (htail : span.tail = x) :
    (span.setTip side x).head = x ∧ (span.setTip side x).tail = x := by
  cases side
  · exact ⟨rfl, htail⟩
  · exact ⟨hhead, rfl⟩

/-- The only node of a chain spliced in beside itself comes to be its own neighbour on both sides. -/
theorem splice_self (hx : l.heap.get? x = some (.detached e)) (hhead : span.head = x)
    (htail : span.tail = x) (side : Side) :
    ∃ l' span', (splice side x x span).run l = .ok () l' ∧ l'.chain.ends = .full span' ∧
      span'.head = x ∧ span'.tail = x ∧ l'.heap.get? x = some (.between side (some x) e (some x)) := by
  rw [← Node.between_none side] at hx
  obtain ⟨heap₁, r₁, k₁, -⟩ := run_setLink_look side.flip (some x) hx
  have hx₁ : heap₁.get? x = some (.between side (some x) e none) := by
    rw [k₁, Nodes.set_same, Node.setLink_flip_between]
  have rbeyond : (getLink side x).run ⟨heap₁, l.chain⟩ = .ok none ⟨heap₁, l.chain⟩ :=
    run_getLink_eq hx₁ (Node.link_between ..)
  obtain ⟨heap₂, r₂, k₂, -⟩ := run_setLink_look (l := ⟨heap₁, l.chain⟩) side none hx₁
  have hx₂ : heap₂.get? x = some (.between side (some x) e none) := by
    rw [k₂, Nodes.set_same, Node.setLink_between]
  let chain : Chain := { l.chain with ends := .full (span.setTip side x) }
  obtain ⟨heap₃, r₃, k₃, -⟩ := run_setLink_look (l := ⟨heap₂, chain⟩) side (some x) hx₂
  obtain ⟨hhead', htail'⟩ := setTip_ends side hhead htail
  refine ⟨⟨heap₃, chain⟩, span.setTip side x, ?_, rfl, hhead', htail', ?_⟩
  · simp only [splice, EStateM.run_bind, r₁, rbeyond, r₂, outward, run_setEnds]
    exact r₃
  · rw [k₃, Nodes.set_same, Node.setLink_between]

/-- What lies beyond a node that is both ends is linked back to it, unless it was freed. The node stays
both ends, and keeps its neighbours, but for one that was the node itself. -/
theorem outward_other {beyond : Option Handle}
    (hx : l.heap.get? x = some (.between side (some y) e beyond)) (hhead : span.head = x)
    (htail : span.tail = x) (hy : l.heap.get? y = some n) :
    (∃ k f l', beyond = some k ∧ l.heap.get? k = none ∧ (outward side x span beyond).run l = .error f l') ∨
    ∃ l' span' back n', (outward side x span beyond).run l = .ok () l' ∧ l'.chain.ends = .full span' ∧
      span'.head = x ∧ span'.tail = x ∧ l'.heap.get? x = some (.between side (some back) e beyond) ∧
      l'.heap.get? y = some n' := by
  cases beyond with
  | none =>
    obtain ⟨hhead', htail'⟩ := setTip_ends side hhead htail
    exact .inr ⟨⟨l.heap, ⟨.full (span.setTip side x), l.chain.cursor⟩⟩, _, y, n, rfl, rfl, hhead', htail',
      hx, hy⟩
  | some k =>
    let chain : Chain := ⟨.full span, l.chain.cursor⟩
    have hrun : (outward side x span (some k)).run l =
        (setLink side.flip k (some x)).run ⟨l.heap, chain⟩ := by
      rw [outward, EStateM.run_bind, run_setEnds]
    cases hk : l.heap.get? k with
    | none =>
      refine .inl ⟨k, .dangling k, ⟨l.heap, chain⟩, rfl, hk, ?_⟩
      rw [hrun]
      simp [setLink, update, EStateM.run, hk]
    | some m =>
      obtain ⟨heap', r, look, -⟩ := run_setLink_look (l := ⟨l.heap, chain⟩) side.flip (some x) hk
      have hlook : ∀ j n', l.heap.get? j = some n' →
          heap'.get? j = some (if j = k then m.setLink side.flip (some x) else n') := by
        intro j n' hj
        rw [look]
        by_cases he : j = k
        · rw [he, Nodes.set_same, if_pos rfl]
        · rw [Nodes.set_other he, if_neg he]
          exact hj
      have hx' := hlook x _ hx
      have hy' := hlook y _ hy
      by_cases he : x = k
      · obtain rfl : Node.between side (some y) e (some k) = m := Option.some.inj (by rw [← hx, ← hk, he])
        rw [if_pos he, Node.setLink_flip_between] at hx'
        exact .inr ⟨⟨heap', chain⟩, span, x, _, hrun.trans r, rfl, hhead, htail, hx', hy'⟩
      · rw [if_neg he] at hx'
        exact .inr ⟨⟨heap', chain⟩, span, y, _, hrun.trans r, rfl, hhead, htail, hx', hy'⟩

/-- Spliced in beside another node, the only node of a chain comes between that one and what was beyond
it, and is still both ends. -/
theorem splice_other (hx : l.heap.get? x = some (.detached e)) (hhead : span.head = x)
    (htail : span.tail = x) (hy : l.heap.get? y = some n) (hyx : y ≠ x) (side : Side) :
    (∃ k f l', n.link side = some k ∧ l.heap.get? k = none ∧ (splice side x y span).run l = .error f l') ∨
    ∃ l' span' back, (splice side x y span).run l = .ok () l' ∧ l'.chain.ends = .full span' ∧
      span'.head = x ∧ span'.tail = x ∧
      l'.heap.get? x = some (.between side (some back) e (n.link side)) := by
  rw [← Node.between_none side] at hx
  obtain ⟨heap₁, r₁, k₁, -⟩ := run_setLink_look side.flip (some y) hx
  rw [Node.setLink_flip_between] at k₁
  have hy₁ : heap₁.get? y = some n := by rw [k₁, Nodes.set_other hyx, hy]
  have rbeyond : (getLink side y).run ⟨heap₁, l.chain⟩ = .ok (n.link side) ⟨heap₁, l.chain⟩ :=
    run_getLink side hy₁
  obtain ⟨heap₂, r₂, k₂, -⟩ := run_setLink_look (l := ⟨heap₁, l.chain⟩) side (n.link side)
    (by rw [k₁, Nodes.set_same])
  rw [Node.setLink_between, k₁, Nodes.set_set] at k₂
  have hx₂ : heap₂.get? x = some (.between side (some y) e (n.link side)) := by rw [k₂, Nodes.set_same]
  have hy₂ : heap₂.get? y = some n := by rw [k₂, Nodes.set_other hyx, hy]
  rcases outward_other (l := ⟨heap₂, l.chain⟩) hx₂ hhead htail hy₂ with
    ⟨k, f, l', hk, hfreed, r₃⟩ | ⟨l₃, span', back, n', r₃, hends, hhead', htail', hx₃, hy₃⟩
  · have hkx : k ≠ x := by
      rintro rfl
      rw [show heap₂.get? k = some _ from hx₂] at hfreed
      cases hfreed
    refine .inl ⟨k, f, l', hk, ?_, ?_⟩
    · rw [← hfreed]
      exact (congrFun k₂ k).trans (Nodes.set_other hkx) |>.symm
    · simp only [splice, EStateM.run_bind, r₁, rbeyond, r₂, r₃]
  · obtain ⟨heap₄, r₄, k₄, -⟩ := run_setLink_look side (some x) hy₃
    refine .inr ⟨⟨heap₄, l₃.chain⟩, span', back, ?_, hends, hhead', htail', ?_⟩
    · simp only [splice, EStateM.run_bind, r₁, rbeyond, r₂, r₃, r₄]
    · rw [k₄, Nodes.set_other hyx.symm, hx₃]

end LinkM

/-- The end at which the only node of a chain is caught when it is attached once more. Beside itself it
gets a neighbour on either side. Beside another node it gets that one as a neighbour toward one side; what
lies beyond that one, if anything, comes to be its neighbour toward the other side. -/
def Linkage.caughtAt (l : Linkage α) (x : Handle) (anchor : Option Handle) (side : Side) : Side :=
  match side, anchor with
  | .before, some y => if y ≠ x ∧ l.neighbour? .before y = none then .after else .before
  | _, _ => .before

namespace LinkM

variable {l : Linkage α} {anchor : Option Handle} {side : Side}

theorem caughtAt_self {x : Handle} (hself : anchor.getD x = x) : l.caughtAt x anchor side = .before := by
  cases side with
  | after => cases anchor <;> rfl
  | before =>
    cases anchor with
    | none => rfl
    | some y =>
      obtain rfl : y = x := hself
      exact if_neg fun h => h.1 rfl

/-- The only node of a chain attached once more has no neighbour, so that it is not caught at once. -/
theorem attach_only {s : Slot α} (hs : Spans l.heap.get? l.chain.ends .after [s])
    (hlive : ∀ y, anchor = some y → ∃ n, l.heap.get? y = some n) (side : Side) :
    ∃ f l', (attach s.handle anchor side).run l = .error f l' ∧
      ((∀ k, anchor.bind (l.neighbour? side) = some k → ∃ n, l.heap.get? k = some n) →
        f = .beyondTheEnd (l.caughtAt s.handle anchor side)) := by
  have hx : l.heap.get? s.handle = some (.detached s.entry) := hs.linked.1
  obtain ⟨span, hends⟩ := hs.eq_full (List.cons_ne_nil s [])
  rw [hends] at hs
  have hhead : span.head = s.handle := Option.some.inj hs.first
  have htail : span.tail = s.handle := Option.some.inj hs.last
  have htip : span.tip side = s.handle := by cases side <;> assumption
  have hlen : span.len.val = 1 := hs.length
  obtain ⟨len, hadd, -⟩ := Count.exists_add?_one (c := span.len) (by rw [hlen]; decide)
  have hhead' : ({ span with len } : Span).head = s.handle := hhead
  have htail' : ({ span with len } : Span).tail = s.handle := htail
  rw [attach_eq hx hends hadd, htip]
  by_cases hself : anchor.getD s.handle = s.handle
  · rw [hself, caughtAt_self hself]
    obtain ⟨l₁, span₁, hrun, hends₁, hhead₁, htail₁, hx₁⟩ := splice_self hx hhead' htail' side
    have hback : (Node.between side (some s.handle) s.entry (some s.handle)).link .before ≠ none := by
      cases side <;> exact Option.some_ne_none _
    refine ⟨_, l₁, ?_, fun _ => rfl⟩
    rw [EStateM.run_bind, hrun]
    exact (checkEnds_linked hends₁ hhead₁ htail₁ hx₁).1 hback
  · cases anchor with
    | none => exact absurd rfl hself
    | some y =>
      obtain ⟨n, hy⟩ := hlive y rfl
      have hyx : y ≠ s.handle := hself
      have hneighbour := Linkage.neighbour?_eq hy
      rw [Option.bind_some, Option.getD_some, hneighbour]
      rcases splice_other hx hhead' htail' hy hyx side with
        ⟨k, f, l₁, hk, hfreed, hrun⟩ | ⟨l₁, span₁, back, hrun, hends₁, hhead₁, htail₁, hx₁⟩
      · refine ⟨f, l₁, ?_, fun hnext => ?_⟩
        · rw [EStateM.run_bind, hrun]
        · obtain ⟨m, hm⟩ := hnext k hk
          rw [hfreed] at hm
          cases hm
      · obtain ⟨hbefore, hafter⟩ := checkEnds_linked hends₁ hhead₁ htail₁ hx₁
        rw [EStateM.run_bind, hrun]
        cases side with
        | after => exact ⟨_, l₁, hbefore (Option.some_ne_none back), fun _ => rfl⟩
        | before =>
          rw [Linkage.caughtAt, hneighbour]
          cases hprev : n.link .before with
          | none =>
            rw [hprev] at hbefore hafter
            exact ⟨_, l₁, hafter rfl (Option.some_ne_none back),
              fun _ => congrArg Fault.beyondTheEnd (if_pos ⟨hyx, rfl⟩).symm⟩
          | some p =>
            rw [hprev] at hbefore
            exact ⟨_, l₁, hbefore (Option.some_ne_none p),
              fun _ => congrArg Fault.beyondTheEnd (if_neg fun h => Option.some_ne_none p h.2).symm⟩

end LinkM

/-! ## Every wrong call -/

namespace Linkage

open LinkM

/-- Every wrong call on a linkage is caught, whichever chain it is. -/
structure Guarded (l : Linkage α) : Prop where
  /-- A node of a chain of two or more is attached once more. -/
  again : ∀ nodes, l.Chained nodes → 2 ≤ nodes.length → ∀ x ∈ nodes, ∀ anchor side,
    (attach x anchor side).run l = .error .linkedNode l
  /-- The only node of a chain is attached once more, beside itself or any other node in use. -/
  only : ∀ x, l.Chained [x] → ∀ anchor, (∀ y, anchor = some y → ∃ n, l.heap.get? y = some n) →
    ∀ side, ∃ f l', (attach x anchor side).run l = .error f l' ∧
      ((∀ k, anchor.bind (l.neighbour? side) = some k → ∃ n, l.heap.get? k = some n) →
        f = .beyondTheEnd (l.caughtAt x anchor side))
  /-- An anchor is named although there is none. -/
  anchored : l.Chained [] → ∀ x e, l.heap.get? x = some (.detached e) → ∀ a side,
    (attach x (some a) side).run l = .error .anchorInEmpty l
  /-- A detached node is cut out of a chain that it is not in. -/
  stranger : ∀ nodes, l.Chained nodes → ∀ x e, l.heap.get? x = some (.detached e) → x ∉ nodes →
    (detach x).run l = .error (strangerFault nodes) l
  /-- A node is attached to a chain that records as many as it can, whatever its links are. -/
  overflow : ∀ span, l.chain.ends = .full span → span.len.val = capacity - 1 →
    ∀ x e, l.heap.get? x = some (.detached e) → ∀ anchor side,
    (attach x anchor side).run l = .error .capacity l ∧ Fault.message .capacity = "Capacity overflow!"

theorem guarded (l : Linkage α) : l.Guarded := by
  refine ⟨?_, ?_, ?_, ?_, ?_⟩
  · intro nodes h hlen x hx anchor side
    obtain ⟨run, hs, rfl⟩ := chained_iff.1 h
    exact attach_again hs (List.length_map Slot.handle ▸ hlen) hx anchor side
  · intro x h anchor hlive side
    obtain ⟨run, hs, hrun⟩ := chained_iff.1 h
    obtain ⟨s, rfl, rfl⟩ := List.map_eq_singleton_iff.1 hrun
    exact attach_only hs hlive side
  · intro h x e hx a side
    obtain ⟨run, hs, hrun⟩ := chained_iff.1 h
    obtain rfl := List.map_eq_nil_iff.1 hrun
    exact attach_anchored hx hs.eq_empty a side
  · intro nodes h x e hx hfresh
    obtain ⟨run, hs, rfl⟩ := chained_iff.1 h
    exact detach_stranger hs hx hfresh
  · intro span hends hfull x e hx anchor side
    exact ⟨attach_overflow hx hends ((Count.add?_one_eq_none_iff span.len).2 hfull) anchor side, rfl⟩

/-- A list of one node, beside a node that is in no list. -/
def lone : Linkage Nat :=
  ⟨⟨#[some (.detached ⟨1, 0⟩), some (.detached ⟨2, 0⟩)]⟩, ⟨.full ⟨.one, 0, 0⟩, none⟩⟩

/-- An empty list, beside two nodes that are in no list. -/
def vacant : Linkage Nat := ⟨lone.heap, .empty⟩

/-- A record of as many nodes as it can count, none of which is there. -/
def crowded : Linkage Nat :=
  ⟨⟨#[some (.detached ⟨1, 0⟩)]⟩, ⟨.full ⟨⟨capacity - 1, by decide, by decide⟩, 5, 6⟩, none⟩⟩

theorem lone_chained : lone.Chained [0] := by
  refine ⟨by decide, ⟨rfl, rfl, rfl⟩, ?_⟩
  intro i hi
  have hlt : i < 1 := hi
  interval_cases i
  exact ⟨_, rfl, rfl, rfl⟩

theorem vacant_chained : vacant.Chained [] := by
  refine ⟨List.nodup_nil, rfl, ?_⟩
  intro i hi
  exact absurd hi (Nat.not_lt_zero i)

/-- A node between others; the only node, before another one, caught at the tail; an anchor named in an
empty list; a node in no list; and one node too many. -/
theorem guarded_wrong_calls :
    (attach 3 (some 2) .before).run winding = .error .linkedNode winding ∧
    (∃ l', (attach 0 (some 1) .before).run lone = .error (.beyondTheEnd .after) l') ∧
    (attach 0 (some 1) .after).run vacant = .error .anchorInEmpty vacant ∧
    (detach 1).run lone = .error .notTheOnlyNode lone ∧
    (attach 0 none .after).run crowded = .error .capacity crowded := by
  have hlive : ∀ y, some 1 = some y → ∃ n, lone.heap.get? y = some n := by
    rintro _ ⟨⟩
    exact ⟨_, rfl⟩
  obtain ⟨f, l', hrun, hfault⟩ := (guarded lone).only 0 lone_chained (some 1) hlive .before
  have hend : f = .beyondTheEnd .after := hfault fun k hk => by cases hk
  refine ⟨?_, ⟨l', hend ▸ hrun⟩, ?_, ?_, ?_⟩
  · exact (guarded winding).again [2, 0, 3, 1] winding_chained (by decide) 3 (by decide) (some 2) .before
  · exact (guarded vacant).anchored vacant_chained 0 ⟨1, 0⟩ rfl 1 .after
  · exact (guarded lone).stranger [0] lone_chained 1 ⟨2, 0⟩ rfl (by decide)
  · exact ((guarded crowded).overflow _ rfl rfl 0 ⟨1, 0⟩ rfl none .after).1

end Linkage

end LinkedDeque
