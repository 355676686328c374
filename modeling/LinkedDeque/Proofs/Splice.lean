import LinkedDeque.Chain
import LinkedDeque.Proofs.Row

/-!
# LinkedDeque.Proofs.Splice

What the primitives do to a chain whose nodes are linked:

* `Spans`      — the record of a chain is that of a run of linked nodes without repetition.
* `attach_run` — a node attached beside an anchor comes into the run there.
* `detach_run` — a node detached goes out of the run, and is left without links.

A side is a parameter throughout: `Spans` read from the other end is the same fact (`Spans.flip`), so
attaching is proved once for both sides.
-/

namespace LinkedDeque

variable {α : Type}

@[simp] theorem Span.tip_len (side : Side) (s : Span) (len : Count) :
    ({ s with len } : Span).tip side = s.tip side := by cases side <;> rfl

theorem Count.exists_add?_one {c : Count} (h : c.val + 1 < capacity) :
    ∃ d, c.add? 1 = some d ∧ d.val = c.val + 1 := by
  cases hd : c.add? 1 with
  | none =>
    have hfull := (add?_one_eq_none_iff c).1 hd
    omega
  | some d => exact ⟨d, rfl, val_of_add? hd⟩

theorem Count.exists_sub?_one {c : Count} (h : 1 < c.val) :
    ∃ d, c.sub? 1 = some d ∧ d.val + 1 = c.val := by
  cases hd : c.sub? 1 with
  | none =>
    have hone := (sub?_one_eq_none_iff c).1 hd
    omega
  | some d =>
    have hval := val_of_sub? hd
    exact ⟨d, rfl, by omega⟩

/-- The chain recorded by `ends` is a run of nodes, read toward a side. -/
structure Spans (look : Nodes α) (ends : Ends) (side : Side) (run : List (Slot α)) : Prop where
  nodup : (handlesOf run).Nodup
  linked : Linked look side none run none
  length : ends.length = run.length
  last : ends.tip? side = behind none run
  first : ends.tip? side.flip = ahead run none

namespace Spans

variable {look look' : Nodes α} {ends : Ends} {side : Side} {run : List (Slot α)}

theorem of_flip (h : Spans look ends side run) : Spans look ends side.flip run.reverse where
  nodup := by
    rw [handlesOf, List.map_reverse]
    exact List.nodup_reverse.2 h.nodup
  linked := Linked.flip.2 h.linked
  length := by rw [List.length_reverse, h.length]
  last := by rw [behind_reverse, h.first]
  first := by rw [Side.flip_flip, ahead_reverse, h.last]

theorem congr (h : Spans look ends side run) (hk : ∀ k ∈ handlesOf run, look' k = look k) :
    Spans look' ends side run :=
  { h with linked := h.linked.congr hk }

theorem eq_empty (h : Spans look ends side []) : ends = .empty := by
  cases ends with
  | empty => rfl
  | full span =>
    have hpos := span.len.pos
    have hlen : span.len.val = 0 := h.length
    omega

theorem eq_empty_iff (h : Spans look ends side run) : ends = .empty ↔ run = [] := by
  refine ⟨fun he => ?_, fun hr => (hr ▸ h).eq_empty⟩
  have hlen := h.length
  rw [he] at hlen
  exact List.eq_nil_of_length_eq_zero hlen.symm

theorem eq_full (h : Spans look ends side run) (hne : run ≠ []) : ∃ span, ends = .full span := by
  cases ends with
  | empty =>
    have hlen : 0 = run.length := h.length
    exact absurd (List.eq_nil_of_length_eq_zero hlen.symm) hne
  | full span => exact ⟨span, rfl⟩

theorem length_lt (h : Spans look ends side run) : run.length < capacity := by
  rw [← h.length]
  cases ends with
  | empty => exact Nat.lt_of_lt_of_le Nat.zero_lt_one (by decide)
  | full span => exact span.len.fits

/-- The tip of a record toward a side lies beyond any entry of the run. -/
theorem tip_eq {span : Span} {near far : List (Slot α)} {s : Slot α}
    (h : Spans look (.full span) side (near ++ s :: far)) :
    some (span.tip side) = behind (some s.handle) far := by
  have hlast := h.last
  rw [behind_append] at hlast
  exact hlast

theorem tip_link (h : Spans look ends side run) {k : Handle} (hk : ends.tip? side = some k) :
    ∃ n, look k = some n ∧ n.link side = none := by
  rcases List.eq_nil_or_concat run with rfl | ⟨init, t, rfl⟩
  · rw [h.last] at hk
    cases hk
  · rw [h.last, List.concat_eq_append, behind_append] at hk
    cases hk
    have hl := h.linked
    rw [List.concat_eq_append] at hl
    exact ⟨_, hl.middle, by rw [Node.link_between]; rfl⟩

end Spans

/-! ## Runs with one node more or less -/

/-- The nodes of a run into which `x` was linked behind `a`. -/
def Nodes.spliced (look : Nodes α) (side : Side) (near far : List (Slot α)) (a x : Slot α) : Nodes α :=
  ((look.set x.handle (some (.between side (some a.handle) x.entry (ahead far none)))).point
    side.flip (ahead far none) (some x.handle)).set a.handle
      (some (.between side (behind none near) a.entry (some x.handle)))

theorem Linked.spliced {side : Side} {look : Nodes α} {near far : List (Slot α)} {a x : Slot α}
    (hl : Linked look side none (near ++ a :: far) none)
    (hnodup : (handlesOf (near ++ a :: far)).Nodup) (hfresh : x.handle ∉ handlesOf (near ++ a :: far)) :
    Linked (look.spliced side near far a x) side none (near ++ a :: x :: far) none := by
  obtain ⟨hnear, -, hfar⟩ := Linked.append.1 hl
  simp only [handlesOf, List.map_append, List.map_cons, List.mem_append, List.mem_cons,
    not_or] at hfresh
  obtain ⟨hxnear, hxa, hxfar⟩ := hfresh
  rw [handlesOf, List.map_append, List.map_cons, List.nodup_append, List.nodup_cons] at hnodup
  obtain ⟨-, ⟨hafar, hfarnodup⟩, hdisj⟩ := hnodup
  have hanear : a.handle ∉ handlesOf near := fun h => hdisj _ h _ (List.mem_cons_self ..) rfl
  have hnotahead : ∀ k, k ∉ handlesOf far → ahead far none ≠ some k :=
    fun k hk he => hk (mem_of_ahead he)
  refine Linked.append.2 ⟨?_, ?_, ?_, ?_⟩
  · -- the part before the anchor keeps its nodes
    refine ((hnear.set_other hxnear _).point_other ?_ _ _).set_other hanear _
    intro k hk he
    exact hdisj k hk k (List.mem_cons_of_mem _ (mem_of_ahead he)) rfl
  · exact Nodes.set_same
  · rw [Nodes.spliced, Nodes.set_other hxa, Nodes.point_other (hnotahead _ hxfar), Nodes.set_same]
  · exact ((hfar.set_other hxfar _).point_back hfarnodup _).set_other hafar _

/-- The record of such a run, once its length and its ends are recorded anew. -/
theorem Spans.spliced {side : Side} {look look' : Nodes α} {ends ends' : Ends}
    {near far : List (Slot α)} {a x : Slot α} (hs : Spans look ends side (near ++ a :: far))
    (hfresh : x.handle ∉ handlesOf (near ++ a :: far))
    (hlinked : Linked look' side none (near ++ a :: x :: far) none)
    (hlength : ends'.length = ends.length + 1) (hlast : ends'.tip? side = behind (some x.handle) far)
    (hfirst : ends'.tip? side.flip = ends.tip? side.flip) :
    Spans look' ends' side (near ++ a :: x :: far) := by
  refine ⟨?_, hlinked, ?_, ?_, ?_⟩
  · have hnodup := hs.nodup
    rw [List.append_cons, handlesOf, List.map_append] at hnodup hfresh
    rw [List.append_cons, handlesOf, List.map_append, List.map_cons, List.nodup_middle,
      List.nodup_cons]
    exact ⟨hfresh, hnodup⟩
  · rw [hlength, hs.length]
    simp only [List.length_append, List.length_cons]
    omega
  · rw [hlast, behind_append]
    rfl
  · rw [hfirst, hs.first, ahead_append, ahead_append]
    rfl

/-- The node beside which another one is attached: the anchor, or the tip when there is none. -/
theorem Spans.anchor_eq {side : Side} {look : Nodes α} {span : Span} {anchor : Option Handle}
    {near far : List (Slot α)} {a : Slot α} (hs : Spans look (.full span) side (near ++ a :: far))
    (hanchor : anchor = some a.handle ∨ anchor = none ∧ far = []) :
    anchor.getD (span.tip side) = a.handle := by
  rcases hanchor with rfl | ⟨rfl, rfl⟩
  · rfl
  · exact Option.some.inj hs.tip_eq

/-- The nodes of a run whose parts `a` and `b` were linked to each other, past what is between them. -/
def Nodes.bridged (look : Nodes α) (a b : List (Slot α)) : Nodes α :=
  (look.point .before (ahead b none) (behind none a)).point .after (behind none a) (ahead b none)

theorem Nodes.bridged_other {look : Nodes α} {a b : List (Slot α)} {k : Handle}
    (ha : k ∉ handlesOf a) (hb : k ∉ handlesOf b) : look.bridged a b k = look k := by
  rw [bridged, Nodes.point_other fun he => ha (mem_of_behind he),
    Nodes.point_other fun he => hb (mem_of_ahead he)]

theorem Linked.bridged {look : Nodes α} {a b : List (Slot α)} {x : Slot α}
    (hl : Linked look .after none (a ++ x :: b) none) (hnodup : (handlesOf (a ++ x :: b)).Nodup)
    (v : Option (Node α)) :
    Linked ((look.bridged a b).set x.handle v) .after none (a ++ b) none := by
  obtain ⟨ha, -, hb⟩ := Linked.append.1 hl
  rw [handlesOf, List.map_append, List.map_cons, List.nodup_middle, List.nodup_cons,
    List.mem_append, not_or, List.nodup_append] at hnodup
  obtain ⟨⟨hxa, hxb⟩, hanodup, hbnodup, hdisj⟩ := hnodup
  refine Linked.append.2 ⟨?_, ?_⟩
  · refine Linked.set_other ?_ hxa _
    refine Linked.point_on (Linked.point_other ha ?_ _ _) hanodup _
    exact fun k hk he => hdisj k hk k (mem_of_ahead he) rfl
  · refine Linked.set_other ?_ hxb _
    refine Linked.point_other (Linked.point_back hb hbnodup _) ?_ _ _
    exact fun k hk he => hdisj k (mem_of_behind he) k hk rfl

namespace LinkM

variable {l : Linkage α} {h : Handle} {n : Node α}

theorem run_update_look (f : Node α → Node α) (hn : l.heap.get? h = some n) :
    ∃ heap', (update h f).run l = .ok () ⟨heap', l.chain⟩ ∧
      heap'.get? = Nodes.set l.heap.get? h (some (f n)) ∧ heap'.size = l.heap.size :=
  ⟨_, run_update f hn, Heap.look_put hn _, Heap.size_put _ _ _⟩

theorem run_setLink_look (side : Side) (v : Option Handle) (hn : l.heap.get? h = some n) :
    ∃ heap', (setLink side h v).run l = .ok () ⟨heap', l.chain⟩ ∧
      heap'.get? = Nodes.set l.heap.get? h (some (n.setLink side v)) ∧ heap'.size = l.heap.size :=
  run_update_look _ hn

theorem run_getLink_eq {side : Side} {v : Option Handle} (hn : l.heap.get? h = some n)
    (hv : n.link side = v) : (getLink side h).run l = .ok v l := by
  rw [run_getLink side hn, hv]

theorem checkEnds_run {side : Side} {run : List (Slot α)}
    (hs : Spans l.heap.get? l.chain.ends side run) : checkEnds.run l = .ok () l := by
  obtain ⟨run, hs⟩ : ∃ run, Spans l.heap.get? l.chain.ends .after run := by
    cases side with
    | after => exact ⟨run, hs⟩
    | before => exact ⟨run.reverse, hs.of_flip⟩
  cases hends : l.chain.ends with
  | empty =>
    rw [checkEnds, EStateM.run_bind, run_ends, hends]
    rfl
  | full span =>
    obtain ⟨m, hm, hmlink⟩ := hs.of_flip.tip_link (k := span.head) (by rw [hends]; rfl)
    obtain ⟨n, hn, hnlink⟩ := hs.tip_link (k := span.tail) (by rw [hends]; rfl)
    have hhead : (getLink .before span.head).run l = .ok none l := run_getLink_eq hm hmlink
    have htail : (getLink .after span.tail).run l = .ok none l := run_getLink_eq hn hnlink
    simp only [checkEnds, EStateM.run_bind, run_ends, hends, hhead, htail, Option.isNone_none,
      run_check_true]

/-- The place beside an anchor, in a run read toward the side on which a node is to come: behind the
anchor, or at the end of the run without one. -/
def Beside (anchor : Option Handle) (near far : List (Slot α)) : Prop :=
  (anchor = none ∧ far = []) ∨ (anchor ≠ none ∧ anchor = behind none near)

theorem attach_run_empty {side : Side} {x : Slot α}
    (hs : Spans l.heap.get? l.chain.ends side [])
    (hx : l.heap.get? x.handle = some (.detached x.entry)) :
    ∃ ends', (attach x.handle none side).run l = .ok () ⟨l.heap, ⟨ends', l.chain.cursor⟩⟩ ∧
      Spans l.heap.get? ends' side [x] := by
  have hends : l.chain.ends = .empty := hs.eq_empty
  have hs' : Spans l.heap.get? (.full ⟨.one, x.handle, x.handle⟩) side [x] := by
    refine ⟨by simp, ⟨by rw [hx, ahead_nil, Node.between_none], trivial⟩, rfl, ?_, ?_⟩
    · cases side <;> rfl
    · cases side <;> rfl
  have hbefore : (getLink .before x.handle).run l = .ok none l :=
    run_getLink_eq hx (Node.link_detached _ _)
  have hafter : (getLink .after x.handle).run l = .ok none l :=
    run_getLink_eq hx (Node.link_detached _ _)
  have hcheck :
      checkEnds.run (⟨l.heap, ⟨.full ⟨.one, x.handle, x.handle⟩, l.chain.cursor⟩⟩ : Linkage α) =
      .ok () ⟨l.heap, ⟨.full ⟨.one, x.handle, x.handle⟩, l.chain.cursor⟩⟩ := checkEnds_run hs'
  refine ⟨_, ?_, hs'⟩
  simp only [attach, EStateM.run_bind, hbefore, hafter, Option.isNone_none, Bool.and_self,
    run_check_true, run_ends, hends, run_setEnds, hcheck]

/-- Links what lies beyond a new node back to it: the neighbour there, or the end of the chain, which
moves outward. -/
def outward (side : Side) (node : Handle) (span : Span) : Option Handle → LinkM α Unit
  | some neighbour => do
    setEnds (.full span)
    setLink side.flip neighbour (some node)
  | none => setEnds (.full (span.setTip side node))

theorem outward_run (side : Side) (node : Handle) (span : Span) (far : List (Slot α))
    (hfar : ∀ k, ahead far none = some k → ∃ n, l.heap.get? k = some n)
    (hlast : far ≠ [] → some (span.tip side) = behind (some node) far) :
    ∃ heap' ends', (outward side node span (ahead far none)).run l =
        .ok () ⟨heap', ⟨ends', l.chain.cursor⟩⟩ ∧
      heap'.get? = Nodes.point l.heap.get? side.flip (ahead far none) (some node) ∧
      heap'.size = l.heap.size ∧ ends'.length = span.len.val ∧
      ends'.tip? side = behind (some node) far ∧ ends'.tip? side.flip = some (span.tip side.flip) := by
  cases far with
  | nil =>
    refine ⟨l.heap, _, rfl, rfl, rfl, ?_, ?_, ?_⟩
    · rw [Ends.length, Span.len_setTip]
    · rw [Ends.tip?, Span.tip_setTip_same]
      rfl
    · cases side <;> rfl
  | cons f far =>
    obtain ⟨n, hn⟩ := hfar f.handle rfl
    obtain ⟨heap', r, k, z⟩ := run_setLink_look (l := ⟨l.heap, ⟨.full span, l.chain.cursor⟩⟩) side.flip
      (some node) hn
    refine ⟨heap', .full span, ?_, ?_, z, rfl, hlast (List.cons_ne_nil _ _), rfl⟩
    · simp only [outward, ahead_cons, EStateM.run_bind, run_setEnds, r]
    · rw [k, ahead_cons, Nodes.point, hn]
      rfl

/-- Links a new node in beside an anchor, under a record that counts it already. -/
def splice (side : Side) (node anchor : Handle) (span : Span) : LinkM α Unit := do
  setLink side.flip node (some anchor)
  let beyond ← getLink side anchor
  setLink side node beyond
  outward side node span beyond
  setLink side anchor (some node)

theorem attach_eq {node : Handle} {anchor : Option Handle} {side : Side} {span : Span} {len : Count}
    {e : Entry α} (hx : l.heap.get? node = some (.detached e)) (hends : l.chain.ends = .full span)
    (hadd : span.len.add? 1 = some len) :
    (attach node anchor side).run l =
      (do
        splice side node (anchor.getD (span.tip side)) { span with len }
        checkEnds : LinkM α Unit).run l := by
  have hbefore : (getLink .before node).run l = .ok none l := run_getLink_eq hx (Node.link_detached _ _)
  have hafter : (getLink .after node).run l = .ok none l := run_getLink_eq hx (Node.link_detached _ _)
  simp only [attach, EStateM.run_bind, hbefore, hafter, Option.isNone_none, Bool.and_self,
    run_check_true, run_ends, hends, hadd, Span.tip_len]
  simp only [← EStateM.run_bind, splice, bind_assoc]
  -- what is left differs in where the record is written: before the neighbour, in both cases of it
  refine congrArg (fun c => EStateM.run c l) ?_
  refine bind_congr fun _ => bind_congr fun beyond => bind_congr fun _ => ?_
  cases beyond with
  | none => rfl
  | some neighbour => simp only [outward, bind_assoc]

/-- A chain that records as many nodes as a count can hold takes no other one. -/
theorem attach_overflow {node : Handle} {span : Span} {e : Entry α}
    (hx : l.heap.get? node = some (.detached e)) (hends : l.chain.ends = .full span)
    (hadd : span.len.add? 1 = none) (anchor : Option Handle) (side : Side) :
    (attach node anchor side).run l = .error .capacity l := by
  have hbefore : (getLink .before node).run l = .ok none l := run_getLink_eq hx (Node.link_detached _ _)
  have hafter : (getLink .after node).run l = .ok none l := run_getLink_eq hx (Node.link_detached _ _)
  simp only [attach, EStateM.run_bind, hbefore, hafter, Option.isNone_none, Bool.and_self,
    run_check_true, run_ends, hends, hadd]
  rfl

theorem splice_run {side : Side} {near far : List (Slot α)} {a x : Slot α} {span : Span}
    (hl : Linked l.heap.get? side none (near ++ a :: far) none)
    (hnodup : (handlesOf (near ++ a :: far)).Nodup)
    (hx : l.heap.get? x.handle = some (.detached x.entry))
    (hfresh : x.handle ∉ handlesOf (near ++ a :: far))
    (htip : far ≠ [] → some (span.tip side) = behind (some x.handle) far) :
    ∃ heap' ends', (splice side x.handle a.handle span).run l =
        .ok () ⟨heap', ⟨ends', l.chain.cursor⟩⟩ ∧
      heap'.get? = Nodes.spliced l.heap.get? side near far a x ∧
      heap'.size = l.heap.size ∧ ends'.length = span.len.val ∧
      ends'.tip? side = behind (some x.handle) far ∧ ends'.tip? side.flip = some (span.tip side.flip) := by
  have hxa : a.handle ≠ x.handle := fun h => hfresh (by simp [← h])
  have ha := hl.middle
  rw [← Node.between_none side] at hx
  obtain ⟨heap₁, r₁, k₁, z₁⟩ := run_setLink_look side.flip (some a.handle) hx
  rw [Node.setLink_flip_between] at k₁
  have ha₁ : heap₁.get? a.handle = some (.between side (behind none near) a.entry (ahead far none)) := by
    rw [k₁, Nodes.set_other hxa, ha]
  have rbeyond : (getLink side a.handle).run ⟨heap₁, l.chain⟩ = .ok (ahead far none) ⟨heap₁, l.chain⟩ :=
    run_getLink_eq ha₁ (Node.link_between ..)
  obtain ⟨heap₂, r₂, k₂, z₂⟩ := run_setLink_look (l := ⟨heap₁, l.chain⟩) side (ahead far none)
    (by rw [k₁, Nodes.set_same])
  rw [Node.setLink_between, k₁, Nodes.set_set] at k₂
  have hbeyond : ∀ k, ahead far none = some k → ∃ n, heap₂.get? k = some n := by
    intro k hk
    have hxk : k ≠ x.handle := by
      rintro rfl
      refine hfresh ?_
      rw [handlesOf, List.map_append, List.map_cons]
      exact List.mem_append_right _ (List.mem_cons_of_mem _ (mem_of_ahead hk))
    obtain ⟨n, hn⟩ := (Linked.append.1 hl).2.2.live (mem_of_ahead hk)
    exact ⟨n, by rw [k₂, Nodes.set_other hxk, hn]⟩
  obtain ⟨heap₃, ends', r₃, k₃, z₃, hlength, hlast, hfirst⟩ :=
    outward_run (l := ⟨heap₂, l.chain⟩) side x.handle span far hbeyond htip
  have hnotahead : ahead far none ≠ some a.handle := by
    intro he
    rw [handlesOf, List.map_append, List.map_cons, List.nodup_middle, List.nodup_cons] at hnodup
    exact hnodup.1 (List.mem_append_right _ (mem_of_ahead he))
  have ha₃ : heap₃.get? a.handle =
      some (.between side (behind none near) a.entry (ahead far none)) := by
    rw [k₃, Nodes.point_other hnotahead, k₂, Nodes.set_other hxa, ha]
  obtain ⟨heap₄, r₄, k₄, z₄⟩ := run_setLink_look (l := ⟨heap₃, ⟨ends', l.chain.cursor⟩⟩) side
    (some x.handle) ha₃
  rw [Node.setLink_between, k₃, k₂] at k₄
  refine ⟨heap₄, ends', ?_, k₄, by rw [z₄, z₃, z₂, z₁], hlength, hlast, hfirst⟩
  simp only [splice, EStateM.run_bind, r₁, rbeyond, r₂, r₃, r₄]

theorem attach_run_full {side : Side} {anchor : Option Handle} {near far : List (Slot α)}
    {a x : Slot α} (hs : Spans l.heap.get? l.chain.ends side (near ++ a :: far))
    (hx : l.heap.get? x.handle = some (.detached x.entry))
    (hfresh : x.handle ∉ handlesOf (near ++ a :: far))
    (hanchor : anchor = some a.handle ∨ anchor = none ∧ far = [])
    (hcap : (near ++ a :: far).length + 1 < capacity) :
    ∃ heap' ends', (attach x.handle anchor side).run l = .ok () ⟨heap', ⟨ends', l.chain.cursor⟩⟩ ∧
      Spans heap'.get? ends' side (near ++ a :: x :: far) ∧ heap'.size = l.heap.size ∧
      ∀ k, k ∉ handlesOf (near ++ a :: x :: far) → heap'.get? k = l.heap.get? k := by
  obtain ⟨span, hends⟩ := hs.eq_full (by simp)
  rw [hends] at hs
  obtain ⟨len, hadd, hlen⟩ : ∃ d, span.len.add? 1 = some d ∧ d.val = span.len.val + 1 := by
    refine Count.exists_add?_one ?_
    rw [show span.len.val = _ from hs.length]
    exact hcap
  have htip : far ≠ [] → some (({ span with len } : Span).tip side) = behind (some x.handle) far := by
    intro hne
    obtain ⟨f, far, rfl⟩ := List.exists_cons_of_ne_nil hne
    rw [Span.tip_len]
    exact hs.tip_eq
  obtain ⟨heap', ends', hrun, hlook, hsize, hlength, hlast, hfirst⟩ :=
    splice_run hs.linked hs.nodup hx hfresh htip
  have hfirst' : ends'.tip? side.flip = (Ends.full span).tip? side.flip := by
    rw [hfirst, Span.tip_len]
    rfl
  have hs' : Spans heap'.get? ends' side (near ++ a :: x :: far) := by
    refine hs.spliced hfresh ?_ ?_ hlast hfirst'
    · rw [hlook]
      exact hs.linked.spliced hs.nodup hfresh
    · rw [hlength, hlen]
      rfl
  refine ⟨heap', ends', ?_, hs', hsize, ?_⟩
  · have hcheck := checkEnds_run (l := ⟨heap', ⟨ends', l.chain.cursor⟩⟩) hs'
    simp only [attach_eq hx hends hadd, hs.anchor_eq hanchor, EStateM.run_bind, hrun, hcheck]
  · intro k hk
    simp only [handlesOf, List.map_append, List.map_cons, List.mem_append, List.mem_cons,
      not_or] at hk
    obtain ⟨-, hka, hkx, hkfar⟩ := hk
    rw [hlook, Nodes.spliced, Nodes.set_other hka, Nodes.point_other fun he => hkfar (mem_of_ahead he),
      Nodes.set_other hkx]

/-- A detached node attached beside an anchor comes into the run there. Nothing else changes. -/
theorem attach_run {side : Side} {anchor : Option Handle} {near far : List (Slot α)} {x : Slot α}
    (hs : Spans l.heap.get? l.chain.ends side (near ++ far))
    (hx : l.heap.get? x.handle = some (.detached x.entry))
    (hfresh : x.handle ∉ handlesOf (near ++ far))
    (hgap : Beside anchor near far) (hcap : (near ++ far).length + 1 < capacity) :
    ∃ heap' ends', (attach x.handle anchor side).run l = .ok () ⟨heap', ⟨ends', l.chain.cursor⟩⟩ ∧
      Spans heap'.get? ends' side (near ++ x :: far) ∧ heap'.size = l.heap.size ∧
      ∀ k, k ∉ handlesOf (near ++ x :: far) → heap'.get? k = l.heap.get? k := by
  rcases List.eq_nil_or_concat near with rfl | ⟨near, a, rfl⟩
  · obtain ⟨rfl, rfl⟩ : anchor = none ∧ far = [] := by
      rcases hgap with h | ⟨hne, he⟩
      · exact h
      · exact absurd he hne
    obtain ⟨ends', hrun, hs'⟩ := attach_run_empty hs hx
    exact ⟨l.heap, ends', hrun, hs', rfl, fun _ _ => rfl⟩
  · rw [List.concat_eq_append, List.append_assoc] at hs hfresh hcap
    rw [List.concat_eq_append, List.append_assoc]
    refine attach_run_full hs hx hfresh ?_ hcap
    rcases hgap with h | ⟨-, he⟩
    · exact .inr h
    · rw [List.concat_eq_append, behind_append] at he
      exact .inl he

/-- The gap that a node leaves on one side is closed: its neighbour there, or the end of the chain, is
moved to the node on the other side. -/
theorem bridge_run (side : Side) (x : Slot α) (near far : List (Slot α)) (span : Span)
    (hne : near ++ far ≠ []) (hfar : ∀ k, ahead far none = some k → ∃ n, l.heap.get? k = some n)
    (htip : some (span.tip side) = behind (some x.handle) far) :
    ∃ heap' span', (bridge side x.handle (ahead far none) (behind none near) span).run l =
        .ok span' ⟨heap', l.chain⟩ ∧
      heap'.get? = Nodes.point l.heap.get? side.flip (ahead far none) (behind none near) ∧
      heap'.size = l.heap.size ∧ some (span'.tip side) = behind (behind none near) far ∧
      span'.tip side.flip = span.tip side.flip := by
  cases far with
  | nil =>
    rw [List.append_nil] at hne
    obtain ⟨init, o, rfl⟩ := (List.eq_nil_or_concat near).resolve_left hne
    have hx : span.tip side = x.handle := Option.some.inj htip
    refine ⟨l.heap, span.setTip side o.handle, ?_, rfl, rfl, ?_, ?_⟩
    · rw [List.concat_eq_append, behind_append]
      simp only [bridge, ahead_nil, behind_cons, behind_nil, EStateM.run_bind, hx, beq_self_eq_true,
        run_check_true]
      rfl
    · rw [List.concat_eq_append, behind_append, Span.tip_setTip_same]
      rfl
    · cases side <;> rfl
  | cons f far =>
    obtain ⟨n, hn⟩ := hfar f.handle rfl
    obtain ⟨heap', r, k, z⟩ := run_setLink_look side.flip (behind none near) hn
    refine ⟨heap', span, ?_, ?_, z, htip, rfl⟩
    · simp only [bridge, ahead_cons, EStateM.run_bind, r]
      rfl
    · rw [k, ahead_cons, Nodes.point, hn]
      rfl

theorem clear_run {run : List (Slot α)} {x : Slot α} {back on : Option Handle}
    (hx : l.heap.get? x.handle = some (.between .after back x.entry on))
    (hs : Spans (Nodes.set l.heap.get? x.handle (some (.detached x.entry))) l.chain.ends .after run) :
    ∃ heap', (do
        setLink .before x.handle none
        setLink .after x.handle none
        checkEnds : LinkM α Unit).run l = .ok () ⟨heap', l.chain⟩ ∧
      heap'.get? = Nodes.set l.heap.get? x.handle (some (.detached x.entry)) ∧
      heap'.size = l.heap.size := by
  obtain ⟨heap₁, r₁, k₁, z₁⟩ := run_setLink_look .before none hx
  obtain ⟨heap₂, r₂, k₂, z₂⟩ := run_setLink_look (l := ⟨heap₁, l.chain⟩) .after none
    (by rw [k₁, Nodes.set_same])
  rw [k₁, Nodes.set_set] at k₂
  refine ⟨heap₂, ?_, k₂, by rw [z₂, z₁]⟩
  have hcheck := checkEnds_run (l := ⟨heap₂, l.chain⟩) (k₂ ▸ hs)
  simp only [EStateM.run_bind, r₁, r₂, hcheck]

theorem detach_run_single {x : Slot α} (hs : Spans l.heap.get? l.chain.ends .after [x]) :
    ∃ heap', (detach x.handle).run l = .ok () ⟨heap', ⟨.empty, l.chain.cursor⟩⟩ ∧
      heap'.get? = Nodes.set l.heap.get? x.handle (some (.detached x.entry)) ∧
      heap'.size = l.heap.size := by
  obtain ⟨span, hends⟩ := hs.eq_full (by simp)
  rw [hends] at hs
  have hhead : span.head = x.handle := Option.some.inj hs.first
  have htail : span.tail = x.handle := Option.some.inj hs.last
  have hsub : span.len.sub? 1 = none := (Count.sub?_one_eq_none_iff _).2 hs.length
  have hnone : Spans (Nodes.set l.heap.get? x.handle (some (.detached x.entry))) .empty .after [] :=
    ⟨List.nodup_nil, trivial, rfl, rfl, rfl⟩
  obtain ⟨heap', r, k, z⟩ := clear_run (l := ⟨l.heap, ⟨.empty, l.chain.cursor⟩⟩) hs.linked.1 hnone
  refine ⟨heap', ?_, k, z⟩
  simp only [EStateM.run_bind] at r
  simp only [detach, EStateM.run_bind, run_ends, hends, hsub, hhead, htail, beq_self_eq_true,
    Bool.and_self, run_check_true, run_setEnds, r]

/-- The gap that a node leaves is closed on both sides: the record then leads to the two parts, and no
longer to the node. -/
theorem bridges_run {a b : List (Slot α)} {x : Slot α} {span : Span}
    (hs : Spans l.heap.get? (.full span) .after (a ++ x :: b)) (hne : a ++ b ≠ []) :
    ∃ heap₁ heap₂ span₁ span₂,
      (bridge .after x.handle (ahead b none) (behind none a) span).run l = .ok span₁ ⟨heap₁, l.chain⟩ ∧
      (bridge .before x.handle (behind none a) (ahead b none) span₁).run ⟨heap₁, l.chain⟩ =
        .ok span₂ ⟨heap₂, l.chain⟩ ∧
      heap₂.get? = Nodes.bridged l.heap.get? a b ∧ heap₂.size = l.heap.size ∧
      some (span₂.tip .after) = behind none (a ++ b) ∧ some (span₂.tip .before) = ahead (a ++ b) none := by
  have hnodup := hs.nodup
  rw [handlesOf, List.map_append, List.map_cons, List.nodup_middle, List.nodup_cons,
    List.nodup_append] at hnodup
  obtain ⟨-, -, -, hdisj⟩ := hnodup
  -- the gap is closed toward the tail, then toward the head
  obtain ⟨heap₁, span₁, r₁, k₁, z₁, last₁, first₁⟩ := bridge_run .after x a b span hne
    (fun k hk => hs.linked.live (by simp [mem_of_ahead hk])) hs.tip_eq
  have hlive : ∀ k, ahead a.reverse none = some k → ∃ n, heap₁.get? k = some n := by
    intro k hk
    rw [ahead_reverse] at hk
    have hka := mem_of_behind hk
    rw [k₁, Nodes.point_other fun he => hdisj k hka k (mem_of_ahead he) rfl]
    exact hs.linked.live (by simp [hka])
  have hfirst : some (span₁.tip .before) = behind (some x.handle) a.reverse := by
    have hfirst := hs.first
    rw [ahead_append] at hfirst
    rw [behind_reverse, show span₁.tip .before = span.tip .before from first₁]
    exact hfirst
  obtain ⟨heap₂, span₂, r₂, k₂, z₂, last₂, first₂⟩ := bridge_run (l := ⟨heap₁, l.chain⟩)
    .before x b.reverse a.reverse span₁ (by simpa [and_comm] using hne) hlive hfirst
  rw [ahead_reverse, behind_reverse] at r₂ k₂
  rw [behind_reverse, behind_reverse] at last₂
  refine ⟨heap₁, heap₂, span₁, span₂, r₁, r₂, ?_, by rw [z₂, z₁], ?_, ?_⟩
  · rw [k₂, k₁]
    rfl
  · rw [behind_append, ← last₁, show span₁.tip .after = span₂.tip .after from first₂.symm]
  · rw [ahead_append, ← last₂]

theorem detach_run_many {a b : List (Slot α)} {x : Slot α}
    (hs : Spans l.heap.get? l.chain.ends .after (a ++ x :: b)) (hne : a ++ b ≠ []) :
    ∃ heap' ends', (detach x.handle).run l = .ok () ⟨heap', ⟨ends', l.chain.cursor⟩⟩ ∧
      Spans heap'.get? ends' .after (a ++ b) ∧
      heap'.get? x.handle = some (.detached x.entry) ∧ heap'.size = l.heap.size ∧
      ∀ k, k ∉ handlesOf (a ++ x :: b) → heap'.get? k = l.heap.get? k := by
  obtain ⟨span, hends⟩ := hs.eq_full (by simp)
  rw [hends] at hs
  have hlength : span.len.val = (a ++ b).length + 1 := by
    rw [show span.len.val = _ from hs.length]
    simp only [List.length_append, List.length_cons]
    omega
  obtain ⟨len, hsub, hlen⟩ : ∃ d, span.len.sub? 1 = some d ∧ d.val + 1 = span.len.val := by
    refine Count.exists_sub?_one ?_
    have hpos := List.length_pos_of_ne_nil hne
    omega
  have hnodup := hs.nodup
  rw [handlesOf, List.map_append, List.map_cons, List.nodup_middle, List.nodup_cons,
    List.mem_append, not_or] at hnodup
  obtain ⟨⟨hxa, hxb⟩, hrest⟩ := hnodup
  have hx := hs.linked.middle
  have rprev : (getLink .before x.handle).run l = .ok (behind none a) l := run_getLink_eq hx rfl
  have rnext : (getLink .after x.handle).run l = .ok (ahead b none) l := run_getLink_eq hx rfl
  obtain ⟨heap₁, heap₂, span₁, span₂, r₁, r₂, k₂, z₂, hlast, hfirst⟩ := bridges_run hs hne
  have hx₂ : heap₂.get? x.handle =
      some (.between .after (behind none a) x.entry (ahead b none)) := by
    rw [k₂, Nodes.bridged_other hxa hxb, hx]
  have hs₂ : Spans (Nodes.set heap₂.get? x.handle (some (.detached x.entry)))
      (.full { span₂ with len }) .after (a ++ b) := by
    refine ⟨?_, ?_, ?_, hlast, hfirst⟩
    · rw [handlesOf, List.map_append]
      exact hrest
    · rw [k₂]
      exact hs.linked.bridged hs.nodup _
    · show len.val = _
      omega
  obtain ⟨heap₃, r₃, k₃, z₃⟩ := clear_run
    (l := ⟨heap₂, ⟨.full { span₂ with len }, l.chain.cursor⟩⟩) hx₂ hs₂
  refine ⟨heap₃, .full { span₂ with len }, ?_, by rw [k₃]; exact hs₂, ?_, ?_, ?_⟩
  · simp only [EStateM.run_bind] at r₃
    simp only [detach, EStateM.run_bind, run_ends, hends, hsub, rprev, rnext, r₁, r₂, run_setEnds,
      r₃]
  · rw [k₃, Nodes.set_same]
  · rw [z₃, z₂]
  · intro k hk
    simp only [handlesOf, List.map_append, List.map_cons, List.mem_append, List.mem_cons,
      not_or] at hk
    obtain ⟨hka, hkx, hkb⟩ := hk
    rw [k₃, Nodes.set_other hkx, k₂, Nodes.bridged_other hka hkb]

/-- A node of a chain detached goes out of its run, and is left without links. Nothing else changes.
-/
theorem detach_run {a b : List (Slot α)} {x : Slot α}
    (hs : Spans l.heap.get? l.chain.ends .after (a ++ x :: b)) :
    ∃ heap' ends', (detach x.handle).run l = .ok () ⟨heap', ⟨ends', l.chain.cursor⟩⟩ ∧
      Spans heap'.get? ends' .after (a ++ b) ∧
      heap'.get? x.handle = some (.detached x.entry) ∧ heap'.size = l.heap.size ∧
      ∀ k, k ∉ handlesOf (a ++ x :: b) → heap'.get? k = l.heap.get? k := by
  by_cases hne : a ++ b = []
  · obtain ⟨rfl, rfl⟩ := List.append_eq_nil_iff.1 hne
    obtain ⟨heap', r, k, z⟩ := detach_run_single hs
    refine ⟨heap', .empty, r, ⟨List.nodup_nil, trivial, rfl, rfl, rfl⟩, ?_, z, ?_⟩
    · rw [k, Nodes.set_same]
    · intro j hj
      rw [k, Nodes.set_other (by simpa using hj)]
  · exact detach_run_many hs hne

end LinkM

end LinkedDeque
