import LinkedDeque.Chain.Position
import LinkedDeque.Chain.Verify
import LinkedDeque.Chain.Walk
import LinkedDeque.Proofs.Splice

/-!
# LinkedDeque.Proofs.Scene

A linkage seen as a row of entries:

* `Scene`         — a row, the nodes of the heap outside it, and the next handle to be given out.
* `Linkage.Shows` — the heap holds the nodes of the row, linked in its order, and the rest; the record
  and the cursor of the chain are those of the row.

What a chain answers about itself is read off its row: positions (`find_of_spans`, `Shows.find_eq`), the
check of all links (`Shows.verify_eq`), the sequence of handles and entries (`Shows.handles_eq`,
`Shows.contents_eq`).
-/

namespace LinkedDeque

variable {α : Type}

/-- A row of entries in a heap with other nodes. -/
structure Scene (α : Type) where
  row : Row α
  rest : Nodes α
  fresh : Handle

namespace Linkage

/-- The linkage is that of a row, beside other nodes. -/
structure Shows (l : Linkage α) (s : Scene α) : Prop where
  spans : Spans l.heap.get? l.chain.ends .after s.row.slots
  cursor : l.chain.cursor = s.row.cursor
  outside : ∀ k, k ∉ s.row.handles → l.heap.get? k = s.rest k
  apart : ∀ k ∈ s.row.handles, s.rest k = none
  size : l.heap.size = s.fresh

theorem link_eq {l : Linkage α} {h : Handle} {n : Node α} (hn : l.heap.get? h = some n)
    (side : Side) : l.link side h = .ok (n.link side) := by
  simp [link, hn]

theorem follow_linked {l : Linkage α} {side : Side} {back on : Option Handle}
    {a b : List (Slot α)} {s : Slot α} (hl : Linked l.heap.get? side back (a ++ s :: b) on)
    {h : Handle} (hh : ahead (a ++ s :: b) on = some h) :
    l.follow side a.length h = .ok s.handle := by
  induction a generalizing back h with
  | nil =>
    cases hh
    rfl
  | cons t a ih =>
    obtain ⟨ht, hl⟩ := hl
    cases hh
    obtain ⟨next, hnext⟩ : ∃ next, ahead (a ++ s :: b) on = some next := by
      rw [ahead_append]
      cases a <;> exact ⟨_, rfl⟩
    have hlink : l.link side t.handle = .ok (some next) := by
      rw [link_eq ht, Node.link_between]
      exact congrArg _ hnext
    rw [List.length_cons, follow, hlink]
    exact ih hl hnext

theorem walkForward_linked {l : Linkage α} {b : List (Slot α)} {back : Option Handle} {s : Slot α}
    (hl : Linked l.heap.get? .after back (s :: b) none) {fuel : Nat} (hf : b.length ≤ fuel)
    (count : Nat) :
    ∃ last, behind (some s.handle) b = some last ∧
      l.walkForward fuel s.handle count = .ok (last, count + b.length) := by
  induction b generalizing back s fuel count with
  | nil =>
    refine ⟨s.handle, rfl, ?_⟩
    have hnext : l.link .after s.handle = .ok none := link_eq hl.1 .after
    unfold walkForward
    simp only [hnext]
    rfl
  | cons t b ih =>
    obtain ⟨hs, ht, hrest⟩ := hl
    obtain ⟨fuel, rfl⟩ : ∃ f, fuel = f + 1 := ⟨fuel - 1, by simp at hf; omega⟩
    obtain ⟨last, hlast, hwalk⟩ := ih ⟨ht, hrest⟩ (by simpa using hf) (count + 1)
    refine ⟨last, hlast, ?_⟩
    have hnext : l.link .after s.handle = .ok (some t.handle) := link_eq hs .after
    have hback : l.link .before t.handle = .ok (some s.handle) := link_eq ht .before
    unfold walkForward
    simp only [hnext, hback, if_true, hwalk]
    rw [List.length_cons, Nat.add_assoc, Nat.add_comm 1]

theorem walkBackward_linked {l : Linkage α} {b : List (Slot α)} {back : Option Handle} {s : Slot α}
    (hl : Linked l.heap.get? .before back (s :: b) none) {fuel : Nat} (hf : b.length ≤ fuel)
    (count : Nat) :
    ∃ last, behind (some s.handle) b = some last ∧
      l.walkBackward fuel s.handle count = .ok (last, count + b.length) := by
  induction b generalizing back s fuel count with
  | nil =>
    refine ⟨s.handle, rfl, ?_⟩
    have hnext : l.link .before s.handle = .ok none := link_eq hl.1 .before
    unfold walkBackward
    simp only [hnext]
    rfl
  | cons t b ih =>
    obtain ⟨hs, ht, hrest⟩ := hl
    obtain ⟨fuel, rfl⟩ : ∃ f, fuel = f + 1 := ⟨fuel - 1, by simp at hf; omega⟩
    obtain ⟨last, hlast, hwalk⟩ := ih ⟨ht, hrest⟩ (by simpa using hf) (count + 1)
    refine ⟨last, hlast, ?_⟩
    have hnext : l.link .before s.handle = .ok (some t.handle) := link_eq hs .before
    unfold walkBackward
    simp only [hnext, hwalk]
    rw [List.length_cons, Nat.add_assoc, Nat.add_comm 1]

theorem checkTip_eq {l : Linkage α} {side : Side} {span : Span} {run : List (Slot α)}
    (hs : Spans l.heap.get? (.full span) side run) : l.checkTip side span = .ok () := by
  obtain ⟨n, hn, hlink⟩ := hs.tip_link (k := span.tip side) rfl
  rw [checkTip, link_eq hn, hlink]

/-- A walk along a whole run, from the tip on one side, arrives at the tip on the other one after the
recorded number of nodes. -/
theorem arrives {look : Nodes α} {side : Side} {span : Span} {run : List (Slot α)}
    {f : Handle → Except Fault (Handle × Nat)} (hs : Spans look (.full span) side run)
    (hf : ∀ s b, Linked look side none (s :: b) none → b.length + 1 = run.length →
      ∃ last, behind (some s.handle) b = some last ∧ f s.handle = .ok (last, 1 + b.length)) :
    ∃ arrived, f (span.tip side.flip) = .ok arrived ∧ checkArrival side span arrived = .ok () := by
  have hne : run ≠ [] := by
    rintro rfl
    cases hs.eq_empty
  obtain ⟨s, b, rfl⟩ := List.exists_cons_of_ne_nil hne
  obtain ⟨last, hlast, hwalk⟩ := hf s b hs.linked rfl
  have hfirst : span.tip side.flip = s.handle := Option.some.inj hs.first
  have harrive : span.tip side = last := Option.some.inj (hs.last.trans hlast)
  have hlen : span.len.val = b.length + 1 := hs.length
  refine ⟨(last, 1 + b.length), by rw [hfirst, hwalk], ?_⟩
  rw [checkArrival, if_pos harrive, if_pos (by omega)]

/-- The links of a run of nodes pass the check of all of them. -/
theorem verify_of_spans {l : Linkage α} {run : List (Slot α)}
    (hs : Spans l.heap.get? l.chain.ends .after run) : l.verify = .ok () := by
  have hle : run.length ≤ l.heap.size := hs.linked.length_le hs.nodup
  have hle' : run.reverse.length ≤ l.heap.size := by rwa [List.length_reverse]
  cases hends : l.chain.ends with
  | empty => rw [verify, hends]
  | full span =>
    rw [hends] at hs
    obtain ⟨last, hwalk, hcheck⟩ := arrives (f := fun h => l.walkForward l.heap.size h 1) hs
      fun _ _ hlinked hlen => walkForward_linked hlinked (by omega) 1
    -- the walk back is one along the run read from its other end
    obtain ⟨last', hwalk', hcheck'⟩ := arrives (f := fun h => l.walkBackward l.heap.size h 1) hs.of_flip
      fun _ _ hlinked hlen => walkBackward_linked hlinked (by omega) 1
    have htip := checkTip_eq hs
    have htip' := checkTip_eq hs.of_flip
    simp only [Span.tip, Side.flip] at hwalk hwalk' htip' hcheck'
    rw [verify, hends]
    simp only [htip, htip', hwalk, hwalk', bind, Except.bind, hcheck, hcheck']

section Position

variable {l : Linkage α} {side : Side} {span : Span} {run : List (Slot α)} {i : Nat}

/-- From where a run begins, as many links as a position counts lead to the node there. -/
theorem follow_of_spans (hs : Spans l.heap.get? (.full span) side run) (hi : i < run.length) :
    l.follow side i (span.tip side.flip) = .ok run[i].handle := by
  have hsplit : run = run.take i ++ run[i] :: run.drop (i + 1) := by
    rw [← List.drop_eq_getElem_cons hi, List.take_append_drop]
  have hlinked := hs.linked
  have hfirst : ahead run none = some (span.tip side.flip) := hs.first.symm
  rw [hsplit] at hlinked hfirst
  have h := follow_linked hlinked hfirst
  rwa [List.length_take, Nat.min_eq_left (Nat.le_of_lt hi)] at h

/-- The links the other way lead there too, from where the run ends. -/
theorem follow_back_of_spans (hs : Spans l.heap.get? (.full span) side run) (hi : i < run.length) :
    l.follow side.flip (run.length - 1 - i) (span.tip side) = .ok run[i].handle := by
  have hrev : run.length - 1 - i < run.reverse.length := by
    rw [List.length_reverse]
    omega
  have h := follow_of_spans hs.of_flip hrev
  have hback : run.length - 1 - (run.length - 1 - i) = i := by omega
  simp only [Side.flip_flip, List.getElem_reverse, hback] at h
  exact h

/-- A position is counted from the nearer end; from either end the count leads to the same node. -/
theorem seek_of_spans (hs : Spans l.heap.get? (.full span) .after run) (hi : i < run.length) :
    l.seek span i = .ok run[i].handle := by
  have hlen : span.len.val = run.length := hs.length
  have hlast : span.lastIndex = run.length - 1 := congrArg (· - 1) hlen
  rw [seek, hlast]
  split
  · exact follow_of_spans hs hi
  · rw [if_pos (by omega)]
    exact follow_back_of_spans hs hi

theorem find_of_spans (hs : Spans l.heap.get? l.chain.ends .after run) (i : Nat) :
    l.find i = .ok (run[i]?.map Slot.handle) := by
  cases hends : l.chain.ends with
  | empty =>
    rw [hends] at hs
    rw [find, hends, List.eq_nil_of_length_eq_zero hs.length.symm]
    rfl
  | full span =>
    rw [hends] at hs
    have hlen : span.len.val = run.length := hs.length
    rw [find, hends]
    simp only [hlen]
    split
    case isTrue hi =>
      rw [seek_of_spans hs hi, List.getElem?_eq_getElem hi]
      rfl
    case isFalse hi =>
      rw [List.getElem?_eq_none (Nat.le_of_not_lt hi)]
      rfl

end Position

theorem trail_linked {l : Linkage α} {side : Side} {a : List (Slot α)} {back : Option Handle}
    (hl : Linked l.heap.get? side back a none) {bound : Nat} (hb : a.length ≤ bound) :
    l.trail side bound (ahead a none) = handlesOf a := by
  induction a generalizing back bound with
  | nil => cases bound <;> rfl
  | cons s a ih =>
    obtain ⟨hs, hl⟩ := hl
    obtain ⟨bound, rfl⟩ : ∃ f, bound = f + 1 := ⟨bound - 1, by simp at hb; omega⟩
    rw [ahead_cons, trail, hs]
    simp only [Node.link_between]
    rw [ih hl (by simpa using hb)]
    rfl

namespace Shows

variable {l : Linkage α} {s : Scene α} {a b : List (Slot α)} {x : Slot α}

theorem nodup (hl : l.Shows s) : s.row.handles.Nodup := hl.spans.nodup

theorem node (hl : l.Shows s) (hr : s.row.slots = a ++ x :: b) :
    l.heap.get? x.handle = some (.between .after (behind none a) x.entry (ahead b none)) := by
  have hlinked := hl.spans.linked
  rw [hr] at hlinked
  exact hlinked.middle

theorem handle_lt (hl : l.Shows s) {h : Handle} (hh : h ∈ s.row.handles) : h < s.fresh := by
  obtain ⟨n, hn⟩ := hl.spans.linked.live hh
  rw [← hl.size]
  exact Heap.lt_size_of_get? hn

theorem fresh_not_mem (hl : l.Shows s) : s.fresh ∉ s.row.handles :=
  fun h => Nat.lt_irrefl _ (hl.handle_lt h)

theorem rest_fresh (hl : l.Shows s) : s.rest s.fresh = none := by
  rw [← hl.outside _ hl.fresh_not_mem, ← hl.size]
  exact Heap.get?_size _

theorem length_le (hl : l.Shows s) : s.row.length ≤ l.heap.size :=
  hl.spans.linked.length_le hl.nodup

theorem length_lt (hl : l.Shows s) : s.row.length < capacity := hl.spans.length_lt

theorem length_eq (hl : l.Shows s) : l.length = s.row.length := hl.spans.length

theorem isEmpty_eq (hl : l.Shows s) : l.isEmpty = s.row.slots.isEmpty := by
  have hlength := hl.spans.length
  rw [isEmpty]
  cases hends : l.chain.ends with
  | empty =>
    rw [hends] at hlength
    rw [List.eq_nil_of_length_eq_zero hlength.symm]
    rfl
  | full span =>
    rw [hends] at hlength
    have hpos := span.len.pos
    have hlen : span.len.val = s.row.slots.length := hlength
    cases hslots : s.row.slots with
    | nil =>
      rw [hslots] at hlen
      simp at hlen
      omega
    | cons t rest => rfl

theorem tip?_eq (hl : l.Shows s) (side : Side) :
    l.tip? side = (s.row.tip? side).map Slot.handle := by
  cases side with
  | before =>
    have h : l.tip? .before = ahead s.row.slots none := hl.spans.first
    rw [h, ahead_eq_head?, handlesOf, List.head?_map]
    rfl
  | after =>
    have h : l.tip? .after = behind none s.row.slots := hl.spans.last
    rw [h, behind_eq_getLast?, handlesOf, List.getLast?_map]
    rfl

theorem entry_eq (hl : l.Shows s) (hx : x ∈ s.row.slots) : l.entry x.handle = .ok x.entry := by
  obtain ⟨a, b, hr⟩ := List.append_of_mem hx
  simp [entry, hl.node hr]

theorem visit_eq (hl : l.Shows s) (hr : s.row.slots = a ++ x :: b) :
    l.visit (some x.handle) = .ok (some (x.handle, ahead b none)) := by
  simp [visit, link_eq (hl.node hr)]

theorem find_eq (hl : l.Shows s) (i : Nat) :
    l.find i = .ok (s.row.slots[i]?.map Slot.handle) := find_of_spans hl.spans i

/-- The links of a chain that shows a row pass the check of all of them. -/
theorem verify_eq (hl : l.Shows s) : l.verify = .ok () := verify_of_spans hl.spans

theorem handles_eq (hl : l.Shows s) : l.handles = s.row.handles := by
  have hfirst : l.tip? .before = ahead s.row.slots none := hl.spans.first
  rw [handles, hfirst]
  exact trail_linked hl.spans.linked hl.length_le

/-- The nodes met from the tail on are those met from the head on, in the reverse order. -/
theorem backward_eq (hl : l.Shows s) :
    l.trail .before l.heap.size (l.tip? .after) = s.row.handles.reverse := by
  have hback : l.tip? .after = ahead s.row.slots.reverse none := hl.spans.of_flip.first
  have hle : s.row.slots.reverse.length ≤ l.heap.size := by
    rw [List.length_reverse]
    exact hl.length_le
  have hlinked : Linked l.heap.get? .before none s.row.slots.reverse none := hl.spans.of_flip.linked
  rw [hback, trail_linked hlinked hle, handlesOf, List.map_reverse]
  rfl

theorem contents_eq (hl : l.Shows s) : l.contents = s.row.entries := by
  rw [contents, hl.handles_eq, Row.handles, Row.entries, handlesOf, List.filterMap_map,
    ← List.filterMap_eq_map]
  refine List.filterMap_congr ?_
  intro x hx
  obtain ⟨a, b, hr⟩ := List.append_of_mem hx
  simp [hl.node hr]

end Shows

/-! ## The row of a linkage -/

/-- The entries of a chain with the handles of their nodes. -/
def slots (l : Linkage α) : List (Slot α) :=
  l.handles.filterMap fun h => (l.heap.get? h).map fun n => ⟨h, n.entry⟩

def row (l : Linkage α) : Row α :=
  ⟨l.slots.takeWhile fun s => some s.handle ≠ l.chain.cursor,
    l.slots.dropWhile fun s => some s.handle ≠ l.chain.cursor⟩

/-- The scene of a chain: its row, and all other nodes. -/
def scene (l : Linkage α) : Scene α := ⟨l.row, Nodes.hide l.heap.get? l.row.slots, l.heap.size⟩

namespace Shows

variable {l : Linkage α} {s : Scene α}

theorem slots_eq (hl : l.Shows s) : l.slots = s.row.slots := by
  rw [slots, hl.handles_eq, Row.handles, handlesOf, List.filterMap_map]
  conv => rhs; rw [← List.filterMap_some (l := s.row.slots)]
  refine List.filterMap_congr ?_
  intro x hx
  obtain ⟨a, b, hr⟩ := List.append_of_mem hx
  simp [hl.node hr]

theorem row_eq (hl : l.Shows s) : l.row = s.row := by
  have hkeep : ∀ x ∈ s.row.passed, (decide (some x.handle ≠ l.chain.cursor)) = true := by
    intro x hx
    rw [hl.cursor, decide_eq_true_iff, Row.cursor]
    intro hc
    have hmem : x.handle ∈ handlesOf s.row.due := mem_of_ahead hc.symm
    have hnodup := hl.nodup
    rw [Row.handles, Row.slots, handlesOf, List.map_append, List.nodup_append] at hnodup
    exact hnodup.2.2 _ (List.mem_map_of_mem hx) _ hmem rfl
  have hstop : ∀ x rest, s.row.due = x :: rest →
      (decide (some x.handle ≠ l.chain.cursor)) = false := by
    intro x rest hd
    rw [hl.cursor, Row.cursor, hd]
    simp
  rw [row, hl.slots_eq, Row.slots, List.takeWhile_append_of_pos hkeep, List.dropWhile_append_of_pos hkeep]
  cases hd : s.row.due with
  | nil =>
    rw [List.takeWhile_nil, List.dropWhile_nil, List.append_nil, ← hd]
  | cons x rest =>
    rw [List.takeWhile_cons_of_neg (by rw [hstop x rest hd]; exact Bool.false_ne_true),
      List.dropWhile_cons_of_neg (by rw [hstop x rest hd]; exact Bool.false_ne_true),
      List.append_nil, ← hd]

/-- A linkage shows no other scene than its own. -/
theorem scene_eq (hl : l.Shows s) : l.scene = s := by
  have hrow : l.row = s.row := hl.row_eq
  have hrest : Nodes.hide l.heap.get? l.row.slots = s.rest := by
    funext k
    rw [hrow]
    by_cases hk : k ∈ s.row.handles
    · rw [hl.apart k hk]
      exact Nodes.hide_of_mem hk
    · rw [← hl.outside k hk]
      exact Nodes.hide_of_not_mem hk
  rw [scene, hrest, hrow, hl.size]

/-- A linkage that shows a row in some scene shows it in its own. -/
theorem own (hl : l.Shows s) : l.Shows l.scene := by
  rw [hl.scene_eq]
  exact hl

theorem frame {heap' : Heap α} (hl : l.Shows s) (h : ∀ k ∈ s.row.handles, heap'.get? k = l.heap.get? k) :
    Linkage.Shows ⟨heap', l.chain⟩ ⟨s.row, Nodes.hide heap'.get? s.row.slots, heap'.size⟩ :=
  ⟨hl.spans.congr h, hl.cursor, fun _ hk => (Nodes.hide_of_not_mem hk).symm,
    fun _ hk => Nodes.hide_of_mem hk, rfl⟩

end Shows

theorem shows_empty (heap : Heap α) :
    Shows ⟨heap, .empty⟩ ⟨.empty, Nodes.hide heap.get? [], heap.size⟩ :=
  ⟨⟨List.nodup_nil, trivial, rfl, rfl, rfl⟩, rfl, fun _ _ => rfl, fun _ hk => absurd hk List.not_mem_nil,
    rfl⟩

end Linkage

/-! ## What a scene settles -/

theorem Ends.eq_of_tips {e e' : Ends} (hlen : e.length = e'.length)
    (htip : ∀ side, e.tip? side = e'.tip? side) : e = e' := by
  cases e with
  | empty =>
    cases e' with
    | empty => rfl
    | full span => cases htip .before
  | full span =>
    cases e' with
    | empty => cases htip .before
    | full span' =>
      obtain ⟨len, head, tail⟩ := span
      obtain ⟨len', head', tail'⟩ := span'
      have hlen' : len = len' := Count.ext hlen
      have hhead : head = head' := Option.some.inj (htip .before)
      have htail : tail = tail' := Option.some.inj (htip .after)
      rw [hlen', hhead, htail]

namespace Linkage.Shows

variable {l l' : Linkage α} {s s' : Scene α}

/-- Two linkages that show the same row beside the same nodes have the same nodes. -/
theorem get?_eq (hl : l.Shows s) (hl' : l'.Shows s') (hrow : s'.row = s.row) (hrest : s'.rest = s.rest)
    (h : Handle) : l'.heap.get? h = l.heap.get? h := by
  by_cases hh : h ∈ s.row.handles
  · have hlinked' := hl'.spans.linked
    rw [hrow] at hlinked'
    exact hl.spans.linked.agree hlinked' hh
  · have hh' : h ∉ s'.row.handles := by rwa [hrow]
    rw [hl.outside h hh, hl'.outside h hh', hrest]

/-- Two chains that show the same row are the same. -/
theorem chain_eq (hl : l.Shows s) (hl' : l'.Shows s') (hrow : s'.row = s.row) : l'.chain = l.chain := by
  have hends : l'.chain.ends = l.chain.ends := by
    refine Ends.eq_of_tips ?_ ?_
    · have hlen := hl'.length_eq
      rw [hrow, ← hl.length_eq] at hlen
      exact hlen
    · intro side
      have htip := hl'.tip?_eq side
      rw [hrow, ← hl.tip?_eq] at htip
      exact htip
  have hcursor : l'.chain.cursor = l.chain.cursor := by rw [hl'.cursor, hl.cursor, hrow]
  calc l'.chain = ⟨l'.chain.ends, l'.chain.cursor⟩ := rfl
    _ = l.chain := by rw [hends, hcursor]

/-- Two linkages that show the same scene are the same. -/
theorem unique (hl : l.Shows s) (hl' : l'.Shows s) : l' = l := by
  have hheap : l'.heap = l.heap :=
    Heap.ext_get? (hl'.size.trans hl.size.symm) fun h => hl.get?_eq hl' rfl rfl h
  have hchain : l'.chain = l.chain := hl.chain_eq hl' rfl
  calc l' = ⟨l'.heap, l'.chain⟩ := rfl
    _ = l := by rw [hheap, hchain]

end Linkage.Shows

end LinkedDeque
