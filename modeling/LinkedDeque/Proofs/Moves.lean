import LinkedDeque.Proofs.Scene

/-!
# LinkedDeque.Proofs.Moves

Each primitive of a linkage as a move of its scene. A node made lies in the rest of the heap until it
is attached, and one that is unlinked lies there until it is released; the row takes up or gives up
its entry, and its cursor stays on an entry of the row.
-/

namespace LinkedDeque

variable {α : Type}

/-- Where a run is parted when a node is attached beside an anchor. -/
def Gap (anchor : Option Handle) (side : Side) (a b : List (Slot α)) : Prop :=
  match side with
  | .after => LinkM.Beside anchor a b
  | .before => LinkM.Beside anchor b.reverse a.reverse

theorem gap_back (a : List (Slot α)) : Gap none .after a [] := .inl ⟨rfl, rfl⟩

theorem gap_front (b : List (Slot α)) : Gap none .before [] b := .inl ⟨rfl, rfl⟩

theorem gap_before (a b : List (Slot α)) (x : Slot α) : Gap (some x.handle) .before a (x :: b) :=
  .inr ⟨by simp, by rw [behind_reverse]; rfl⟩

namespace LinkM

variable {l : Linkage α} {s : Scene α} {a b : List (Slot α)} {x : Slot α}

theorem create_shows (hl : l.Shows s) (e : Entry α) :
    ∃ l', (create e).run l = .ok s.fresh l' ∧
      l'.Shows { s with rest := s.rest.set s.fresh (some (.detached e)), fresh := s.fresh + 1 } := by
  have hlook : (l.heap.alloc (.detached e)).2.get? =
      Nodes.set l.heap.get? s.fresh (some (.detached e)) := by
    rw [Heap.look_alloc, hl.size]
  refine ⟨⟨(l.heap.alloc (.detached e)).2, l.chain⟩, ?_, ?_, hl.cursor, ?_, ?_, ?_⟩
  · rw [run_create, ← hl.size]
    rfl
  · refine hl.spans.congr ?_
    intro k hk
    have hne : k ≠ s.fresh := fun he => hl.fresh_not_mem (he ▸ hk)
    rw [hlook, Nodes.set_other hne]
  · intro k hk
    rw [hlook]
    simp only [Nodes.set, hl.outside k hk]
  · intro k hk
    have hne : k ≠ s.fresh := fun he => hl.fresh_not_mem (he ▸ hk)
    exact (Nodes.set_other hne).trans (hl.apart k hk)
  · rw [Heap.size_alloc, hl.size]

theorem release_shows (hl : l.Shows s) {h : Handle} {n : Node α} (hn : s.rest h = some n) :
    ∃ l', (release h).run l = .ok n.entry l' ∧ l'.Shows { s with rest := s.rest.set h none } := by
  have hnot : h ∉ s.row.handles := by
    intro hh
    rw [hl.apart h hh] at hn
    cases hn
  have hnode : l.heap.get? h = some n := by rw [hl.outside h hnot, hn]
  refine ⟨⟨l.heap.free h, l.chain⟩, run_release hnode, ?_, hl.cursor, ?_, ?_, ?_⟩
  · refine hl.spans.congr ?_
    intro k hk
    have hne : k ≠ h := fun he => hnot (he ▸ hk)
    rw [Heap.look_free, Nodes.set_other hne]
  · intro k hk
    rw [Heap.look_free]
    simp only [Nodes.set, hl.outside k hk]
  · intro k hk
    have hne : k ≠ h := fun he => hnot (he ▸ hk)
    exact (Nodes.set_other hne).trans (hl.apart k hk)
  · rw [Heap.size_free, hl.size]

theorem shows_of_attached {heap' : Heap α} {ends' : Ends} (hl : l.Shows s)
    (hr : s.row.slots = a ++ b) (hs : Spans heap'.get? ends' .after (a ++ x :: b))
    (hkeep : ∀ k, k ∉ handlesOf (a ++ x :: b) → heap'.get? k = l.heap.get? k)
    (hsize : heap'.size = l.heap.size) :
    Linkage.Shows ⟨heap', ⟨ends', l.chain.cursor⟩⟩
      { s with row := s.row.insert a.length x, rest := s.rest.set x.handle none } := by
  have hslots : (s.row.insert a.length x).slots = a ++ x :: b := by
    rw [Row.slots_insert, hr, Row.insertIdx_length]
  have hhandles : ∀ k, k ∈ (s.row.insert a.length x).handles ↔ k = x.handle ∨ k ∈ s.row.handles := by
    intro k
    rw [Row.handles, Row.handles, hslots, hr]
    simp only [handlesOf, List.map_append, List.map_cons, List.mem_append, List.mem_cons]
    exact or_left_comm
  refine ⟨?_, ?_, ?_, ?_, ?_⟩
  · rw [hslots]
    exact hs
  · rw [Row.cursor_insert]
    · exact hl.cursor
    · rw [Row.length, hr, List.length_append]
      omega
  · intro k hk
    have hk' := hk
    rw [hhandles, not_or] at hk'
    rw [hkeep k (by rw [Row.handles, hslots] at hk; exact hk), hl.outside k hk'.2]
    exact (Nodes.set_other hk'.1).symm
  · intro k hk
    by_cases he : k = x.handle
    · rw [he]
      exact Nodes.set_same
    · exact (Nodes.set_other he).trans (hl.apart k (((hhandles k).1 hk).resolve_left he))
  · exact hsize.trans hl.size

/-- A detached node comes in at the gap of a run, which is read from the head, beside its anchor. -/
theorem attach_gap {anchor : Option Handle} {side : Side}
    (hs : Spans l.heap.get? l.chain.ends .after (a ++ b)) (hgap : Gap anchor side a b)
    (hx : l.heap.get? x.handle = some (.detached x.entry)) (hfresh : x.handle ∉ handlesOf (a ++ b))
    (hcap : (a ++ b).length + 1 < capacity) :
    ∃ heap' ends', (attach x.handle anchor side).run l = .ok () ⟨heap', ⟨ends', l.chain.cursor⟩⟩ ∧
      Spans heap'.get? ends' .after (a ++ x :: b) ∧ heap'.size = l.heap.size ∧
      ∀ k, k ∉ handlesOf (a ++ x :: b) → heap'.get? k = l.heap.get? k := by
  cases side with
  | after => exact attach_run hs hx hfresh hgap hcap
  | before =>
    have hmem : ∀ k, k ∈ handlesOf (b.reverse ++ a.reverse) ↔ k ∈ handlesOf (a ++ b) := by
      intro k
      simp [or_comm]
    have hflip := hs.of_flip
    rw [List.reverse_append] at hflip
    obtain ⟨heap', ends', hrun, hs', hsize, hkeep⟩ := attach_run hflip hx
      (fun h => hfresh ((hmem _).1 h)) hgap (by simpa [Nat.add_comm] using hcap)
    have hforward := hs'.of_flip
    rw [List.reverse_append, List.reverse_cons, List.reverse_reverse, List.reverse_reverse,
      List.append_assoc] at hforward
    refine ⟨heap', ends', hrun, hforward, hsize, fun k hk => hkeep k fun h => hk ?_⟩
    simp only [handlesOf, List.map_append, List.map_cons, List.map_reverse, List.mem_append,
      List.mem_cons, List.mem_reverse] at h ⊢
    rcases h with h | h | h
    · exact .inr (.inr h)
    · exact .inr (.inl h)
    · exact .inl h

/-- A node that lies detached in the rest of the heap is attached at a gap of the row. -/
theorem attach_shows {anchor : Option Handle} {side : Side} (hl : l.Shows s)
    (hr : s.row.slots = a ++ b) (hgap : Gap anchor side a b)
    (hx : s.rest x.handle = some (.detached x.entry)) (hcap : s.row.length + 1 < capacity) :
    ∃ l', (attach x.handle anchor side).run l = .ok () l' ∧
      l'.Shows { s with row := s.row.insert a.length x, rest := s.rest.set x.handle none } := by
  have hnot : x.handle ∉ s.row.handles := by
    intro hh
    rw [hl.apart _ hh] at hx
    cases hx
  have hnode : l.heap.get? x.handle = some (.detached x.entry) := by rw [hl.outside _ hnot, hx]
  have hspans := hl.spans
  rw [Row.length, hr] at hcap
  rw [Row.handles, hr] at hnot
  rw [hr] at hspans
  obtain ⟨heap', ends', hrun, hs, hsize, hkeep⟩ := attach_gap hspans hgap hnode hnot hcap
  exact ⟨_, hrun, shows_of_attached hl hr hs hkeep hsize⟩

theorem attach_full {anchor : Option Handle} {side : Side} (hl : l.Shows s)
    (hx : s.rest x.handle = some (.detached x.entry)) (hfull : s.row.length + 1 = capacity) :
    (attach x.handle anchor side).run l = .error .capacity l := by
  have hnot : x.handle ∉ s.row.handles := by
    intro hh
    rw [hl.apart _ hh] at hx
    cases hx
  have hnode : l.heap.get? x.handle = some (.detached x.entry) := by rw [hl.outside _ hnot, hx]
  obtain ⟨span, hends⟩ := hl.spans.eq_full (fun h => by
    rw [Row.length, h, List.length_nil] at hfull
    exact absurd hfull (by decide))
  have hadd : span.len.add? 1 = none := by
    have h := hl.spans.length
    rw [hends] at h
    rw [Count.add?_one_eq_none_iff, show span.len.val = s.row.length from h]
    omega
  exact attach_overflow hnode hends hadd anchor side

theorem setCursor_shows (hl : l.Shows s) {row : Row α} (hr : row.slots = s.row.slots) :
    ∃ l', (setCursor row.cursor).run l = .ok () l' ∧ l'.Shows { s with row } := by
  have hhandles : row.handles = s.row.handles := by rw [Row.handles, Row.handles, hr]
  refine ⟨_, run_setCursor .., ?_, rfl, ?_, ?_, hl.size⟩
  · rw [hr]
    exact hl.spans
  · intro k hk
    rw [hhandles] at hk
    exact hl.outside k hk
  · intro k hk
    rw [hhandles] at hk
    exact hl.apart k hk

theorem getLink_shows (hl : l.Shows s) (hr : s.row.slots = a ++ x :: b) :
    (getLink .after x.handle).run l = .ok (ahead b none) l :=
  run_getLink_eq (hl.node hr) (Node.link_between ..)

/-- A node is unlinked by moving the cursor off it, to the next node, before it is detached. -/
theorem unlink_eq {h : Handle} {n : Node α} (hn : l.heap.get? h = some n) :
    (unlink h).run l = (detach h).run ⟨l.heap, ⟨l.chain.ends,
      if l.chain.cursor = some h then n.link .after else l.chain.cursor⟩⟩ := by
  by_cases hc : l.chain.cursor = some h
  · simp only [unlink, EStateM.run_bind, run_cursor, hc, beq_self_eq_true, if_true,
      run_getLink .after hn, run_setCursor]
  · have hbeq : (l.chain.cursor == some h) = false := by simpa using hc
    simp only [unlink, EStateM.run_bind, run_cursor, hbeq, hc, Bool.false_eq_true, if_false]

/-- An entry unlinked leaves the row, and its node lies detached in the rest of the heap. -/
theorem unlink_shows (hl : l.Shows s) (hr : s.row.slots = a ++ x :: b) :
    ∃ l', (unlink x.handle).run l = .ok () l' ∧
      l'.Shows { s with
        row := s.row.erase x.handle
        rest := s.rest.set x.handle (some (.detached x.entry)) } := by
  have hslots := Row.slots_erase hr hl.nodup
  let l₁ : Linkage α := ⟨l.heap, ⟨l.chain.ends, (s.row.erase x.handle).cursor⟩⟩
  have hmove : (unlink x.handle).run l = (detach x.handle).run l₁ := by
    rw [unlink_eq (hl.node hr), Node.link_between, hl.cursor, ← Row.cursor_erase hr hl.nodup]
  have hspans : Spans l₁.heap.get? l₁.chain.ends .after (a ++ x :: b) := by
    rw [← hr]
    exact hl.spans
  obtain ⟨heap', ends', hrun, hs, hx, hsize, hkeep⟩ := detach_run hspans
  have hnodup := hspans.nodup
  rw [handlesOf, List.map_append, List.map_cons, List.nodup_middle, List.nodup_cons] at hnodup
  have hhandles : (s.row.erase x.handle).handles = handlesOf a ++ handlesOf b := by
    rw [Row.handles, hslots, handlesOf, List.map_append]
  refine ⟨⟨heap', ⟨ends', l₁.chain.cursor⟩⟩, hmove.trans hrun, ?_, rfl, ?_, ?_, ?_⟩
  · rw [hslots]
    exact hs
  · intro k hk
    rw [hhandles, List.mem_append] at hk
    by_cases he : k = x.handle
    · rw [he, hx]
      exact Nodes.set_same.symm
    · rw [hkeep k (by simpa [he, not_or] using hk), show l₁.heap.get? k = _ from hl.outside k (by
        rw [Row.handles, hr]
        simpa [he, not_or] using hk)]
      exact (Nodes.set_other he).symm
  · intro k hk
    rw [hhandles] at hk
    have he : k ≠ x.handle := fun he => hnodup.1 (he ▸ hk)
    refine (Nodes.set_other he).trans (hl.apart k ?_)
    rw [Row.handles, hr, handlesOf, List.map_append, List.map_cons]
    rcases List.mem_append.1 hk with h | h
    · exact List.mem_append_left _ h
    · exact List.mem_append_right _ (List.mem_cons_of_mem _ h)
  · exact hsize.trans hl.size

theorem take_shows (hl : l.Shows s) (hr : s.row.slots = a ++ x :: b) :
    ∃ l', (take x.handle).run l = .ok x.entry l' ∧
      l'.Shows { s with row := s.row.erase x.handle } := by
  obtain ⟨l₁, hunlink, hl₁⟩ := unlink_shows hl hr
  obtain ⟨l₂, hrelease, hl₂⟩ := release_shows hl₁ Nodes.set_same
  have hmem : x.handle ∈ s.row.handles := by
    rw [Row.handles, hr]
    simp
  have hback : (s.rest.set x.handle (some (.detached x.entry))).set x.handle none = s.rest := by
    rw [Nodes.set_set, Nodes.set_eq_self (hl.apart _ hmem)]
  refine ⟨l₂, ?_, ?_⟩
  · simp only [take, EStateM.run_bind, hunlink]
    exact hrelease
  · simp only [hback] at hl₂
    exact hl₂

theorem setValue_shows (hl : l.Shows s) (hr : s.row.slots = a ++ x :: b) (v : α) :
    ∃ l', (setValue x.handle v).run l = .ok () l' ∧
      l'.Shows { s with row := s.row.write x.handle v } := by
  obtain ⟨heap', hrun, hlook, hsize⟩ := run_update_look (·.setValue v) (hl.node hr)
  have hslots := Row.slots_write_split hr hl.nodup v
  have hnodup := hl.nodup
  rw [Row.handles, hr, handlesOf, List.map_append, List.map_cons, List.nodup_middle,
    List.nodup_cons, List.mem_append, not_or] at hnodup
  have hlinked := hl.spans.linked
  rw [hr] at hlinked
  obtain ⟨ha, -, hb⟩ := Linked.append.1 hlinked
  refine ⟨_, hrun, ⟨?_, ?_, ?_, ?_, ?_⟩, ?_, ?_, ?_, ?_⟩
  · show (s.row.write x.handle v).handles.Nodup
    rw [Row.handles_write]
    exact hl.nodup
  · rw [hslots, hlook]
    refine Linked.append.2 ⟨ha.set_other hnodup.1.1 _, ?_, hb.set_other hnodup.1.2 _⟩
    rw [Nodes.set_same, Node.setValue_between]
  · rw [hslots]
    have h := hl.spans.length
    rw [hr] at h
    simpa using h
  · rw [hslots]
    have h := hl.spans.last
    rw [hr] at h
    simpa using h
  · rw [hslots]
    have h := hl.spans.first
    rw [hr] at h
    simpa using h
  · rw [Row.cursor_write]
    exact hl.cursor
  · intro k hk
    rw [Row.handles_write] at hk
    have hne : k ≠ x.handle := by
      rintro rfl
      exact hk (by rw [Row.handles, hr]; simp)
    rw [hlook, Nodes.set_other hne]
    exact hl.outside k hk
  · intro k hk
    rw [Row.handles_write] at hk
    exact hl.apart k hk
  · exact hsize.trans hl.size

theorem abandon_shows (hl : l.Shows s) :
    ∃ l', (do
        setCursor none
        setEnds .empty : LinkM α Unit).run l = .ok () l' ∧
      l'.Shows { s with row := .empty, rest := s.rest.lay none s.row.slots } := by
  refine ⟨⟨l.heap, ⟨.empty, none⟩⟩, rfl, ⟨List.nodup_nil, trivial, rfl, rfl, rfl⟩, rfl, ?_, ?_,
    hl.size⟩
  · intro k _
    by_cases hk : k ∈ s.row.handles
    · exact (Nodes.lay_eq_of_linked hl.spans.linked hk).symm
    · rw [hl.outside k hk]
      exact (Nodes.lay_of_not_mem hk).symm
  · intro k hk
    exact absurd hk (by simp [Row.handles])

end LinkM

end LinkedDeque
