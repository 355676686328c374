import LinkedDeque.Proofs.Inverses

/-!
# LinkedDeque.Proofs.Commuting

Edits of a chain at different nodes come to the same in either order:

* `placed`            — a run into which an entry came beside a node.
* `Linkage.Lies`      — a chain of a run of nodes beside other nodes, wherever its cursor is.
* `Linkage.Commutes`  — two nodes go out, one comes in and one goes out, or two come in.
* `Linkage.WellFormed.commutes` — every well-formed list is so.

Neighbours share links, so what one edit writes the next one may overwrite. On runs there is nothing to
overwrite: a node goes out by a filter and comes in by a map, and these commute.
-/

namespace LinkedDeque

variable {α : Type}

/-! ## Runs -/

/-- An entry with another one on a side of it. -/
def Side.pair (side : Side) (s x : Slot α) : List (Slot α) :=
  match side with
  | .before => [x, s]
  | .after => [s, x]

/-- A run into which an entry came beside a node. -/
def placed (a : Handle) (side : Side) (x : Slot α) (run : List (Slot α)) : List (Slot α) :=
  run.flatMap fun s => if s.handle = a then side.pair s x else [s]

section Placed

variable {a b : Handle} {side side' : Side} {x y : Slot α} {run c d : List (Slot α)}

theorem placed_append (c d : List (Slot α)) :
    placed a side x (c ++ d) = placed a side x c ++ placed a side x d := List.flatMap_append

theorem placed_cons_same (s : Slot α) (run : List (Slot α)) :
    placed s.handle side x (s :: run) = side.pair s x ++ placed s.handle side x run := by
  simp [placed]

theorem placed_cons_other {s : Slot α} (hs : s.handle ≠ a) (run : List (Slot α)) :
    placed a side x (s :: run) = s :: placed a side x run := by
  simp [placed, hs]

theorem placed_of_not_mem (ha : a ∉ handlesOf run) : placed a side x run = run := by
  induction run with
  | nil => rfl
  | cons s run ih =>
    rw [handlesOf, List.map_cons, List.mem_cons, not_or] at ha
    rw [placed_cons_other (Ne.symm ha.1), ih ha.2]

theorem placed_middle {s : Slot α} (hnodup : (handlesOf (c ++ s :: d)).Nodup) :
    placed s.handle side x (c ++ s :: d) = c ++ side.pair s x ++ d := by
  obtain ⟨hc, hd⟩ := Row.not_mem_of_split hnodup
  rw [placed_append, placed_of_not_mem hc, placed_cons_same, placed_of_not_mem hd, List.append_assoc]

/-- The gap beside a node is where an entry comes in. -/
theorem placed_of_gap (hgap : Gap (some a) side c d) (hnodup : (handlesOf (c ++ d)).Nodup) :
    placed a side x (c ++ d) = c ++ x :: d := by
  cases side with
  | after =>
    rcases hgap with ⟨hnone, -⟩ | ⟨-, hlast⟩
    · cases hnone
    rcases List.eq_nil_or_concat c with rfl | ⟨init, t, rfl⟩
    · cases hlast
    rw [List.concat_eq_append, behind_append] at hlast
    obtain rfl : a = t.handle := Option.some.inj hlast
    rw [List.concat_eq_append, ← List.append_cons] at hnodup ⊢
    rw [placed_middle hnodup]
    simp [Side.pair]
  | before =>
    rcases hgap with ⟨hnone, -⟩ | ⟨-, hfirst⟩
    · cases hnone
    rw [behind_reverse] at hfirst
    cases d with
    | nil => cases hfirst
    | cons t d =>
      obtain rfl : a = t.handle := Option.some.inj hfirst
      rw [placed_middle hnodup, List.append_assoc]
      rfl

theorem mem_placed {s : Slot α} (hs : s ∈ run) : s ∈ placed a side x run := by
  refine List.mem_flatMap.2 ⟨s, hs, ?_⟩
  split
  · cases side <;> simp [Side.pair]
  · exact List.mem_singleton_self s

theorem mem_handles_placed {k : Handle} (hk : k ∈ handlesOf (placed a side x run)) :
    k = x.handle ∨ k ∈ handlesOf run := by
  obtain ⟨s, hs, rfl⟩ := List.mem_map.1 hk
  obtain ⟨t, ht, hst⟩ := List.mem_flatMap.1 hs
  have hcases : s = x ∨ s = t := by
    split at hst
    · cases side <;> simpa [Side.pair, or_comm] using hst
    · exact .inr (List.mem_singleton.1 hst)
  rcases hcases with rfl | rfl
  · exact .inl rfl
  · exact .inr (List.mem_map_of_mem ht)

/-- An entry comes in beside one node as another one goes out. -/
theorem filter_placed {h : Handle} (hx : x.handle ≠ h) (ha : a ≠ h) :
    (placed a side x run).filter (fun t => t.handle ≠ h) =
      placed a side x (run.filter fun t => t.handle ≠ h) := by
  induction run with
  | nil => rfl
  | cons s run ih =>
    by_cases hs : s.handle = a
    · subst hs
      have hpair : (side.pair s x).filter (fun t => t.handle ≠ h) = side.pair s x := by
        cases side <;> simp [Side.pair, hx, ha]
      rw [placed_cons_same, List.filter_append, hpair, ih, List.filter_cons_of_pos (by simpa using ha),
        placed_cons_same]
    · rw [placed_cons_other hs]
      by_cases hh : s.handle = h
      · rw [List.filter_cons_of_neg (by simpa using hh), List.filter_cons_of_neg (by simpa using hh), ih]
      · rw [List.filter_cons_of_pos (by simpa using hh), List.filter_cons_of_pos (by simpa using hh),
          placed_cons_other hs, ih]

/-- Two entries come in beside two nodes. -/
theorem placed_placed (hab : a ≠ b) (hx : x.handle ≠ b) (hy : y.handle ≠ a) :
    placed a side x (placed b side' y run) = placed b side' y (placed a side x run) := by
  have hsame : ∀ s : Slot α, placed a side x (if s.handle = b then side'.pair s y else [s]) =
      placed b side' y (if s.handle = a then side.pair s x else [s]) := by
    intro s
    by_cases hs : s.handle = a
    · have hsb : s.handle ≠ b := fun he => hab (hs.symm.trans he)
      cases side <;> simp [placed, Side.pair, hs, hab, hx]
    · by_cases hs' : s.handle = b
      · cases side' <;> simp [placed, Side.pair, hs', hab.symm, hy]
      · simp [placed, hs, hs']
  rw [placed, placed, List.flatMap_assoc, placed, placed, List.flatMap_assoc]
  exact List.flatMap_congr fun s _ => hsame s

end Placed

theorem Nodes.set_comm {look : Nodes α} {h k : Handle} (hne : h ≠ k) (v w : Option (Node α)) :
    (look.set h v).set k w = (look.set k w).set h v := by
  funext j
  by_cases hj : j = h
  · subst hj
    rw [set_other hne, set_same, set_same]
  · by_cases hj' : j = k
    · subst hj'
      rw [set_same, set_other hj, set_same]
    · rw [set_other hj', set_other hj, set_other hj, set_other hj']

/-! ## Chains -/

namespace Linkage

variable {l l' : Linkage α} {run : List (Slot α)} {rest : Nodes α} {n : Nat} {nodes : List Handle}

/-- A chain of a run of nodes, in a heap of a certain size with other nodes. -/
structure Lies (l : Linkage α) (run : List (Slot α)) (rest : Nodes α) (n : Nat) : Prop where
  spans : Spans l.heap.get? l.chain.ends .after run
  outside : ∀ k, k ∉ handlesOf run → l.heap.get? k = rest k
  size : l.heap.size = n

namespace Lies

/-- Such chains differ in their cursors at most. -/
theorem unique (h : l.Lies run rest n) (h' : l'.Lies run rest n) :
    l'.heap = l.heap ∧ l'.chain.ends = l.chain.ends :=
  h.spans.unique h'.spans (h'.size.trans h.size.symm)
    fun k hk => (h'.outside k hk).trans (h.outside k hk).symm

theorem eq_of_cursor (h : l.Lies run rest n) (h' : l'.Lies run rest n)
    (hc : l'.chain.cursor = l.chain.cursor) : l' = l := by
  obtain ⟨hheap, hends⟩ := h.unique h'
  calc l' = ⟨l'.heap, ⟨l'.chain.ends, l'.chain.cursor⟩⟩ := rfl
    _ = l := by rw [hheap, hends, hc]

theorem attach {a : Handle} {x : Slot α} (h : l.Lies run rest n) (ha : a ∈ handlesOf run)
    (hx : rest x.handle = some (.detached x.entry)) (hfresh : x.handle ∉ handlesOf run)
    (hcap : run.length + 1 < capacity) (side : Side) :
    ∃ l', (LinkM.attach x.handle (some a) side).run l = .ok () l' ∧
      l'.Lies (placed a side x run) rest n ∧ l'.chain.cursor = l.chain.cursor ∧
      (placed a side x run).length = run.length + 1 := by
  have hanchor : ∀ b, some a = some b → b ∈ handlesOf run := by
    rintro _ ⟨⟩
    exact ha
  obtain ⟨c, d, rfl, hgap⟩ := exists_gap h.spans hanchor side
  have hnode : l.heap.get? x.handle = some (.detached x.entry) := by rw [h.outside _ hfresh, hx]
  obtain ⟨heap', ends', hrun, hs, hsize, hkeep⟩ := LinkM.attach_gap h.spans hgap hnode hfresh hcap
  rw [placed_of_gap hgap h.spans.nodup]
  refine ⟨_, hrun, ⟨hs, fun k hk => ?_, hsize.trans h.size⟩, rfl, ?_⟩
  · rw [hkeep k hk, h.outside k fun hk' => hk ?_]
    simp only [handlesOf, List.map_append, List.map_cons, List.mem_append, List.mem_cons] at hk' ⊢
    exact hk'.imp_right .inr
  · rw [List.length_append, List.length_append, List.length_cons, Nat.add_assoc]

theorem unlink {s : Slot α} (h : l.Lies run rest n) (hs : s ∈ run) :
    ∃ l', (LinkM.unlink s.handle).run l = .ok () l' ∧
      l'.Lies (run.filter fun t => t.handle ≠ s.handle) (rest.set s.handle (some (.detached s.entry))) n ∧
      (l.chain.cursor ≠ some s.handle → l'.chain.cursor = l.chain.cursor) := by
  obtain ⟨a, b, rfl⟩ := List.append_of_mem hs
  obtain ⟨heap', ends', hrun, hs', hleft, hsize, hkeep⟩ := LinkM.detach_anywhere h.spans
  rw [Row.filter_handle_ne h.spans.nodup]
  refine ⟨_, (LinkM.unlink_eq h.spans.linked.middle).trans (hrun _), ⟨hs', fun k hk => ?_, ?_⟩,
    fun hc => if_neg hc⟩
  · rcases LinkM.outside_gap (x := s) hk with rfl | hk'
    · rw [hleft, Nodes.set_same]
    · have hne : k ≠ s.handle := fun he => hk' (he ▸ by simp)
      rw [hkeep k hk', h.outside k hk', Nodes.set_other hne]
  · exact hsize.trans h.size

end Lies

/-- Two edits of a chain come to the same in either order: two nodes go out, a node comes in beside one
node while another one goes out, or two nodes come in beside two others. Where the cursor was on the node
that goes out it may end up on the one that came in. -/
structure Commutes (l : Linkage α) (nodes : List Handle) : Prop where
  unlinks : ∀ x ∈ nodes, ∀ y ∈ nodes, x ≠ y →
    ∃ l', (do LinkM.unlink x; LinkM.unlink y).run l = .ok () l' ∧
      (do LinkM.unlink y; LinkM.unlink x).run l = .ok () l'
  attach_unlink : ∀ x e a side y, l.heap.get? x = some (.detached e) → x ∉ nodes → a ∈ nodes →
    y ∈ nodes → y ≠ a → l.length + 1 < capacity →
    ∃ heap' ends' c c',
      (do LinkM.attach x (some a) side; LinkM.unlink y).run l = .ok () ⟨heap', ⟨ends', c⟩⟩ ∧
      (do LinkM.unlink y; LinkM.attach x (some a) side).run l = .ok () ⟨heap', ⟨ends', c'⟩⟩ ∧
      (l.chain.cursor ≠ some y → c = l.chain.cursor ∧ c' = l.chain.cursor)
  attaches : ∀ x e y f a b side side', l.heap.get? x = some (.detached e) →
    l.heap.get? y = some (.detached f) → x ∉ nodes → y ∉ nodes → x ≠ y → a ∈ nodes →
    b ∈ nodes → a ≠ b → l.length + 2 < capacity →
    ∃ l', (do LinkM.attach x (some a) side; LinkM.attach y (some b) side').run l = .ok () l' ∧
      (do LinkM.attach y (some b) side'; LinkM.attach x (some a) side).run l = .ok () l'

section Orders

variable {s t x y : Slot α} {a b : Handle}

/-- Two entries leave a row, one after the other. -/
theorem Shows.unlink_unlink {scene : Scene α} (hl : l.Shows scene) (hs : s ∈ scene.row.slots)
    (ht : t ∈ scene.row.slots) (hne : s.handle ≠ t.handle) :
    ∃ l', (do LinkM.unlink s.handle; LinkM.unlink t.handle).run l = .ok () l' ∧ l'.Shows { scene with
      row := (scene.row.erase s.handle).erase t.handle
      rest := (scene.rest.set s.handle (some (.detached s.entry))).set t.handle
        (some (.detached t.entry)) } := by
  obtain ⟨a, b, hr⟩ := List.append_of_mem hs
  obtain ⟨l₁, hfirst, hl₁⟩ := LinkM.unlink_shows hl hr
  have ht' : t ∈ (scene.row.erase s.handle).slots := by
    rw [Row.erase, Row.slots_filter]
    exact List.mem_filter.2 ⟨ht, by simpa using hne.symm⟩
  obtain ⟨c, d, hr'⟩ := List.append_of_mem ht'
  obtain ⟨l₂, hsecond, hl₂⟩ := LinkM.unlink_shows hl₁ hr'
  refine ⟨l₂, ?_, hl₂⟩
  rw [EStateM.run_bind, hfirst]
  exact hsecond

theorem Shows.unlinks_commute {scene : Scene α} (hl : l.Shows scene) (hs : s ∈ scene.row.slots)
    (ht : t ∈ scene.row.slots) (hne : s.handle ≠ t.handle) :
    ∃ l', (do LinkM.unlink s.handle; LinkM.unlink t.handle).run l = .ok () l' ∧
      (do LinkM.unlink t.handle; LinkM.unlink s.handle).run l = .ok () l' := by
  obtain ⟨l₁, hst, hl₁⟩ := hl.unlink_unlink hs ht hne
  obtain ⟨l₂, hts, hl₂⟩ := hl.unlink_unlink ht hs hne.symm
  have hrow : (scene.row.erase t.handle).erase s.handle = (scene.row.erase s.handle).erase t.handle := by
    simp only [Row.erase, Row.filter_filter, Bool.and_comm]
  rw [hrow, Nodes.set_comm hne.symm] at hl₂
  obtain rfl := hl₁.unique hl₂
  exact ⟨l₂, hst, hts⟩

theorem Lies.attach_unlink (h : l.Lies run rest n) (ha : a ∈ handlesOf run)
    (hx : rest x.handle = some (.detached x.entry)) (hfresh : x.handle ∉ handlesOf run) (hs : s ∈ run)
    (hsa : s.handle ≠ a) (hcap : run.length + 1 < capacity) (side : Side) :
    ∃ heap' ends' c c',
      (do LinkM.attach x.handle (some a) side; LinkM.unlink s.handle).run l =
        .ok () ⟨heap', ⟨ends', c⟩⟩ ∧
      (do LinkM.unlink s.handle; LinkM.attach x.handle (some a) side).run l =
        .ok () ⟨heap', ⟨ends', c'⟩⟩ ∧
      (l.chain.cursor ≠ some s.handle → c = l.chain.cursor ∧ c' = l.chain.cursor) := by
  have hxs : x.handle ≠ s.handle := fun he => hfresh (he ▸ List.mem_map_of_mem hs)
  obtain ⟨l₁, hattach, h₁, hc₁, -⟩ := h.attach ha hx hfresh hcap side
  obtain ⟨l₂, hunlink, h₂, hc₂⟩ := h₁.unlink (mem_placed hs)
  obtain ⟨l₁', hunlink', h₁', hc₁'⟩ := h.unlink hs
  have hmem : ∀ k, k ∈ handlesOf (run.filter fun t => t.handle ≠ s.handle) ↔
      k ∈ handlesOf run ∧ k ≠ s.handle := by
    intro k
    simp only [handlesOf, List.mem_map, List.mem_filter, decide_eq_true_eq]
    constructor
    · rintro ⟨t, ⟨ht, hne⟩, rfl⟩
      exact ⟨⟨t, ht, rfl⟩, hne⟩
    · rintro ⟨⟨t, ht, rfl⟩, hne⟩
      exact ⟨t, ⟨ht, hne⟩, rfl⟩
  obtain ⟨l₂', hattach', h₂', hc₂', -⟩ := h₁'.attach ((hmem a).2 ⟨ha, hsa.symm⟩)
    (by rw [Nodes.set_other hxs, hx]) (fun hk => hfresh ((hmem _).1 hk).1)
    (Nat.lt_of_le_of_lt (Nat.add_le_add_right (List.length_filter_le ..) 1) hcap) side
  rw [filter_placed hxs hsa.symm] at h₂
  obtain ⟨hheap, hends⟩ := h₂.unique h₂'
  refine ⟨l₂.heap, l₂.chain.ends, l₂.chain.cursor, l₂'.chain.cursor, ?_, ?_, fun hc => ⟨?_, ?_⟩⟩
  · rw [EStateM.run_bind, hattach]
    exact hunlink
  · rw [EStateM.run_bind, hunlink', ← hheap, ← hends]
    exact hattach'
  · rw [hc₂ (by rwa [hc₁]), hc₁]
  · rw [hc₂', hc₁' hc]

theorem Lies.attach_attach (h : l.Lies run rest n) (ha : a ∈ handlesOf run) (hb : b ∈ handlesOf run)
    (hx : rest x.handle = some (.detached x.entry)) (hfresh : x.handle ∉ handlesOf run)
    (hy : rest y.handle = some (.detached y.entry)) (hfresh' : y.handle ∉ handlesOf run)
    (hne : y.handle ≠ x.handle) (hcap : run.length + 2 < capacity) (side side' : Side) :
    ∃ l', (do LinkM.attach x.handle (some a) side; LinkM.attach y.handle (some b) side').run l =
        .ok () l' ∧ l'.Lies (placed b side' y (placed a side x run)) rest n ∧
      l'.chain.cursor = l.chain.cursor := by
  obtain ⟨l₁, hfirst, h₁, hc₁, hlen⟩ := h.attach ha hx hfresh (by omega) side
  obtain ⟨s, hs, rfl⟩ := List.mem_map.1 hb
  obtain ⟨l₂, hsecond, h₂, hc₂, -⟩ := h₁.attach (List.mem_map_of_mem (mem_placed hs)) hy
    (fun hk => (mem_handles_placed hk).elim hne hfresh') (by omega) side'
  refine ⟨l₂, ?_, h₂, hc₂.trans hc₁⟩
  rw [EStateM.run_bind, hfirst]
  exact hsecond

end Orders

/-- Edits of a well-formed list at different nodes commute, to the last link, also where the nodes are
neighbours, are its ends, or are all that it has. -/
theorem WellFormed.commutes (h : l.WellFormed nodes) : l.Commutes nodes := by
  obtain ⟨hl, hnodes⟩ := h.shows
  have hhandles : nodes = l.scene.row.handles := by rw [← hnodes, hl.handles_eq]
  subst hhandles
  have hlies : l.Lies l.scene.row.slots l.heap.get? l.heap.size := ⟨hl.spans, fun _ _ => rfl, rfl⟩
  have hlength : l.length = l.scene.row.slots.length := hl.length_eq
  refine ⟨?_, ?_, ?_⟩
  · intro x hx y hy hne
    obtain ⟨s, hs, rfl⟩ := List.mem_map.1 hx
    obtain ⟨t, ht, rfl⟩ := List.mem_map.1 hy
    exact hl.unlinks_commute hs ht hne
  · intro x e a side y hx hfresh ha hy hya hcap
    obtain ⟨s, hs, rfl⟩ := List.mem_map.1 hy
    rw [hlength] at hcap
    exact hlies.attach_unlink (x := ⟨x, e⟩) ha hx hfresh hs hya hcap side
  · intro x e y f a b side side' hx hy hfresh hfresh' hne ha hb hab hcap
    rw [hlength] at hcap
    obtain ⟨l₁, hxy, h₁, hc₁⟩ :=
      hlies.attach_attach (x := ⟨x, e⟩) (y := ⟨y, f⟩) ha hb hx hfresh hy hfresh' hne.symm hcap side side'
    obtain ⟨l₂, hyx, h₂, hc₂⟩ :=
      hlies.attach_attach (x := ⟨y, f⟩) (y := ⟨x, e⟩) hb ha hy hfresh' hx hfresh hne hcap side' side
    have hxb : x ≠ b := fun he => hfresh (he ▸ hb)
    have hya : y ≠ a := fun he => hfresh' (he ▸ ha)
    rw [placed_placed hab hxb hya] at h₂
    obtain rfl := h₁.eq_of_cursor h₂ (hc₂.trans hc₁.symm)
    exact ⟨l₂, hxy, hyx⟩

/-- The chain of four nodes beside two that are in none. -/
def spare : Linkage Nat := ⟨(winding.heap.alloc (.detached ⟨4, 0⟩)).2, winding.chain⟩

theorem spare_wellFormed : spare.WellFormed [2, 0, 3, 1] := by
  refine ⟨by decide, ⟨rfl, rfl, rfl⟩, ?_, ?_⟩
  · intro i hi
    have hlt : i < 4 := hi
    interval_cases i <;> exact ⟨_, rfl, rfl, rfl⟩
  · intro c hc
    cases hc
    decide

/-- The node under the cursor and the one behind it go out; a node goes out beside which another one comes
in; and two come in between neighbours, each beside one of them. -/
theorem commutes_spare : spare.WellFormed [2, 0, 3, 1] ∧
    (∃ l', (do LinkM.unlink 3; LinkM.unlink 1).run spare = .ok () l' ∧
      (do LinkM.unlink 1; LinkM.unlink 3).run spare = .ok () l') ∧
    (∃ heap' ends' c c',
      (do LinkM.attach 4 (some 3) .before; LinkM.unlink 0).run spare = .ok () ⟨heap', ⟨ends', c⟩⟩ ∧
      (do LinkM.unlink 0; LinkM.attach 4 (some 3) .before).run spare = .ok () ⟨heap', ⟨ends', c'⟩⟩) ∧
    ∃ l', (do LinkM.attach 4 (some 0) .after; LinkM.attach 5 (some 3) .before).run spare = .ok () l' ∧
      (do LinkM.attach 5 (some 3) .before; LinkM.attach 4 (some 0) .after).run spare = .ok () l' := by
  have h : spare.Commutes [2, 0, 3, 1] := WellFormed.commutes spare_wellFormed
  obtain ⟨heap', ends', c, c', hau, hua, -⟩ :=
    h.attach_unlink 4 ⟨6, 4⟩ 3 .before 0 rfl (by decide) (by decide) (by decide) (by decide) (by decide)
  exact ⟨spare_wellFormed, h.unlinks 3 (by decide) 1 (by decide) (by decide),
    ⟨heap', ends', c, c', hau, hua⟩,
    h.attaches 4 ⟨6, 4⟩ 5 ⟨4, 0⟩ 0 3 .after .before rfl rfl (by decide) (by decide) (by decide)
      (by decide) (by decide) (by decide) (by decide)⟩

end Linkage

end LinkedDeque
