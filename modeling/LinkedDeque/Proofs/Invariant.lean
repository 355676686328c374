import LinkedDeque.Proofs.Worlds

/-!
# LinkedDeque.Proofs.Invariant

What holds of all lists after every step, whatever was done and whoever panicked:

* `Linkage.WellFormed` — the record, the links and the cursor of a list agree on one sequence of nodes.
* `World.WellFormed`   — every list is well-formed, and every node in use is in exactly one list.
* `World.run_wellFormed` — every run leads to such a world; the only other nodes in use are those of
  `World.strayed`.
-/

namespace LinkedDeque

variable {σ α : Type}

/-- A list is that of a sequence of nodes: its record, its links and its cursor say so. -/
structure Linkage.WellFormed (l : Linkage α) (nodes : List Handle) : Prop where
  distinct : nodes.Nodup
  record : match l.chain.ends with
    | .empty => nodes = []
    | .full span => nodes.head? = some span.head ∧ nodes.getLast? = some span.tail ∧
      nodes.length = span.len.val
  links : ∀ i (hi : i < nodes.length), ∃ n, l.heap.get? nodes[i] = some n ∧
    n.prev = (if i = 0 then none else nodes[i - 1]?) ∧ n.next = nodes[i + 1]?
  cursor : ∀ c, l.chain.cursor = some c → c ∈ nodes

/-- The lists of a world, and the nodes in use that are in none of them. -/
structure World.WellFormed (w : World σ α) (strays : List Handle) : Prop where
  lists : ∀ k d, w.list? k = some d → (w.linkage d).WellFormed (w.linkage d).handles
  disjoint : ∀ j k d e, w.list? j = some d → w.list? k = some e → j ≠ k →
    (w.linkage d).handles.Disjoint (w.linkage e).handles
  owned : ∀ h n, w.heap.get? h = some n → h ∉ strays →
    ∃ k d, w.list? k = some d ∧ h ∈ (w.linkage d).handles
  strays : ∀ h ∈ strays, (∃ n, w.heap.get? h = some n) ∧
    ∀ k d, w.list? k = some d → h ∉ (w.linkage d).handles

theorem neighbours (run : List (Slot α)) {i : Nat} (hi : i < run.length) :
    behind none (run.take i) = (if i = 0 then none else (handlesOf run)[i - 1]?) ∧
      ahead (run.drop (i + 1)) none = (handlesOf run)[i + 1]? := by
  constructor
  · rw [behind_eq_getLast?, handlesOf, List.map_take, List.getLast?_take]
    split
    · rfl
    · have hlt : i - 1 < (handlesOf run).length := by
        rw [handlesOf, List.length_map]
        omega
      rw [List.getElem?_eq_getElem hlt, Option.some_or]
  · rw [ahead_eq_head?, handlesOf, List.map_drop, List.head?_drop]

theorem Linkage.Shows.wellFormed {l : Linkage α} {s : Scene α} (hl : l.Shows s) :
    l.WellFormed l.handles := by
  rw [hl.handles_eq]
  refine ⟨hl.nodup, ?_, ?_, ?_⟩
  · have hfirst := hl.spans.first
    have hlast := hl.spans.last
    have hlength := hl.spans.length
    rw [ahead_eq_head?] at hfirst
    rw [behind_eq_getLast?] at hlast
    cases hends : l.chain.ends with
    | empty =>
      rw [hends] at hlength
      rw [Row.handles, List.eq_nil_of_length_eq_zero hlength.symm]
      rfl
    | full span =>
      rw [hends] at hfirst hlast hlength
      refine ⟨hfirst.symm, hlast.symm, ?_⟩
      rw [Row.handles, handlesOf, List.length_map]
      exact hlength.symm
  · intro i hi
    have hi' : i < s.row.slots.length := by rwa [Row.handles, handlesOf, List.length_map] at hi
    have hr : s.row.slots = s.row.slots.take i ++ s.row.slots[i] :: s.row.slots.drop (i + 1) := by
      rw [← List.drop_eq_getElem_cons hi', List.take_append_drop]
    obtain ⟨hprev, hnext⟩ := neighbours s.row.slots hi'
    have hhandle : s.row.handles[i] = s.row.slots[i].handle := List.getElem_map ..
    refine ⟨⟨s.row.slots[i].entry, _, _⟩, ?_, hprev, hnext⟩
    rw [hhandle]
    exact hl.node hr
  · intro c hc
    rw [hl.cursor] at hc
    exact Row.cursor_mem hc

namespace World

theorem Sound.wellFormed {w : World σ α} {strays : List Handle} (hw : w.Sound strays) :
    w.WellFormed strays := by
  have hhandles : ∀ {k d}, w.list? k = some d → (w.linkage d).handles = (w.row k).handles := by
    intro k d hk
    rw [row_of_list? hk]
    exact (hw.shows hk).handles_eq
  refine ⟨fun k d hk => (hw.shows hk).wellFormed, ?_, ?_, ?_⟩
  · intro j k d e hj hk hne h hh hh'
    rw [hhandles hj] at hh
    rw [hhandles hk] at hh'
    exact hne (hw.unique hh hh')
  · intro h n hn hnot
    rcases hw.owned hn with hh | ⟨k, hh⟩
    · exact absurd hh hnot
    · obtain ⟨d, hk⟩ := list?_of_mem hh
      exact ⟨k, d, hk, by rwa [hhandles hk]⟩
  · intro h hh
    refine ⟨hw.live hh, fun k d hk hmem => ?_⟩
    rw [hhandles hk] at hmem
    exact hw.apart hh hmem

/-- After every run, all lists are well-formed, no node is in two of them, and every node in use is in
one, but for those that a step left behind. -/
theorem run_wellFormed [AsBytes α] [AsText α] (steps : List (Step σ α)) :
    (run steps start).2.WellFormed (strayed steps start) :=
  (run_sound steps start_sound).wellFormed

end World

end LinkedDeque
