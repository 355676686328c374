import LinkedDeque.Proofs.Invariant

/-!
# LinkedDeque.Proofs.Chained

Chains from their links alone. `Linkage.WellFormed` says what the record, the links and the cursor of a
list are in terms of positions; the theory of runs has the same facts as `Spans` and `Linkage.Shows`.
Here the one is obtained from the other, so that a result about runs is one about any heap and any
record that satisfy the plain conditions, whatever led to them:

* `Linkage.Chained`        — the record and the links are those of a sequence of nodes.
* `Linkage.chained_iff`    — they are, exactly when the record is that of a run of linked nodes.
* `WellFormed.shows`       — a well-formed list shows its own row.
-/

namespace LinkedDeque

variable {α : Type}

namespace Linkage

variable {l : Linkage α} {nodes : List Handle}

/-- The record of a list and the links of its nodes are those of a sequence of nodes; of the cursor
nothing is said. -/
structure Chained (l : Linkage α) (nodes : List Handle) : Prop where
  distinct : nodes.Nodup
  record : match l.chain.ends with
    | .empty => nodes = []
    | .full span => nodes.head? = some span.head ∧ nodes.getLast? = some span.tail ∧
      nodes.length = span.len.val
  links : ∀ i (hi : i < nodes.length), ∃ n, l.heap.get? nodes[i] = some n ∧
    n.prev = (if i = 0 then none else nodes[i - 1]?) ∧ n.next = nodes[i + 1]?

theorem wellFormed_iff :
    l.WellFormed nodes ↔ l.Chained nodes ∧ ∀ c, l.chain.cursor = some c → c ∈ nodes :=
  ⟨fun h => ⟨⟨h.distinct, h.record, h.links⟩, h.cursor⟩,
    fun ⟨h, hc⟩ => ⟨h.distinct, h.record, h.links, hc⟩⟩

theorem shows_of_spans (row : Row α) (hs : Spans l.heap.get? l.chain.ends .after row.slots)
    (hcursor : l.chain.cursor = row.cursor) :
    l.Shows ⟨row, Nodes.hide l.heap.get? row.slots, l.heap.size⟩ :=
  ⟨hs, hcursor, fun _ hk => (Nodes.hide_of_not_mem hk).symm, fun _ hk => Nodes.hide_of_mem hk, rfl⟩

theorem Chained.of_spans {run : List (Slot α)} (hs : Spans l.heap.get? l.chain.ends .after run) :
    l.Chained (handlesOf run) := by
  -- the cursor has no part in this, so it is put aside
  have hslots : Row.slots ⟨run, []⟩ = run := List.append_nil run
  have hshows : Shows ⟨l.heap, ⟨l.chain.ends, none⟩⟩ _ :=
    shows_of_spans ⟨run, []⟩ (by rwa [hslots]) rfl
  have hwf := hshows.wellFormed
  rw [hshows.handles_eq, Row.handles, hslots] at hwf
  exact ⟨hwf.distinct, hwf.record, hwf.links⟩

/-- The entries of some nodes, with their handles. -/
def slotsAt (l : Linkage α) (nodes : List Handle) : List (Slot α) :=
  nodes.filterMap fun h => (l.heap.get? h).map fun n => ⟨h, n.entry⟩

theorem handlesOf_slotsAt (hlive : ∀ h ∈ nodes, ∃ n, l.heap.get? h = some n) :
    handlesOf (l.slotsAt nodes) = nodes := by
  rw [slotsAt, handlesOf, List.map_filterMap]
  conv => rhs; rw [← List.filterMap_some (l := nodes)]
  refine List.filterMap_congr ?_
  intro h hh
  obtain ⟨n, hn⟩ := hlive h hh
  simp [hn]

theorem entry_slotsAt {s : Slot α} (hs : s ∈ l.slotsAt nodes) :
    ∃ n, l.heap.get? s.handle = some n ∧ n.entry = s.entry := by
  obtain ⟨h, -, hh⟩ := List.mem_filterMap.1 hs
  obtain ⟨n, hn, rfl⟩ := Option.map_eq_some_iff.1 hh
  exact ⟨n, hn, rfl⟩

namespace Chained

variable (h : l.Chained nodes)

include h

theorem live {k : Handle} (hk : k ∈ nodes) : ∃ n, l.heap.get? k = some n := by
  obtain ⟨i, hi, rfl⟩ := List.mem_iff_getElem.1 hk
  obtain ⟨n, hn, -⟩ := h.links i hi
  exact ⟨n, hn⟩

theorem linked : Linked l.heap.get? .after none (l.slotsAt nodes) none := by
  have hnodes := handlesOf_slotsAt (l := l) fun _ hk => h.live hk
  refine Linked.of_middle ?_
  intro a s b hr
  have hi : a.length < (l.slotsAt nodes).length := by
    rw [hr, List.length_append, List.length_cons]
    omega
  have hi' : a.length < nodes.length := by
    rwa [← hnodes, handlesOf, List.length_map]
  obtain ⟨hback, hon⟩ := neighbours (l.slotsAt nodes) hi
  rw [hnodes] at hback hon
  have htake : (l.slotsAt nodes).take a.length = a := by rw [hr, List.take_left]
  have hdrop : (l.slotsAt nodes).drop (a.length + 1) = b := by
    rw [hr, List.drop_append, List.drop_eq_nil_of_le (by omega)]
    simp
  have hnode : nodes[a.length] = s.handle := by
    have hget : (handlesOf (l.slotsAt nodes))[a.length]? = some s.handle := by
      rw [hr, handlesOf, List.getElem?_map, List.getElem?_append_right (Nat.le_refl _)]
      simp
    rw [hnodes, List.getElem?_eq_getElem hi'] at hget
    exact Option.some.inj hget
  obtain ⟨n, hn, hprev, hnext⟩ := h.links a.length hi'
  have hs : s ∈ l.slotsAt nodes := by
    rw [hr]
    simp
  obtain ⟨m, hm, hentry⟩ := entry_slotsAt hs
  rw [hnode, hm] at hn
  cases hn
  rw [← hback, htake] at hprev
  rw [← hon, hdrop] at hnext
  rw [hm, ← hentry, ← hprev, ← hnext]
  rfl

theorem spans : Spans l.heap.get? l.chain.ends .after (l.slotsAt nodes) := by
  have hnodes := handlesOf_slotsAt (l := l) fun _ hk => h.live hk
  have hlen : (l.slotsAt nodes).length = nodes.length := by
    conv => rhs; rw [← hnodes, handlesOf, List.length_map]
  have hdistinct : (handlesOf (l.slotsAt nodes)).Nodup := by
    rw [hnodes]
    exact h.distinct
  have hlinked := h.linked
  have hrecord := h.record
  cases hends : l.chain.ends with
  | empty =>
    rw [hends] at hrecord
    rw [hrecord] at hdistinct hlinked ⊢
    exact ⟨hdistinct, hlinked, rfl, rfl, rfl⟩
  | full span =>
    rw [hends] at hrecord
    refine ⟨hdistinct, hlinked, ?_, ?_, ?_⟩
    · rw [hlen]
      exact hrecord.2.2.symm
    · rw [behind_eq_getLast?, hnodes]
      exact hrecord.2.1.symm
    · rw [ahead_eq_head?, hnodes]
      exact hrecord.1.symm

end Chained

/-- A list is the chain of some nodes exactly when its record is that of a run of them. -/
theorem chained_iff : l.Chained nodes ↔
    ∃ run, Spans l.heap.get? l.chain.ends .after run ∧ handlesOf run = nodes := by
  constructor
  · exact fun h => ⟨_, h.spans, handlesOf_slotsAt fun _ hk => h.live hk⟩
  · rintro ⟨run, hs, rfl⟩
    exact .of_spans hs

/-- A well-formed list shows its own row, whose nodes are those it is well-formed on. -/
theorem WellFormed.shows (h : l.WellFormed nodes) : l.Shows l.scene ∧ l.handles = nodes := by
  obtain ⟨hchained, hcursor⟩ := wellFormed_iff.1 h
  obtain ⟨run, hs, hrun⟩ := chained_iff.1 hchained
  obtain ⟨row, hslots, hrow⟩ : ∃ row : Row α, row.slots = run ∧ l.chain.cursor = row.cursor := by
    cases hc : l.chain.cursor with
    | none => exact ⟨⟨run, []⟩, List.append_nil _, rfl⟩
    | some c =>
      have hmem : c ∈ handlesOf run := by
        rw [hrun]
        exact hcursor c hc
      obtain ⟨s, hs, rfl⟩ := List.mem_map.1 hmem
      obtain ⟨a, b, rfl⟩ := List.append_of_mem hs
      exact ⟨⟨a, s :: b⟩, rfl, rfl⟩
  rw [← hslots] at hs hrun
  have hshows := shows_of_spans row hs hrow
  exact ⟨hshows.own, hshows.handles_eq.trans hrun⟩

end Linkage

end LinkedDeque
