import LinkedDeque.Proofs.Chained
import Mathlib.Tactic.IntervalCases

/-!
# LinkedDeque.Proofs.Seeking

The ways to a node of a chain, which all lead to the same one:

* `Linkage.Reaches`      — a look-up by position, from the nearer end, from the head and from the tail.
* `sweepFrom_keep`       — a walk that keeps its nodes yields those of a run, in order.
* `Linkage.find_reaches` — on every chain: a position within it leads to the node that the walk yields
  there, and no other position leads anywhere.
* `Linkage.findRelative_resolves` — the same of signed positions, up to the ends of the signed numbers.

From the head a position is counted in links toward the tail, and from the tail in links back. That both
counts meet is the mirror image of a run (`Spans.of_flip`), whatever the length and whichever end is nearer.
-/

namespace LinkedDeque

variable {σ α : Type}

namespace LinkM

theorem run_visit_none (l : Linkage α) : (read (·.visit none)).run l = .ok none l := run_read_ok l rfl

theorem run_visit {l : Linkage α} {h : Handle} {n : Node α} (hn : l.heap.get? h = some n) :
    (read (·.visit (some h))).run l = .ok (some (h, n.link .after)) l := by
  refine run_read_ok l ?_
  simp only [Linkage.visit, Linkage.link_eq hn]

/-- A walk along a run whose policy keeps every node yields the nodes of the run. -/
theorem sweepFrom_keep {l : Linkage α} {run : List (Slot α)} {back : Option Handle}
    (hl : Linked l.heap.get? .after back run none) {fuel : Nat} (hfuel : run.length ≤ fuel) (s : σ)
    (seen : List Handle) :
    (sweepFrom (fun s _ => (.keep, s)) fuel (ahead run none) s seen).run l =
      .ok (seen.reverse ++ handlesOf run, s) l := by
  induction run generalizing back fuel seen with
  | nil =>
    unfold sweepFrom
    rw [ahead_nil, EStateM.run_bind, run_visit_none, handlesOf, List.map_nil, List.append_nil]
    rfl
  | cons x run ih =>
    obtain ⟨hx, hrun⟩ := hl
    obtain ⟨fuel, rfl⟩ : ∃ f, fuel = f + 1 := ⟨fuel - 1, by simp at hfuel; omega⟩
    have hrest := ih hrun (by simpa using hfuel) (x.handle :: seen)
    rw [List.reverse_cons, List.append_assoc] at hrest
    unfold sweepFrom
    rw [ahead_cons, EStateM.run_bind, run_visit hx, Node.link_between]
    exact hrest

end LinkM

namespace Linkage

variable {l : Linkage α} {nodes : List Handle}

/-- All ways to a position of a chain lead to the same node. -/
structure Reaches (l : Linkage α) (span : Span) (i : Nat) (node : Handle) : Prop where
  find : l.find i = .ok (some node)
  seek : l.seek span i = .ok node
  forward : l.follow .after i span.head = .ok node
  backward : l.follow .before (l.length - 1 - i) span.tail = .ok node
  /-- The position is not behind the last one, from which it may be counted back. -/
  within : i ≤ span.lastIndex

theorem Chained.length_eq (h : l.Chained nodes) : l.length = nodes.length := by
  obtain ⟨run, hs, rfl⟩ := chained_iff.1 h
  exact hs.length.trans (List.length_map _).symm

theorem Chained.sweep_keep (h : l.Chained nodes) (s : σ) :
    (LinkM.sweep (fun s _ => (.keep, s)) (l.tip? .before) s).run l = .ok (nodes, s) l := by
  obtain ⟨run, hs, rfl⟩ := chained_iff.1 h
  have hfirst : l.tip? .before = ahead run none := hs.first
  have hbound : run.length ≤ l.heap.size + l.length + 1 := by
    have hle := hs.linked.length_le hs.nodup
    omega
  have hwalk := LinkM.sweepFrom_keep hs.linked hbound s []
  rw [LinkM.sweep, hfirst, EStateM.run_bind]
  exact hwalk

theorem Chained.find_eq (h : l.Chained nodes) (i : Nat) : l.find i = .ok nodes[i]? := by
  obtain ⟨run, hs, rfl⟩ := chained_iff.1 h
  rw [find_of_spans hs, handlesOf, List.getElem?_map]

/-- A position within a chain leads to one node, from either end. -/
theorem Chained.reaches {i : Nat} (h : l.Chained nodes) (hi : i < l.length) :
    ∃ span node, l.chain.ends = .full span ∧ nodes[i]? = some node ∧ l.Reaches span i node := by
  have hfind := h.find_eq i
  obtain ⟨run, hs, rfl⟩ := chained_iff.1 h
  have hlen : l.length = run.length := hs.length
  have hi' : i < run.length := by rwa [← hlen]
  have hnode : (handlesOf run)[i]? = some run[i].handle := by
    rw [handlesOf, List.getElem?_map, List.getElem?_eq_getElem hi']
    rfl
  obtain ⟨span, hends⟩ := hs.eq_full (List.ne_nil_of_length_pos (Nat.zero_lt_of_lt hi'))
  have hlast : span.lastIndex = l.length - 1 := by
    rw [Span.lastIndex, length, hends]
    rfl
  rw [hends] at hs
  refine ⟨span, _, hends, hnode, ?_, seek_of_spans hs hi', follow_of_spans hs hi', ?_, ?_⟩
  · rw [hfind, hnode]
  · rw [hlen]
    exact follow_back_of_spans hs hi'
  · rw [hlast]
    omega

/-- Four nodes, linked in another order than they were made in, and a fifth one in no chain. The cursor
is on the third node of the chain. -/
def winding : Linkage Nat :=
  ⟨⟨#[some ⟨⟨7, 0⟩, some 2, some 3⟩, some ⟨⟨8, 2⟩, some 3, none⟩,
    some ⟨⟨9, 0⟩, none, some 0⟩, some ⟨⟨5, 1⟩, some 0, some 1⟩,
    some ⟨⟨6, 4⟩, none, none⟩]⟩,
    ⟨.full ⟨⟨4, by decide, by decide⟩, 2, 1⟩, some 3⟩⟩

theorem winding_wellFormed : winding.WellFormed [2, 0, 3, 1] := by
  refine ⟨by decide, ⟨rfl, rfl, rfl⟩, ?_, ?_⟩
  · intro i hi
    have hlt : i < 4 := hi
    interval_cases i <;> exact ⟨_, rfl, rfl, rfl⟩
  · intro c hc
    cases hc
    decide

theorem winding_chained : winding.Chained [2, 0, 3, 1] := (wellFormed_iff.1 winding_wellFormed).1

/-- On every chain, a walk from the head yields the nodes in order. A position within the chain leads to
the node yielded there: from the nearer end, by links toward the tail from the head, and by links back
from the tail. A position beyond it leads nowhere. No link on the way is missing. -/
theorem find_reaches (h : l.Chained nodes) (s : σ) :
    (LinkM.sweep (fun s _ => (.keep, s)) (l.tip? .before) s).run l = .ok (nodes, s) l ∧
      ∀ i, (l.find i = .ok none ↔ l.length ≤ i) ∧
        (i < l.length → ∃ span node, l.chain.ends = .full span ∧ nodes[i]? = some node ∧
          l.Reaches span i node) := by
  refine ⟨h.sweep_keep s, fun i => ⟨?_, h.reaches⟩⟩
  rw [h.find_eq, Except.ok.injEq, List.getElem?_eq_none_iff, h.length_eq]

/-- The second node is counted from the tail, since that is not farther from it; the position behind the
last one leads nowhere. -/
theorem find_reaches_winding : winding.Chained [2, 0, 3, 1] ∧ 1 < winding.length ∧
    (∃ span node, winding.chain.ends = .full span ∧ [2, 0, 3, 1][1]? = some node ∧
      winding.Reaches span 1 node) ∧
    winding.find 4 = .ok none :=
  have h := find_reaches winding_chained ()
  ⟨winding_chained, by decide, (h.2 1).2 (by decide), (h.2 4).1.2 (by decide)⟩

/-! ## Signed positions -/

/-- A signed position leads to the node there when it is counted from the head, and to the node so many
links back from the tail when it is negative; anything else leads nowhere. -/
structure Resolves (l : Linkage α) (nodes : List Handle) (i : Int64) : Prop where
  /-- What is looked up is the position meant, and fits into a signed number. -/
  absolute : ∀ k, absoluteIndex? l.length i = some k →
    (k : Int) = (if i.toInt < 0 then i.toInt + l.length else i.toInt) ∧ k < 2 ^ 63
  fromHead : 0 ≤ i.toInt → i.toInt < l.length → ∃ span node, l.chain.ends = .full span ∧
    nodes[i.toInt.toNat]? = some node ∧ l.findRelative i = .ok (some node) ∧
    l.Reaches span i.toInt.toNat node
  fromTail : i.toInt < 0 → 0 ≤ i.toInt + l.length →
    l.length ≤ 2 ^ 63 ∨ i.toInt + l.length ≤ Int64.maxValue.toInt →
    ∃ span node, l.chain.ends = .full span ∧ nodes[(i.toInt + l.length).toNat]? = some node ∧
      l.findRelative i = .ok (some node) ∧ l.Reaches span (i.toInt + l.length).toNat node ∧
      l.follow .before (-i.toInt - 1).toNat span.tail = .ok node
  nowhere : l.length ≤ i.toInt ∨ i.toInt < -l.length ∨
      i.toInt < 0 ∧ Int64.maxValue.toInt < i.toInt + l.length →
    l.findRelative i = .ok none
  /-- No other node is ever found. -/
  found : ∀ node, l.findRelative i = .ok (some node) → ∃ k : Nat, nodes[k]? = some node ∧
    (k : Int) = if i.toInt < 0 then i.toInt + l.length else i.toInt

theorem absoluteIndex?_nonneg {i : Int64} (n : Nat) (hi : 0 ≤ i.toInt) :
    absoluteIndex? n i = some i.toInt.toNat :=
  if_neg (Int.not_lt.2 hi)

theorem absoluteIndex?_neg {i : Int64} {n : Nat} (hi : i.toInt < 0) (hsum : 0 ≤ i.toInt + n)
    (hmax : i.toInt + n ≤ Int64.maxValue.toInt) :
    absoluteIndex? n i = some (i.toInt + n).toNat := by
  rw [absoluteIndex?, if_pos hi]
  exact if_neg (not_or.2 ⟨Int.not_lt.2 hsum, Int.not_lt.2 hmax⟩)

theorem absoluteIndex?_none {i : Int64} {n : Nat} (hi : i.toInt < 0)
    (hout : i.toInt + n < 0 ∨ Int64.maxValue.toInt < i.toInt + n) : absoluteIndex? n i = none := by
  rw [absoluteIndex?, if_pos hi]
  exact if_pos hout

/-- On a chain that long the last node cannot be named from the tail, but the one before it can. -/
example : absoluteIndex? (2 ^ 63 + 1) (-1) = none ∧
    absoluteIndex? (2 ^ 63 + 1) (-2) = some (2 ^ 63 - 1) := by decide

theorem absoluteIndex?_some {i : Int64} {n k : Nat} (h : absoluteIndex? n i = some k) :
    (k : Int) = (if i.toInt < 0 then i.toInt + n else i.toInt) ∧ k < 2 ^ 63 := by
  have hmax := Int64.toInt_maxValue
  rcases lt_or_ge i.toInt 0 with hi | hi
  · rw [if_pos hi]
    by_cases hout : i.toInt + n < 0 ∨ Int64.maxValue.toInt < i.toInt + n
    · rw [absoluteIndex?_none hi hout] at h
      cases h
    · rw [absoluteIndex?_neg hi (by omega) (by omega)] at h
      obtain rfl := Option.some.inj h
      omega
  · have hle := i.toInt_le
    rw [absoluteIndex?_nonneg n hi] at h
    obtain rfl := Option.some.inj h
    rw [if_neg (Int.not_lt.2 hi)]
    omega

theorem findRelative_some {i : Int64} {k : Nat} (h : l.Chained nodes)
    (hk : absoluteIndex? l.length i = some k) : l.findRelative i = .ok nodes[k]? := by
  rw [findRelative, hk]
  exact h.find_eq k

theorem findRelative_none {i : Int64} (hk : absoluteIndex? l.length i = none) :
    l.findRelative i = .ok none := by
  rw [findRelative, hk]

/-- On every chain, whatever its length, a signed position leads to the one node that it means. From the
tail it does so only as long as the sum with the length fits into a signed number, which on chains of at
most `2 ^ 63` nodes is always so. -/
theorem findRelative_resolves (h : l.Chained nodes) (i : Int64) : l.Resolves nodes i := by
  have hmax := Int64.toInt_maxValue
  refine ⟨fun k hk => absoluteIndex?_some hk, fun hi hlt => ?_, fun hi hsum hfits => ?_, fun hout => ?_,
    fun node hnode => ?_⟩
  · obtain ⟨span, node, hends, hnode, hreaches⟩ := h.reaches (i := i.toInt.toNat) (by omega)
    refine ⟨span, node, hends, hnode, ?_, hreaches⟩
    rw [findRelative_some h (absoluteIndex?_nonneg _ hi), hnode]
  · obtain ⟨span, node, hends, hnode, hreaches⟩ :=
      h.reaches (i := (i.toInt + l.length).toNat) (by omega)
    refine ⟨span, node, hends, hnode, ?_, hreaches, ?_⟩
    · rw [findRelative_some h (absoluteIndex?_neg hi hsum (by omega)), hnode]
    · -- counted from either end, the two distances make up the chain
      have hback : (-i.toInt - 1).toNat = l.length - 1 - (i.toInt + l.length).toNat := by omega
      rw [hback]
      exact hreaches.backward
  · rcases lt_or_ge i.toInt 0 with hi | hi
    · exact findRelative_none (absoluteIndex?_none hi (by omega))
    · rw [findRelative_some h (absoluteIndex?_nonneg _ hi), Except.ok.injEq,
        List.getElem?_eq_none_iff, ← h.length_eq]
      omega
  · cases hk : absoluteIndex? l.length i with
    | none =>
      rw [findRelative_none hk] at hnode
      cases hnode
    | some k =>
      rw [findRelative_some h hk] at hnode
      exact ⟨k, Except.ok.inj hnode, (absoluteIndex?_some hk).1⟩

/-- The last node and the first, each counted from the tail; nothing is before the first. -/
theorem findRelative_resolves_winding : winding.Chained [2, 0, 3, 1] ∧
    winding.Resolves [2, 0, 3, 1] (-1) ∧ winding.findRelative (-1) = .ok (some 1) ∧
    winding.Resolves [2, 0, 3, 1] (-4) ∧ winding.findRelative (-4) = .ok (some 2) ∧
    winding.findRelative (-5) = .ok none ∧ winding.findRelative Int64.minValue = .ok none :=
  have h := findRelative_resolves winding_chained
  ⟨winding_chained, h (-1), rfl, h (-4), rfl, (h (-5)).nowhere (.inr (.inl (by decide))),
    (h Int64.minValue).nowhere (.inr (.inl (by decide)))⟩

end Linkage

end LinkedDeque
