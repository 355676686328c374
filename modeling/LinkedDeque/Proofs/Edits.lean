import LinkedDeque.Deque.Basic
import LinkedDeque.Proofs.Seeking

/-!
# LinkedDeque.Proofs.Edits

One node more or less in a chain, to the last link:

* `Linkage.Frames`       — two linkages that differ at most in the links of a node and in those across its
  place.
* `Spans.frames`         — chains whose runs differ by a node are framed so.
* `Spans.unique`         — a chain is settled by its run and the nodes outside it.
* `LinkM.attach_splices` — a node attached comes in right beside its anchor.
* `Deque.erase_cuts`     — a node detached, unlinked, taken or erased goes out; each of these does what
  the one before it does, and one thing more.

A run says of each of its nodes what both links are. So what an edit leaves alone is not read off its
writes, but off the runs before and after it.
-/

namespace LinkedDeque

variable {σ α : Type}

/-! ## Chains whose runs differ by a node -/

namespace Linked

variable {look look' : Nodes α} {side : Side} {near far : List (Slot α)} {x : Slot α} {k : Handle}

/-- A node before a gap keeps its links when the gap is filled, but for the one that leads into it. -/
theorem near_gap (hl : Linked look side none (near ++ far) none)
    (hl' : Linked look' side none (near ++ x :: far) none) (hk : k ∈ handlesOf near) :
    ∃ n n', look k = some n ∧ look' k = some n' ∧ n'.entry = n.entry ∧
      n'.link side.flip = n.link side.flip ∧ (behind none near ≠ some k → n'.link side = n.link side) := by
  obtain ⟨s, hs, rfl⟩ := List.mem_map.1 hk
  obtain ⟨a, b, rfl⟩ := List.append_of_mem hs
  rw [List.append_assoc, List.cons_append] at hl hl'
  refine ⟨_, _, hl.middle, hl'.middle, ?_, ?_, fun hlast => ?_⟩
  · rw [Node.entry_between, Node.entry_between]
  · rw [Node.link_flip_between, Node.link_flip_between]
  · rw [Node.link_between, Node.link_between]
    cases b with
    | nil => exact absurd (behind_append none a [s]) hlast
    | cons t b => rfl

/-- So does a node behind it. -/
theorem far_gap (hl : Linked look side none (near ++ far) none)
    (hl' : Linked look' side none (near ++ x :: far) none) (hk : k ∈ handlesOf far) :
    ∃ n n', look k = some n ∧ look' k = some n' ∧ n'.entry = n.entry ∧
      n'.link side = n.link side ∧ (ahead far none ≠ some k → n'.link side.flip = n.link side.flip) := by
  have hr := flip.2 hl
  have hr' := flip.2 hl'
  rw [List.reverse_append] at hr
  rw [List.reverse_append, List.reverse_cons, List.append_assoc] at hr'
  have hk' : k ∈ handlesOf far.reverse := by
    rw [handlesOf, List.map_reverse]
    exact List.mem_reverse.2 hk
  have h := near_gap hr hr' hk'
  rwa [behind_reverse, Side.flip_flip] at h

end Linked

namespace Linkage

/-- The neighbour of a node on a side, if it has one. -/
def neighbour? (l : Linkage α) (side : Side) (h : Handle) : Option Handle :=
  (l.heap.get? h).bind (Node.link side)

theorem neighbour?_eq {l : Linkage α} {h : Handle} {n : Node α} (hn : l.heap.get? h = some n)
    (side : Side) : l.neighbour? side h = n.link side := by
  rw [neighbour?, hn]
  rfl

/-- Two linkages of the same entries differ at most in the links of one node, and in those that lead
across its place: toward a side from the node at `near`, and back from the node at `far`. -/
structure Frames (l l' : Linkage α) (x : Handle) (side : Side) (near far : Option Handle) : Prop where
  entry : ∀ k, l'.entry k = l.entry k
  links : ∀ s k, l'.link s k ≠ l.link s k →
    k = x ∨ s = side ∧ near = some k ∨ s = side.flip ∧ far = some k
  size : l'.heap.size = l.heap.size

theorem Frames.symm {l l' : Linkage α} {x : Handle} {side : Side} {near far : Option Handle}
    (h : l.Frames l' x side near far) : l'.Frames l x side near far :=
  ⟨fun k => (h.entry k).symm, fun s k hne => h.links s k fun he => hne he.symm, h.size.symm⟩

theorem entry_congr {l l' : Linkage α} {k : Handle} {n n' : Node α} (hn : l.heap.get? k = some n)
    (hn' : l'.heap.get? k = some n') (he : n'.entry = n.entry) : l'.entry k = l.entry k := by
  rw [entry, entry, hn, hn']
  exact congrArg Except.ok he

theorem link_congr {l l' : Linkage α} {k : Handle} {n n' : Node α} {s : Side}
    (hn : l.heap.get? k = some n) (hn' : l'.heap.get? k = some n') (he : n'.link s = n.link s) :
    l'.link s k = l.link s k := by
  rw [link, link, hn, hn']
  exact congrArg Except.ok he

end Linkage

namespace Spans

open Linkage

variable {l l' : Linkage α} {side : Side} {near far run : List (Slot α)} {x : Slot α}

/-- Chains whose runs differ by a node have the same entries, and the same links but for those of the node
and those across its place. -/
theorem frames (hs : Spans l.heap.get? l.chain.ends side (near ++ far))
    (hs' : Spans l'.heap.get? l'.chain.ends side (near ++ x :: far))
    (hx : l'.entry x.handle = l.entry x.handle)
    (hkeep : ∀ k, k ∉ handlesOf (near ++ x :: far) → l'.heap.get? k = l.heap.get? k)
    (hsize : l'.heap.size = l.heap.size) :
    l.Frames l' x.handle side (behind none near) (ahead far none) := by
  have hcases : ∀ k, k = x.handle ∨ k ∈ handlesOf near ∨ k ∈ handlesOf far ∨
      l'.heap.get? k = l.heap.get? k := by
    intro k
    by_cases hk : k ∈ handlesOf (near ++ x :: far)
    · simp only [handlesOf, List.map_append, List.map_cons, List.mem_append, List.mem_cons] at hk
      rcases hk with hk | rfl | hk
      · exact .inr (.inl hk)
      · exact .inl rfl
      · exact .inr (.inr (.inl hk))
    · exact .inr (.inr (.inr (hkeep k hk)))
  refine ⟨fun k => ?_, fun s k hne => ?_, hsize⟩
  · rcases hcases k with rfl | hk | hk | hk
    · exact hx
    · obtain ⟨n, n', hn, hn', he, -⟩ := hs.linked.near_gap hs'.linked hk
      exact entry_congr hn hn' he
    · obtain ⟨n, n', hn, hn', he, -⟩ := hs.linked.far_gap hs'.linked hk
      exact entry_congr hn hn' he
    · rw [entry, entry, hk]
  · have hside : s = side ∨ s = side.flip := by cases s <;> cases side <;> simp [Side.flip]
    rcases hcases k with rfl | hk | hk | hk
    · exact .inl rfl
    · obtain ⟨n, n', hn, hn', -, hflip, hlink⟩ := hs.linked.near_gap hs'.linked hk
      rcases hside with rfl | rfl
      · exact .inr (.inl ⟨rfl, by_contra fun hlast => hne (link_congr hn hn' (hlink hlast))⟩)
      · exact absurd (link_congr hn hn' hflip) hne
    · obtain ⟨n, n', hn, hn', -, hlink, hflip⟩ := hs.linked.far_gap hs'.linked hk
      rcases hside with rfl | rfl
      · exact absurd (link_congr hn hn' hlink) hne
      · exact .inr (.inr ⟨rfl, by_contra fun hfirst => hne (link_congr hn hn' (hflip hfirst))⟩)
    · refine absurd ?_ hne
      rw [link, link, hk]

/-- A chain is settled by its run and the nodes outside it. -/
theorem unique {heap heap' : Heap α} {ends ends' : Ends} (hs : Spans heap.get? ends side run)
    (hs' : Spans heap'.get? ends' side run) (hsize : heap'.size = heap.size)
    (hrest : ∀ k, k ∉ handlesOf run → heap'.get? k = heap.get? k) : heap' = heap ∧ ends' = ends := by
  constructor
  · refine Heap.ext_get? hsize fun k => ?_
    by_cases hk : k ∈ handlesOf run
    · exact hs.linked.agree hs'.linked hk
    · exact hrest k hk
  · refine Ends.eq_of_tips (hs'.length.trans hs.length.symm) fun s => ?_
    have hside : s = side ∨ s = side.flip := by cases s <;> cases side <;> simp [Side.flip]
    rcases hside with rfl | rfl
    · exact hs'.last.trans hs.last.symm
    · exact hs'.first.trans hs.first.symm

end Spans

/-! ## A node attached -/

theorem idxOf_middle {a b : List (Slot α)} {s : Slot α} (hnodup : (handlesOf (a ++ s :: b)).Nodup) :
    (handlesOf (a ++ s :: b)).idxOf s.handle = a.length := by
  have hi : a.length < (handlesOf (a ++ s :: b)).length := by simp
  have h := hnodup.idxOf_getElem a.length hi
  simpa using h

namespace Linkage

variable {l l' : Linkage α} {anchor : Option Handle} {side : Side} {a b : List (Slot α)} {x : Slot α}

/-- The position at which a node attached beside an anchor stands; without an anchor it comes in at the
end of the chain on that side. -/
def place (nodes : List Handle) (anchor : Option Handle) : Side → Nat
  | .before => anchor.elim 0 fun a => nodes.idxOf a
  | .after => anchor.elim nodes.length fun a => nodes.idxOf a + 1

/-- A node has come into a chain, right beside its anchor or beyond the end that stands for one. -/
structure Attached (l l' : Linkage α) (nodes : List Handle) (x : Handle) (anchor : Option Handle)
    (side : Side) : Prop where
  chained : l'.Chained (nodes.insertIdx (place nodes anchor side) x)
  wellFormed : l.WellFormed nodes → l'.WellFormed (nodes.insertIdx (place nodes anchor side) x)
  length : l'.length = l.length + 1
  head : l'.tip? .before = if place nodes anchor side = 0 then some x else l.tip? .before
  tail : l'.tip? .after = if place nodes anchor side = nodes.length then some x else l.tip? .after
  frames : l.Frames l' x side (anchor.or (l.tip? side))
    ((anchor.or (l.tip? side)).bind (l.neighbour? side))
  cursor : l'.chain.cursor = l.chain.cursor

theorem place_of_gap (hgap : Gap anchor side a b) (hnodup : (handlesOf (a ++ b)).Nodup) :
    place (handlesOf (a ++ b)) anchor side = a.length := by
  cases side with
  | after =>
    rcases hgap with ⟨rfl, rfl⟩ | ⟨hne, rfl⟩
    · simp [place]
    · rcases List.eq_nil_or_concat a with rfl | ⟨init, t, rfl⟩
      · exact absurd rfl hne
      · rw [List.concat_eq_append, List.append_assoc] at hnodup
        rw [List.concat_eq_append, List.append_assoc, behind_append, List.length_append]
        exact congrArg (· + 1) (idxOf_middle hnodup)
  | before =>
    rcases hgap with ⟨rfl, ha⟩ | ⟨hne, rfl⟩
    · rw [List.reverse_eq_nil_iff.1 ha]
      rfl
    · rw [behind_reverse] at hne ⊢
      cases b with
      | nil => exact absurd rfl hne
      | cons t b => exact idxOf_middle hnodup

theorem attached_of_spans (hs : Spans l.heap.get? l.chain.ends .after (a ++ b))
    (hs' : Spans l'.heap.get? l'.chain.ends .after (a ++ x :: b)) (hgap : Gap anchor side a b)
    (hframes : l.Frames l' x.handle side (anchor.or (l.tip? side))
      ((anchor.or (l.tip? side)).bind (l.neighbour? side)))
    (hcursor : l'.chain.cursor = l.chain.cursor) :
    l.Attached l' (handlesOf (a ++ b)) x.handle anchor side := by
  have hplace := place_of_gap hgap hs.nodup
  have hnodes : (handlesOf (a ++ b)).insertIdx (place (handlesOf (a ++ b)) anchor side) x.handle =
      handlesOf (a ++ x :: b) := by
    rw [hplace, handlesOf, ← List.map_insertIdx, Row.insertIdx_length]
  have hchained := Chained.of_spans hs'
  refine ⟨?_, fun hwf => ?_, ?_, ?_, ?_, hframes, hcursor⟩
  · rw [hnodes]
    exact hchained
  · rw [hnodes]
    refine wellFormed_iff.2 ⟨hchained, fun c hc => ?_⟩
    have hmem := hwf.cursor c (hcursor.symm.trans hc)
    rw [handlesOf, List.map_append, List.mem_append] at hmem
    rw [handlesOf, List.map_append, List.mem_append]
    exact hmem.imp_right (List.mem_cons_of_mem _)
  · rw [length, length, hs'.length, hs.length]
    simp only [List.length_append, List.length_cons]
    omega
  · have hfirst : l'.tip? .before = ahead (a ++ x :: b) none := hs'.first
    have hfirst₀ : l.tip? .before = ahead (a ++ b) none := hs.first
    rw [hplace, hfirst, hfirst₀]
    cases a with
    | nil => rfl
    | cons t a => rfl
  · have hlast : l'.tip? .after = behind none (a ++ x :: b) := hs'.last
    have hlast₀ : l.tip? .after = behind none (a ++ b) := hs.last
    rw [hplace, hlast, hlast₀, behind_append, behind_append]
    cases b with
    | nil => simp
    | cons t b => simp

end Linkage

namespace LinkM

open Linkage

variable {l : Linkage α} {anchor : Option Handle} {side : Side} {x : Slot α}

/-- A run read toward a side is parted beside each of its nodes, and at its end. -/
theorem exists_beside {look : Nodes α} {ends : Ends} {run : List (Slot α)} (hs : Spans look ends side run)
    (hanchor : ∀ a, anchor = some a → a ∈ handlesOf run) :
    ∃ near far, run = near ++ far ∧ Beside anchor near far ∧
      anchor.or (ends.tip? side) = behind none near := by
  cases anchor with
  | none =>
    refine ⟨run, [], (List.append_nil run).symm, .inl ⟨rfl, rfl⟩, ?_⟩
    rw [Option.none_or]
    exact hs.last
  | some a =>
    obtain ⟨t, ht, rfl⟩ := List.mem_map.1 (hanchor a rfl)
    obtain ⟨near, far, rfl⟩ := List.append_of_mem ht
    have hlast : behind none (near ++ [t]) = some t.handle := by
      rw [behind_append]
      rfl
    exact ⟨near ++ [t], far, by simp, .inr ⟨Option.some_ne_none _, hlast.symm⟩, hlast.symm⟩

/-- Attaching, along a run read toward the side on which the node comes in. -/
theorem attach_frames {run : List (Slot α)} (hs : Spans l.heap.get? l.chain.ends side run)
    (hx : l.heap.get? x.handle = some (.detached x.entry)) (hfresh : x.handle ∉ handlesOf run)
    (hanchor : ∀ a, anchor = some a → a ∈ handlesOf run) (hcap : run.length + 1 < capacity) :
    ∃ near far, ∃ l' : Linkage α, run = near ++ far ∧ Beside anchor near far ∧
      (attach x.handle anchor side).run l = .ok () l' ∧
      Spans l'.heap.get? l'.chain.ends side (near ++ x :: far) ∧
      l.Frames l' x.handle side (anchor.or (l.tip? side))
        ((anchor.or (l.tip? side)).bind (l.neighbour? side)) ∧
      l'.chain.cursor = l.chain.cursor := by
  obtain ⟨near, far, rfl, hbeside, hnear⟩ := exists_beside hs hanchor
  obtain ⟨heap', ends', hrun, hs', hsize, hkeep⟩ := attach_run hs hx hfresh hbeside hcap
  refine ⟨near, far, ⟨heap', ⟨ends', l.chain.cursor⟩⟩, rfl, hbeside, hrun, hs', ?_, rfl⟩
  have hfar : (anchor.or (l.tip? side)).bind (l.neighbour? side) = ahead far none := by
    rw [show anchor.or (l.tip? side) = behind none near from hnear]
    rcases List.eq_nil_or_concat near with rfl | ⟨init, t, rfl⟩
    · obtain ⟨-, rfl⟩ : anchor = none ∧ far = [] :=
        hbeside.resolve_right fun ⟨hne, he⟩ => hne he
      rfl
    · have hlinked := hs.linked
      rw [List.concat_eq_append, List.append_assoc] at hlinked
      rw [List.concat_eq_append, behind_append]
      exact (neighbour?_eq hlinked.middle side).trans (Node.link_between ..)
  have hentry : Linkage.entry ⟨heap', ⟨ends', l.chain.cursor⟩⟩ x.handle = l.entry x.handle :=
    entry_congr hx hs'.linked.middle (Node.entry_between ..)
  rw [hfar, show anchor.or (l.tip? side) = behind none near from hnear]
  exact hs.frames hs' hentry hkeep hsize

/-- A detached node attached to a chain comes in right beside its anchor, or beyond the end on that side.
Nothing else changes but the links across that place. To name no anchor is to name that end. -/
theorem attach_splices {nodes : List Handle} {x : Handle} {e : Entry α} (h : l.Chained nodes)
    (hx : l.heap.get? x = some (.detached e)) (hfresh : x ∉ nodes) (hcap : l.length + 1 < capacity)
    (hanchor : ∀ a, anchor = some a → a ∈ nodes) (side : Side) :
    (∃ l', (attach x anchor side).run l = .ok () l' ∧ l.Attached l' nodes x anchor side) ∧
      (attach x none side).run l = (attach x (l.tip? side) side).run l := by
  constructor
  · obtain ⟨run, hs, rfl⟩ := chained_iff.1 h
    have hlen : l.length = run.length := hs.length
    rw [hlen] at hcap
    cases side with
    | after =>
      obtain ⟨near, far, l', rfl, hgap, hrun, hs', hframes, hcursor⟩ :=
        attach_frames (x := ⟨x, e⟩) hs hx hfresh hanchor hcap
      exact ⟨l', hrun, attached_of_spans hs hs' hgap hframes hcursor⟩
    | before =>
      have hmem : ∀ k, k ∈ handlesOf run.reverse ↔ k ∈ handlesOf run := by simp
      -- toward the head the run is read from its other end
      obtain ⟨near, far, l', hr, hbeside, hrun, hs', hframes, hcursor⟩ :=
        attach_frames (x := ⟨x, e⟩) hs.of_flip hx (fun hk => hfresh ((hmem x).1 hk))
          (fun a ha => (hmem a).2 (hanchor a ha)) (by rwa [List.length_reverse])
      obtain rfl : run = far.reverse ++ near.reverse := by
        rw [← List.reverse_append, ← hr, List.reverse_reverse]
      have hforward := hs'.of_flip
      rw [List.reverse_append, List.reverse_cons, List.append_assoc] at hforward
      have hgap : Gap anchor .before far.reverse near.reverse := by
        rw [Gap, List.reverse_reverse, List.reverse_reverse]
        exact hbeside
      exact ⟨l', hrun, attached_of_spans hs hforward hgap hframes hcursor⟩
  · cases hends : l.chain.ends with
    | empty =>
      rw [Linkage.tip?, hends]
      rfl
    | full span =>
      rw [Linkage.length, hends] at hcap
      obtain ⟨len, hadd, -⟩ := Count.exists_add?_one hcap
      rw [Linkage.tip?, hends, attach_eq hx hends hadd, attach_eq hx hends hadd]
      rfl

/-- Between two nodes, toward the head, beside a node under the cursor. -/
theorem attach_splices_winding : winding.Chained [2, 0, 3, 1] ∧
    winding.heap.get? 4 = some (.detached ⟨6, 4⟩) ∧ 4 ∉ [2, 0, 3, 1] ∧ winding.length + 1 < capacity ∧
    ∃ l', (attach 4 (some 3) .before).run winding = .ok () l' ∧
      winding.Attached l' [2, 0, 3, 1] 4 (some 3) .before ∧ l'.Chained [2, 0, 4, 3, 1] := by
  have hcap : winding.length + 1 < capacity := by decide
  have hanchor : ∀ a, some 3 = some a → a ∈ [2, 0, 3, 1] := by simp
  obtain ⟨⟨l', hrun, hattached⟩, -⟩ :=
    attach_splices winding_chained rfl (x := 4) (by decide) hcap hanchor .before
  exact ⟨winding_chained, rfl, by decide, hcap, l', hrun, hattached, hattached.chained⟩

end LinkM

/-! ## A node cut out -/

namespace Linkage

variable {l l' : Linkage α} {a b : List (Slot α)} {x : Slot α}

/-- Where the cursor stands when a node goes: behind the node, if it was there. -/
def cursorPast (l : Linkage α) (x : Handle) : Option Handle :=
  if l.chain.cursor = some x then l.neighbour? .after x else l.chain.cursor

/-- A node has gone out of a chain, and is left without links. -/
structure Detached (l l' : Linkage α) (nodes : List Handle) (x : Handle) : Prop where
  chained : l'.Chained (nodes.erase x)
  empty : l'.chain.ends = .empty ↔ nodes = [x]
  length : l'.length + 1 = l.length
  cleared : ∀ side, l'.link side x = .ok none
  frames : l.Frames l' x .after (l.neighbour? .before x) (l.neighbour? .after x)

theorem erase_middle (hnodup : (handlesOf (a ++ x :: b)).Nodup) :
    (handlesOf (a ++ x :: b)).erase x.handle = handlesOf (a ++ b) := by
  have ha : x.handle ∉ handlesOf a := (Row.not_mem_of_split hnodup).1
  rw [handlesOf, List.map_append, List.map_cons, List.erase_append_right _ ha, List.erase_cons_head]
  exact List.map_append.symm

theorem detached_of_spans (hs : Spans l.heap.get? l.chain.ends .after (a ++ x :: b))
    (hs' : Spans l'.heap.get? l'.chain.ends .after (a ++ b))
    (hx : l'.heap.get? x.handle = some (.detached x.entry))
    (hkeep : ∀ k, k ∉ handlesOf (a ++ x :: b) → l'.heap.get? k = l.heap.get? k)
    (hsize : l'.heap.size = l.heap.size) :
    l.Detached l' (handlesOf (a ++ x :: b)) x.handle := by
  have hnode := hs.linked.middle
  refine ⟨?_, ?_, ?_, ?_, ?_⟩
  · rw [erase_middle hs.nodup]
    exact .of_spans hs'
  · rw [hs'.eq_empty_iff, List.append_eq_nil_iff]
    constructor
    · rintro ⟨rfl, rfl⟩
      rfl
    · intro hone
      have hlen := congrArg List.length hone
      simp only [List.length_map, List.length_append, List.length_cons, List.length_nil] at hlen
      exact ⟨List.eq_nil_of_length_eq_zero (by omega), List.eq_nil_of_length_eq_zero (by omega)⟩
  · rw [length, length, hs'.length, hs.length]
    simp only [List.length_append, List.length_cons]
    omega
  · intro side
    rw [link_eq hx, Node.link_detached]
  · rw [neighbour?_eq hnode, neighbour?_eq hnode]
    have hentry : l.entry x.handle = l'.entry x.handle := entry_congr hx hnode (Node.entry_between ..)
    exact (hs'.frames hs hentry (fun k hk => (hkeep k hk).symm) hsize.symm).symm

end Linkage

namespace LinkM

variable {l : Linkage α} {a b : List (Slot α)} {x : Slot α}

/-- Detaching has nothing to do with the cursor. -/
theorem detach_anywhere (hs : Spans l.heap.get? l.chain.ends .after (a ++ x :: b)) :
    ∃ heap' ends', (∀ cursor, (detach x.handle).run ⟨l.heap, ⟨l.chain.ends, cursor⟩⟩ =
        .ok () ⟨heap', ⟨ends', cursor⟩⟩) ∧
      Spans heap'.get? ends' .after (a ++ b) ∧ heap'.get? x.handle = some (.detached x.entry) ∧
      heap'.size = l.heap.size ∧ ∀ k, k ∉ handlesOf (a ++ x :: b) → heap'.get? k = l.heap.get? k := by
  obtain ⟨heap', ends', -, hs', hx, hsize, hkeep⟩ := detach_run hs
  refine ⟨heap', ends', fun cursor => ?_, hs', hx, hsize, hkeep⟩
  obtain ⟨heap₁, ends₁, hrun, hs₁, hx₁, hsize₁, hkeep₁⟩ :=
    detach_run (l := ⟨l.heap, ⟨l.chain.ends, cursor⟩⟩) hs
  have hrest : ∀ k, k ∉ handlesOf (a ++ b) → heap₁.get? k = heap'.get? k := by
    intro k hk
    by_cases he : k = x.handle
    · rw [he, hx₁, hx]
    · have hk' : k ∉ handlesOf (a ++ x :: b) := by
        simp only [handlesOf, List.map_append, List.map_cons, List.mem_append, List.mem_cons] at hk ⊢
        rintro (h | h | h)
        · exact hk (.inl h)
        · exact he h
        · exact hk (.inr h)
      exact (hkeep₁ k hk').trans (hkeep k hk').symm
  obtain ⟨rfl, rfl⟩ := hs'.unique hs₁ (hsize₁.trans hsize.symm) hrest
  exact hrun

end LinkM

/-- What becomes of a payload: one destructor is called on it, once, the one given with the call before
the list's own; without either it is forgotten. -/
inductive Destructors.Disposes (ds : Destructors σ α) (v : α) :
    Fate → Reply Unit → Destructors σ α → Prop where
  | override {d : Destructor σ α} (h : ds.override = some d) :
    Disposes ds v (.destroyed .override d.isDrop) (d.run v).1 { ds with override := some (d.run v).2 }
  | default {d : Destructor σ α} (ho : ds.override = .none) (h : ds.default = some d) :
    Disposes ds v (.destroyed .default d.isDrop) (d.run v).1 { ds with default := some (d.run v).2 }
  | nobody (ho : ds.override = .none) (h : ds.default = .none) : Disposes ds v .forgotten (.returns ()) ds

/-- A destructor that gives up ends the operation that called it. -/
def Reply.passed : Reply Unit → Except Panic Unit
  | .returns () => .ok ()
  | .panics report => .error (.destructor report)

theorem Destructors.disposes (ds : Destructors σ α) (v : α) :
    ds.Disposes v (ds.dispose v).1 (ds.dispose v).2.1 (ds.dispose v).2.2 := by
  obtain ⟨default, override⟩ := ds
  cases override with
  | some d => exact .override rfl
  | none =>
    cases default with
    | some d => exact .default rfl rfl
    | none => exact .nobody rfl rfl

theorem Act.run_dispose (m : Machine σ α) (v : α) :
    ∃ fate reply ds, m.destructors.Disposes v fate reply ds ∧ (Act.dispose v).run m =
      ending reply.passed ⟨m.linkage, ds, m.allocator, m.trace.push (.left fate v)⟩ := by
  refine ⟨_, _, _, m.destructors.disposes v, ?_⟩
  cases hd : m.destructors.dispose v with
  | mk fate rest =>
    obtain ⟨reply, ds⟩ := rest
    cases reply <;> simp [dispose, EStateM.run, hd, ending, Reply.passed]

/-- The four ways to cut a node out of a chain. Each does what the one before it does, and one thing
more: the cursor moves off the node, the node is freed and its entry handed out, the payload is
destroyed. -/
structure Machine.Cuts (m : Machine σ α) (nodes : List Handle) (x : Handle) (e : Entry α)
    (heap' : Heap α) (ends' : Ends) : Prop where
  entry : m.linkage.entry x = .ok e
  detach : (LinkM.detach x).run m.linkage = .ok () ⟨heap', ⟨ends', m.linkage.chain.cursor⟩⟩
  unlink : (LinkM.unlink x).run m.linkage = .ok () ⟨heap', ⟨ends', m.linkage.cursorPast x⟩⟩
  take : (LinkM.take x).run m.linkage = .ok e ⟨heap'.free x, ⟨ends', m.linkage.cursorPast x⟩⟩
  erase : ∃ fate reply ds, m.destructors.Disposes e.value fate reply ds ∧
    (Deque.erase x).run m = ending reply.passed
      ⟨⟨heap'.free x, ⟨ends', m.linkage.cursorPast x⟩⟩, ds, m.allocator,
        m.trace.push (.left fate e.value)⟩
  detached : ∀ cursor, m.linkage.Detached ⟨heap', ⟨ends', cursor⟩⟩ nodes x
  freed : ∀ cursor, Linkage.Chained ⟨heap'.free x, ⟨ends', cursor⟩⟩ (nodes.erase x)
  wellFormed : m.linkage.WellFormed nodes →
    Linkage.WellFormed ⟨heap', ⟨ends', m.linkage.cursorPast x⟩⟩ (nodes.erase x) ∧
      Linkage.WellFormed ⟨heap'.free x, ⟨ends', m.linkage.cursorPast x⟩⟩ (nodes.erase x)

namespace Deque

open Linkage

variable {m : Machine σ α} {nodes : List Handle} {x : Handle}

/-- Every node of a chain can be cut out, and nothing else is. -/
theorem erase_cuts (h : m.linkage.Chained nodes) (hx : x ∈ nodes) :
    ∃ e heap' ends', m.Cuts nodes x e heap' ends' := by
  obtain ⟨run, hs, rfl⟩ := chained_iff.1 h
  obtain ⟨s, hmem, rfl⟩ := List.mem_map.1 hx
  obtain ⟨a, b, rfl⟩ := List.append_of_mem hmem
  have hnode := hs.linked.middle
  obtain ⟨heap', ends', hrun, hs', hleft, hsize, hkeep⟩ := LinkM.detach_anywhere hs
  have hpast : m.linkage.cursorPast s.handle =
      if m.linkage.chain.cursor = some s.handle then ahead b none else m.linkage.chain.cursor := by
    rw [cursorPast, neighbour?_eq hnode, Node.link_between]
  have hunlink : (LinkM.unlink s.handle).run m.linkage =
      .ok () ⟨heap', ⟨ends', m.linkage.cursorPast s.handle⟩⟩ := by
    rw [LinkM.unlink_eq hnode, Node.link_between, hrun, hpast]
  have htake : (LinkM.take s.handle).run m.linkage =
      .ok s.entry ⟨heap'.free s.handle, ⟨ends', m.linkage.cursorPast s.handle⟩⟩ := by
    rw [LinkM.take, EStateM.run_bind, hunlink]
    exact LinkM.run_release (l := ⟨heap', ⟨ends', m.linkage.cursorPast s.handle⟩⟩) hleft
  obtain ⟨hsa, hsb⟩ := Row.not_mem_of_split hs.nodup
  have hfree : Spans (heap'.free s.handle).get? ends' .after (a ++ b) := by
    refine hs'.congr fun k hk => Heap.get?_free_other ?_
    rintro rfl
    rw [handlesOf, List.map_append] at hk
    exact (List.mem_append.1 hk).elim hsa hsb
  have hdetached : ∀ cursor, m.linkage.Detached ⟨heap', ⟨ends', cursor⟩⟩ (handlesOf (a ++ s :: b))
      s.handle := fun _ => detached_of_spans hs hs' hleft hkeep hsize
  have hfreed : ∀ cursor, Linkage.Chained ⟨heap'.free s.handle, ⟨ends', cursor⟩⟩
      ((handlesOf (a ++ s :: b)).erase s.handle) := by
    intro cursor
    rw [erase_middle hs.nodup]
    exact Chained.of_spans (l := ⟨heap'.free s.handle, ⟨ends', cursor⟩⟩) hfree
  have hcursor : m.linkage.WellFormed (handlesOf (a ++ s :: b)) → ∀ c,
      m.linkage.cursorPast s.handle = some c → c ∈ (handlesOf (a ++ s :: b)).erase s.handle := by
    intro hwf c hc
    rw [hpast] at hc
    split at hc
    · rw [erase_middle hs.nodup, handlesOf, List.map_append]
      exact List.mem_append_right _ (mem_of_ahead hc)
    · rename_i hne
      have hcs : c ≠ s.handle := fun he => hne (he ▸ hc)
      exact (List.mem_erase_of_ne hcs).2 (hwf.cursor c hc)
  refine ⟨s.entry, heap', ends', ?_, hrun _, hunlink, htake, ?_, hdetached, hfreed, fun hwf => ⟨?_, ?_⟩⟩
  · rw [entry, hnode]
    rfl
  · obtain ⟨fate, reply, ds, hdisposes, hdispose⟩ := Act.run_dispose
      { m with linkage := ⟨heap'.free s.handle, ⟨ends', m.linkage.cursorPast s.handle⟩⟩ } s.entry.value
    refine ⟨fate, reply, ds, hdisposes, ?_⟩
    rw [erase, EStateM.run_bind, Act.run_linking_ok m htake]
    exact hdispose
  · exact wellFormed_iff.2 ⟨(hdetached _).chained, hcursor hwf⟩
  · exact wellFormed_iff.2 ⟨hfreed _, hcursor hwf⟩

/-- A list whose own destructor gives up on every payload. -/
def unforgiving : Machine Nat Nat :=
  ⟨winding, .ofDefault (some (.custom ⟨0, fun n v => (.panics (toString v), n + 1)⟩)), .generous, #[]⟩

/-- The node under the cursor: the cursor moves on to the last one, and the node is gone although the
destructor gives up. -/
theorem erase_cuts_unforgiving : unforgiving.linkage.Chained [2, 0, 3, 1] ∧ 3 ∈ [2, 0, 3, 1] ∧
    unforgiving.linkage.cursorPast 3 = some 1 ∧
    ∃ heap' ends', unforgiving.Cuts [2, 0, 3, 1] 3 ⟨5, 1⟩ heap' ends' := by
  have hmem : 3 ∈ [2, 0, 3, 1] := by decide
  obtain ⟨e, heap', ends', h⟩ := erase_cuts (m := unforgiving) winding_chained hmem
  obtain rfl : (⟨5, 1⟩ : Entry Nat) = e := Except.ok.inj h.entry
  exact ⟨winding_chained, hmem, rfl, heap', ends', h⟩

end Deque

end LinkedDeque
