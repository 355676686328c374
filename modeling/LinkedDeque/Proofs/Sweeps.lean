import LinkedDeque.Proofs.Commuting

/-!
# LinkedDeque.Proofs.Sweeps

Walks on which the nodes go as they are yielded:

* `LinkM.calls`          — calls of an iterator, as many as are wanted, also when it is through.
* `Linkage.Treated`      — some nodes of a chain are kept, some are unlinked and some are freed.
* `LinkM.treatAll_run`   — nodes treated one after the other come to just that.
* `LinkM.sweep_survives` — on every chain, from every node of it and under every policy: a walk yields the
  nodes from there on, whatever became of those before, and leaves the nodes that the policy kept.

The next node is read before the present one is yielded. So a walk under a policy comes to what the policy
decides on the nodes as they were at the start, carried out on one after the other (`sweepFrom_run`,
`calls_run`), and what is left then is a matter of single nodes (`treat_run`).
-/

namespace LinkedDeque

variable {σ α : Type}

/-! ## Decisions -/

/-- What is to become of each node that a walk yields. A policy is any function of its state and the node: it
may go by all that was yielded before, and by the payloads, which no walk changes. -/
abbrev Policy (σ : Type) := σ → Handle → Treatment × σ

namespace Policy

/-- What a policy decides on some nodes, called on each in turn. -/
def decisions (policy : Policy σ) : σ → List Handle → List (Handle × Treatment)
  | _, [] => []
  | s, h :: rest => (h, (policy s h).1) :: decisions policy (policy s h).2 rest

/-- The state in which those calls leave it. -/
def after (policy : Policy σ) (s : σ) (nodes : List Handle) : σ :=
  nodes.foldl (fun s h => (policy s h).2) s

theorem map_fst_decisions (policy : Policy σ) (s : σ) (nodes : List Handle) :
    (policy.decisions s nodes).map Prod.fst = nodes := by
  induction nodes generalizing s with
  | nil => rfl
  | cons h nodes ih => rw [decisions, List.map_cons, ih]

end Policy

/-- The nodes that were to be kept. -/
def keptOf (decided : List (Handle × Treatment)) : List Handle :=
  (decided.filter fun d => d.2 = .keep).map Prod.fst

theorem keptOf_cons (d : Handle × Treatment) (decided : List (Handle × Treatment)) :
    keptOf (d :: decided) = keptOf [d] ++ keptOf decided := by
  rw [keptOf, ← List.singleton_append, List.filter_append, List.map_append]
  rfl

/-! ## The cursor among fewer and fewer nodes -/

section Cursor

variable {nodes mid left : List Handle} {cursor : Option Handle} {c : Handle}

theorem mem_of_cursorAmong (h : cursorAmong nodes cursor left = some c) : c ∈ left := by
  obtain ⟨_, -, hfind⟩ := Option.bind_eq_some_iff.1 h
  simpa using List.find?_some hfind

/-- Where all nodes stay, so does the cursor. -/
theorem cursorAmong_self (h : ∀ c, cursor = some c → c ∈ nodes) :
    cursorAmong nodes cursor nodes = cursor := by
  cases cursor with
  | none => rfl
  | some c =>
    obtain ⟨front, rest, rfl, hfront⟩ := List.eq_append_cons_of_mem (h c rfl)
    have hne : ∀ k ∈ front, decide (k ≠ c) = true := by
      intro k hk
      rw [decide_eq_true_iff]
      exact fun he => hfront (he ▸ hk)
    rw [cursorAmong, Option.bind_some, List.dropWhile_append_of_pos hne,
      List.dropWhile_cons_of_neg (by simp), List.find?_cons_of_pos (by simp)]

/-- Of nodes without repetition, those that are among some of them are just these. -/
theorem filter_mem_of_sublist (hnodup : nodes.Nodup) (hmid : mid.Sublist nodes) :
    nodes.filter (· ∈ mid) = mid := by
  induction hmid with
  | slnil => rfl
  | @cons mid nodes h hmid ih =>
    obtain ⟨hh, hnodup⟩ := List.nodup_cons.1 hnodup
    have hnot : h ∉ mid := fun hm => hh (hmid.subset hm)
    rw [List.filter_cons_of_neg (by simpa using hnot), ih hnodup]
  | @cons_cons mid nodes h hmid ih =>
    obtain ⟨hh, hnodup⟩ := List.nodup_cons.1 hnodup
    have hrest : ∀ k ∈ nodes, decide (k ∈ h :: mid) = decide (k ∈ mid) := by
      intro k hk
      have hne : k ≠ h := fun he => hh (he ▸ hk)
      simp [hne]
    rw [List.filter_cons_of_pos (by simp), List.filter_congr hrest, ih hnodup]

/-- Nodes go in two rounds, and a cursor goes along in both. -/
theorem cursorAmong_trans (hnodup : nodes.Nodup) (hmid : mid.Sublist nodes) (hleft : left ⊆ mid) :
    cursorAmong mid (cursorAmong nodes cursor mid) left = cursorAmong nodes cursor left := by
  cases cursor with
  | none => rfl
  | some c =>
    have hfilter := filter_mem_of_sublist hnodup hmid
    obtain ⟨front, due, hnodes, hdue⟩ :
        ∃ front due, nodes = front ++ due ∧ nodes.dropWhile (· ≠ c) = due :=
      ⟨_, _, List.takeWhile_append_dropWhile.symm, rfl⟩
    rw [cursorAmong, cursorAmong, cursorAmong, Option.bind_some, Option.bind_some, hdue]
    rw [hnodes] at hnodup hfilter
    rw [List.filter_append] at hfilter
    -- of the nodes from the cursor on, only those that stay in the first round can be left
    have hfind : due.find? (· ∈ left) = (due.filter (· ∈ mid)).find? (· ∈ left) := by
      rw [List.find?_filter]
      refine List.find?_congr fun k _ => ?_
      simpa using @hleft k
    rw [hfind, ← List.head?_filter]
    cases hleads : due.filter (· ∈ mid) with
    | nil => rfl
    | cons d rest =>
      have hd : d ∈ due.filter (· ∈ mid) := by simp [hleads]
      have hne : ∀ k ∈ front.filter (· ∈ mid), decide (k ≠ d) = true := by
        intro k hk
        rw [decide_eq_true_iff]
        exact (List.nodup_append.1 hnodup).2.2 k (List.mem_of_mem_filter hk) d (List.mem_of_mem_filter hd)
      rw [hleads] at hfilter
      rw [List.head?_cons, Option.bind_some]
      nth_rewrite 1 [← hfilter]
      rw [List.dropWhile_append_of_pos hne, List.dropWhile_cons_of_neg (by simp)]

end Cursor

/-! ## Nodes treated one after the other -/

/-- What the node of an entry is once it is out of its chain: detached, or freed. -/
def Treatment.residue (e : Entry α) : Treatment → Option (Node α)
  | .free => none
  | _ => some (.detached e)

theorem LinkM.treat_free_run {l l' : Linkage α} {h : Handle} {e : Entry α}
    (hrun : (take h).run l = .ok e l') : (treat h .free).run l = .ok () l' := by
  rw [treat, Functor.discard, LawfulFunctor.map_const, Function.comp, map_eq_pure_bind, EStateM.run_bind,
    hrun]
  rfl

namespace Linkage

variable {l l₁ l' : Linkage α} {nodes mid left : List Handle} {decided : List (Handle × Treatment)}
  {h : Handle} {t : Treatment} {run : List (Slot α)} {rest : Nodes α} {n : Nat}

/-- Nodes of a chain were treated as was decided, and some nodes are left in it. -/
structure Treated (l l' : Linkage α) (nodes : List Handle) (decided : List (Handle × Treatment))
    (left : List Handle) : Prop where
  chained : l'.Chained left
  sublist : left.Sublist nodes
  cursor : (∀ c, l.chain.cursor = some c → c ∈ nodes) →
    l'.chain.cursor = cursorAmong nodes l.chain.cursor left
  entries : ∀ k ∈ left, l'.entry k = l.entry k
  unlinked : ∀ k, (k, .unlink) ∈ decided → ∃ e, l.entry k = .ok e ∧ l'.heap.get? k = some (.detached e)
  freed : ∀ k, (k, .free) ∈ decided → l'.heap.get? k = none
  others : ∀ k, k ∉ nodes → l'.heap.get? k = l.heap.get? k

/-- The cursor of a well-formed list is on a node that is left. -/
theorem Treated.wellFormed (h : l.Treated l' nodes decided left) (hl : l.WellFormed nodes) :
    l'.WellFormed left := by
  refine wellFormed_iff.2 ⟨h.chained, fun c hc => ?_⟩
  rw [h.cursor hl.cursor] at hc
  exact mem_of_cursorAmong hc

/-- One node is treated, and then the others. A node that goes out is none of those any more. -/
theorem Treated.cons (hnodup : nodes.Nodup) (h₁ : l.Treated l₁ nodes [(h, t)] mid)
    (hgone : t ≠ .keep → h ∉ mid) (h₂ : l₁.Treated l' mid decided left)
    (hmem : ∀ d ∈ decided, d.1 ∈ mid) : l.Treated l' nodes ((h, t) :: decided) left := by
  refine ⟨h₂.chained, h₂.sublist.trans h₁.sublist, fun hc => ?_, fun k hk => ?_, fun k hk => ?_,
    fun k hk => ?_, fun k hk => ?_⟩
  · have hmid := h₁.cursor hc
    rw [h₂.cursor fun c hc' => mem_of_cursorAmong (hmid.symm.trans hc'), hmid]
    exact cursorAmong_trans hnodup h₁.sublist h₂.sublist.subset
  · rw [h₂.entries k hk, h₁.entries k (h₂.sublist.subset hk)]
  · rcases List.mem_cons.1 hk with he | hk
    · obtain ⟨rfl, rfl⟩ := Prod.mk.inj he
      obtain ⟨e, hentry, hnode⟩ := h₁.unlinked k (List.mem_singleton_self _)
      exact ⟨e, hentry, (h₂.others k (hgone nofun)).trans hnode⟩
    · obtain ⟨e, hentry, hnode⟩ := h₂.unlinked k hk
      exact ⟨e, (h₁.entries k (hmem _ hk)).symm.trans hentry, hnode⟩
  · rcases List.mem_cons.1 hk with he | hk
    · obtain ⟨rfl, rfl⟩ := Prod.mk.inj he
      exact (h₂.others k (hgone nofun)).trans (h₁.freed k (List.mem_singleton_self _))
    · exact h₂.freed k hk
  · rw [h₂.others k fun hm => hk (h₁.sublist.subset hm), h₁.others k hk]

namespace Lies

variable {a b : List (Slot α)} {x : Slot α}

theorem of_chained (hl : l.Chained nodes) :
    ∃ run, handlesOf run = nodes ∧ l.Lies run l.heap.get? l.heap.size := by
  obtain ⟨run, hs, hrun⟩ := chained_iff.1 hl
  exact ⟨run, hrun, hs, fun _ _ => rfl, rfl⟩

/-- A node in no chain is freed. -/
theorem release {k : Handle} {node : Node α} (hl : l.Lies run rest n) (hk : k ∉ handlesOf run)
    (hnode : rest k = some node) :
    ∃ l', (LinkM.release k).run l = .ok node.entry l' ∧ l'.Lies run (rest.set k none) n ∧
      l'.chain.cursor = l.chain.cursor := by
  have hget : l.heap.get? k = some node := by rw [hl.outside k hk, hnode]
  refine ⟨_, LinkM.run_release hget, ⟨?_, fun j hj => ?_, ?_⟩, rfl⟩
  · refine hl.spans.congr fun j hj => ?_
    have hne : j ≠ k := fun he => hk (he ▸ hj)
    rw [Heap.look_free, Nodes.set_other hne]
  · rw [Heap.look_free]
    simp only [Nodes.set, hl.outside j hj]
  · exact (Heap.size_free _ _).trans hl.size

/-- A node that is not kept goes out. It is unlinked first, and nothing else moves the cursor. -/
theorem treat (hl : l.Lies (a ++ x :: b) rest n) (ht : t ≠ .keep) :
    ∃ l₁ l', (LinkM.unlink x.handle).run l = .ok () l₁ ∧ (LinkM.treat x.handle t).run l = .ok () l' ∧
      l'.Lies (a ++ b) (rest.set x.handle (t.residue x.entry)) n ∧
      l'.chain.cursor = l₁.chain.cursor := by
  have hmem : x ∈ a ++ x :: b := by simp
  obtain ⟨l₁, hunlink, hl₁, -⟩ := hl.unlink hmem
  rw [Row.filter_handle_ne hl.spans.nodup] at hl₁
  cases t with
  | keep => exact absurd rfl ht
  | unlink => exact ⟨l₁, l₁, hunlink, hunlink, hl₁, rfl⟩
  | free =>
    obtain ⟨l₂, hrelease, hl₂, hcursor⟩ := hl₁.release (Row.not_mem_gap hl.spans.nodup) Nodes.set_same
    have htake : (LinkM.take x.handle).run l = .ok x.entry l₂ := by
      rw [LinkM.take, EStateM.run_bind, hunlink]
      exact hrelease
    rw [Nodes.set_set] at hl₂
    exact ⟨l₁, l₂, hunlink, LinkM.treat_free_run htake, hl₂, hcursor⟩

end Lies

/-- What is kept is left as it is. -/
theorem Treated.of_kept (hl : l.Chained nodes) (hkept : ∀ d ∈ decided, d.2 = .keep) :
    l.Treated l nodes decided nodes := by
  refine ⟨hl, .refl _, fun hc => (cursorAmong_self hc).symm, fun _ _ => rfl, fun k hk => ?_,
    fun k hk => ?_, fun _ _ => rfl⟩
  · cases hkept _ hk
  · cases hkept _ hk

/-- A node is out of its chain, and the cursor has moved off it. -/
theorem Treated.of_gone {a b : List (Slot α)} {x : Slot α}
    (hl : l.Lies (a ++ x :: b) l.heap.get? l.heap.size)
    (hl' : l'.Lies (a ++ b) (Nodes.set l.heap.get? x.handle (t.residue x.entry)) n)
    (hcursor : (∀ c, l.chain.cursor = some c → c ∈ handlesOf (a ++ x :: b)) →
      l'.chain.cursor = cursorAmong (handlesOf (a ++ x :: b)) l.chain.cursor (handlesOf (a ++ b))) :
    l.Treated l' (handlesOf (a ++ x :: b)) [(x.handle, t)] (handlesOf (a ++ b)) := by
  have hsub : (a ++ b).Sublist (a ++ x :: b) := (List.sublist_cons_self x b).append_left a
  have hx : x.handle ∉ handlesOf (a ++ b) := Row.not_mem_gap hl.spans.nodup
  have hgone : l'.heap.get? x.handle = t.residue x.entry := by
    rw [hl'.outside _ hx, Nodes.set_same]
  refine ⟨.of_spans hl'.spans, hsub.map _, hcursor, fun k hk => ?_, fun k hk => ?_, fun k hk => ?_,
    fun k hk => ?_⟩
  · obtain ⟨s, hs, rfl⟩ := List.mem_map.1 hk
    obtain ⟨node, hnode, hentry⟩ := hl.spans.linked.holds (hsub.subset hs)
    obtain ⟨node', hnode', hentry'⟩ := hl'.spans.linked.holds hs
    exact entry_congr hnode hnode' (hentry'.trans hentry.symm)
  · obtain ⟨rfl, rfl⟩ := Prod.mk.inj (List.mem_singleton.1 hk)
    refine ⟨x.entry, ?_, hgone⟩
    rw [entry, hl.spans.linked.middle]
    rfl
  · obtain ⟨rfl, rfl⟩ := Prod.mk.inj (List.mem_singleton.1 hk)
    exact hgone
  · have hne : k ≠ x.handle := fun he => hk (he ▸ by simp)
    rw [hl'.outside k fun hm => hk ((hsub.map _).subset hm), Nodes.set_other hne]

end Linkage

namespace LinkM

open Linkage

variable {l l' : Linkage α} {front rest : List Handle} {h : Handle}

/-- A cursor on a node that is unlinked goes on to the next node. -/
theorem unlink_cursor (hl : l.WellFormed (front ++ h :: rest)) (hrun : (unlink h).run l = .ok () l') :
    l'.chain.cursor = cursorAmong (front ++ h :: rest) l.chain.cursor (front ++ rest) := by
  obtain ⟨hshows, hhandles⟩ := hl.shows
  have hrow : l.scene.row.handles = front ++ h :: rest := hshows.handles_eq.symm.trans hhandles
  obtain ⟨a, tail, hr, rfl, htail⟩ := List.map_eq_append_iff.1 hrow
  obtain ⟨x, b, rfl, rfl, rfl⟩ := List.map_eq_cons_iff.1 htail
  obtain ⟨l₁, hrun₁, hl₁⟩ := unlink_shows hshows hr
  obtain rfl : l₁ = l' := by
    rw [hrun₁] at hrun
    exact (EStateM.Result.ok.inj hrun).2
  have hleft : (l.scene.row.erase x.handle).handles = handlesOf a ++ handlesOf b := by
    rw [Row.handles, Row.slots_erase hr hshows.nodup, handlesOf, List.map_append]
  calc l₁.chain.cursor = (l.scene.row.erase x.handle).cursor := hl₁.cursor
    _ = cursorAmong l.scene.row.handles l.scene.row.cursor (l.scene.row.erase x.handle).handles :=
      Row.cursor_filter _ hshows.nodup
    _ = _ := by rw [hrow, hleft, hshows.cursor]

/-- The step of a walk: one node of a chain is treated. -/
theorem treat_run (hl : l.Chained (front ++ h :: rest)) (t : Treatment) :
    ∃ l', (treat h t).run l = .ok () l' ∧
      l.Treated l' (front ++ h :: rest) [(h, t)] (front ++ keptOf [(h, t)] ++ rest) := by
  by_cases ht : t = .keep
  · subst ht
    have hstays : front ++ keptOf [(h, .keep)] ++ rest = front ++ h :: rest := List.append_assoc ..
    rw [hstays]
    exact ⟨l, rfl, .of_kept hl (by simp)⟩
  · obtain ⟨run, hrun, hlies⟩ := Lies.of_chained hl
    obtain ⟨a, tail, rfl, rfl, htail⟩ := List.map_eq_append_iff.1 hrun
    obtain ⟨x, b, rfl, rfl, rfl⟩ := List.map_eq_cons_iff.1 htail
    obtain ⟨l₁, l', hunlink, htreat, hl', hcursor⟩ := hlies.treat ht
    have hgoes : handlesOf a ++ keptOf [(x.handle, t)] ++ handlesOf b = handlesOf (a ++ b) := by
      simp [keptOf, ht]
    rw [hgoes, ← hrun]
    refine ⟨l', htreat, .of_gone hlies hl' fun hc => ?_⟩
    rw [hrun] at hc ⊢
    rw [hcursor, handlesOf, List.map_append]
    exact unlink_cursor (wellFormed_iff.2 ⟨hl, hc⟩) hunlink

/-- Treats some nodes one after the other, as was decided before. -/
def treatAll : List (Handle × Treatment) → LinkM α Unit
  | [] => return ()
  | (h, t) :: decided => do
    treat h t
    treatAll decided

theorem treatAll_run {decided : List (Handle × Treatment)}
    (hl : l.Chained (front ++ decided.map Prod.fst)) :
    ∃ l', (treatAll decided).run l = .ok () l' ∧
      l.Treated l' (front ++ decided.map Prod.fst) decided (front ++ keptOf decided) := by
  induction decided generalizing l front with
  | nil => exact ⟨l, rfl, .of_kept hl (by simp)⟩
  | cons d decided ih =>
    obtain ⟨h, t⟩ := d
    obtain ⟨l₁, hfirst, h₁⟩ := treat_run hl t
    obtain ⟨l₂, hothers, h₂⟩ := ih h₁.chained
    have hgone : t ≠ .keep → h ∉ front ++ keptOf [(h, t)] ++ decided.map Prod.fst := by
      intro ht
      have hnodup := hl.distinct
      rw [List.map_cons, List.nodup_middle, List.nodup_cons] at hnodup
      simpa [keptOf, ht] using hnodup.1
    refine ⟨l₂, ?_, ?_⟩
    · rw [treatAll, EStateM.run_bind, hfirst]
      exact hothers
    · rw [keptOf_cons, ← List.append_assoc]
      exact .cons hl.distinct h₁ hgone h₂ fun d hd => List.mem_append_right _ (List.mem_map_of_mem hd)

/-! ## Walks -/

/-- So many calls of an iterator that stands before `curr`, where each node is treated right after the call
that yields it. Answers what the calls answered, where the iterator stands then, and the policy's state. -/
def calls (policy : Policy σ) :
    Nat → Option Handle → σ → LinkM α (List (Option Handle) × Option Handle × σ)
  | 0, curr, s => return ([], curr, s)
  | n + 1, curr, s => do
    match ← read (·.visit curr) with
    | none =>
      let (answers, last) ← calls policy n curr s
      return (none :: answers, last)
    | some (h, next) =>
      let (treatment, s) := policy s h
      treat h treatment
      let (answers, last) ← calls policy n next s
      return (some h :: answers, last)

/-- A node of a chain is yielded, and the next one is noted, before anything becomes of it. -/
theorem visit_run (hl : l.Chained (front ++ h :: rest)) :
    (read (·.visit (some h))).run l = .ok (some (h, rest.head?)) l := by
  have hi : front.length < (front ++ h :: rest).length := by simp
  obtain ⟨n, hn, -, hnext⟩ := hl.links front.length hi
  have hat : (front ++ h :: rest)[front.length] = h := by simp
  have hbehind : (front ++ h :: rest)[front.length + 1]? = rest.head? := by
    rw [List.getElem?_append_right (by omega), List.head?_eq_getElem?]
    simp
  rw [hat] at hn
  rw [run_visit hn, ← hbehind, ← hnext]
  rfl

section Policy

variable (policy : Policy σ)

/-- A walk to the end of a chain comes to the treatment that was decided on before. -/
theorem sweepFrom_run (hl : l.Chained (front ++ rest)) {fuel : Nat} (hfuel : rest.length ≤ fuel) {s : σ}
    (htreated : (treatAll (policy.decisions s rest)).run l = .ok () l') (seen : List Handle) :
    (sweepFrom policy fuel rest.head? s seen).run l =
      .ok (seen.reverse ++ rest, policy.after s rest) l' := by
  induction rest generalizing l front fuel s seen with
  | nil =>
    unfold sweepFrom
    rw [List.head?_nil, EStateM.run_bind, run_visit_none, List.append_nil]
    exact congrArg (EStateM.Result.ok (seen.reverse, s)) (EStateM.Result.ok.inj htreated).2
  | cons h rest ih =>
    obtain ⟨fuel, rfl⟩ : ∃ f, fuel = f + 1 := ⟨fuel - 1, by simp at hfuel; omega⟩
    obtain ⟨l₁, htreat, h₁⟩ := treat_run hl (policy s h).1
    rw [Policy.decisions, treatAll, EStateM.run_bind, htreat] at htreated
    have hrest := ih h₁.chained (by simpa using hfuel) htreated (h :: seen)
    rw [List.reverse_cons, List.append_assoc] at hrest
    unfold sweepFrom
    simp only [List.head?_cons, EStateM.run_bind, visit_run hl, htreat]
    exact hrest

/-- An iterator that is through stays so. -/
theorem calls_none (n : Nat) (s : σ) (l : Linkage α) :
    (calls policy n none s).run l = .ok (List.replicate n none, none, s) l := by
  induction n with
  | zero => rfl
  | succ n ih =>
    unfold calls
    simp only [EStateM.run_bind, run_visit_none, ih]
    rfl

/-- Calls of an iterator come to it too, and those beyond the last node answer nothing. -/
theorem calls_run (hl : l.Chained (front ++ rest)) {s : σ}
    (htreated : (treatAll (policy.decisions s rest)).run l = .ok () l') (further : Nat) :
    (calls policy (rest.length + further) rest.head? s).run l =
      .ok (rest.map some ++ List.replicate further none, none, policy.after s rest) l' := by
  induction rest generalizing l front s with
  | nil =>
    rw [List.length_nil, Nat.zero_add, List.head?_nil, calls_none]
    exact congrArg (EStateM.Result.ok _) (EStateM.Result.ok.inj htreated).2
  | cons h rest ih =>
    obtain ⟨l₁, htreat, h₁⟩ := treat_run hl (policy s h).1
    rw [Policy.decisions, treatAll, EStateM.run_bind, htreat] at htreated
    have hrest := ih h₁.chained htreated
    rw [List.length_cons, Nat.add_right_comm]
    unfold calls
    simp only [List.head?_cons, EStateM.run_bind, visit_run hl, htreat, hrest]
    rfl

end Policy

/-- A walk survives what becomes of the nodes that it yields. On every chain, from every node of it or from
none, and under every policy, it comes to an end; it yields the nodes from there on, each once and in order,
and every further call of its iterator answers nothing. The nodes in front and those that the policy kept are
left, in order; a cursor that was on the chain is on the first of them that is not before its old node. -/
theorem sweep_survives {nodes : List Handle} (hl : l.Chained nodes) (i : Nat) (policy : Policy σ) (s : σ) :
    ∃ l', (sweep policy nodes[i]? s).run l = .ok (nodes.drop i, policy.after s (nodes.drop i)) l' ∧
      (∀ further, (calls policy ((nodes.drop i).length + further) nodes[i]? s).run l =
        .ok ((nodes.drop i).map some ++ List.replicate further none, none,
          policy.after s (nodes.drop i)) l') ∧
      l.Treated l' nodes (policy.decisions s (nodes.drop i))
        (nodes.take i ++ keptOf (policy.decisions s (nodes.drop i))) ∧
      (l.WellFormed nodes →
        l'.WellFormed (nodes.take i ++ keptOf (policy.decisions s (nodes.drop i)))) := by
  have hsplit : nodes.take i ++ nodes.drop i = nodes := List.take_append_drop i nodes
  have hstart : nodes[i]? = (nodes.drop i).head? := List.head?_drop.symm
  have hchained : l.Chained (nodes.take i ++ nodes.drop i) := by rwa [hsplit]
  have hdecided := policy.map_fst_decisions s (nodes.drop i)
  have hall : l.Chained (nodes.take i ++ (policy.decisions s (nodes.drop i)).map Prod.fst) := by
    rwa [hdecided]
  obtain ⟨l', htreated, h⟩ := treatAll_run hall
  rw [hdecided, hsplit] at h
  have hbound : (nodes.drop i).length ≤ l.heap.size + l.length + 1 := by
    rw [hl.length_eq, List.length_drop]
    omega
  refine ⟨l', ?_, fun further => ?_, h, h.wellFormed⟩
  · rw [hstart]
    exact sweepFrom_run policy hchained hbound htreated []
  · rw [hstart]
    exact calls_run policy hchained htreated further

/-- Frees the first node, unlinks the second one, and keeps the others. -/
def thinning : Policy Nat := fun n _ =>
  (match n with
    | 0 => .free
    | 1 => .unlink
    | _ => .keep, n + 1)

/-- From the second node on, the walk loses the node it stands on and then the one under the cursor. -/
theorem sweep_survives_winding : winding.Chained [2, 0, 3, 1] ∧ winding.WellFormed [2, 0, 3, 1] ∧
    ∃ l', (sweep thinning (some 0) 0).run winding = .ok ([0, 3, 1], 3) l' ∧
      (calls thinning 5 (some 0) 0).run winding =
        .ok ([some 0, some 3, some 1, none, none], none, 3) l' ∧
      l'.WellFormed [2, 1] ∧ l'.chain.cursor = some 1 ∧ l'.heap.get? 0 = none ∧
      l'.heap.get? 3 = some (.detached ⟨5, 1⟩) := by
  obtain ⟨l', hsweep, hcalls, htreated, hwf⟩ := sweep_survives winding_chained 1 thinning 0
  obtain ⟨e, hentry, hnode⟩ := htreated.unlinked 3 (by decide)
  obtain rfl : (⟨5, 1⟩ : Entry Nat) = e := Except.ok.inj hentry
  exact ⟨winding_chained, winding_wellFormed, l', hsweep, hcalls 2, hwf winding_wellFormed,
    htreated.cursor winding_wellFormed.cursor, htreated.freed 0 (by decide), hnode⟩

end LinkM

end LinkedDeque
