import LinkedDeque.Proofs.CursorWalk
import LinkedDeque.Proofs.TwinWalks

/-!
# LinkedDeque.Proofs.Alone

Lists do not interfere. A list of a world is compared with the same list alone in a heap, where only the
steps on it are carried out, with each allocation refused or not as it was:

* `World.sights` — what the user of a list sees of a run: each answer, the events of each operation, and
  the list after it.
* `World.alone`  — the world with one list of another world, and the nodes of that list.
* `World.own`    — the steps of a run on a list, as a run of their own.
* `Peers`        — two lists with the same entries, cursor and destructor, whatever nodes they are in.
* `World.run_alone` — both runs look the same, and steps on other lists change nothing in between.
-/

namespace LinkedDeque

variable {σ α : Type}

/-! ## What is seen of a list -/

/-- What the user of a list sees of its state. -/
structure Seen (α : Type) where
  contents : List (Entry α)
  length : Nat
  cursor : Option Nat
deriving DecidableEq

/-- What the user of a list sees of an operation on it: the list afterwards, and the one that it made. -/
structure Sight (α : Type) where
  result : Except Panic (Answer α)
  events : Array (Event α)
  after : Option (Seen α)
  made : Option (Seen α)

/-- An answer without the number of the list that was made. -/
def Answer.unnumbered : Answer α → Answer α
  | .list _ => .list 0
  | a => a

/-- The operation of a step on a list. -/
def Step.on? (k : Nat) : Step σ α → Option (Op σ α)
  | .use j op => if j = k then some op else none
  | _ => none

theorem Step.eq_use {k : Nat} {s : Step σ α} {op : Op σ α} (hs : s.on? k = some op) : s = .use k op := by
  cases s with
  | use j op' =>
    rw [on?] at hs
    split at hs
    · rename_i hj
      cases hs
      rw [hj]
    · cases hs
  | _ => cases hs

/-- A heap with some of its nodes only. -/
def Heap.only (heap : Heap α) (nodes : List Handle) : Heap α :=
  ⟨heap.cells.mapIdx fun h cell => if h ∈ nodes then cell else none⟩

theorem Heap.get?_only {heap : Heap α} {nodes : List Handle} {h : Handle} :
    (heap.only nodes).get? h = if h ∈ nodes then heap.get? h else none := by
  rw [get?, only, Array.getElem?_mapIdx, get?]
  cases heap.cells[h]? with
  | none => simp
  | some cell => split <;> simp_all

namespace World

def seen (w : World σ α) (k : Nat) : Option (Seen α) :=
  (w.list? k).map fun d =>
    ⟨(w.linkage d).contents, (w.linkage d).length, (w.linkage d).cursorIndex?⟩

/-- One list alone. It has the number 0 there. -/
def alone (w : World σ α) (k : Nat) : World σ α :=
  ⟨w.heap.only (w.nodes k), w.allocator, #[w.list? k]⟩

variable [AsBytes α] [AsText α]

def sight (w : World σ α) (k : Nat) (op : Op σ α) : Sight α :=
  let (outcome, w') := w.use k op
  ⟨Answer.unnumbered <$> outcome.result, outcome.events, w'.seen k, w'.seen w.lists.size⟩

/-- What the user of a list sees of a run. -/
def sights (k : Nat) : List (Step σ α) → World σ α → List (Sight α)
  | [], _ => []
  | s :: rest, w => (s.on? k).toList.map (w.sight k) ++ sights k rest (w.step s).2

/-- The steps of a run on a list, each with the refusals that were still to come when it was taken. -/
def own (k : Nat) : List (Step σ α) → World σ α → List (Step σ α)
  | [], _ => []
  | s :: rest, w =>
    (s.on? k).toList.flatMap (fun op => [.arm w.allocator.upcoming, .use 0 op]) ++ own k rest (w.step s).2

end World

/-- Two lists have the same entries, cursor and destructor, or neither is there. -/
structure Peers (w : World σ α) (k : Nat) (w' : World σ α) (k' : Nat) : Prop where
  default : (w.list? k).map Deque.default = (w'.list? k').map Deque.default
  row : (w.row k).Alike (w'.row k')

namespace World

variable {w w' : World σ α} {strayed strayed' : List Handle} {k k' : Nat} {d d' : Deque σ α}

theorem Sound.seen_eq (hw : w.Sound strayed) (k : Nat) : w.seen k = (w.list? k).map fun _ =>
    ⟨(w.row k).entries, (w.row k).length, (w.row k).cursorIndex?⟩ := by
  rw [seen, row]
  cases hk : w.list? k with
  | none => rfl
  | some d =>
    have hshows := hw.shows hk
    rw [Option.map_some, Option.map_some, hshows.contents_eq, hshows.length_eq, hshows.cursorIndex?_eq]
    rfl

theorem seen_size (w : World σ α) : w.seen w.lists.size = none := by
  rw [seen, list?, Array.getElem?_eq_none (Nat.le_refl _)]
  rfl

theorem list?_peers (h : Peers w k w' k') : (w.list? k = none ∧ w'.list? k' = none) ∨
    ∃ d d', w.list? k = some d ∧ w'.list? k' = some d' ∧ d.default = d'.default := by
  have hdefault := h.default
  cases hk : w.list? k with
  | none =>
    rw [hk, Option.map_none, eq_comm, Option.map_eq_none_iff] at hdefault
    exact .inl ⟨rfl, hdefault⟩
  | some d =>
    rw [hk, Option.map_some, eq_comm, Option.map_eq_some_iff] at hdefault
    obtain ⟨d', hk', he⟩ := hdefault
    exact .inr ⟨d, d', rfl, hk', he.symm⟩

/-- Nothing that is seen tells peers apart. -/
theorem Sound.seen_peers (hw : w.Sound strayed) (hw' : w'.Sound strayed') (h : Peers w k w' k') :
    w.seen k = w'.seen k' := by
  rw [hw.seen_eq, hw'.seen_eq, h.row.entries, h.row.length, h.row.cursorIndex?]
  rcases list?_peers h with ⟨hk, hk'⟩ | ⟨d, d', hk, hk', -⟩
  · rw [hk, hk']
  · rw [hk, hk']
    rfl

theorem twin_view (h : (w.row k).Alike (w'.row k')) (hk : w.list? k = some d) (hk' : w'.list? k' = some d')
    (hdefault : d.default = d'.default) (hcoming : w.allocator.upcoming = w'.allocator.upcoming) :
    (w.view d).Twin (w'.view d') := by
  rw [row_of_list? hk, row_of_list? hk'] at h
  exact ⟨h, congrArg Destructors.ofDefault hdefault, hcoming, rfl⟩

/-! ## One list alone -/

theorem list?_alone (w : World σ α) (k j : Nat) :
    (w.alone k).list? j = if j = 0 then w.list? k else none := by
  rw [list?, alone]
  cases j with
  | zero => cases h : w.list? k <;> simp
  | succ j => simp

theorem Sound.shows_alone (hw : w.Sound strayed) (hk : w.list? k = some d) :
    ((w.alone k).linkage d).Shows ⟨w.row k, Nodes.hide (w.alone k).heap.get? (w.row k).slots,
      (w.alone k).heap.size⟩ := by
  rw [row_of_list? hk]
  refine (hw.shows hk).frame fun h hh => ?_
  have hmem : h ∈ w.nodes k := by
    rw [hw.nodes_eq, row_of_list? hk]
    exact hh
  exact Heap.get?_only.trans (if_pos hmem)

theorem Sound.row_alone (hw : w.Sound strayed) (hk : w.list? k = some d) (j : Nat) :
    (w.alone k).row j = if j = 0 then w.row k else .empty := by
  have hlist := list?_alone w k j
  split at hlist
  · rw [row_of_list? (hlist.trans hk), if_pos ‹_›]
    exact (hw.shows_alone hk).row_eq
  · rw [row_of_not_list? hlist, if_neg ‹_›]

theorem Sound.alone (hw : w.Sound strayed) (hk : w.list? k = some d) : (w.alone k).Sound [] := by
  have hrow := hw.row_alone hk
  refine ⟨?_, ?_, ?_, List.nodup_nil, ?_, ?_⟩
  · intro j e hj
    rw [list?_alone] at hj
    split at hj
    · rw [hk] at hj
      cases hj
      exact (hw.shows_alone hk).own
    · cases hj
  · intro i j h hi hj
    rw [hrow] at hi hj
    split at hi
    · split at hj
      · rename_i hi' hj'
        rw [hi', hj']
      · cases hj
    · cases hi
  · intro h n hn
    have hn' : (if h ∈ w.nodes k then w.heap.get? h else none) = some n := Heap.get?_only.symm.trans hn
    split at hn'
    · rename_i hmem
      refine .inr ⟨0, ?_⟩
      rw [hrow, if_pos rfl, ← hw.nodes_eq]
      exact hmem
    · cases hn'
  · exact fun hh => absurd hh List.not_mem_nil
  · exact fun hh => absurd hh List.not_mem_nil

theorem Sound.peers_alone (hw : w.Sound strayed) (hk : w.list? k = some d) : Peers w k (w.alone k) 0 := by
  refine ⟨by rw [list?_alone, if_pos rfl], ?_⟩
  rw [hw.row_alone hk, if_pos rfl]
  exact .refl _

variable [AsBytes α] [AsText α]

/-! ## One step -/

/-- The entries of the list that an operation makes. -/
def readBy : Except Panic (Answer α × Option (List (Slot α))) → Option (List (Slot α))
  | .ok (_, made) => made
  | .error _ => none

/-- An operation on a list comes to what is read: the answer and the events, the list that it leaves, and
the list that it makes. -/
structure Comes (w : World σ α) (k : Nat) (op : Op σ α)
    (r : Reading σ α (Answer α × Option (List (Slot α)))) : Prop where
  result : Answer.unnumbered <$> (w.use k op).1.result = (fun b => b.1.unnumbered) <$> r.1
  events : (w.use k op).1.events = r.2.trace
  default : ((w.use k op).2.list? k).map Deque.default =
    if op.endsList then none else some r.2.destructors.default
  row : (w.use k op).2.row k = if op.endsList then .empty else r.2.row
  madeDefault : ((w.use k op).2.list? w.lists.size).map Deque.default = (readBy r.1).map fun _ => none
  madeRow : (w.use k op).2.row w.lists.size = (readBy r.1).elim .empty fun made => ⟨made, []⟩

theorem Comes.of_use {op : Op σ α} {r : Reading σ α (Answer α × Option (List (Slot α)))}
    {result : Except Panic (Answer α)} {l : Linkage α} {chain : Option Chain} (hk : w.list? k = some d)
    (hresult : Answer.unnumbered <$> result = (fun b => b.1.unnumbered) <$> r.1) (hl : l.Shows r.2.toScene)
    (hmade : Makes r.2 chain (readBy r.1))
    (huse : w.use k op = (⟨result, r.2.trace⟩, ⟨l.heap, r.2.allocator, settle w.lists k
      (if op.endsList then none else some ⟨l.chain, r.2.destructors.default⟩) chain⟩)) : Comes w k op r := by
  let left : Option (Deque σ α) :=
    if op.endsList then none else some ⟨l.chain, r.2.destructors.default⟩
  have hlist : ∀ j, (settle w.lists k left chain)[j]?.join = _ := getElem?_settle (lt_of_list? hk)
  have hself : (w.use k op).2.list? k =
      if op.endsList then none else some ⟨l.chain, r.2.destructors.default⟩ := by
    rw [huse]
    exact (hlist k).trans (if_pos rfl)
  have hnew : (w.use k op).2.list? w.lists.size = chain.map fun chain => ⟨chain, none⟩ := by
    rw [huse]
    exact (hlist _).trans ((if_neg (Nat.ne_of_gt (lt_of_list? hk))).trans (if_pos rfl))
  refine ⟨by rw [huse]; exact hresult, by rw [huse], ?_, ?_, ?_, ?_⟩
  · rw [hself]
    split <;> rfl
  · cases hends : op.endsList with
    | true =>
      rw [hends, if_pos rfl] at hself
      rw [row_of_not_list? hself, if_pos rfl]
    | false =>
      rw [hends, if_neg Bool.false_ne_true] at hself
      rw [row_of_list? hself, huse, if_neg Bool.false_ne_true]
      exact hl.row_eq
  · rw [hnew]
    generalize readBy r.1 = read at hmade
    cases hmade <;> rfl
  · generalize readBy r.1 = read at hmade ⊢
    cases hmade with
    | nothing => exact row_of_not_list? hnew
    | list hm =>
      rw [row_of_list? hnew, huse]
      exact (hm.shows_aside hl).row_eq

/-- Every operation on a list of a world ends as it is read. -/
theorem use_whole (hw : w.Sound strayed) (hk : w.list? k = some d) (op : Op σ α) :
    ∃ result chain, ∃ l : Linkage α,
      Answer.unnumbered <$> result = (fun b => b.1.unnumbered) <$> (op.whole (w.view d)).1 ∧
      l.Shows (op.whole (w.view d)).2.toScene ∧
      Makes (op.whole (w.view d)).2 chain (readBy (op.whole (w.view d)).1) ∧
      w.use k op = (⟨result, (op.whole (w.view d)).2.trace⟩,
        ⟨l.heap, (op.whole (w.view d)).2.allocator, settle w.lists k
          (if op.endsList then none else some ⟨l.chain, (op.whole (w.view d)).2.destructors.default⟩)
          chain⟩) := by
  cases hop : op.isMap with
  | false =>
    obtain ⟨l, hl, huse⟩ := use_reads hw hk op hop
    rw [Op.whole_of_reading hop]
    have hnone : Makes (op.reading (w.view d)).2 none
        (readBy ((fun a => (a, none)) <$> (op.reading (w.view d)).1)) := by
      cases (op.reading (w.view d)).1 <;> exact .nothing
    refine ⟨_, none, l, ?_, hl, hnone, huse⟩
    cases (op.reading (w.view d)).1 <;> rfl
  | true =>
    obtain ⟨transform, rfl⟩ := Op.eq_map hop
    have hact : Ensures (Op.map transform).act (w.view d) fun out u =>
        ∃ read, (Op.map transform).whole (w.view d) = (read, u) ∧ Makes u (madeBy out) (readBy read) ∧
          Answer.unnumbered <$> w.answer out = (fun b => b.1.unnumbered) <$> read := by
      rw [Op.act]
      refine (Ensures.maps transform (w.view d)).bind ?_ ?_
      · rintro ⟨chain, f⟩ u (⟨_, made, _, he, hread, hmade⟩ | ⟨p, he, -⟩)
        · cases he
          refine (Ensures.of_shows fun l hl => ?_)
          rw [Op.whole, hread]
          cases hmade with
          | nothing => exact (Leads.pure _ _).ensures ⟨_, rfl, .nothing, rfl⟩
          | list hm => exact (Leads.pure _ _).ensures ⟨_, rfl, .list hm, rfl⟩
        · cases he
      · rintro p u (⟨_, _, _, he, -⟩ | ⟨_, he, hread⟩)
        · cases he
        · cases he
          rw [Op.whole, hread]
          exact ⟨_, rfl, .nothing, rfl⟩
    obtain ⟨out, u, l, ⟨read, hread, hmade, hresult⟩, hl, huse⟩ := use_ensures hk (hw.shows hk) hact
    rw [hread]
    exact ⟨_, _, l, hresult, hl, hmade, huse⟩

/-- Every operation on a list comes to its reading. -/
theorem use_comes (hw : w.Sound strayed) (hk : w.list? k = some d) (op : Op σ α) :
    Comes w k op (op.whole (w.view d)) := by
  obtain ⟨result, chain, l, hresult, hl, hmade, huse⟩ := use_whole hw hk op
  exact .of_use hk hresult hl hmade huse

namespace Comes

variable {op : Op σ α} {r r' : Reading σ α (Answer α × Option (List (Slot α)))}
  (hc : Comes w k op r) (hc' : Comes w' k' op r') (h : Agree Op.AnswersAlike r r')

include hc hc' h

theorem peers : Peers (w.use k op).2 k (w'.use k' op).2 k' := by
  have hview := h.view
  refine ⟨by rw [hc.default, hc'.default, hview.destructors], ?_⟩
  rw [hc.row, hc'.row]
  split
  · exact .refl _
  · exact hview.row

/-- The lists that are made are peers, if any are. -/
theorem peers_made : Peers (w.use k op).2 w.lists.size (w'.use k' op).2 w'.lists.size := by
  have hread : (readBy r.1).map entriesOf = (readBy r'.1).map entriesOf := by
    cases h with
    | ok hb hv => exact hb.2
    | error p hv => rfl
  refine ⟨?_, ?_⟩
  · rw [hc.madeDefault, hc'.madeDefault]
    simpa only [Option.map_map, Function.comp_def] using
      congrArg (Option.map fun _ => (none : Option (Destructor σ α))) hread
  · rw [hc.madeRow, hc'.madeRow]
    generalize readBy r.1 = made, readBy r'.1 = made' at hread ⊢
    cases made with
    | none =>
      rw [Option.map_none, eq_comm, Option.map_eq_none_iff] at hread
      rw [hread]
      exact .refl _
    | some made =>
      obtain ⟨made', rfl, he⟩ := Option.map_eq_some_iff.1 hread.symm
      exact ⟨he.symm, rfl⟩

theorem outcome_eq :
    Answer.unnumbered <$> (w.use k op).1.result = Answer.unnumbered <$> (w'.use k' op).1.result ∧
      (w.use k op).1.events = (w'.use k' op).1.events := by
  rw [hc.result, hc'.result, hc.events, hc'.events, h.view.trace]
  cases h with
  | ok hb hv => exact ⟨congrArg (fun a => Except.ok (Answer.unnumbered a)) hb.1, rfl⟩
  | error p hv => exact ⟨rfl, rfl⟩

end Comes

/-- An operation on one of two peers, with the same refusals to come, looks as it does on the other one, and
leaves peers. -/
theorem use_peers (hw : w.Sound strayed) (hw' : w'.Sound strayed') (h : Peers w k w' k')
    (hcoming : w.allocator.upcoming = w'.allocator.upcoming) (op : Op σ α) :
    w.sight k op = w'.sight k' op ∧ Peers (w.use k op).2 k (w'.use k' op).2 k' := by
  rw [sight, sight]
  rcases list?_peers h with ⟨hk, hk'⟩ | ⟨d, d', hk, hk', hdefault⟩
  · rw [use_absent hk, use_absent hk']
    refine ⟨?_, h⟩
    simp only [seen_size, hw.seen_peers hw' h]
  · have htwin := twin_view h.row hk hk' hdefault hcoming
    have hagree := op.whole_agrees htwin (hw.nodup_view hk) (hw'.nodup_view hk')
    have hcomes := use_comes hw hk op
    have hcomes' := use_comes hw' hk' op
    have hafter := hcomes.peers hcomes' hagree
    have hmade := hcomes.peers_made hcomes' hagree
    obtain ⟨hresult, hevents⟩ := hcomes.outcome_eq hcomes' hagree
    have hsound := use_sound hw k op
    have hsound' := use_sound hw' k' op
    refine ⟨?_, hafter⟩
    simp only [hresult, hevents, hsound.seen_peers hsound' hafter, hsound.seen_peers hsound' hmade]

/-- A step on another list leaves a list as it is. -/
theorem step_other (hw : w.Sound strayed) (hk : k < w.lists.size) {s : Step σ α} (hs : s.on? k = none) :
    (w.step s).2.list? k = w.list? k ∧ (w.step s).2.row k = w.row k := by
  cases s with
  | arm refuses => exact ⟨rfl, rfl⟩
  | create default =>
    exact ⟨(create_list? w default k).trans (if_neg (Nat.ne_of_lt hk)), create_row w default k⟩
  | use j op =>
    have hj : k ≠ j := by
      rintro rfl
      rw [Step.on?, if_pos rfl] at hs
      cases hs
    rw [step]
    cases hd : w.list? j with
    | none =>
      rw [use_absent hd]
      exact ⟨rfl, rfl⟩
    | some d =>
      obtain ⟨u, heap', chain', strays, made, hu⟩ := use_eq hd (hw.shows hd) op
      refine ⟨?_, hu.row_other hw hd hj (Nat.ne_of_lt hk)⟩
      rw [hu.list?_eq hd, if_neg hj, if_neg (Nat.ne_of_lt hk)]

theorem step_lt (hw : w.Sound strayed) (hk : k < w.lists.size) (s : Step σ α) :
    k < (w.step s).2.lists.size := Nat.lt_of_lt_of_le hk (step_grows hw s).2

/-! ## Whole runs -/

/-- Peers look the same in a run and in the run of the steps on one of them alone. -/
theorem run_peers (steps : List (Step σ α)) (hw : w.Sound strayed) (hw' : w'.Sound strayed')
    (hk : k < w.lists.size) (h : Peers w k w' 0) :
    sights k steps w = sights 0 (own k steps w) w' ∧
      Peers (run steps w).2 k (run (own k steps w) w').2 0 := by
  induction steps generalizing w w' strayed strayed' with
  | nil => exact ⟨rfl, h⟩
  | cons s rest ih =>
    have hnext := step_sound hw s
    have hlt := step_lt hw hk s
    rw [sights, own]
    cases hs : s.on? k with
    | none =>
      obtain ⟨hlist, hrow⟩ := step_other hw hk hs
      exact ih hnext hw' hlt ⟨by rw [hlist]; exact h.default, by rw [hrow]; exact h.row⟩
    | some op =>
      obtain rfl := Step.eq_use hs
      -- the refusals to come are set to those of the other run
      let armed := (w'.step (.arm w.allocator.upcoming)).2
      have harmed : armed.Sound _ := step_sound hw' (.arm w.allocator.upcoming)
      obtain ⟨hsight, hpeers⟩ := use_peers hw harmed ⟨h.default, h.row⟩
        (Allocator.upcoming_ofPattern _).symm op
      obtain ⟨hsights, hafter⟩ := ih hnext (use_sound harmed 0 op) hlt hpeers
      refine ⟨?_, hafter⟩
      exact congrArg₂ List.cons hsight hsights

theorem run_others (others : List (Step σ α)) (hw : w.Sound strayed) (hk : k < w.lists.size)
    (hothers : ∀ s ∈ others, s.on? k = none) : (run others w).2.seen k = w.seen k := by
  induction others generalizing w strayed with
  | nil => rfl
  | cons s rest ih =>
    obtain ⟨hlist, hrow⟩ := step_other hw hk (hothers s (List.mem_cons_self ..))
    have hnext := step_sound hw s
    have hrest : (run rest (w.step s).2).2.seen k = (w.step s).2.seen k :=
      ih hnext (step_lt hw hk s) fun s hs => hothers s (List.mem_cons_of_mem _ hs)
    refine Eq.trans hrest ?_
    rw [hnext.seen_eq, hw.seen_eq, hlist, hrow]

/-- Lists do not interfere. From any moment on, such as the one at which it was made, a list goes through a
run as it does alone: its user sees the same answers, events and states when only the steps on it are
carried out, with each allocation as it was. Steps on other lists change nothing that is seen of it. -/
theorem run_alone (before after : List (Step σ α)) {k : Nat} {d : Deque σ α}
    (hk : (run before start).2.list? k = some d) :
    let w := (run before start).2
    (w.alone k).seen 0 = w.seen k ∧
      sights k after w = sights 0 (own k after w) (w.alone k) ∧
      (run after w).2.seen k = (run (own k after w) (w.alone k)).2.seen 0 ∧
      ∀ others : List (Step σ α), (∀ s ∈ others, s.on? k = none) →
        (run others w).2.seen k = w.seen k := by
  intro w
  have hw : w.Sound ([] ++ World.strayed before start) := run_sound before start_sound
  have hlt := lt_of_list? hk
  have halone := hw.alone hk
  have hpeers := hw.peers_alone hk
  obtain ⟨hsights, hafter⟩ := run_peers after hw halone hlt hpeers
  refine ⟨(hw.seen_peers halone hpeers).symm, hsights, ?_, fun others => run_others others hw hlt⟩
  exact (run_sound after hw).seen_peers (run_sound _ halone) hafter

/-- A list of two entries that a transformation made goes on by itself after its source was emptied and
ended. -/
theorem run_alone_made :
    let w := (run [.create none, .use 0 (.push .after (.int 1) (.exact 8)),
      .use 0 (.push .after (.int 2) (.exact 8)), .use 0 (.map ⟨true, fun s e => (.returns e, s)⟩)]
      (start : World Bool Payload)).2
    let after : List (Step Bool Payload) := [.use 0 (.eraseWhere ⟨true, fun s _ => (.returns true, s)⟩ none),
      .use 1 .cursorReset, .use 0 (.destroy none), .use 1 (.push .before (.int 3) (.exact 8))]
    (∃ d, w.list? 1 = some d) ∧ (own 1 after w).length = 4 ∧
      sights 1 after w = sights 0 (own 1 after w) (w.alone 1) ∧
      (run (own 1 after w) (w.alone 1)).2.seen 0 =
        some ⟨[⟨.int 3, 8⟩, ⟨.int 1, 8⟩, ⟨.int 2, 8⟩], 3, some 1⟩ ∧
      (run [.use 0 (.destroy none)] w).2.seen 1 = w.seen 1 := by
  intro w after
  obtain ⟨d, hk⟩ : ∃ d, w.list? 1 = some d := Option.isSome_iff_exists.1 (by decide +kernel)
  obtain ⟨-, hsights, hafter, hothers⟩ := run_alone _ after hk
  refine ⟨⟨d, hk⟩, rfl, hsights, hafter.symm.trans (by decide +kernel), hothers _ ?_⟩
  rintro s hs
  obtain rfl := List.mem_singleton.1 hs
  rfl

end World

end LinkedDeque
