import LinkedDeque.Forms
import LinkedDeque.Proofs.Alone
import LinkedDeque.Proofs.Images
import LinkedDeque.Proofs.Inverses
import LinkedDeque.Proofs.Recorded
import LinkedDeque.Proofs.Texts

/-!
# LinkedDeque.Proofs.Provenance

Where the byte length comes from that is seen of an entry:

* `Op.byteLens`    — the byte lengths that an operation fixes for the entries it inserts.
* `Op.sights`      — the nodes whose entries an operation shows, to its caller or to a callback.
* `World.byteLens` — the byte lengths fixed in a run, each in the place of the node it was fixed for.
* `World.Records`  — what is seen of a node is what stands in its place.
* `World.FixesByForm` — what the plain, sized and text forms of a push fix.
* `World.run_records` — all of this after every run, whatever the next operation is.

A node has a number of its own, which no other node ever has, so an entry is followed by its node.
-/

namespace LinkedDeque

variable {σ α β : Type}

/-! ## What is seen -/

def answeredIn : Except Panic (Answer α) → List (Entry α)
  | .ok (.entry (some e)) => [e]
  | _ => []

/-- The entries that callbacks were called on, and the one that is answered. -/
def Outcome.seen (o : Outcome α) : List (Entry α) := calledIn o.events ++ answeredIn o.result

theorem answeredIn_unnumbered (r : Except Panic (Answer α)) :
    answeredIn (Answer.unnumbered <$> r) = answeredIn r := by
  rcases r with p | a
  · rfl
  · cases a <;> rfl

namespace Op

/-- The nodes whose entries an operation shows, in order. Callbacks may be shown fewer. -/
def sights (nodes : List Handle) (cursor : Option Handle) : Op σ α → List Handle
  | pop .before | peek .before _ | cursorFirst _ => nodes.head?.toList
  | pop .after | peek .after _ => nodes.getLast?.toList
  | get i _ | takeIdx i => nodes[i]?.toList
  | getRelative i => ((Linkage.absoluteIndex? nodes.length i).bind (nodes[·]?)).toList
  | cursorNext _ => cursor.toList
  | visitEach _ | eraseWhere _ _ | map _ => nodes
  | _ => []

/-- An operation that shows its entries to a callback. -/
def visits : Op σ α → Bool
  | visitEach _ | eraseWhere _ _ | map _ => true
  | _ => false

def views (r : Row α) : Op σ α → List (Slot α)
  | pop side | peek side _ => (r.tip? side).toList
  | cursorFirst _ => r.slots.head?.toList
  | get i _ | takeIdx i => r.slots[i]?.toList
  | getRelative i => ((Linkage.absoluteIndex? r.length i).bind (r.slots[·]?)).toList
  | cursorNext _ => r.due.head?.toList
  | visitEach _ | eraseWhere _ _ | map _ => r.slots
  | _ => []

theorem handlesOf_toList (s : Option (Slot α)) : handlesOf s.toList = (s.map Slot.handle).toList := by
  cases s <;> rfl

theorem handlesOf_views (op : Op σ α) (r : Row α) :
    handlesOf (op.views r) = op.sights r.handles r.cursor := by
  have hlength : r.handles.length = r.length := List.length_map _
  cases op with
  | pop side => cases side <;> simp [views, sights, handlesOf_toList, Row.tip?, Row.handles]
  | peek side write => cases side <;> simp [views, sights, handlesOf_toList, Row.tip?, Row.handles]
  | cursorFirst write => simp [views, sights, handlesOf_toList, Row.handles]
  | get i write => simp [views, sights, handlesOf_toList, Row.handles]
  | takeIdx i => simp [views, sights, handlesOf_toList, Row.handles]
  | getRelative i =>
    rw [views, sights, handlesOf_toList, hlength]
    cases Linkage.absoluteIndex? r.length i with
    | none => rfl
    | some j => simp [Row.handles]
  | cursorNext write => simp [views, sights, handlesOf_toList, Row.cursor, ahead_eq_head?]
  | visitEach visitor => rfl
  | eraseWhere predicate override => rfl
  | map transform => rfl
  | _ => rfl

theorem mem_of_views {op : Op σ α} {r : Row α} {s : Slot α} (hs : s ∈ op.views r) : s ∈ r.slots := by
  cases op with
  | pop side => exact Leads.mem_of_tip? (Option.mem_toList.1 hs)
  | peek side write => exact Leads.mem_of_tip? (Option.mem_toList.1 hs)
  | cursorFirst write => exact List.mem_of_head? (Option.mem_toList.1 hs)
  | get i write => exact List.mem_of_getElem? (Option.mem_toList.1 hs)
  | takeIdx i => exact List.mem_of_getElem? (Option.mem_toList.1 hs)
  | getRelative i =>
    obtain ⟨j, -, hj⟩ := Option.bind_eq_some_iff.1 (Option.mem_toList.1 hs)
    exact List.mem_of_getElem? hj
  | cursorNext write => exact List.mem_append_right _ (List.mem_of_head? (Option.mem_toList.1 hs))
  | visitEach visitor => exact hs
  | eraseWhere predicate override => exact hs
  | map transform => exact hs
  | _ => cases hs

theorem sights_nil (op : Op σ α) : op.sights [] none = [] := by
  have hviews : op.views (.empty : Row α) = [] := by
    refine List.eq_nil_iff_forall_not_mem.2 fun s hs => ?_
    cases mem_of_views hs
  exact (op.handlesOf_views .empty).symm.trans (by rw [hviews]; rfl)

/-- What an operation shows of a scene stands in the places of the nodes. -/
theorem map_views {s : Scene α} {lens : List UInt64} (hs : s.Noted lens) (op : Op σ α) :
    (entriesOf (op.views s.row)).map (some ·.byteLen) =
      (op.sights s.row.handles s.row.cursor).map (lens[·]?) := by
  rw [← handlesOf_views, entriesOf, handlesOf, List.map_map, List.map_map]
  exact List.map_congr_left fun x hx => (hs.row x (mem_of_views hx)).symm

variable [AsBytes α]

/-- The byte lengths that an operation fixes for the entries it inserts, in order. -/
def byteLens (entries : List (Entry α)) : Op σ α → List UInt64
  | push _ x byteLen => [byteLen.resolve x]
  | insertIdx _ _ n => [n]
  | map transform => (transform.answers entries).map Entry.byteLen
  | _ => []

/-- What an operation leaves on record, and what it shows. -/
structure Notes (op : Op σ α) (lens : List UInt64) (v : View σ α) (r : Reading σ α (Answer α))
    (made : List UInt64) : Prop where
  noted : r.2.toScene.Noted (lens ++ made)
  fixed : made <+: op.byteLens v.row.entries
  seen : calledIn r.2.trace ++ answeredIn r.1 <+: entriesOf (op.views v.row)
  whole : op.visits = false → calledIn r.2.trace ++ answeredIn r.1 = entriesOf (op.views v.row)
  done : r.1 = .ok .done → made = op.byteLens v.row.entries

namespace Notes

variable {op : Op σ α} {lens : List UInt64} {v : View σ α} (ht : v.trace = #[])
  (hv : v.toScene.Noted lens)

include ht hv

theorem of_quiet {r : Reading σ α (Answer α)} (h : v.Quiet r.2)
    (hfixed : op.byteLens v.row.entries = []) (hseen : answeredIn r.1 = entriesOf (op.views v.row)) :
    op.Notes lens v r [] := by
  have hcalled : calledIn r.2.trace = [] := by rw [h.called, ht]; rfl
  have hwhole : calledIn r.2.trace ++ answeredIn r.1 = entriesOf (op.views v.row) := by
    rw [hcalled, List.nil_append, hseen]
  exact ⟨h.noted hv, List.nil_prefix, hwhole ▸ List.prefix_rfl, fun _ => hwhole, fun _ => hfixed.symm⟩

theorem of_inserted {n : UInt64} {r : Reading σ α (Except (InsertError α) Unit)}
    (h : v.AddsUpTo [n] (.ok ()) r) (hfixed : op.byteLens v.row.entries = [n])
    (hviews : op.views v.row = []) : ∃ made, op.Notes lens v (answered inserted r) made := by
  obtain ⟨made, hle, hadds, hdone⟩ := h
  have hcalled : calledIn r.2.trace = [] := by rw [hadds.called, ht]; rfl
  have hseen : calledIn (answered inserted r).2.trace ++ answeredIn (answered inserted r).1 = [] := by
    rw [show calledIn (answered inserted r).2.trace = [] from hcalled]
    obtain ⟨p | e | _, w⟩ := r <;> rfl
  refine ⟨made, hadds.noted hv, hfixed ▸ hle, ?_, fun _ => ?_, fun h => ?_⟩
  · rw [hseen]
    exact List.nil_prefix
  · rw [hseen, hviews]
    rfl
  · rw [hfixed]
    exact hdone (World.answered_inserted.1 h)

theorem of_visit {r : Reading σ α (Nat × β)}
    (h : ∃ heard, heard <+: v.row.entries ∧ v.Adds r.2 [] heard)
    (hfixed : op.byteLens v.row.entries = []) (hviews : op.views v.row = v.row.slots)
    (hvisits : op.visits = true) : op.Notes lens v (answered (fun b => .count b.1) r) [] := by
  obtain ⟨heard, hle, hadds⟩ := h
  have hcalled : calledIn r.2.trace = heard := by rw [hadds.called, ht]; rfl
  have hnone :
      answeredIn ((fun b : Nat × β => Answer.count b.1) <$> r.1 : Except Panic (Answer α)) = [] := by
    cases r.1 <;> rfl
  refine ⟨hadds.noted hv, List.nil_prefix, ?_, fun h => ?_, fun _ => hfixed.symm⟩
  · simp only [answered]
    rw [hcalled, hnone, List.append_nil, hviews]
    exact hle
  · rw [hvisits] at h
    cases h

end Notes

variable [AsText α] {lens : List UInt64} {v : View σ α}

theorem reading_notes (op : Op σ α) (hop : op.isMap = false) (ht : v.trace = #[])
    (hv : v.toScene.Noted lens) : ∃ made, op.Notes lens v (op.reading v) made := by
  cases op with
  | length => exact ⟨[], .of_quiet ht hv (.refl v) rfl rfl⟩
  | isEmpty => exact ⟨[], .of_quiet ht hv (.refl v) rfl rfl⟩
  | push side x byteLen => exact Notes.of_inserted ht hv (View.push_placed side).adds rfl rfl
  | insertIdx i x n => exact Notes.of_inserted ht hv (View.insertIdx_adds i x n v) rfl rfl
  | pop side =>
    refine ⟨[], .of_quiet ht hv (View.pop_quiet side v) rfl ?_⟩
    simp only [reading, answered, views, View.pop]
    cases v.row.tip? side <;> rfl
  | peek side write =>
    refine ⟨[], .of_quiet ht hv (View.peek_quiet side write v) rfl ?_⟩
    simp only [reading, answered, views, View.peek]
    cases v.row.tip? side <;> rfl
  | get i write =>
    refine ⟨[], .of_quiet ht hv (View.get_quiet i write v) rfl ?_⟩
    simp only [reading, answered, views, View.get]
    cases v.row.slots[i]? <;> rfl
  | getRelative i =>
    refine ⟨[], .of_quiet ht hv (.refl v) rfl ?_⟩
    simp only [reading, answered, views, View.getRelative]
    cases (Linkage.absoluteIndex? v.row.length i).bind (v.row.slots[·]?) <;> rfl
  | takeIdx i =>
    refine ⟨[], .of_quiet ht hv (View.takeIdx_quiet i v) rfl ?_⟩
    simp only [reading, answered, views, View.takeIdx]
    cases v.row.slots[i]? <;> rfl
  | eraseIdx i override =>
    refine ⟨[], .of_quiet ht hv (View.eraseIdx_quiet i override v) rfl ?_⟩
    simp only [reading, answered, views]
    rcases (v.eraseIdx i override).1 with p | e | u <;> rfl
  | cursorReset => exact ⟨[], .of_quiet ht hv (View.cursorReset_quiet v) rfl rfl⟩
  | cursorNext write =>
    refine ⟨[], .of_quiet ht hv (View.cursorNext_quiet write v) rfl ?_⟩
    simp only [reading, answered, views, View.cursorNext_fst]
    cases v.row.due.head? <;> rfl
  | cursorFirst write =>
    refine ⟨[], .of_quiet ht hv ((View.cursorReset_quiet v).quiet (View.cursorNext_quiet write _)) rfl ?_⟩
    have hdue : v.cursorReset.row.due = v.row.slots := rfl
    simp only [reading, answered, views, View.cursorNext_fst, hdue]
    cases v.row.slots.head? <;> rfl
  | visitEach visitor => exact ⟨[], .of_visit ht hv (View.visitEach_adds visitor v) rfl rfl rfl⟩
  | eraseWhere predicate override =>
    exact ⟨[], .of_visit ht hv (View.eraseWhere_adds predicate override v) rfl rfl rfl⟩
  | join refuses delimiter =>
    refine ⟨[], .of_quiet ht hv (View.join_quiet refuses delimiter v) rfl ?_⟩
    simp only [reading, answered, views]
    rcases (v.join refuses delimiter).1 with p | _ | text <;> rfl
  | destroy override =>
    refine ⟨[], .of_quiet ht hv (View.clear_quiet override v) rfl ?_⟩
    simp only [reading, answered, views]
    cases (v.clear override).1 <;> rfl
  | map transform => cases hop

/-- Every operation leaves its byte lengths on record, and shows what is there. -/
theorem whole_notes (op : Op σ α) (ht : v.trace = #[]) (hv : v.toScene.Noted lens) :
    ∃ made, op.Notes lens v (Prod.fst <$> (op.whole v).1, (op.whole v).2) made := by
  cases hop : op.isMap with
  | false =>
    have hread : (Prod.fst <$> (op.whole v).1, (op.whole v).2) = op.reading v := by
      rw [whole_of_reading hop]
      rcases op.reading v with ⟨_ | _, w⟩ <;> rfl
    rw [hread]
    exact op.reading_notes hop ht hv
  | true =>
    obtain ⟨transform, rfl⟩ := eq_map hop
    obtain ⟨made, heard, hmade, hheard, hnoted, hcalled⟩ := View.map_adds transform hv
    rw [ht, calledIn_empty, List.nil_append] at hcalled
    refine ⟨made, ?_⟩
    rw [whole]
    cases hr : v.map transform with
    | mk out w =>
      rw [hr] at hnoted hcalled
      rcases out with p | ⟨_ | made', f⟩
      all_goals
        refine ⟨hnoted, hmade, ?_, fun h => (by cases h), fun h => (by cases h)⟩
        simp only [hcalled]
        exact (List.append_nil heard).symm ▸ hheard

end Op

/-! ## Runs -/

/-- A list with one more node at one end. -/
def Side.extend (side : Side) (h : Handle) (nodes : List Handle) : List Handle :=
  match side with
  | before => h :: nodes
  | after => nodes ++ [h]

namespace World

variable {w : World σ α} {strayed : List Handle} {k : Nat} {d : Deque σ α} {lens : List UInt64}

/-- The entries of a list have the byte lengths that stand in the places of their nodes. -/
theorem Sound.contents_noted (hw : w.Sound strayed) (hn : w.heap.Noted lens) (k : Nat) :
    (w.contents k).map (some ·.byteLen) = (w.nodes k).map (lens[·]?) := by
  rw [hw.contents_eq, hw.nodes_eq]
  cases hk : w.list? k with
  | none =>
    rw [row_of_not_list? hk]
    rfl
  | some d =>
    have hs := ((hw.shows hk).noted_iff.2 hn).row
    rw [row_of_list? hk, Row.entries, Row.handles, handlesOf, List.map_map, List.map_map]
    exact List.map_congr_left fun x hx => (hs x hx).symm

variable [AsBytes α] [AsText α]

/-- The byte lengths that a step fixes: one for each node that it makes. -/
def fixed (w : World σ α) : Step σ α → List UInt64
  | .use k op => (op.byteLens (w.contents k)).take ((w.use k op).2.heap.size - w.heap.size)
  | _ => []

/-- The byte lengths that the steps of a run fix, in the order in which the nodes are made. -/
def byteLens : List (Step σ α) → World σ α → List UInt64
  | [], _ => []
  | s :: rest, w => w.fixed s ++ byteLens rest (w.step s).2

/-- What is seen of the nodes of a world stands in their places, and so it will be of those to come. -/
structure Records (w : World σ α) (lens : List UInt64) : Prop where
  size : lens.length = w.heap.size
  contents : ∀ k, (w.contents k).map (some ·.byteLen) = (w.nodes k).map (lens[·]?)
  /-- Callbacks are called on the nodes of the list from the front on. -/
  seen : ∀ k op, (w.use k op).1.seen.map (some ·.byteLen) <+:
    (op.sights (w.nodes k) (w.cursor? k)).map (lens[·]?)
  /-- Without a callback, exactly the node that the operation looks for is seen. -/
  answered : ∀ k op, op.visits = false → (w.use k op).1.seen.map (some ·.byteLen) =
    (op.sights (w.nodes k) (w.cursor? k)).map (lens[·]?)
  pushed : ∀ k side x spec, (w.use k (.push side x spec)).1.result = .ok .done →
    w.fixed (.use k (.push side x spec)) = [spec.resolve x] ∧
      (w.use k (.push side x spec)).2.nodes k = side.extend w.heap.size (w.nodes k)
  inserted : ∀ k i x n, (w.use k (.insertIdx i x n)).1.result = .ok .done →
    w.fixed (.use k (.insertIdx i x n)) = [n] ∧
      (w.use k (.insertIdx i x n)).2.nodes k = (w.nodes k).insertIdx i w.heap.size
  mapped : ∀ k transform j, (w.use k (.map transform)).1.result = .ok (.list j) →
    w.fixed (.use k (.map transform)) = (transform.answers (w.contents k)).map Entry.byteLen ∧
      (w.use k (.map transform)).2.nodes j = List.range' w.heap.size (w.contents k).length

/-- An operation on a list of a world notes what its reading does. -/
theorem use_notes (hw : w.Sound strayed) (hk : w.list? k = some d) (op : Op σ α) (hn : w.heap.Noted lens) :
    ∃ r : Reading σ α (Answer α), op.Notes lens (w.view d) r (w.fixed (.use k op)) ∧
      (w.use k op).1.seen = calledIn r.2.trace ++ answeredIn r.1 ∧
      (w.use k op).2.heap.Noted (lens ++ w.fixed (.use k op)) ∧
      (op.isMap = false → (w.use k op).1.result = r.1) := by
  have hv : (w.view d).toScene.Noted lens := (hw.shows hk).noted_iff.2 hn
  obtain ⟨made, hnotes⟩ := op.whole_notes (v := w.view d) rfl hv
  obtain ⟨result, chain, l, hresult, hl, -, huse⟩ := use_whole hw hk op
  have hheap : (w.use k op).2.heap.Noted (lens ++ made) := by
    rw [huse]
    exact hl.noted_iff.1 hnotes.noted
  have hfixed : w.fixed (.use k op) = made := by
    have hgrown : (w.use k op).2.heap.size - w.heap.size = made.length := by
      rw [← hheap.size, ← hn.size, List.length_append, Nat.add_sub_cancel_left]
    have hle := hnotes.fixed
    rw [hw.entries_view hk] at hle
    rw [fixed, hgrown]
    exact (List.prefix_iff_eq_take.1 hle).symm
  refine ⟨_, hfixed ▸ hnotes, ?_, hfixed ▸ hheap, fun hop => ?_⟩
  · have hanswered : answeredIn result = answeredIn (Prod.fst <$> (op.whole (w.view d)).1) := by
      rw [← answeredIn_unnumbered, hresult, ← answeredIn_unnumbered (Prod.fst <$> _)]
      cases (op.whole (w.view d)).1 <;> rfl
    rw [Outcome.seen, huse, hanswered]
  · rw [use_result hw hk op hop, Op.whole_of_reading hop]
    cases (op.reading (w.view d)).1 <;> rfl

theorem step_noted (hw : w.Sound strayed) (hn : w.heap.Noted lens) (s : Step σ α) :
    (w.step s).2.heap.Noted (lens ++ w.fixed s) := by
  cases s with
  | create default => exact (List.append_nil lens).symm ▸ hn
  | arm refuses => exact (List.append_nil lens).symm ▸ hn
  | use k op =>
    cases hk : w.list? k with
    | none =>
      have hnone : w.fixed (.use k op) = [] := by simp [fixed, use_absent hk]
      rw [step, use_absent hk, hnone, List.append_nil]
      exact hn
    | some d =>
      obtain ⟨r, -, -, hheap, -⟩ := use_notes hw hk op hn
      exact hheap

theorem run_noted (steps : List (Step σ α)) {w : World σ α} {strayed : List Handle} {lens : List UInt64}
    (hw : w.Sound strayed) (hn : w.heap.Noted lens) :
    (run steps w).2.heap.Noted (lens ++ byteLens steps w) := by
  induction steps generalizing w strayed lens with
  | nil => exact (List.append_nil lens).symm ▸ hn
  | cons s rest ih =>
    have h := ih (step_sound hw s) (step_noted hw hn s)
    rwa [List.append_assoc] at h

theorem byteLens_append (a b : List (Step σ α)) (w : World σ α) :
    byteLens (a ++ b) w = byteLens a w ++ byteLens b (run a w).2 := by
  induction a generalizing w with
  | nil => rfl
  | cons s a ih =>
    rw [List.cons_append, byteLens, ih, byteLens, List.append_assoc]
    rfl

/-- What an operation shows of a list of a world. -/
theorem use_seen (hw : w.Sound strayed) (hn : w.heap.Noted lens) (k : Nat) (op : Op σ α) :
    (w.use k op).1.seen.map (some ·.byteLen) <+: (op.sights (w.nodes k) (w.cursor? k)).map (lens[·]?) ∧
      (op.visits = false → (w.use k op).1.seen.map (some ·.byteLen) =
        (op.sights (w.nodes k) (w.cursor? k)).map (lens[·]?)) := by
  rw [hw.nodes_eq, hw.cursor?_eq]
  cases hk : w.list? k with
  | none =>
    rw [row_of_not_list? hk, use_absent hk]
    have hnone : op.sights (Row.empty : Row α).handles (Row.empty : Row α).cursor = [] := op.sights_nil
    rw [hnone]
    exact ⟨List.prefix_rfl, fun _ => rfl⟩
  | some d =>
    obtain ⟨r, hnotes, hseen, -⟩ := use_notes hw hk op hn
    have hviews := op.map_views ((hw.shows hk).noted_iff.2 hn)
    rw [row_of_list? hk, hseen]
    rw [show (w.linkage d).scene.row = (w.linkage d).row from rfl] at hviews
    rw [← hviews]
    exact ⟨hnotes.seen.map _, fun h => congrArg (List.map _) (hnotes.whole h)⟩

/-- An insertion that is accepted fixes its byte length, for the node that comes into the list. -/
theorem use_done (hw : w.Sound strayed) (hk : w.list? k = some d) (hn : w.heap.Noted lens) {op : Op σ α}
    {r : Reading σ α (Except (InsertError α) Unit)} {i : Nat} {e : Entry α} (hop : op.isMap = false)
    (hends : op.endsList = false) (hread : op.reading (w.view d) = Op.answered Op.inserted r)
    (hcame : r.1 = .ok (.ok ()) → (w.view d).Came r.2 i e) (hdone : (w.use k op).1.result = .ok .done) :
    w.fixed (.use k op) = op.byteLens (w.contents k) ∧
      (w.use k op).2.nodes k = (w.nodes k).insertIdx i w.heap.size := by
  obtain ⟨r', hnotes, -, -, hresult⟩ := use_notes hw hk op hn
  have haccepted : r.1 = .ok (.ok ()) := by
    rw [use_result hw hk op hop, hread] at hdone
    exact answered_inserted.1 hdone
  have hfresh : (w.view d).fresh = w.heap.size := (hw.shows hk).size.symm
  have hrow : (w.use k op).2.row k = (w.row k).insert i ⟨w.heap.size, e⟩ := by
    rw [use_row hw hk op hends, hread, row_of_list? hk, ← hfresh]
    exact (hcame haccepted).row
  constructor
  · rw [← hw.entries_view hk]
    exact hnotes.done ((hresult hop).symm.trans hdone)
  · rw [(use_sound hw k op).nodes_eq, hw.nodes_eq, hrow, Row.handles, Row.slots_insert, handlesOf,
      List.map_insertIdx]
    rfl

theorem list?_of_answer {op : Op σ α} {a : Answer α} (hresult : (w.use k op).1.result = .ok a)
    (ha : a ≠ .absent) : ∃ d, w.list? k = some d := by
  cases hk : w.list? k with
  | some d => exact ⟨d, rfl⟩
  | none =>
    rw [use_absent hk] at hresult
    exact absurd (Except.ok.inj hresult).symm ha

theorem use_pushed (hw : w.Sound strayed) (hn : w.heap.Noted lens) (k : Nat) (side : Side) (x : α)
    (spec : ByteLen) (hdone : (w.use k (.push side x spec)).1.result = .ok .done) :
    w.fixed (.use k (.push side x spec)) = [spec.resolve x] ∧
      (w.use k (.push side x spec)).2.nodes k = side.extend w.heap.size (w.nodes k) := by
  obtain ⟨d, hk⟩ := list?_of_answer hdone nofun
  let r := (w.view d).push side x (spec.resolve x)
  have hcame : r.1 = .ok (.ok ()) → (w.view d).Came r.2 ((w.view d).tipIdx side) ⟨x, spec.resolve x⟩ :=
    (View.push_placed side).accepts.2
  have hread : (Op.push side x spec).reading (w.view d) = Op.answered Op.inserted r := rfl
  obtain ⟨hfixed, hnodes⟩ := use_done hw hk hn rfl rfl hread hcame hdone
  refine ⟨hfixed, hnodes.trans ?_⟩
  cases side with
  | before => rfl
  | after =>
    have hlength : (w.view d).tipIdx .after = (w.nodes k).length := by
      rw [hw.nodes_eq, row_of_list? hk]
      exact (List.length_map _).symm
    rw [hlength, List.insertIdx_length_self]
    rfl

theorem use_inserted (hw : w.Sound strayed) (hn : w.heap.Noted lens) (k i : Nat) (x : α) (n : UInt64)
    (hdone : (w.use k (.insertIdx i x n)).1.result = .ok .done) :
    w.fixed (.use k (.insertIdx i x n)) = [n] ∧
      (w.use k (.insertIdx i x n)).2.nodes k = (w.nodes k).insertIdx i w.heap.size := by
  obtain ⟨d, hk⟩ := list?_of_answer hdone nofun
  let r := (w.view d).insertIdx i x n
  have hcame : r.1 = .ok (.ok ()) → (w.view d).Came r.2 i ⟨x, n⟩ := by
    intro haccepted
    rcases Nat.lt_or_ge (w.view d).row.length i with hi | hi
    · simp only [r, View.insertIdx_outside hi] at haccepted
      cases haccepted
    · exact (View.insertIdx_placed hi).accepts.2 haccepted
  have hread : (Op.insertIdx i x n).reading (w.view d) = Op.answered Op.inserted r := rfl
  exact use_done hw hk hn rfl rfl hread hcame hdone

theorem use_mapped (hw : w.Sound strayed) (k : Nat) (transform : Callback σ (Entry α) (Entry α)) (j : Nat)
    (hdone : (w.use k (.map transform)).1.result = .ok (.list j)) :
    w.fixed (.use k (.map transform)) = (transform.answers (w.contents k)).map Entry.byteLen ∧
      (w.use k (.map transform)).2.nodes j = List.range' w.heap.size (w.contents k).length := by
  obtain ⟨d, hk⟩ := list?_of_answer hdone nofun
  have hcontents : w.contents k = (w.linkage d).contents := by rw [contents, hk]
  obtain ⟨out, u, l, hmapped, -, huse⟩ := use_maps hw hk transform
  obtain ⟨chain, f, rfl⟩ : ∃ chain f, out = .ok (some chain, f) := by
    rw [huse] at hdone
    rcases out with p | ⟨_ | chain, f⟩
    · cases hdone
    · cases hdone
    · exact ⟨chain, f, rfl⟩
  obtain ⟨-, ⟨hanswers, hgrants⟩, -⟩ := hmapped
  have hentries : entriesOf (w.view d).row.slots = (w.linkage d).contents :=
    (hw.entries_view hk).trans hcontents
  have hlen : (w.view d).row.slots.length = (w.linkage d).contents.length := by
    rw [← hentries]
    exact (Row.length_entries _).symm
  rw [hentries] at hanswers
  rw [hlen] at hgrants
  obtain ⟨heap', chain', himages, hspared, hlists⟩ :=
    (use_images hk (hw.shows hk).wellFormed transform).1 hanswers hgrants
  obtain rfl : w.lists.size = j := by
    rw [himages] at hdone
    cases hdone
    rfl
  have hlength : (transform.answers (w.contents k)).length = (w.contents k).length := by
    rw [hcontents]
    exact hanswers
  constructor
  · have hgrown : heap'.size - w.heap.size = (w.contents k).length := by
      rw [hspared.size, hcontents]
      exact Nat.add_sub_cancel_left ..
    rw [fixed, himages, hgrown, ← hlength]
    exact List.take_of_length_le (List.length_map _).le
  · have hlist : (w.use k (.map transform)).2.list? w.lists.size = some ⟨chain', none⟩ := by
      rw [himages]
      exact congrArg Option.join Array.getElem?_push_size
    rw [nodes, hlist, himages, ← hlength, hcontents]
    exact hlists.wellFormed.shows.2

theorem Sound.records (hw : w.Sound strayed) (hn : w.heap.Noted lens) : w.Records lens where
  size := hn.size
  contents := hw.contents_noted hn
  seen k op := (use_seen hw hn k op).1
  answered k op := (use_seen hw hn k op).2
  pushed := use_pushed hw hn
  inserted := use_inserted hw hn
  mapped := use_mapped hw

/-- The byte lengths that the forms of a push fix when they are accepted: one that is left out is zero, one
that is given is kept, and that of a text is measured. -/
structure FixesByForm (w : World σ α) : Prop where
  plain : ∀ k (x : α), ∀ op ∈ [.pushBack x, .pushFront x, .enqueue x],
    (w.use k op).1.result = .ok .done → w.fixed (.use k op) = [0]
  sized : ∀ k (x : α) n, ∀ op ∈ [.pushBackSized x n, .pushFrontSized x n, .enqueueSized x n],
    (w.use k op).1.result = .ok .done → w.fixed (.use k op) = [n]
  resolved : ∀ k (x : α) spec, ∀ op ∈ [.pushBackWith x spec, .pushFrontWith x spec],
    (w.use k op).1.result = .ok .done → w.fixed (.use k op) = [spec.resolve x]
  text : ∀ k (x : α), ∀ op ∈ [.pushBackText x, .pushFrontText x, .enqueueText x],
    (w.use k op).1.result = .ok .done → w.fixed (.use k op) = [ByteLen.text.resolve x]

/-- A form of a push fixes what its way of determining the byte length comes to. -/
theorem Records.fixed_push (h : w.Records lens) {op : Op σ α} {side : Side} {x : α} {spec : ByteLen}
    (hop : op = .push side x spec) (hdone : (w.use k op).1.result = .ok .done) :
    w.fixed (.use k op) = [spec.resolve x] := by
  subst hop
  exact (h.pushed k side x spec hdone).1

theorem Records.fixesByForm (h : w.Records lens) : w.FixesByForm := by
  refine ⟨fun k x => ?_, fun k x n => ?_, fun k x spec => ?_, fun k x => ?_⟩
  all_goals simp only [List.forall_mem_cons]
  · exact ⟨h.fixed_push rfl, h.fixed_push rfl, h.fixed_push rfl, nofun⟩
  · exact ⟨h.fixed_push rfl, h.fixed_push rfl, h.fixed_push rfl, nofun⟩
  · exact ⟨h.fixed_push rfl, h.fixed_push rfl, nofun⟩
  · exact ⟨h.fixed_push rfl, h.fixed_push rfl, h.fixed_push rfl, nofun⟩

omit [AsBytes α] [AsText α] in
theorem start_noted : (start : World σ α).heap.Noted [] := by
  refine ⟨rfl, fun h n hn => ?_⟩
  rw [show (start : World σ α).heap = .empty from rfl, Heap.get?_empty] at hn
  cases hn

/-- After every run, what is seen of an entry is the byte length that was fixed when its node was made,
whatever happened since then. A byte length that is given is fixed as it is given; a push without one
fixes zero. For a text it is the number of bytes that the text takes up with its terminator, and so for an
encoded one the width of the characters that it comes to. -/
theorem run_records (steps : List (Step σ α)) :
    (run steps start).2.Records (byteLens steps start) ∧
      (run steps start).2.FixesByForm ∧
      (∀ s more,
        byteLens steps start ++ (run steps start).2.fixed s <+: byteLens (steps ++ s :: more) start) ∧
      (∀ (x : α) n, (ByteLen.exact n).resolve x = n) ∧
      ∀ x : α, (AsBytes.bytes x).size < 2 ^ 63 →
        (∀ b, ByteLen.Terminated (AsBytes.bytes x) b ↔ b = (ByteLen.text.resolve x).toNat) ∧
        ∀ s : String, AsBytes.bytes x = s.toUTF8 →
          (ByteLen.text.resolve x).toNat =
            ((s.toList.takeWhile (· ≠ '\x00')).map Char.utf8Size).sum + 1 := by
  have hn := run_noted steps start_sound (start_noted (σ := σ) (α := α))
  have hrecords := (run_sound steps start_sound).records hn
  refine ⟨hrecords, hrecords.fixesByForm, fun s more => ?_, fun x n => rfl, fun x hsize => ?_⟩
  · rw [byteLens_append, byteLens, ← List.append_assoc]
    exact List.prefix_append ..
  · have hresolve : (ByteLen.text.resolve x).toNat = ByteLen.textLen (AsBytes.bytes x) :=
      ByteLen.toNat_resolveBytes_text hsize
    rw [hresolve]
    refine ⟨fun b => ByteLen.terminated_iff, fun s hs => ?_⟩
    rw [hs, ByteLen.textLen_toUTF8]

/-- A text goes in, is overwritten, sees others come and go, and is mapped. -/
def lettered : List (Step Bool Payload) :=
  [.create none, .use 0 (.push .after (.text "né\x00e") .text), .use 0 (.push .before (.int 7) (.exact 0)),
    .use 0 (.insertIdx 1 (.int 9) 40), .use 0 (.get 2 (some (.text ""))), .use 0 (.eraseIdx 0 none),
    .use 0 (.map marking)]

/-- The text takes up four bytes with its terminator. They are still seen of the empty text that was
written over it, and of the number that it was mapped to. Next to them, a plain push fixes zero. -/
theorem run_records_lettered :
    byteLens lettered start = [4, 0, 40, 40, 4] ∧
      (run lettered start).2.nodes 0 = [2, 0] ∧ (run lettered start).2.nodes 1 = [3, 4] ∧
      ((run lettered start).2.use 0 (.get 1 none)).1.seen.map (some ·.byteLen) = [some 4] ∧
      ((run lettered start).2.use 1 (.pop .after)).1.seen.map (some ·.byteLen) = [some 4] ∧
      (run lettered start).2.fixed (.use 0 (.pushFront (.int 5))) = [0] ∧
      ∀ b, ByteLen.Terminated "né\x00e".toUTF8 b ↔ b = 4 := by
  obtain ⟨hrecords, hforms, -, -, htexts⟩ := run_records lettered
  have hbyteLens : byteLens lettered start = [4, 0, 40, 40, 4] := by decide +kernel
  have hnodes : (run lettered start).2.nodes 0 = [2, 0] := by decide +kernel
  have hmade : (run lettered start).2.nodes 1 = [3, 4] := by decide +kernel
  have hresolved : (ByteLen.text.resolve (Payload.text "né\x00e")).toNat = 4 := by decide +kernel
  have hget := hrecords.answered 0 (.get 1 none) rfl
  have hpop := hrecords.answered 1 (.pop .after) rfl
  obtain ⟨d, hd⟩ : ∃ d, (run lettered start).2.list? 0 = some d :=
    Option.isSome_iff_exists.1 (by decide +kernel)
  have hundone := use_push_undone (run_sound lettered start_sound) hd .before (.int 5) (.exact 0)
  have hpushed := hundone.accepted.2 (by decide +kernel)
  have hplain := hforms.plain 0 (.int 5) (.pushFront (.int 5)) (by simp) hpushed
  have hterminated := (htexts (.text "né\x00e") (by decide)).1
  rw [hbyteLens, hnodes] at hget
  rw [hbyteLens, hmade] at hpop
  rw [hresolved] at hterminated
  exact ⟨hbyteLens, hnodes, hmade, hget, hpop, hplain, hterminated⟩

end World

end LinkedDeque
