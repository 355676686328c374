import LinkedDeque.Proofs.Sequence
import LinkedDeque.Proofs.Visits

/-!
# LinkedDeque.Proofs.Readings

Every operation on a list, read off its row, and what it makes of a world:

* `Op.reading`      — what an operation comes to. A transformation, which makes a second row, is left aside.
* `World.use_reads` — an operation on a list of a world ends as its reading says.
* `World.use_maps`  — a transformation of a list of a world ends as `Ensures.Mapped` says.
* `View.Keeps`, `World.Sound.kept` — an operation that keeps the view of a list changes no list of the
  world, and no node.
-/

namespace LinkedDeque

variable {σ α β : Type}

namespace Op

variable [AsBytes α] [AsText α]

def answered (f : β → Answer α) (r : Reading σ α β) : Reading σ α (Answer α) := (f <$> r.1, r.2)

def joined : Option String → Answer α
  | none => .allocError
  | some text => .text text

/-- What an operation comes to. -/
def reading (v : View σ α) : Op σ α → Reading σ α (Answer α)
  | length => (.ok (.count v.row.length), v)
  | isEmpty => (.ok (.flag v.row.slots.isEmpty), v)
  | push side x byteLen => answered inserted (v.push side x (byteLen.resolve x))
  | pop side => answered .entry (v.pop side)
  | peek side write => answered .entry (v.peek side write)
  | get i write => answered (indexed (.entry ∘ some)) (v.get i write)
  | getRelative i => answered .entry (v.getRelative i)
  | eraseIdx i override => answered (indexed fun _ => .done) (v.eraseIdx i override)
  | takeIdx i => answered (indexed (.entry ∘ some)) (v.takeIdx i)
  | insertIdx i x byteLen => answered inserted (v.insertIdx i x byteLen)
  | cursorReset => (.ok .done, v.cursorReset)
  | cursorNext write => answered .entry (v.cursorNext write)
  | cursorFirst write => answered .entry (v.cursorReset.cursorNext write)
  | visitEach visitor => answered (fun b => .count b.1) (v.visitEach visitor)
  | eraseWhere predicate override => answered (fun b => .count b.1) (v.eraseWhere predicate override)
  | join refuses delimiter => answered joined (v.join refuses delimiter)
  | destroy override => answered (fun _ => .done) (v.clear override)
  | map _ => (.ok .absent, v)

def isMap : Op σ α → Bool
  | map _ => true
  | _ => false

omit [AsBytes α] [AsText α] in
theorem eq_map {op : Op σ α} (hop : op.isMap = true) : ∃ transform, op = map transform := by
  cases op with
  | map transform => exact ⟨transform, rfl⟩
  | _ => cases hop

/-- Every operation but a transformation leads to its reading. -/
theorem leads (op : Op σ α) (hop : op.isMap = false) (v : View σ α) :
    Leads op.act v ((fun a => (a, none)) <$> (op.reading v).1, (op.reading v).2) := by
  cases op with
  | length => exact leads_answer .count (Leads.length v)
  | isEmpty => exact leads_answer .flag (Leads.read fun _ hl => congrArg Except.ok hl.isEmpty_eq)
  | push side x byteLen => exact leads_answer inserted (Leads.push side x _ v)
  | pop side => exact leads_answer .entry (Leads.pop side v)
  | peek side write => exact leads_answer .entry (Leads.peek side write v)
  | get i write => exact leads_answer _ (Leads.get i write v)
  | getRelative i => exact leads_answer .entry (Leads.getRelative i v)
  | eraseIdx i override => exact leads_answer _ (Leads.eraseIdx i override v)
  | takeIdx i => exact leads_answer _ (Leads.takeIdx i v)
  | insertIdx i x byteLen => exact leads_answer inserted (Leads.insertIdx i x byteLen v)
  | cursorReset => exact leads_answer (fun _ => .done) (Leads.cursorReset v)
  | cursorNext write => exact leads_answer .entry (Leads.cursorNext write v)
  | cursorFirst write => exact leads_answer .entry (Leads.cursorFirst write v)
  | visitEach visitor => exact leads_answer (fun b => .count b.1) (Leads.visitEach visitor v)
  | eraseWhere predicate override =>
    exact leads_answer (fun b => .count b.1) (Leads.eraseWhere predicate override v)
  | join refuses delimiter =>
    have h := Leads.join refuses delimiter v
    obtain ⟨text, ht⟩ := View.join_ok refuses delimiter v
    simp only [reading, answered]
    rw [show v.join refuses delimiter = (.ok text, (v.join refuses delimiter).2) by rw [← ht]] at h
    rw [ht]
    refine h.bind ?_
    cases text <;> exact Leads.pure _ _
  | destroy override =>
    cases override with
    | none => exact leads_answer (fun _ => .done) (Leads.clear none v)
    | some d => exact leads_answer (fun _ => .done) (Leads.destroyWith d v)
  | map transform => cases hop

end Op

/-- The row, the destructors and the nodes beside the row are as they were. -/
structure View.Keeps (v w : View σ α) : Prop extends View.Spares v w where
  rest : w.rest = v.rest

theorem View.Keeps.refl (v : View σ α) : View.Keeps v v := ⟨⟨rfl, rfl⟩, rfl⟩

namespace World

theorem setIfInBounds_self {lists : Array (Option (Deque σ α))} {k : Nat} {d : Deque σ α}
    (hk : lists[k]?.join = some d) : lists.setIfInBounds k (some d) = lists := by
  refine Array.ext_getElem? ?_
  intro j
  rw [Array.getElem?_setIfInBounds]
  split
  · rename_i hj
    rw [← hj]
    cases hget : lists[k]? with
    | none =>
      rw [hget] at hk
      cases hk
    | some place =>
      have hlt := (Array.getElem?_eq_some_iff.1 hget).1
      rw [hget] at hk
      rw [if_pos hlt]
      exact congrArg some hk.symm
  · rfl

theorem Sound.kept {w : World σ α} {strayed : List Handle} {k : Nat} {d : Deque σ α}
    (hw : w.Sound strayed) (hk : w.list? k = some d) {u : View σ α} {l : Linkage α}
    (hl : l.Shows u.toScene) (h : (w.view d).Keeps u) :
    w.lists.setIfInBounds k (some ⟨l.chain, u.destructors.default⟩) = w.lists ∧
      ∀ a, l.heap.get? a = w.heap.get? a := by
  have hchain : l.chain = d.chain := (hw.shows hk).chain_eq hl h.row
  have hdefault : u.destructors.default = d.default := by rw [h.destructors]; rfl
  refine ⟨?_, fun a => (hw.shows hk).get?_eq hl h.row h.rest a⟩
  rw [hchain, hdefault]
  exact setIfInBounds_self hk

theorem Sound.nodup_view {w : World σ α} {strayed : List Handle} {k : Nat} {d : Deque σ α}
    (hw : w.Sound strayed) (hk : w.list? k = some d) : (w.view d).row.handles.Nodup := (hw.shows hk).nodup

theorem Sound.entries_view {w : World σ α} {strayed : List Handle} {k : Nat} {d : Deque σ α}
    (hw : w.Sound strayed) (hk : w.list? k = some d) : (w.view d).row.entries = w.contents k := by
  rw [hw.contents_eq, row_of_list? hk]
  rfl

variable [AsBytes α] [AsText α] {w : World σ α} {strayed : List Handle} {k : Nat} {d : Deque σ α}

/-- An operation on a list of a world ends as its reading says. -/
theorem use_reads (hw : w.Sound strayed) (hk : w.list? k = some d) (op : Op σ α)
    (hop : op.isMap = false) :
    ∃ l : Linkage α, l.Shows (op.reading (w.view d)).2.toScene ∧
      w.use k op = (⟨(op.reading (w.view d)).1, (op.reading (w.view d)).2.trace⟩,
        ⟨l.heap, (op.reading (w.view d)).2.allocator, w.lists.setIfInBounds k
          (if op.endsList then none
            else some ⟨l.chain, (op.reading (w.view d)).2.destructors.default⟩)⟩) := by
  obtain ⟨l, hrun, hl⟩ := op.leads hop (w.view d) _ (hw.shows hk)
  refine ⟨l, hl, ?_⟩
  rw [use_run hk hrun]
  cases (op.reading (w.view d)).1 <;> rfl

/-- A transformation of a list of a world ends as it does on the row of the list. -/
theorem use_maps (hw : w.Sound strayed) (hk : w.list? k = some d)
    (transform : Callback σ (Entry α) (Entry α)) :
    ∃ out u, ∃ l : Linkage α, Ensures.Mapped transform (w.view d) out u ∧ l.Shows u.toScene ∧
      w.use k (.map transform) =
        (⟨match out with
            | .ok (none, _) => .ok .allocError
            | .ok (some _, _) => .ok (.list w.lists.size)
            | .error p => .error p, u.trace⟩,
          ⟨l.heap, u.allocator, settle w.lists k (some ⟨l.chain, u.destructors.default⟩)
            (match out with
              | .ok (made, _) => made
              | .error _ => none)⟩) := by
  obtain ⟨out, u, l, hrun, hl, hmapped⟩ := Ensures.map transform (w.view d) _ (hw.shows hk)
  refine ⟨out, u, l, hmapped, hl, ?_⟩
  have hact : (Op.map transform : Op σ α).act.run ((w.view d).machine (w.linkage d)) =
      ending (match out with
        | .ok (none, _) => .ok (.allocError, none)
        | .ok (some chain, _) => .ok (.done, some chain)
        | .error p => .error p) (u.machine l) := by
    rw [Op.act, EStateM.run_bind, hrun]
    rcases out with p | ⟨_ | chain, transform'⟩ <;> rfl
  rw [use_run hk hact]
  rcases out with p | ⟨_ | chain, transform'⟩ <;> rfl

end World

end LinkedDeque
