import LinkedDeque.Proofs.Failures
import LinkedDeque.Proofs.Invariant
import Mathlib.Data.List.Find

/-!
# LinkedDeque.Proofs.Unwinding

What code that panics leaves of the list that called it:

* `Callback.Breaks`     — a callback panics on an entry, after it answered on those in front.
* `cursorAmong`         — where a cursor goes when only some of the nodes are kept.
* `World.Leaves`        — a list is left with certain entries, and its cursor with them.
* `World.Alike`         — two worlds have the same nodes and the same chains.
* `World.run_unwinding` — in every world that a run leads to, and for every call of a visitor, a transform,
  a predicate or a destructor on an entry: what is left when that call panics.
-/

namespace LinkedDeque

variable {σ τ α β : Type}

/-! ## The call that panics -/

/-- The callback answers the calls on the entries in front, and panics on an entry behind them. -/
structure Callback.Breaks (f : Callback τ (Entry α) β) (front : List (Slot α)) (s : Slot α)
    (report : String) : Prop where
  answers : f.Answers (entriesOf front)
  panics : ((f.after (entriesOf front)).call s.entry).1 = .panics report

namespace Callback

variable {f : Callback τ (Entry α) β} {front back : List (Slot α)} {s : Slot α} {report : String}

theorem Breaks.answers_eq (h : f.Breaks front s report) (back : List (Slot α)) :
    f.answers (entriesOf (front ++ s :: back)) = f.answers (entriesOf front) := by
  rw [entriesOf, List.map_append, List.map_cons]
  exact answers_stop h.answers h.panics _

/-- The number of entries in front of the panic. -/
theorem Breaks.length (h : f.Breaks front s report) (back : List (Slot α)) :
    (f.answers (entriesOf (front ++ s :: back))).length = front.length := by
  rw [h.answers_eq back, h.answers, List.length_map]

theorem length_le_answers (h : f.Answers (entriesOf front)) (back : List (Slot α)) :
    front.length ≤ (f.answers (entriesOf (front ++ back))).length := by
  have hlen : (f.answers (entriesOf front)).length = (entriesOf front).length := h
  rw [List.length_map] at hlen
  rw [entriesOf, List.map_append, answers_append h, List.length_append, hlen]
  omega

/-- There is one call at which a callback panics. -/
theorem Breaks.unique {front' back' : List (Slot α)} {s' : Slot α} {report' : String}
    (h : f.Breaks front s report) (h' : f.Breaks front' s' report')
    (hr : front ++ s :: back = front' ++ s' :: back') :
    front = front' ∧ report = report' := by
  have hlen := h.length back
  rw [hr, h'.length back'] at hlen
  obtain ⟨rfl, htail⟩ := List.append_inj hr hlen.symm
  obtain ⟨rfl, -⟩ := List.cons_eq_cons.1 htail
  have hpanics := h.panics.symm.trans h'.panics
  exact ⟨rfl, Reply.panics.inj hpanics⟩

end Callback

/-! ## The cursor among the entries that are kept -/

/-- The first node that is kept, from the cursor on. -/
def cursorAmong (nodes : List Handle) (cursor : Option Handle) (kept : List Handle) : Option Handle :=
  cursor.bind fun c => (nodes.dropWhile (· ≠ c)).find? (· ∈ kept)

namespace Row

variable {r : Row α}

/-- Entries that go take the cursor along to the next one that is kept. -/
theorem cursor_filter (p : Slot α → Bool) (hnodup : r.handles.Nodup) :
    (r.filter p).cursor = cursorAmong r.handles r.cursor (r.filter p).handles := by
  cases hd : r.due with
  | nil => simp [cursorAmong, cursor, filter, hd]
  | cons s rest =>
    have hslots : r.slots = r.passed ++ s :: rest := by rw [slots, hd]
    have hdrop : r.handles.dropWhile (· ≠ s.handle) = handlesOf (s :: rest) := by
      rw [handles, hslots, handlesOf, List.map_append] at hnodup
      rw [handles, hslots, handlesOf, List.map_append, List.dropWhile_append_of_pos]
      · simp [handlesOf]
      · intro h hh
        have hne := (List.nodup_append.1 hnodup).2.2 h hh s.handle (by simp)
        simpa using hne
    have hfirst : (r.filter p).cursor = ((s :: rest).find? p).map Slot.handle := by
      rw [cursor, ahead_eq_head?, filter, hd, handlesOf, List.head?_map, List.head?_filter]
    have hdue : ∀ t ∈ s :: rest, (decide (t.handle ∈ (r.filter p).handles)) = p t := by
      intro t ht
      have hmem : t ∈ r.slots := by
        rw [hslots]
        exact List.mem_append_right _ ht
      rw [Bool.eq_iff_iff, decide_eq_true_iff]
      exact mem_handles_filter hnodup hmem
    rw [hfirst, cursor, hd, ahead_cons, cursorAmong, Option.bind_some, hdrop, handlesOf, List.find?_map,
      ← List.find?_congr hdue]
    rfl

end Row

namespace View

variable {v u : View σ α} {i : Nat} {s : Slot α} {override : Option (Destructor σ α)} {report : String}

/-! ## Transformations -/

/-- A transform that panics leaves the view as it was, and its results are forgotten. -/
theorem mapped_panics {transform : Callback τ (Entry α) (Entry α)} {front back : List (Slot α)}
    {out : Except Panic (Option Chain × Callback τ (Entry α) (Entry α))}
    (h : Ensures.Mapped transform v out u) (hr : v.row.slots = front ++ s :: back)
    (hbreaks : transform.Breaks front s report) (hgrants : v.allocator.Grants front.length) :
    out = .error (.callback report) ∧ View.Spares v u ∧
      Course (· = .forgotten) v u (transform.results (entriesOf front)) [] [] := by
  have hcalls := hbreaks.length back
  rw [← hr] at hcalls
  rcases out with p | ⟨_ | chain, transform'⟩
  · obtain ⟨hspares, report', came, rfl, ⟨front', s', back', hr', hpassed, hpanics, rfl⟩, c⟩ := h
    obtain ⟨rfl, rfl⟩ := hbreaks.unique ⟨hpassed.answers, hpanics⟩ (hr.symm.trans hr')
    have hresults : transform.results v.row.entries = transform.results (entriesOf front) := by
      rw [Callback.results, Row.entries, hr]
      exact congrArg _ (hbreaks.answers_eq back)
    rw [hresults] at c
    exact ⟨rfl, hspares, c⟩
  · -- the allocator refused no node for the entries in front, nor is any made for those behind
    obtain ⟨-, came, ⟨front', s', back', hr', -, hall, hrefused, -⟩, -⟩ := h
    have hle := Callback.length_le_answers hall back'
    rw [List.append_assoc, List.singleton_append, ← hr', hcalls, List.length_append] at hle
    have hlt : front'.length < front.length := by
      simp at hle
      omega
    rw [hgrants front'.length hlt] at hrefused
    cases hrefused
  · obtain ⟨-, hpassed, -⟩ := h
    have hall : (transform.answers (entriesOf v.row.slots)).length = (entriesOf v.row.slots).length :=
      hpassed.answers
    rw [hcalls, hr] at hall
    simp at hall

/-! ## Erasures at a position -/

/-- An erasure leaves the same nodes whatever its destructor comes to. -/
theorem eraseIdx_snd (hs : v.row.slots[i]? = some s) :
    (v.eraseIdx i override).2.row = v.row.erase s.handle ∧ (v.eraseIdx i override).2.rest = v.rest := by
  let v' : View σ α := { v with destructors := { v.destructors with override } }
  have hrow : (v'.erase s).2.row = v'.row.erase s.handle := (v'.erase_snd s).1
  have hrest : (v'.erase s).2.rest = v'.rest := by rw [erase, toScene_dispose]
  rw [eraseIdx, hs]
  simp only [withOverride]
  cases hr : v'.erase s with
  | mk out w =>
    rw [hr] at hrow hrest
    cases out with
    | error p => exact ⟨hrow, hrest⟩
    | ok _ => exact ⟨hrow, hrest⟩

theorem eraseIdx_panics (hs : v.row.slots[i]? = some s)
    (h : (Destructors.dispose { v.destructors with override } s.payload).2.1 = .panics report) :
    (v.eraseIdx i override).1 = .error (.destructor report) := by
  let v' : View σ α := { v with destructors := { v.destructors with override } }
  have herase : v'.erase s = (.error (.destructor report), (v'.erase s).2) := erase_panics h
  rw [eraseIdx, hs]
  simp only [withOverride]
  simp only [v'] at herase
  rw [herase]

theorem eraseIdx_drop (hs : v.row.slots[i]? = some s) :
    (v.eraseIdx i (some .drop)).1 = .ok (.ok ()) := by
  let v' : View σ α := { v with destructors := { v.destructors with override := some .drop } }
  have herase : v'.erase s = (.ok (), (v'.erase s).2) := erase_returns rfl
  rw [eraseIdx, hs]
  simp only [withOverride]
  simp only [v'] at herase
  rw [herase]

end View

/-! ## Worlds -/

namespace World

/-- A list is left with these entries, well-formed, and with its cursor on the first of them at or behind
the place where it stood. -/
structure Leaves (w : World σ α) (k : Nat) (d : Deque σ α) (w' : World σ α) (slots : List (Slot α)) :
    Prop where
  row : (w'.row k).slots = slots
  list : ∃ d', w'.list? k = some d' ∧ (w'.linkage d').WellFormed (handlesOf slots) ∧
    d'.chain.cursor = cursorAmong (w.row k).handles d.chain.cursor (handlesOf slots)

/-- The worlds have the same nodes, and their lists the same chains. Only destructors may differ. -/
structure Alike (w w' : World σ α) : Prop where
  nodes : ∀ a, w'.heap.get? a = w.heap.get? a
  chains : ∀ j, (w'.list? j).map Deque.chain = (w.list? j).map Deque.chain

/-- What is left of a world when code panics that an operation on a list calls. -/
structure Unwinding [AsBytes α] [AsText α] (w : World σ α) (k : Nat) (d : Deque σ α) : Prop where
  visitor : ∀ (visitor : Callback σ (Entry α) Flow) front s back report,
    (w.row k).slots = front ++ s :: back → visitor.Breaks front s report →
    (∀ flow ∈ visitor.answers (entriesOf front), flow = .go) →
    (w.use k (.visitEach visitor)).1 = ⟨.error (.callback report),
      ((entriesOf (front ++ [s])).map Event.called).toArray⟩ ∧
    Untouched w (w.use k (.visitEach visitor)).2 (w.use k (.visitEach visitor)).1.events
  transform : ∀ (transform : Callback σ (Entry α) (Entry α)) front s back report,
    (w.row k).slots = front ++ s :: back → transform.Breaks front s report →
    w.allocator.Grants front.length →
    (w.use k (.map transform)).1.result = .error (.callback report) ∧
    Untouched w (w.use k (.map transform)).2 (w.use k (.map transform)).1.events ∧
    enteredIn (w.use k (.map transform)).1.events = transform.results (entriesOf front) ∧
    ∀ fate x, (fate, x) ∈ leftIn (w.use k (.map transform)).1.events → fate = .forgotten
  /-- An erasure at a position leaves what every erasure there leaves, those that succeed included. -/
  erasure : ∀ i s override report, (w.row k).slots[i]? = some s →
    (Destructors.dispose ⟨d.default, override⟩ s.payload).2.1 = .panics report →
    (w.use k (.eraseIdx i override)).1.result = .error (.destructor report) ∧
    Leaves w k d (w.use k (.eraseIdx i override)).2 ((w.row k).slots.eraseIdx i) ∧
    (w.use k (.eraseIdx i (some .drop))).1.result = .ok .done ∧
    ∀ override', Alike (w.use k (.eraseIdx i override')).2 (w.use k (.eraseIdx i override)).2
  predicate : ∀ (predicate : Callback σ (Entry α) Bool) override front s back report,
    (w.row k).slots = front ++ s :: back → predicate.Breaks front s report →
    Destructors.Returns ⟨d.default, override⟩ ((predicate.accepted front).map Slot.payload) →
    (w.use k (.eraseWhere predicate override)).1.result = .error (.callback report) ∧
    Leaves w k d (w.use k (.eraseWhere predicate override)).2 (predicate.rejected front ++ s :: back)
  accepted : ∀ (predicate : Callback σ (Entry α) Bool) override front s back report,
    (w.row k).slots = front ++ s :: back → predicate.Answers (entriesOf front) →
    Destructors.Returns ⟨d.default, override⟩ ((predicate.accepted front).map Slot.payload) →
    ((predicate.after (entriesOf front)).call s.entry).1 = .returns true →
    ((Destructors.after ⟨d.default, override⟩ ((predicate.accepted front).map Slot.payload)).dispose
      s.payload).2.1 = .panics report →
    (w.use k (.eraseWhere predicate override)).1.result = .error (.destructor report) ∧
    Leaves w k d (w.use k (.eraseWhere predicate override)).2 (predicate.rejected front ++ back)

variable [AsBytes α] [AsText α] {w : World σ α} {strayed : List Handle} {k : Nat} {d : Deque σ α}

omit [AsBytes α] [AsText α] in
theorem view_row (hk : w.list? k = some d) : (w.view d).row = w.row k := (row_of_list? hk).symm

/-- An operation that keeps some entries leaves a list of them. -/
theorem use_leaves (hw : w.Sound strayed) (hk : w.list? k = some d) (op : Op σ α)
    (hop : op.isMap = false) (hends : op.endsList = false) (p : Slot α → Bool)
    (hrow : (op.reading (w.view d)).2.row = (w.view d).row.filter p) :
    Leaves w k d (w.use k op).2 ((w.view d).row.filter p).slots := by
  obtain ⟨l, hl, huse⟩ := use_reads hw hk op hop
  let d' : Deque σ α := ⟨l.chain, (op.reading (w.view d)).2.destructors.default⟩
  have hlist : (w.use k op).2.list? k = some d' := by
    rw [huse, hends]
    exact (getElem?_setIfInBounds_join (lt_of_list? hk) _ k).trans (if_pos rfl)
  have hlinkage : (w.use k op).2.linkage d' = l := by rw [huse]; rfl
  have hslots : l.row = (w.view d).row.filter p := hl.row_eq.trans hrow
  have hhandles : l.handles = ((w.view d).row.filter p).handles := by
    rw [hl.handles_eq]
    exact congrArg Row.handles hrow
  refine ⟨?_, d', hlist, ?_, ?_⟩
  · rw [row_of_list? hlist, hlinkage, hslots]
  · have hformed := hl.wellFormed
    rw [hhandles] at hformed
    rw [hlinkage]
    exact hformed
  · have hcursor : d'.chain.cursor = ((w.view d).row.filter p).cursor := by
      rw [← hrow]
      exact hl.cursor
    rw [hcursor, Row.cursor_filter p (hw.nodup_view hk), ← view_row hk,
      show d.chain.cursor = (w.view d).row.cursor from (hw.shows hk).cursor]
    rfl

/-- Two operations on a list that leave the same row leave the same nodes and chains. -/
theorem use_alike (hw : w.Sound strayed) (hk : w.list? k = some d) (op op' : Op σ α)
    (hop : op.isMap = false) (hop' : op'.isMap = false) (hends : op.endsList = op'.endsList)
    (hrow : (op'.reading (w.view d)).2.row = (op.reading (w.view d)).2.row)
    (hrest : (op'.reading (w.view d)).2.rest = (op.reading (w.view d)).2.rest) :
    Alike (w.use k op).2 (w.use k op').2 := by
  obtain ⟨l, hl, huse⟩ := use_reads hw hk op hop
  obtain ⟨l', hl', huse'⟩ := use_reads hw hk op' hop'
  have hchain : l'.chain = l.chain := hl.chain_eq hl' hrow
  refine ⟨?_, ?_⟩
  · intro a
    rw [huse, huse']
    exact hl.get?_eq hl' hrow hrest a
  · intro j
    rw [huse, huse', list?, list?, hends, hchain]
    rw [getElem?_setIfInBounds_join (lt_of_list? hk), getElem?_setIfInBounds_join (lt_of_list? hk)]
    split
    · split <;> rfl
    · rfl

theorem use_visitor_panics (hw : w.Sound strayed) (hk : w.list? k = some d)
    {visitor : Callback σ (Entry α) Flow} {front back : List (Slot α)} {s : Slot α} {report : String}
    (hr : (w.view d).row.slots = front ++ s :: back) (hbreaks : visitor.Breaks front s report)
    (hgo : ∀ flow ∈ visitor.answers (entriesOf front), flow = .go) :
    (w.use k (.visitEach visitor)).1 = ⟨.error (.callback report),
        ((entriesOf (front ++ [s])).map Event.called).toArray⟩ ∧
      Untouched w (w.use k (.visitEach visitor)).2 (w.use k (.visitEach visitor)).1.events := by
  have hlen : (visitor.answers (entriesOf front)).length = front.length :=
    hbreaks.answers.trans (List.length_map _)
  have hread := View.visitEach_panics hr (List.eq_replicate_iff.2 ⟨hlen, hgo⟩) hbreaks.panics
  obtain ⟨l, hl, huse⟩ := use_reads hw hk (.visitEach visitor) rfl
  rw [Op.reading, hread] at hl huse
  have hevents : ((w.view d).hear (entriesOf (front ++ [s]))).trace =
      ((entriesOf (front ++ [s])).map Event.called).toArray := Array.empty_append
  obtain ⟨hlists, hnodes⟩ := hw.kept hk hl ⟨⟨rfl, rfl⟩, rfl⟩
  have hquiet : ∀ entries : List (Entry α), leftIn (entries.map Event.called).toArray = [] ∧
      enteredIn (entries.map Event.called).toArray = [] := by
    intro entries
    simp [leftIn, enteredIn, List.filterMap_map, Function.comp_def, Event.left?, Event.entered?]
  rw [huse]
  refine ⟨?_, hlists, hnodes, ?_⟩
  · exact congrArg (Outcome.mk _) hevents
  · show ((leftIn ((w.view d).hear (entriesOf (front ++ [s]))).trace).map Prod.snd).Perm
      (enteredIn ((w.view d).hear (entriesOf (front ++ [s]))).trace)
    rw [hevents, (hquiet _).1, (hquiet _).2]
    exact .refl []

theorem use_transform_panics (hw : w.Sound strayed) (hk : w.list? k = some d)
    {transform : Callback σ (Entry α) (Entry α)} {front back : List (Slot α)} {s : Slot α}
    {report : String} (hr : (w.view d).row.slots = front ++ s :: back)
    (hbreaks : transform.Breaks front s report) (hgrants : w.allocator.Grants front.length) :
    (w.use k (.map transform)).1.result = .error (.callback report) ∧
      Untouched w (w.use k (.map transform)).2 (w.use k (.map transform)).1.events ∧
      enteredIn (w.use k (.map transform)).1.events = transform.results (entriesOf front) ∧
      ∀ fate x, (fate, x) ∈ leftIn (w.use k (.map transform)).1.events → fate = .forgotten := by
  have hsound := Linkage.Shows.sound (v := w.view d) (hw.shows hk)
  obtain ⟨out, u, l, hmapped, hl, huse⟩ := use_maps hw hk transform
  obtain ⟨rfl, hspares, c⟩ := View.mapped_panics hmapped hr hbreaks hgrants
  obtain ⟨hkeeps, hbalance⟩ := hspares.keeps hsound rfl c
  obtain ⟨hlists, hnodes⟩ := hw.kept hk hl hkeeps
  rw [huse]
  refine ⟨rfl, ⟨hlists, hnodes, hbalance⟩, c.arrivals, ?_⟩
  intro fate x hx
  exact (c.fates hx).resolve_left List.not_mem_nil

theorem use_erasure_panics (hw : w.Sound strayed) (hk : w.list? k = some d) {i : Nat} {s : Slot α}
    {override : Option (Destructor σ α)} {report : String} (hs : (w.view d).row.slots[i]? = some s)
    (hpanics : (Destructors.dispose ⟨d.default, override⟩ s.payload).2.1 = .panics report) :
    (w.use k (.eraseIdx i override)).1.result = .error (.destructor report) ∧
      Leaves w k d (w.use k (.eraseIdx i override)).2 ((w.view d).row.slots.eraseIdx i) ∧
      (w.use k (.eraseIdx i (some .drop))).1.result = .ok .done ∧
      ∀ override', Alike (w.use k (.eraseIdx i override')).2 (w.use k (.eraseIdx i override)).2 := by
  have hrow : ∀ override', ((w.view d).eraseIdx i override').2.row = (w.view d).row.erase s.handle ∧
      ((w.view d).eraseIdx i override').2.rest = (w.view d).rest := fun _ => View.eraseIdx_snd hs
  have hresult : ∀ override', (w.use k (.eraseIdx i override')).1.result =
      (Op.reading (w.view d) (.eraseIdx i override')).1 := by
    intro override'
    obtain ⟨l, -, huse⟩ := use_reads hw hk (.eraseIdx i override') rfl
    rw [huse]
  obtain ⟨hi, hget⟩ := List.getElem?_eq_some_iff.1 hs
  have hsplit : (w.view d).row.slots =
      (w.view d).row.slots.take i ++ s :: (w.view d).row.slots.drop (i + 1) := by
    rw [← hget, ← List.drop_eq_getElem_cons hi, List.take_append_drop]
  have hslots : ((w.view d).row.erase s.handle).slots = (w.view d).row.slots.eraseIdx i := by
    rw [Row.slots_erase hsplit (hw.nodup_view hk), List.eraseIdx_eq_take_drop_succ]
  refine ⟨?_, ?_, ?_, ?_⟩
  · rw [hresult, Op.reading, Op.answered, View.eraseIdx_panics hs hpanics]
    rfl
  · rw [← hslots]
    exact use_leaves hw hk (.eraseIdx i override) rfl rfl _ (hrow override).1
  · rw [hresult, Op.reading, Op.answered, View.eraseIdx_drop hs]
    rfl
  · intro override'
    refine use_alike hw hk (.eraseIdx i override') (.eraseIdx i override) rfl rfl rfl ?_ ?_
    · exact (hrow override).1.trans (hrow override').1.symm
    · exact (hrow override).2.trans (hrow override').2.symm

section Predicate

variable {predicate : Callback σ (Entry α) Bool} {override : Option (Destructor σ α)}
  {front back : List (Slot α)} {s : Slot α} {report : String}

theorem use_predicate_panics (hw : w.Sound strayed) (hk : w.list? k = some d)
    (hr : (w.view d).row.slots = front ++ s :: back) (hbreaks : predicate.Breaks front s report)
    (hreturns : Destructors.Returns ⟨d.default, override⟩ ((predicate.accepted front).map Slot.payload)) :
    (w.use k (.eraseWhere predicate override)).1.result = .error (.callback report) ∧
      Leaves w k d (w.use k (.eraseWhere predicate override)).2
        (predicate.rejected front ++ s :: back) := by
  obtain ⟨u, hread, hrow, -⟩ := View.eraseWhere_panics hr hbreaks.answers hreturns hbreaks.panics
  have hslots := View.slots_sifted hr (hw.nodup_view hk) hbreaks.answers
  refine ⟨?_, ?_⟩
  · obtain ⟨l, -, huse⟩ := use_reads hw hk (.eraseWhere predicate override) rfl
    rw [huse, Op.reading, hread]
    rfl
  · rw [← hslots]
    refine use_leaves hw hk (.eraseWhere predicate override) rfl rfl _ ?_
    rw [Op.reading, hread]
    exact hrow

theorem use_accepted_panics (hw : w.Sound strayed) (hk : w.list? k = some d)
    (hr : (w.view d).row.slots = front ++ s :: back) (hall : predicate.Answers (entriesOf front))
    (hreturns : Destructors.Returns ⟨d.default, override⟩ ((predicate.accepted front).map Slot.payload))
    (hs : ((predicate.after (entriesOf front)).call s.entry).1 = .returns true)
    (hpanics : ((Destructors.after ⟨d.default, override⟩
      ((predicate.accepted front).map Slot.payload)).dispose s.payload).2.1 = .panics report) :
    (w.use k (.eraseWhere predicate override)).1.result = .error (.destructor report) ∧
      Leaves w k d (w.use k (.eraseWhere predicate override)).2 (predicate.rejected front ++ back) := by
  have hcall : (predicate.after (entriesOf front)).call s.entry =
      (.returns true, ((predicate.after (entriesOf front)).call s.entry).2) := Prod.ext hs rfl
  obtain ⟨u, hread, hrow, -⟩ := View.eraseWhere_destructor_panics hr hall hreturns hcall hpanics
  have hnodup := hw.nodup_view hk
  have hslots := Row.slots_erase (View.slots_sifted hr hnodup hall) (Row.nodup_filter _ hnodup)
  rw [View.sifted, Row.erase, Row.filter_filter] at hslots
  refine ⟨?_, ?_⟩
  · obtain ⟨l, -, huse⟩ := use_reads hw hk (.eraseWhere predicate override) rfl
    rw [huse, Op.reading, hread]
    rfl
  · rw [← hslots]
    refine use_leaves hw hk (.eraseWhere predicate override) rfl rfl _ ?_
    rw [Op.reading, hread, ← Row.filter_filter]
    exact hrow

end Predicate

theorem use_unwinding (hw : w.Sound strayed) (hk : w.list? k = some d) : w.Unwinding k d := by
  have hview := view_row hk
  refine ⟨?_, ?_, ?_, ?_, ?_⟩
  · intro visitor front s back report hr hbreaks hgo
    rw [← hview] at hr
    exact use_visitor_panics hw hk hr hbreaks hgo
  · intro transform front s back report hr hbreaks hgrants
    rw [← hview] at hr
    exact use_transform_panics hw hk hr hbreaks hgrants
  · intro i s override report hs hpanics
    rw [← hview] at hs ⊢
    exact use_erasure_panics hw hk hs hpanics
  · intro predicate override front s back report hr hbreaks hreturns
    rw [← hview] at hr
    exact use_predicate_panics hw hk hr hbreaks hreturns
  · intro predicate override front s back report hr hall hreturns hs hpanics
    rw [← hview] at hr
    exact use_accepted_panics hw hk hr hall hreturns hs hpanics

/-- In every world that a run leads to, code that panics leaves a list as it was before the call, but for
the entries that were erased up to there, and for the one whose destructor panicked. -/
theorem run_unwinding (before : List (Step σ α)) (k : Nat) (d : Deque σ α)
    (hk : (run before start).2.list? k = some d) : (run before start).2.Unwinding k d :=
  use_unwinding (run_sound before start_sound) hk

/-- An erasure of every other entry, whose destructor panics on the second one that it is given. The cursor
stands on the node of that entry, and moves to the next one. -/
theorem run_unwinding_erasure :
    let everyOther : Callback Bool (Entry Payload) Bool := ⟨true, fun b _ => (.returns b, !b)⟩
    let boom : Destructor Bool Payload :=
      .custom ⟨false, fun b _ => (if b then .panics "boom" else .returns (), true)⟩
    let slot (h : Handle) (n : Int64) : Slot Payload := ⟨h, ⟨.int n, 8⟩⟩
    let push (n : Int64) : Step Bool Payload := .use 0 (.push .after (.int n) (.exact 8))
    let before : List (Step Bool Payload) := [.create (some boom), push 2, push 3, push 4, push 5,
      .use 0 (.cursorFirst none), .use 0 (.cursorNext none)]
    let w := (run before start).2
    ∃ d, w.list? 0 = some d ∧ (w.row 0).slots = [slot 0 2, slot 1 3, slot 2 4, slot 3 5] ∧
      (w.use 0 (.eraseWhere everyOther none)).1.result = .error (.destructor "boom") ∧
      Leaves w 0 d (w.use 0 (.eraseWhere everyOther none)).2 [slot 1 3, slot 3 5] := by
  let front : List (Slot Payload) := [⟨0, ⟨.int 2, 8⟩⟩, ⟨1, ⟨.int 3, 8⟩⟩]
  refine ⟨⟨⟨.full ⟨⟨4, by decide, by decide⟩, 0, 3⟩, some 2⟩, some _⟩, rfl, rfl, ?_⟩
  refine (run_unwinding _ 0 _ ?_).accepted _ none front ⟨2, ⟨.int 4, 8⟩⟩ [⟨3, ⟨.int 5, 8⟩⟩] "boom"
    ?_ ?_ ?_ ?_ ?_
  · rfl
  · rfl
  · rfl
  · decide
  · rfl
  · rfl

end World

end LinkedDeque
