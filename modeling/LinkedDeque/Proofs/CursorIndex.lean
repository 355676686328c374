import LinkedDeque.Proofs.CursorWalk
import LinkedDeque.Proofs.Positions
import LinkedDeque.Proofs.Unwinding

/-!
# LinkedDeque.Proofs.CursorIndex

The cursor as a position. A cursor is a node, and no operation but those on the cursor itself sets it to
one that it was not on before; as a position it moves with whatever comes and goes in front of it:

* `Op.cursorAfter`        — the law: where the cursor is after an operation, from where it was.
* `Op.reading_cursor`     — the reading of every operation obeys it.
* `World.run_cursorIndex?` — so does every operation on a list of every world that a run leads to.
-/

namespace LinkedDeque

variable {σ α : Type}

namespace Op

/-- An insertion has placed its entry. -/
def succeeded : Except Panic (Answer α) → Bool
  | .ok .done => true
  | _ => false

/-- Where the cursor of a list of `n` entries is after an operation that came to `result`, from where it
was; `kept` says of each entry whether it is still there. -/
def cursorAfter (n : Nat) (kept : List Bool) (result : Except Panic (Answer α)) (c : Option Nat) :
    Op σ α → Option Nat
  | cursorReset => within n 0
  | cursorNext _ => c.bind fun c => within n (c + 1)
  | cursorFirst _ => within n 1
  | push .before _ _ => if succeeded result then c.map (opened 0) else c
  | insertIdx i _ _ => if succeeded result then c.map (opened i) else c
  | pop .before => c.bind (closed n 0)
  | pop .after => c.bind (closed n (n - 1))
  | takeIdx i => if i < n then c.bind (closed n i) else c
  | eraseIdx i _ => if i < n then c.bind (closed n i) else c
  | eraseWhere _ _ => c.bind (survivor kept)
  | destroy _ => none
  | push .after _ _ | length | isEmpty | peek _ _ | get _ _ | getRelative _ | visitEach _ | map _
  | join _ _ => c

/-- Only an operation that puts the cursor back to the front gives it a place when it has none. -/
theorem cursorAfter_none {op : Op σ α} (hop : op.GoesOn) (n : Nat) (kept : List Bool)
    (result : Except Panic (Answer α)) : op.cursorAfter n kept result none = none := by
  cases op with
  | cursorReset | cursorFirst write => exact hop.elim
  | push side x byteLen =>
    cases side with
    | before => exact ite_self none
    | after => rfl
  | pop side => cases side <;> rfl
  | insertIdx i x byteLen | takeIdx i | eraseIdx i override => exact ite_self none
  | _ => rfl

end Op

/-! ## The readings -/

namespace View

variable {v : View σ α} {s : Slot α} {i : Nat}

theorem place_cursor (hi : i ≤ v.row.length) (e : Entry α) :
    (v.place i e).2.row.cursorIndex? = match (v.place i e).1 with
      | .ok true => v.row.cursorIndex?.map (opened i)
      | _ => v.row.cursorIndex? := by
  rw [place, allocate]
  cases v.allocator.attempt with
  | mk refused allocator =>
    cases refused with
    | true => rfl
    | false =>
      by_cases hcap : v.row.length + 1 < capacity
      · simp only [hcap, if_true, Bool.false_eq_true, if_false, Row.cursorIndex?_insert hi]
      · simp only [hcap, if_false, Bool.false_eq_true]

/-- The cursor moves as it does when the entry of an insertion is placed. -/
theorem Placed.cursor {x : α} {e : Entry α} {r : Reading σ α (Except (InsertError α) Unit)}
    (h : Placed x (v.place i e) r) (hi : i ≤ v.row.length) :
    r.2.row.cursorIndex? = if Op.succeeded (Op.inserted <$> r.1 : Except Panic (Answer α))
      then v.row.cursorIndex?.map (opened i) else v.row.cursorIndex? := by
  have hplaced := place_cursor hi e
  cases hr : v.place i e with
  | mk out w =>
    rw [hr] at h hplaced
    rcases out with p | _ | _
    · obtain rfl := h
      exact hplaced
    · obtain rfl := h
      exact hplaced
    · obtain ⟨line, rfl⟩ := h
      exact hplaced

theorem push_cursor (side : Side) (x : α) (byteLen : UInt64) :
    (v.push side x byteLen).2.row.cursorIndex? =
      if Op.succeeded (Op.inserted <$> (v.push side x byteLen).1 : Except Panic (Answer α))
        then v.row.cursorIndex?.map (opened (v.tipIdx side)) else v.row.cursorIndex? := by
  refine (push_placed side).cursor ?_
  cases side with
  | before => exact Nat.zero_le _
  | after => exact Nat.le_refl _

theorem insertIdx_cursor (i : Nat) (x : α) (byteLen : UInt64) :
    (v.insertIdx i x byteLen).2.row.cursorIndex? =
      if Op.succeeded (Op.inserted <$> (v.insertIdx i x byteLen).1 : Except Panic (Answer α))
        then v.row.cursorIndex?.map (opened i) else v.row.cursorIndex? := by
  rcases Nat.lt_or_ge v.row.length i with hi | hi
  · rw [insertIdx_outside hi]
    rfl
  · exact (insertIdx_placed hi).cursor hi

theorem erase_cursor (hs : v.row.slots[i]? = some s) (hnodup : v.row.handles.Nodup) :
    (v.row.erase s.handle).cursorIndex? = v.row.cursorIndex?.bind (closed v.row.length i) := by
  rw [Row.erase_eq_eraseAt hs hnodup]
  exact Row.cursorIndex?_eraseAt (List.getElem?_eq_some_iff.1 hs).1

theorem pop_cursor (side : Side) (hnodup : v.row.handles.Nodup) :
    (v.pop side).2.row.cursorIndex? = v.row.cursorIndex?.bind (closed v.row.length (v.row.tipAt side)) := by
  rw [pop]
  cases hs : v.row.tip? side with
  | none =>
    rw [Row.cursorIndex?_of_tip? hs]
    rfl
  | some s =>
    rw [Row.tip?_eq_getElem?] at hs
    exact erase_cursor hs hnodup

theorem takeIdx_cursor (i : Nat) (hnodup : v.row.handles.Nodup) :
    (v.takeIdx i).2.row.cursorIndex? = if i < v.row.length
      then v.row.cursorIndex?.bind (closed v.row.length i) else v.row.cursorIndex? := by
  rw [takeIdx]
  cases hs : v.row.slots[i]? with
  | none =>
    have hi : v.row.length ≤ i := List.getElem?_eq_none_iff.1 hs
    rw [if_neg (Nat.not_lt.2 hi)]
  | some s =>
    have hi : i < v.row.length := (List.getElem?_eq_some_iff.1 hs).1
    rw [if_pos hi]
    exact erase_cursor hs hnodup

/-- The entry is gone also when its destructor panics. -/
theorem eraseIdx_cursor (i : Nat) (override : Option (Destructor σ α)) (hnodup : v.row.handles.Nodup) :
    (v.eraseIdx i override).2.row.cursorIndex? = if i < v.row.length
      then v.row.cursorIndex?.bind (closed v.row.length i) else v.row.cursorIndex? := by
  cases hs : v.row.slots[i]? with
  | none =>
    have hi : v.row.length ≤ i := List.getElem?_eq_none_iff.1 hs
    rw [if_neg (Nat.not_lt.2 hi), eraseIdx, hs]
  | some s =>
    have hi : i < v.row.length := (List.getElem?_eq_some_iff.1 hs).1
    rw [if_pos hi, (eraseIdx_snd hs).1]
    exact erase_cursor hs hnodup

theorem access_cursor (write : Option α) (s : Slot α) :
    (v.access write s).row.cursorIndex? = v.row.cursorIndex? := by
  cases write with
  | none => rfl
  | some x => exact Row.cursorIndex?_write ..

theorem cursorNext_cursor (write : Option α) :
    (v.cursorNext write).2.row.cursorIndex? =
      v.row.cursorIndex?.bind fun c => within v.row.length (c + 1) := by
  rw [← Row.cursorIndex?_advance, cursorNext]
  cases hd : v.row.due with
  | nil => rw [Row.advance_exhausted hd]
  | cons s rest => exact access_cursor write s

/-- An erasure by a predicate leaves some of the entries, in whatever way it ends. -/
theorem eraseWhere_row {τ : Type} (predicate : Callback τ (Entry α) Bool)
    (override : Option (Destructor σ α)) (v : View σ α) :
    ∃ p, (v.eraseWhere predicate override).2.row = v.row.filter p := by
  have hkeep : ∀ (b : Nat × Callback τ (Entry α) Bool) s (w : View σ α),
      (∃ p, w.row = v.row.filter p) → ∃ p, (w.siftEntry b s).2.row = v.row.filter p := by
    rintro b s w ⟨p, hp⟩
    obtain ⟨q, hq⟩ := w.siftEntry_row b s
    exact ⟨_, by rw [hq, hp, Row.filter_filter]⟩
  let v' : View σ α := { v with destructors := { v.destructors with override } }
  have hall : v'.row = v.row.filter fun _ => true := by
    rw [Row.filter, List.filter_true, List.filter_true]
  have hwalk : ∃ p, (v'.walk siftEntry v'.row.slots 0 (0, predicate)).2.row = v.row.filter p :=
    walk_keeps (P := fun w => ∃ p, w.row = v.row.filter p) hkeep 0 (0, predicate) ⟨_, hall⟩
  obtain ⟨p, hp⟩ := hwalk
  refine ⟨p, ?_⟩
  rw [eraseWhere, withOverride]
  simp only [v'] at hp
  cases hr : View.walk siftEntry v.row.slots 0 (0, predicate)
      { v with destructors := { v.destructors with override } } with
  | mk out w =>
    rw [hr] at hp
    cases out <;> exact hp

theorem visitEach_row {τ : Type} (visitor : Callback τ (Entry α) Flow) (v : View σ α) :
    (v.visitEach visitor).2.row = v.row := by
  have hask : ∀ (visitor : Callback τ (Entry α) Flow) (s : Slot α) (w : View σ α), w.row = v.row →
      (w.ask visitor s.entry).2.row = v.row :=
    fun visitor s w hw => (ask_row visitor s.entry w).trans hw
  have hwalk : (v.walk (fun visitor s w => w.ask visitor s.entry) v.row.slots 0 visitor).2.row = v.row :=
    walk_keeps (P := fun w => w.row = v.row) hask 0 visitor rfl
  rw [visitEach]
  cases hr : v.walk (fun visitor s w => w.ask visitor s.entry) v.row.slots 0 visitor with
  | mk out w =>
    rw [hr] at hwalk
    cases out <;> exact hwalk

end View

namespace Op

variable [AsBytes α] [AsText α]

/-- Every operation that keeps its list, but a transformation, moves the cursor by the law. -/
theorem reading_cursor (op : Op σ α) (hop : op.isMap = false) (hends : op.endsList = false)
    {v : View σ α} (hnodup : v.row.handles.Nodup) :
    (op.reading v).2.row.cursorIndex? = op.cursorAfter v.row.length
      (v.row.handles.map fun h => decide (h ∈ (op.reading v).2.row.handles)) (op.reading v).1
      v.row.cursorIndex? := by
  cases op with
  | length | isEmpty | getRelative i => rfl
  | push side x byteLen =>
    have h := View.push_cursor (v := v) side x (byteLen.resolve x)
    cases side with
    | before => exact h
    | after =>
      rw [show v.tipIdx .after = v.row.length from rfl, Row.cursorIndex?_opened_length, ite_self] at h
      exact h
  | pop side =>
    have h := View.pop_cursor side hnodup
    cases side <;> exact h
  | peek side write =>
    rw [reading, answered, View.peek]
    cases v.row.tip? side with
    | none => rfl
    | some s => exact View.access_cursor write s
  | get i write =>
    rw [reading, answered, View.get]
    cases v.row.slots[i]? with
    | none => rfl
    | some s => exact View.access_cursor write s
  | eraseIdx i override => exact View.eraseIdx_cursor i override hnodup
  | takeIdx i => exact View.takeIdx_cursor i hnodup
  | insertIdx i x byteLen => exact View.insertIdx_cursor i x byteLen
  | cursorReset => exact Row.cursorIndex?_rewind v.row
  | cursorNext write => exact View.cursorNext_cursor write
  | cursorFirst write =>
    have h := View.cursorNext_cursor (v := v.cursorReset) write
    have hreset : v.cursorReset.row.cursorIndex? = within v.row.length 0 := Row.cursorIndex?_rewind v.row
    rw [hreset] at h
    refine h.trans ?_
    rw [show v.cursorReset.row.length = v.row.length from rfl, cursorAfter, within, within]
    split
    · rfl
    · rw [if_neg (by omega)]
      rfl
  | visitEach visitor =>
    have hrow := View.visitEach_row visitor v
    rw [cursorAfter, ← hrow]
    rfl
  | eraseWhere predicate override =>
    obtain ⟨p, hp⟩ := View.eraseWhere_row predicate override v
    have hrow : (reading v (.eraseWhere predicate override)).2.row = v.row.filter p := hp
    have hkept : (v.row.handles.map fun h => decide (h ∈ (v.row.filter p).handles)) =
        v.row.slots.map p := by
      rw [show v.row.handles = v.row.slots.map Slot.handle from rfl, List.map_map]
      refine List.map_congr_left fun s hs => ?_
      rw [Function.comp, Bool.eq_iff_iff, decide_eq_true_iff]
      exact Row.mem_handles_filter hnodup hs
    rw [hrow, hkept]
    exact Row.cursorIndex?_filter p v.row
  | join refuses delimiter =>
    obtain ⟨line, line', h⟩ := View.join_snd refuses delimiter v
    have hrow : (reading v (.join refuses delimiter)).2 = (v.log line).log line' := h
    rw [hrow]
    rfl
  | map transform => cases hop
  | destroy override => cases hends

end Op

namespace World

variable {w : World σ α} {strayed : List Handle} {k : Nat} {d : Deque σ α}

/-- The position of the cursor of a list. One that is exhausted has none, and so has a list that is not
there. -/
def cursorIndex? (w : World σ α) (k : Nat) : Option Nat :=
  (w.list? k).bind fun d => (w.linkage d).cursorIndex?

theorem Sound.cursorIndex?_eq (hw : w.Sound strayed) (k : Nat) :
    w.cursorIndex? k = (w.row k).cursorIndex? := by
  rw [cursorIndex?, row]
  cases hk : w.list? k with
  | none => rfl
  | some d => exact (hw.shows hk).cursorIndex?_eq

theorem Sound.cursorIndex?_view (hw : w.Sound strayed) (hk : w.list? k = some d) :
    w.cursorIndex? k = (w.view d).row.cursorIndex? := by
  rw [hw.cursorIndex?_eq, row_of_list? hk]
  rfl

variable [AsBytes α] [AsText α]

/-- Which nodes of a list are still in it after an operation on it. -/
def kept (w : World σ α) (k : Nat) (op : Op σ α) : List Bool :=
  (w.nodes k).map fun h => decide (h ∈ (w.use k op).2.nodes k)

/-- The row of a list after an operation on it that keeps it. -/
theorem use_row (hw : w.Sound strayed) (hk : w.list? k = some d) (op : Op σ α)
    (hends : op.endsList = false) : (w.use k op).2.row k = (op.reading (w.view d)).2.row := by
  cases hop : op.isMap with
  | false =>
    have h := use_leads hk (hw.shows hk) (op.leads hop (w.view d)) hends
    exact h.2.2.1
  | true =>
    obtain ⟨transform, rfl⟩ := Op.eq_map hop
    obtain ⟨out, u, l, hmapped, hl, huse⟩ := use_maps hw hk transform
    have hspares : View.Spares (w.view d) u := by
      rcases out with p | ⟨_ | chain, transform'⟩
      · exact hmapped.1
      · exact hmapped.1
      · exact hmapped.1
    have hlist : (w.use k (.map transform)).2.list? k = some ⟨l.chain, u.destructors.default⟩ := by
      rw [huse]
      exact (getElem?_settle (lt_of_list? hk) k).trans (if_pos rfl)
    rw [row_of_list? hlist, huse]
    exact hl.row_eq.trans hspares.row

theorem kept_eq (hw : w.Sound strayed) (hk : w.list? k = some d) (op : Op σ α)
    (hends : op.endsList = false) : w.kept k op =
      (w.view d).row.handles.map fun h => decide (h ∈ (op.reading (w.view d)).2.row.handles) := by
  rw [kept, hw.nodes_eq, (use_sound hw k op).nodes_eq, use_row hw hk op hends, row_of_list? hk]
  rfl

theorem use_result (hw : w.Sound strayed) (hk : w.list? k = some d) (op : Op σ α)
    (hop : op.isMap = false) : (w.use k op).1.result = (op.reading (w.view d)).1 := by
  obtain ⟨l, -, huse⟩ := use_reads hw hk op hop
  rw [huse]

theorem use_cursorIndex? (hw : w.Sound strayed) (hk : w.list? k = some d) (op : Op σ α) :
    (w.use k op).2.cursorIndex? k = op.cursorAfter (w.contents k).length (w.kept k op)
      (w.use k op).1.result (w.cursorIndex? k) := by
  have hlength : (w.contents k).length = (w.view d).row.length := by
    rw [← hw.entries_view hk, Row.length_entries]
  cases hends : op.endsList with
  | true =>
    obtain ⟨u, heap', chain', strays, made, hu⟩ := use_eq hk (hw.shows hk) op
    have hgone : (w.use k op).2.list? k = none := by
      rw [hu.list?_eq hk, if_pos rfl, if_pos hends]
    rw [cursorIndex?, hgone]
    cases op with
    | destroy override => rfl
    | _ => cases hends
  | false =>
    rw [(use_sound hw k op).cursorIndex?_eq, use_row hw hk op hends]
    cases hop : op.isMap with
    | false =>
      rw [op.reading_cursor hop hends (hw.nodup_view hk), kept_eq hw hk op hends,
        use_result hw hk op hop, hlength, hw.cursorIndex?_view hk]
    | true =>
      obtain ⟨transform, rfl⟩ := Op.eq_map hop
      rw [hw.cursorIndex?_view hk]
      rfl

theorem use_cursorNext (hw : w.Sound strayed) (hk : w.list? k = some d) (write : Option α) :
    (w.use k (.cursorNext write)).1.result =
      .ok (.entry ((w.cursorIndex? k).bind ((w.contents k)[·]?))) := by
  have hentries : (fun i : Nat => (w.contents k)[i]?) =
      fun i => ((w.view d).row.slots[i]?).map Slot.entry := by
    funext i
    rw [← hw.entries_view hk, Row.getElem?_entries]
  rw [use_result hw hk _ rfl, Op.reading, Op.answered, View.cursorNext_fst, hw.cursorIndex?_view hk,
    hentries, ← Row.getElem?_cursorIndex?, Option.map_bind]
  rfl

/-- After every run, each operation on a list moves the cursor by the law; the cursor yields the entry at
its position; and a cursor without one gets one only by being put back to the front. -/
theorem run_cursorIndex? (steps : List (Step σ α)) {k : Nat} {d : Deque σ α}
    (hk : (run steps start).2.list? k = some d) (op : Op σ α) :
    let w := (run steps start).2
    (w.use k op).2.cursorIndex? k = op.cursorAfter (w.contents k).length (w.kept k op)
        (w.use k op).1.result (w.cursorIndex? k) ∧
      (∀ write, op = .cursorNext write → (w.use k op).1.result =
        .ok (.entry ((w.cursorIndex? k).bind ((w.contents k)[·]?)))) ∧
      (op.GoesOn → w.cursorIndex? k = none → (w.use k op).2.cursorIndex? k = none) := by
  intro w
  have hw : w.Sound ([] ++ World.strayed steps start) := run_sound steps start_sound
  refine ⟨use_cursorIndex? hw hk op, ?_, ?_⟩
  · rintro write rfl
    exact use_cursorNext hw hk write
  · intro hop hnone
    rw [use_cursorIndex? hw hk op, hnone, Op.cursorAfter_none hop]

/-- Four entries with the cursor on the third one, of which every other one is erased: the cursor goes on to
the fourth one, which one survivor is before. -/
theorem run_cursorIndex?_erasure :
    let w := (run [.create none, .use 0 (.push .after (.int 1) (.exact 8)),
      .use 0 (.push .after (.int 2) (.exact 8)), .use 0 (.push .after (.int 3) (.exact 8)),
      .use 0 (.push .after (.int 4) (.exact 8)), .use 0 .cursorReset, .use 0 (.cursorNext none),
      .use 0 (.cursorNext none)] (start : World Bool Payload)).2
    let op : Op Bool Payload := .eraseWhere ⟨true, fun accepts _ => (.returns accepts, !accepts)⟩ none
    w.cursorIndex? 0 = some 2 ∧ w.kept 0 op = [false, true, false, true] ∧
      (w.use 0 op).2.cursorIndex? 0 = some 1 := by
  intro w op
  have hk : w.list? 0 = some ⟨⟨.full ⟨⟨4, by decide, by decide⟩, 0, 3⟩, some 2⟩, none⟩ := rfl
  have hcursor : w.cursorIndex? 0 = some 2 := rfl
  have hkept : w.kept 0 op = [false, true, false, true] := by decide +kernel
  refine ⟨hcursor, hkept, (run_cursorIndex? _ hk op).1.trans ?_⟩
  rw [hcursor, hkept]
  decide

end World

end LinkedDeque
