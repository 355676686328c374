import LinkedDeque.Proofs.Readings

/-!
# LinkedDeque.Proofs.Panics

Who stops an operation before it is through:

* `Op.Raises`       — the code handed to an operation, or the destructor of its list, panics on an entry.
* `Op.Counts`       — a count that an operation logs is one of its list, and did not wrap.
* `World.step_raises` — a step is stopped by such code only, or it inserts into a list that is full.
* `World.run_never_faults` — no check of the links fails in any run, a run that goes on after a panic
  included, as long as no list is full.
-/

namespace LinkedDeque

variable {σ τ α ι ο : Type}

/-! ## Code that panics -/

/-- The callback panics on one of these arguments, in some state. -/
def Callback.Raises (f : Callback τ ι ο) (xs : List ι) (report : String) : Prop :=
  ∃ x ∈ xs, ∃ state, (f.step state x).1 = .panics report

def Destructor.Raises (d : Destructor σ α) (xs : List α) (report : String) : Prop :=
  match d with
  | drop => False
  | custom f => f.Raises xs report

/-- The destructor in force panics on one of these payloads. -/
def Destructors.Raises (ds : Destructors σ α) (xs : List α) (report : String) : Prop :=
  ∃ d, ds.override.or ds.default = some d ∧ d.Raises xs report

/-- What stops an operation on a list with this destructor and these entries is code of the caller. -/
def Op.Raises (default : Option (Destructor σ α)) (entries : List (Entry α)) :
    Op σ α → Panic → Prop
  | visitEach visitor, .callback report => visitor.Raises entries report
  | eraseWhere predicate _, .callback report => predicate.Raises entries report
  | map transform, .callback report => transform.Raises entries report
  | eraseIdx _ override, .destructor report | eraseWhere _ override, .destructor report
  | destroy override, .destructor report =>
    Destructors.Raises ⟨default, override⟩ (entries.map Entry.value) report
  | _, _ => False

def Op.isInsertion : Op σ α → Bool
  | push .. | insertIdx .. => true
  | _ => false

/-- A length that is logged is that of the list before, one less or one more, and did not wrap. -/
def Op.Counts (len : Nat) : Op σ α → Log → Prop
  | eraseIdx .., .erase _ n => n + 1 = len
  | insertIdx .., .insert _ n => n = len + 1 ∧ n < capacity
  | _, _ => True

namespace Callback

variable {f : Callback τ ι ο} {x : ι} {xs : List ι} {report : String}

theorem raises_of_call (h : (f.call x).1 = .panics report) (hx : x ∈ xs) : f.Raises xs report :=
  ⟨x, hx, f.state, h⟩

theorem step_call (f : Callback τ ι ο) (x : ι) : (f.call x).2.step = f.step := rfl

theorem step_after (f : Callback τ ι ο) (xs : List ι) : (f.after xs).step = f.step := by
  induction xs generalizing f with
  | nil => rfl
  | cons x xs ih => exact (ih _).trans (step_call f x)

end Callback

namespace Destructors

variable {ds : Destructors σ α} {x : α} {xs : List α} {report : String}

theorem raises_of_dispose (h : (ds.dispose x).2.1 = .panics report) (hx : x ∈ xs) :
    ds.Raises xs report := by
  obtain ⟨default, override⟩ := ds
  rcases override with _ | _ | f
  · rcases default with _ | _ | f
    · cases h
    · cases h
    · exact ⟨.custom f, rfl, Callback.raises_of_call h hx⟩
  · cases h
  · exact ⟨.custom f, rfl, Callback.raises_of_call h hx⟩

/-- A destructor that was called panics on what it panicked on before. -/
theorem raises_dispose : (ds.dispose x).2.2.Raises xs report ↔ ds.Raises xs report := by
  obtain ⟨default, override⟩ := ds
  rcases override with _ | _ | f
  · rcases default with _ | _ | f
    · rfl
    · rfl
    · simp [dispose, Raises, Destructor.run, Destructor.Raises, Callback.Raises, Callback.call]
  · rfl
  · simp [dispose, Raises, Destructor.run, Destructor.Raises, Callback.Raises, Callback.call]

end Destructors

/-! ## What stops a reading -/

namespace View

variable {v u : View σ α} {s : Slot α} {p : Panic} {xs : List α}

theorem ask_raises {f : Callback τ (Entry α) ο} {e : Entry α} {entries : List (Entry α)}
    (h : v.ask f e = (.error p, u)) (he : e ∈ entries) :
    ∃ report, p = .callback report ∧ f.Raises entries report := by
  rw [ask] at h
  cases hc : f.call e with
  | mk reply f' =>
    rw [hc] at h
    cases reply with
    | returns answer => cases h
    | panics report =>
      cases h
      exact ⟨report, rfl, Callback.raises_of_call (by rw [hc]) he⟩

theorem dispose_raises {x : α} (h : (v.dispose x).1 = .error p) (hx : x ∈ xs) :
    ∃ report, p = .destructor report ∧ v.destructors.Raises xs report := by
  obtain ⟨report, hp, hpanics⟩ := dispose_error h
  exact ⟨report, hp, Destructors.raises_of_dispose hpanics hx⟩

theorem erase_raises (h : (v.erase s).1 = .error p) (hs : s.payload ∈ xs) :
    ∃ report, p = .destructor report ∧ v.destructors.Raises xs report :=
  dispose_raises (v := { v with row := v.row.erase s.handle }) h hs

theorem drain_raises {run : List (Slot α)} (hrun : ∀ s ∈ run, s.payload ∈ xs)
    (h : (v.drain run).1 = .error p) :
    ∃ report, p = .destructor report ∧ v.destructors.Raises xs report := by
  induction run generalizing v with
  | nil => cases h
  | cons s run ih =>
    rw [List.forall_mem_cons] at hrun
    let w : View σ α := { v with rest := v.rest.set s.handle none }
    have hs : (w.dispose s.payload).1 = .error p → ∃ report, p = .destructor report ∧
        w.destructors.Raises xs report := fun h => dispose_raises h hrun.1
    have hnext : (w.dispose s.payload).2.destructors = (v.destructors.dispose s.payload).2.2 := by
      rw [dispose_snd]
    rw [drain] at h
    cases hr : w.dispose s.payload with
    | mk out u =>
      rw [hr] at h hs hnext
      cases out with
      | error q => exact hs h
      | ok _ =>
        obtain ⟨report, hp, hraises⟩ := ih hrun.2 h
        rw [show u.destructors = _ from hnext, Destructors.raises_dispose] at hraises
        exact ⟨report, hp, hraises⟩

theorem place_error {i : Nat} {e : Entry α} (h : (v.place i e).1 = .error p) :
    p = .fault .capacity ∧ capacity ≤ v.row.length + 1 := by
  rw [place, allocate] at h
  cases hattempt : v.allocator.attempt with
  | mk refused allocator =>
    rw [hattempt] at h
    cases refused with
    | true => cases h
    | false =>
      by_cases hroom : v.row.length + 1 < capacity
      · simp [hroom] at h
      · simp only [Bool.false_eq_true, if_false, hroom, Except.error.injEq] at h
        exact ⟨h.symm, Nat.le_of_not_lt hroom⟩

theorem Placed.error {x : α} {n : UInt64} {i : Nat} {r : Reading σ α (Except (InsertError α) Unit)}
    (h : Placed x ((v.emit (.entered x)).place i ⟨x, n⟩) r) (hp : r.1 = .error p) :
    p = .fault .capacity ∧ capacity ≤ v.row.length + 1 := by
  have hplace : ((v.emit (.entered x)).place i ⟨x, n⟩).1 = .error p →
      p = .fault .capacity ∧ capacity ≤ v.row.length + 1 := place_error
  cases hr : (v.emit (.entered x)).place i ⟨x, n⟩ with
  | mk out w =>
    rw [hr] at h hplace
    rcases out with q | _ | _
    · obtain rfl : r = (.error q, w) := h
      cases hp
      exact hplace rfl
    · obtain rfl : r = w.refuse x .alloc := h
      cases hp
    · obtain ⟨line, rfl⟩ := h
      cases hp

theorem push_error {side : Side} {x : α} {n : UInt64} (h : (v.push side x n).1 = .error p) :
    p = .fault .capacity ∧ capacity ≤ v.row.length + 1 :=
  (push_placed side).error h

theorem insertIdx_error {i : Nat} {x : α} {n : UInt64} (h : (v.insertIdx i x n).1 = .error p) :
    p = .fault .capacity ∧ capacity ≤ v.row.length + 1 := by
  rcases Nat.lt_or_ge v.row.length i with hlt | hi
  · rw [insertIdx_outside hlt] at h
    cases h
  · exact (insertIdx_placed hi).error h

theorem eraseIdx_raises {i : Nat} {override : Option (Destructor σ α)}
    (h : (v.eraseIdx i override).1 = .error p) :
    ∃ report, p = .destructor report ∧
      Destructors.Raises ⟨v.destructors.default, override⟩ (v.row.entries.map Entry.value) report := by
  rw [eraseIdx] at h
  cases hs : v.row.slots[i]? with
  | none =>
    rw [hs] at h
    cases h
  | some s =>
    rw [hs] at h
    have hmem : s.payload ∈ v.row.entries.map Entry.value := by
      rw [Row.entries, List.map_map]
      exact List.mem_map_of_mem (List.mem_of_getElem? hs)
    let w : View σ α := { v with destructors := { v.destructors with override } }
    have herase : (v.withOverride override (·.erase s)).1 = .error p →
        ∃ report, p = .destructor report ∧ w.destructors.Raises _ report :=
      fun h => erase_raises (v := w) h hmem
    simp only at h
    cases hr : v.withOverride override (·.erase s) with
    | mk out u =>
      rw [hr] at h herase
      cases out with
      | error q =>
        cases h
        exact herase rfl
      | ok _ => cases h

theorem clear_raises {override : Option (Destructor σ α)} (h : (v.clear override).1 = .error p) :
    ∃ report, p = .destructor report ∧
      Destructors.Raises ⟨v.destructors.default, override⟩ (v.row.entries.map Entry.value) report := by
  let w : View σ α := { v.abandon with destructors := { v.destructors with override } }
  have hdrain : (v.abandon.withOverride override (·.drain v.row.slots)).1 = .error p →
      ∃ report, p = .destructor report ∧
        w.destructors.Raises (v.row.entries.map Entry.value) report := by
    refine drain_raises (v := w) ?_
    intro s hs
    rw [Row.entries, List.map_map]
    exact List.mem_map_of_mem hs
  rw [clear] at h
  cases hr : v.abandon.withOverride override (·.drain v.row.slots) with
  | mk out u =>
    rw [hr] at h hdrain
    cases out with
    | error q => exact hdrain h
    | ok _ => cases h

theorem logged_error {β : Type} {r : Reading σ α (Nat × β)} (h : (logged r).1 = .error p) :
    r.1 = .error p := by
  obtain ⟨out, w⟩ := r
  cases out with
  | error q => exact h
  | ok b => cases h

theorem visitEach_raises {visitor : Callback τ (Entry α) Flow}
    (h : (v.visitEach visitor).1 = .error p) :
    ∃ report, p = .callback report ∧ visitor.Raises v.row.entries report := by
  -- the calls change the state of the visitor, and nothing else of it
  let P := fun (f : Callback τ (Entry α) Flow) (_ : View σ α) => f.step = visitor.step
  let Q := fun p : Panic => ∃ report, p = .callback report ∧ visitor.Raises v.row.entries report
  refine walk_panics (P := P) (Q := Q) ?_ ?_ rfl (logged_error h)
  · intro f s w flow f' u _ hf hr
    rw [ask] at hr
    cases hc : f.call s.entry with
    | mk reply g =>
      rw [hc] at hr
      cases reply with
      | panics report => cases hr
      | returns answer =>
        cases hr
        refine Eq.trans ?_ hf
        rw [← Callback.step_call f s.entry, hc]
  · intro f s w p u hs hf hr
    obtain ⟨report, hp, hraises⟩ := ask_raises hr (List.mem_map_of_mem hs)
    refine ⟨report, hp, ?_⟩
    rw [Callback.Raises, show f.step = visitor.step from hf] at hraises
    exact hraises

/-- What stops an erasure of entries is the predicate, or the destructor in force. -/
theorem siftEntry_raises {predicate : Callback τ (Entry α) Bool} {removed : Nat}
    {entries : List (Entry α)} (hs : s.entry ∈ entries)
    (h : v.siftEntry (removed, predicate) s = (.error p, u)) :
    (∃ report, p = .callback report ∧ predicate.Raises entries report) ∨
      ∃ report, p = .destructor report ∧ v.destructors.Raises (entries.map Entry.value) report := by
  have hasked := ask_snd predicate s.entry v
  rw [siftEntry] at h
  cases hr : v.ask predicate s.entry with
  | mk out w =>
    rw [hr] at h hasked
    have hw : w.destructors = v.destructors := by
      rw [show w = _ from hasked]
      rfl
    rcases out with q | ⟨_ | _, predicate'⟩
    · cases h
      exact .inl (ask_raises hr hs)
    · cases h
    · simp only at h
      have hpayload : s.payload ∈ entries.map Entry.value := List.mem_map_of_mem hs
      have herase : (w.erase s).1 = .error p → ∃ report, p = .destructor report ∧
          w.destructors.Raises (entries.map Entry.value) report := fun h => erase_raises h hpayload
      rw [hw] at herase
      cases he : w.erase s with
      | mk out' w' =>
        rw [he] at h herase
        cases out' with
        | ok _ => cases h
        | error q =>
          cases h
          exact .inr (herase rfl)

theorem siftEntry_keeps {predicate predicate' : Callback τ (Entry α) Bool} {removed removed' : Nat}
    {flow : Flow} (h : v.siftEntry (removed, predicate) s = (.ok (flow, removed', predicate'), u)) :
    predicate'.step = predicate.step ∧
      ∀ xs report, u.destructors.Raises xs report ↔ v.destructors.Raises xs report := by
  cases hc : predicate.call s.entry with
  | mk reply next =>
    have hnext : next.step = predicate.step := by
      rw [← Callback.step_call predicate s.entry, hc]
    cases reply with
    | panics report =>
      have hpanics : (predicate.call s.entry).1 = .panics report := by rw [hc]
      rw [siftEntry, ask_panics hpanics] at h
      cases h
    | returns accepts =>
      cases accepts with
      | false =>
        rw [siftEntry_rejects hc] at h
        cases h
        exact ⟨hnext, fun _ _ => .rfl⟩
      | true =>
        have hds := erase_destructors s (v.emit (.called s.entry))
        rw [siftEntry, ask_returns hc] at h
        simp only at h
        cases he : (v.emit (.called s.entry)).erase s with
        | mk out w =>
          rw [he] at h hds
          cases out with
          | error q => cases h
          | ok _ =>
            cases h
            refine ⟨hnext, fun xs report => ?_⟩
            rw [show u.destructors = _ from hds]
            exact Destructors.raises_dispose

theorem eraseWhere_raises {predicate : Callback τ (Entry α) Bool} {override : Option (Destructor σ α)}
    (h : (v.eraseWhere predicate override).1 = .error p) :
    (∃ report, p = .callback report ∧ predicate.Raises v.row.entries report) ∨
      ∃ report, p = .destructor report ∧
        Destructors.Raises ⟨v.destructors.default, override⟩ (v.row.entries.map Entry.value) report := by
  let v' : View σ α := { v with destructors := { v.destructors with override } }
  let P := fun (b : Nat × Callback τ (Entry α) Bool) (w : View σ α) => b.2.step = predicate.step ∧
    ∀ report, w.destructors.Raises (v.row.entries.map Entry.value) report ↔
      v'.destructors.Raises (v.row.entries.map Entry.value) report
  have hwalk : (v'.walk siftEntry v'.row.slots 0 (0, predicate)).1 = .error p := by
    rw [eraseWhere] at h
    cases hr : v.withOverride override fun v => v.walk siftEntry v.row.slots 0 (0, predicate) with
    | mk out w =>
      rw [hr] at h
      cases out with
      | ok b => cases h
      | error q =>
        cases h
        exact congrArg Prod.fst hr
  let Q := fun p : Panic => (∃ report, p = .callback report ∧ predicate.Raises v.row.entries report) ∨
    ∃ report, p = .destructor report ∧
      v'.destructors.Raises (v.row.entries.map Entry.value) report
  refine walk_panics (P := P) (Q := Q) ?_ ?_ ⟨rfl, fun _ => .rfl⟩ hwalk
  · rintro ⟨removed, f⟩ s w flow ⟨removed', f'⟩ u _ ⟨hf, hds⟩ hr
    obtain ⟨hf', hds'⟩ := siftEntry_keeps hr
    exact ⟨hf'.trans hf, fun report => (hds' _ report).trans (hds report)⟩
  · rintro ⟨removed, f⟩ s w p u hs ⟨hf, hds⟩ hr
    have hmem : s.entry ∈ v.row.entries := List.mem_map_of_mem hs
    rcases siftEntry_raises hmem hr with ⟨report, hp, hraises⟩ | ⟨report, hp, hraises⟩
    · refine .inl ⟨report, hp, ?_⟩
      rw [Callback.Raises, show f.step = predicate.step from hf] at hraises
      exact hraises
    · exact .inr ⟨report, hp, (hds report).1 hraises⟩

end View

namespace Op

variable [AsBytes α] [AsText α] {v : View σ α} {p : Panic}

/-- An operation is stopped by code of the caller, or it inserts into a row that is full. -/
theorem reading_raises (op : Op σ α) (h : (op.reading v).1 = .error p) :
    op.Raises v.destructors.default v.row.entries p ∨
      p = .fault .capacity ∧ op.isInsertion = true ∧ capacity ≤ v.row.length + 1 := by
  have hanswered : ∀ {β : Type} {f : β → Answer α} {r : Reading σ α β},
      (answered f r).1 = .error p → r.1 = .error p := by
    rintro β f ⟨out, w⟩ h
    cases out with
    | error q =>
      cases h
      rfl
    | ok b => cases h
  cases op with
  | length | isEmpty | cursorReset | map transform => cases h
  | push side x byteLen =>
    obtain ⟨hp, hfull⟩ := View.push_error (hanswered h)
    exact .inr ⟨hp, rfl, hfull⟩
  | insertIdx i x byteLen =>
    obtain ⟨hp, hfull⟩ := View.insertIdx_error (hanswered h)
    exact .inr ⟨hp, rfl, hfull⟩
  | pop side =>
    have h' := hanswered h
    rw [View.pop] at h'
    cases hs : v.row.tip? side <;> rw [hs] at h' <;> cases h'
  | peek side write =>
    have h' := hanswered h
    rw [View.peek] at h'
    cases hs : v.row.tip? side <;> rw [hs] at h' <;> cases h'
  | get i write =>
    have h' := hanswered h
    rw [View.get] at h'
    cases hs : v.row.slots[i]? <;> rw [hs] at h' <;> cases h'
  | getRelative i => cases hanswered h
  | takeIdx i =>
    have h' := hanswered h
    rw [View.takeIdx] at h'
    cases hs : v.row.slots[i]? <;> rw [hs] at h' <;> cases h'
  | cursorNext write =>
    have h' := hanswered h
    rw [View.cursorNext_fst] at h'
    cases h'
  | cursorFirst write =>
    have h' := hanswered h
    rw [View.cursorNext_fst] at h'
    cases h'
  | join refuses delimiter =>
    obtain ⟨text, ht⟩ := View.join_ok refuses delimiter v
    have h' := hanswered h
    rw [ht] at h'
    cases h'
  | eraseIdx i override =>
    obtain ⟨report, rfl, hraises⟩ := View.eraseIdx_raises (hanswered h)
    exact .inl hraises
  | destroy override =>
    obtain ⟨report, rfl, hraises⟩ := View.clear_raises (hanswered h)
    exact .inl hraises
  | visitEach visitor =>
    obtain ⟨report, rfl, hraises⟩ := View.visitEach_raises (hanswered h)
    exact .inl hraises
  | eraseWhere predicate override =>
    rcases View.eraseWhere_raises (hanswered h) with ⟨report, rfl, hraises⟩ | ⟨report, rfl, hraises⟩
    · exact .inl hraises
    · exact .inl hraises

end Op

/-! ## Counts that are logged -/

namespace View

variable {v : View σ α} {line : Log}

theorem logged_emit {e : Event α} (he : ∀ line, e ≠ .logged line)
    (h : .logged line ∈ (v.emit e).trace) : .logged line ∈ v.trace := by
  rcases Array.mem_push.1 h with h | h
  · exact h
  · exact absurd h.symm (he line)

theorem logged_log {line' : Log} (h : .logged line ∈ (v.log line').trace) :
    .logged line ∈ v.trace ∨ line = line' := by
  rcases Array.mem_push.1 h with h | h
  · exact .inl h
  · exact .inr (Event.logged.inj h)

theorem eraseIdx_logged {i : Nat} {override : Option (Destructor σ α)} (ht : v.trace = #[])
    (h : .logged line ∈ (v.eraseIdx i override).2.trace) : line = .erase i (v.row.length - 1) ∧
      i < v.row.length := by
  rw [eraseIdx] at h
  cases hs : v.row.slots[i]? with
  | none =>
    rw [hs] at h
    simp [ht] at h
  | some s =>
    obtain ⟨hi, -⟩ := List.getElem?_eq_some_iff.1 hs
    rw [hs] at h
    have hquiet : .logged line ∉ (v.withOverride override (·.erase s)).2.trace := by
      let w : View σ α := { v with destructors := { v.destructors with override } }
      have hsnd : (v.withOverride override (·.erase s)).2.trace =
          v.trace.push (.left w.destructors.fate s.payload) := by
        show (w.erase s).2.trace = _
        rw [erase, dispose_snd]
        rfl
      simp [hsnd, ht]
    simp only at h
    cases hr : v.withOverride override (·.erase s) with
    | mk out u =>
      rw [hr] at h hquiet
      cases out with
      | error p => exact absurd h hquiet
      | ok _ =>
        rcases logged_log h with h | h
        · exact absurd h hquiet
        · exact ⟨h, hi⟩

theorem insertIdx_logged {i : Nat} {x : α} {n : UInt64} (ht : v.trace = #[])
    (h : .logged line ∈ (v.insertIdx i x n).2.trace) :
    line = .refused n ∨ line = .insert i (v.row.length + 1) ∧ v.row.length + 1 < capacity := by
  let w := v.emit (.entered x)
  have hquiet : .logged line ∉ w.trace := by
    intro hmem
    have hmem' := logged_emit (by simp) hmem
    simp [ht] at hmem'
  have hrefuse : ∀ {u : View σ α} {failure : InsertFailure},
      .logged line ∈ (u.refuse x failure).2.trace → .logged line ∈ u.trace :=
    fun h => logged_emit (by simp) h
  rw [insertIdx] at h
  by_cases hlt : w.row.length < i
  · rw [if_pos hlt] at h
    exact absurd (hrefuse h) hquiet
  · rw [if_neg hlt, place, allocate] at h
    cases hattempt : w.allocator.attempt with
    | mk refused allocator =>
      simp only [w] at hattempt
      simp only [hattempt] at h
      cases refused with
      | true =>
        rcases logged_log (hrefuse h) with h | h
        · exact absurd h hquiet
        · exact .inl h
      | false =>
        by_cases hroom : w.row.length + 1 < capacity
        · simp only [w] at hroom
          simp only [Bool.false_eq_true, if_false, hroom, if_true] at h
          rcases logged_log h with h | h
          · exact absurd h hquiet
          · exact .inr ⟨h, hroom⟩
        · simp only [w] at hroom
          simp only [Bool.false_eq_true, if_false, hroom] at h
          exact absurd h hquiet

end View

theorem Op.reading_counts [AsBytes α] [AsText α] (op : Op σ α) {v : View σ α} {line : Log}
    (ht : v.trace = #[]) (h : .logged line ∈ (op.reading v).2.trace) : op.Counts v.row.length line := by
  cases op with
  | eraseIdx i override =>
    obtain ⟨rfl, hi⟩ := View.eraseIdx_logged ht h
    show v.row.length - 1 + 1 = v.row.length
    omega
  | insertIdx i x n =>
    rcases View.insertIdx_logged ht h with rfl | ⟨rfl, hroom⟩
    · trivial
    · exact ⟨rfl, hroom⟩
  | _ => cases line <;> trivial

/-! ## Worlds -/

/-- What stops a step is code of the caller, on the list that it uses. -/
def Step.Raises (w : World σ α) : Step σ α → Panic → Prop
  | use k op, p => ∃ d, w.list? k = some d ∧ op.Raises d.default (w.contents k) p
  | _, _ => False

/-- A step inserts into a list that has as many entries as a count can hold. -/
def Step.Overfills (w : World σ α) : Step σ α → Prop
  | use k op => op.isInsertion = true ∧ capacity ≤ (w.contents k).length + 1
  | _ => False

/-- The lengths that a step logs are those of the list that it uses. -/
def Step.Counts (w : World σ α) : Step σ α → Log → Prop
  | use k op, line => op.Counts (w.contents k).length line
  | _, _ => True

theorem Step.Raises.not_fault {w : World σ α} {s : Step σ α} {f : Fault} : ¬ s.Raises w (.fault f) := by
  intro h
  cases s with
  | use k op =>
    obtain ⟨d, -, h⟩ := h
    cases op <;> exact h
  | create default => exact h
  | arm refuses => exact h

namespace World

variable [AsBytes α] [AsText α] {w : World σ α} {strayed : List Handle}

/-- Every list has room for one more entry. -/
def Roomy (w : World σ α) : Prop := ∀ k, (w.contents k).length + 1 < capacity

theorem use_raises (hw : w.Sound strayed) {k : Nat} {op : Op σ α} {p : Panic}
    (h : (w.use k op).1.result = .error p) :
    (Step.use k op).Raises w p ∨ p = .fault .capacity ∧ (Step.use k op).Overfills w := by
  cases hk : w.list? k with
  | none =>
    rw [use_absent hk] at h
    cases h
  | some d =>
    have hentries := hw.entries_view hk
    cases hop : op.isMap with
    | false =>
      obtain ⟨l, -, huse⟩ := use_reads hw hk op hop
      rw [huse] at h
      rcases op.reading_raises h with h | ⟨rfl, hinserts, hfull⟩
      · rw [hentries] at h
        exact .inl ⟨d, hk, h⟩
      · refine .inr ⟨rfl, hinserts, ?_⟩
        rwa [← Row.length_entries, hentries] at hfull
    | true =>
      obtain ⟨transform, rfl⟩ := Op.eq_map hop
      obtain ⟨out, u, l, hmapped, -, huse⟩ := use_maps hw hk transform
      rw [huse] at h
      rcases out with q | ⟨_ | chain, transform'⟩
      · cases h
        obtain ⟨-, report, came, rfl, ⟨front, s, back, hr, -, hs, -⟩, -⟩ := hmapped
        refine .inl ⟨d, hk, ?_⟩
        rw [← hentries]
        refine ⟨s.entry, ?_, (transform.after (entriesOf front)).state, ?_⟩
        · rw [Row.entries, hr]
          simp
        · rw [← Callback.step_after transform (entriesOf front)]
          exact hs
      · cases h
      · cases h

/-- A step is stopped by code of the caller, or it inserts into a list that is full. -/
theorem step_raises (hw : w.Sound strayed) {s : Step σ α} {p : Panic}
    (h : (w.step s).1.result = .error p) :
    s.Raises w p ∨ p = .fault .capacity ∧ s.Overfills w := by
  cases s with
  | use k op => exact use_raises hw h
  | create default => cases h
  | arm refuses => cases h

theorem step_counts (hw : w.Sound strayed) {s : Step σ α} {line : Log}
    (h : .logged line ∈ (w.step s).1.events) : s.Counts w line := by
  cases s with
  | create default => trivial
  | arm refuses => trivial
  | use k op =>
    cases hk : w.list? k with
    | none =>
      rw [step, use_absent hk] at h
      simp at h
    | some d =>
      cases hop : op.isMap with
      | true =>
        cases op with
        | map transform => cases line <;> trivial
        | _ => cases hop
      | false =>
        obtain ⟨l, -, huse⟩ := use_reads hw hk op hop
        rw [step, huse] at h
        have hcounts := op.reading_counts (v := w.view d) rfl h
        rwa [← Row.length_entries, hw.entries_view hk] at hcounts

/-- After every run, one that went on after panics included, the next step fails no check of the links
and uses no freed node: all that stops it is code of the caller, on an entry of the list that it uses.
The lengths that it logs did not wrap. -/
theorem run_never_faults (before : List (Step σ α)) (s : Step σ α)
    (hroom : (run before start).2.Roomy) :
    (∀ f, ((run before start).2.step s).1.result ≠ .error (.fault f)) ∧
      (∀ p, ((run before start).2.step s).1.result = .error p → s.Raises (run before start).2 p) ∧
      ∀ line, .logged line ∈ ((run before start).2.step s).1.events →
        s.Counts (run before start).2 line := by
  have hw := run_sound before (start_sound (σ := σ) (α := α))
  have hraises : ∀ p, ((run before start).2.step s).1.result = .error p →
      s.Raises (run before start).2 p := by
    intro p hp
    refine (step_raises hw hp).resolve_right ?_
    rintro ⟨-, hfull⟩
    cases s with
    | use k op => exact absurd (hroom k) (Nat.not_lt.2 hfull.2)
    | create default => exact hfull
    | arm refuses => exact hfull
  refine ⟨fun f hf => Step.Raises.not_fault (hraises _ hf), hraises, fun line hline => ?_⟩
  exact step_counts hw hline

/-- A list whose destructor panics, used again after the panic; the next erasure panics as well. -/
theorem run_never_faults_again :
    let boom : Destructor Unit Payload := .custom ⟨(), fun _ _ => (.panics "boom", ())⟩
    let before : List (Step Unit Payload) := [.create (some boom),
      .use 0 (.push .after (.int 3) (.exact 8)), .use 0 (.push .after (.int 5) (.exact 8)),
      .use 0 (.eraseIdx 0 none)]
    let w := (run before start).2
    w.Roomy ∧ (w.step (.use 0 (.eraseIdx 0 none))).1.result = .error (.destructor "boom") ∧
      (Step.use 0 (.eraseIdx 0 none)).Raises w (.destructor "boom") := by
  intro boom before w
  have hroom : w.Roomy := by
    intro k
    cases k with
    | zero =>
      rw [show (w.contents 0).length = 1 from rfl]
      decide
    | succ k =>
      rw [show (w.contents (k + 1)).length = 0 from rfl]
      decide
  have hresult : (w.step (.use 0 (.eraseIdx 0 none))).1.result = .error (.destructor "boom") := rfl
  exact ⟨hroom, hresult, (run_never_faults before _ hroom).2.1 _ hresult⟩

end World

end LinkedDeque
