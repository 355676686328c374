import LinkedDeque.Proofs.Transformed
import LinkedDeque.Proofs.Twins

/-!
# LinkedDeque.Proofs.TwinWalks

Walks over rows that differ in their nodes only:

* `View.Twin.walk` — two walks agree when their bodies do, wherever the walks stand.
* `View.Twin.eraseWhere`, `View.Twin.map` — so do erasures by a predicate and transformations.
* `Op.whole`       — the reading of an operation, with the entries of the list it makes.
* `Op.whole_agrees` — an operation is settled by the entries of its list.
-/

namespace LinkedDeque

variable {σ τ α β γ ο : Type}

/-! ## Walks -/

namespace View

variable {v u : View σ α} {s : Slot α} {run : List (Slot α)}

/-- Where a walk stands: the entries to come are the last ones of the row. -/
structure Stands (v : View σ α) (run : List (Slot α)) : Prop where
  nodup : v.row.handles.Nodup
  behind : ∃ a, v.row.slots = a ++ run

/-- A body that goes on leaves the walk at the entries behind the one that it was read on. -/
def Proceeds (body : β → Slot α → View σ α → Reading σ α (Flow × β)) : Prop :=
  ∀ b s run v b' u, Stands v (s :: run) → body b s v = (.ok (.go, b'), u) → Stands u run

theorem Stands.start (hnodup : v.row.handles.Nodup) : v.Stands v.row.slots := ⟨hnodup, [], rfl⟩

theorem Stands.getElem? (h : v.Stands (s :: run)) :
    v.row.slots[v.row.length - (run.length + 1)]? = some s := by
  obtain ⟨a, ha⟩ := h.behind
  rw [Row.length, ha]
  simp

theorem Proceeds.of_leavesRest {body : β → Slot α → View σ α → Reading σ α (Flow × β)}
    (hrest : LeavesRest body)
    (hkeep : ∀ b s v, v.row.handles.Nodup → (body b s v).2.row.handles.Nodup) : Proceeds body := by
  rintro b s run v b' u ⟨hnodup, a, ha⟩ hr
  have hu : u.row.handles.Nodup := by simpa [hr] using hkeep b s v hnodup
  exact ⟨hu, hrest b s v a run b' u hnodup ha hr⟩

theorem Proceeds.of_row {body : β → Slot α → View σ α → Reading σ α (Flow × β)}
    (hrow : ∀ b s v, (body b s v).2.row = v.row) : Proceeds body :=
  .of_leavesRest (.of_row hrow) fun b s v hnodup => by rwa [hrow]

theorem proceeds_siftEntry : Proceeds (siftEntry (σ := σ) (τ := τ) (α := α)) := by
  refine .of_leavesRest Leads.leavesRest_siftEntry fun b s v hnodup => ?_
  obtain ⟨p, hp⟩ := v.siftEntry_row b s
  rw [hp]
  exact Row.nodup_filter p hnodup

end View

/-- Two pairs agree: the first parts are the same, and the second ones are related. -/
def Along (B : β → γ → Prop) (x : ο × β) (y : ο × γ) : Prop := x.1 = y.1 ∧ B x.2 y.2

namespace View.Twin

variable {v v' : View σ α} {run run' : List (Slot α)} {B : β → γ → Prop} {b : β} {c : γ}

/-- A walk agrees with another one when their bodies do, wherever the walks stand. -/
theorem walk {body : β → Slot α → View σ α → Reading σ α (Flow × β)}
    {body' : γ → Slot α → View σ α → Reading σ α (Flow × γ)}
    (hbody : Proceeds body) (hbody' : Proceeds body')
    (hagree : ∀ b c s s' run run' (v v' : View σ α), B b c → s.entry = s'.entry →
      entriesOf run = entriesOf run' → v.Stands (s :: run) → v'.Stands (s' :: run') → v.Twin v' →
      Agree (Along B) (body b s v) (body' c s' v'))
    (h : v.Twin v') (hrun : entriesOf run = entriesOf run') (hs : v.Stands run) (hs' : v'.Stands run')
    (n : Nat) (hb : B b c) : Agree (Along B) (v.walk body run n b) (v'.walk body' run' n c) := by
  induction run generalizing run' n b c v v' with
  | nil =>
    rw [List.map_eq_nil_iff.1 hrun.symm]
    exact .ok ⟨rfl, hb⟩ h
  | cons s run ih =>
    obtain ⟨s', run', rfl, he, hrest⟩ := List.map_eq_cons_iff.1 hrun.symm
    have hstep := hagree b c s s' run run' v v' hb he.symm hrest.symm hs hs' h
    have hgo := fun b' u => hbody b s run v b' u hs
    have hgo' := fun c' u => hbody' c s' run' v' c' u hs'
    rw [View.walk, View.walk]
    generalize body b s v = r, body' c s' v' = r' at hstep hgo hgo' ⊢
    cases hstep with
    | error p hw => exact .error p hw
    | @ok x y w w' hxy hw =>
      obtain ⟨flow, b'⟩ := x
      obtain ⟨_, c'⟩ := y
      obtain ⟨rfl, hb'⟩ := hxy
      -- both walks stop here, or both go on
      cases flow with
      | stop => exact .ok ⟨rfl, hb'⟩ hw
      | go => exact ih hw hrest.symm (hgo b' w rfl) (hgo' c' w' rfl) (n + 1) hb'

end View.Twin

namespace Agree

variable {B : β → γ → Prop}

theorem logged {r : Reading σ α (Nat × β)} {r' : Reading σ α (Nat × γ)} (h : Agree (Along B) r r') :
    Agree (Along B) (View.logged r) (View.logged r') := by
  cases h with
  | error p hw => exact .error p hw
  | @ok x y w w' hxy hw =>
    obtain ⟨visited, b⟩ := x
    obtain ⟨_, c⟩ := y
    obtain ⟨rfl, hb⟩ := hxy
    exact .ok ⟨rfl, hb⟩ (hw.logLength (.visit visited))

end Agree

namespace View.Twin

variable {v v' : View σ α}

theorem visitEach (h : v.Twin v') (hnodup : v.row.handles.Nodup) (hnodup' : v'.row.handles.Nodup)
    (visitor : Callback τ (Entry α) Flow) :
    Agree (Along Eq) (v.visitEach visitor) (v'.visitEach visitor) := by
  have hproceeds : Proceeds (σ := σ) fun (visitor : Callback τ (Entry α) Flow) (s : Slot α) w =>
      w.ask visitor s.entry := Proceeds.of_row fun visitor s w => ask_row visitor s.entry w
  refine (walk hproceeds hproceeds ?_ h h.row.entries (.start hnodup) (.start hnodup') 0 rfl).logged
  rintro visitor _ s s' run run' w w' rfl he - - - hw
  have hask := hw.ask visitor s.entry
  rw [← he]
  generalize w.ask visitor s.entry = r, w'.ask visitor s.entry = r' at hask ⊢
  cases hask with
  | error p hw => exact .error p hw
  | ok hb hw => exact .ok ⟨congrArg Prod.fst hb, congrArg Prod.snd hb⟩ hw

theorem join [AsText α] (h : v.Twin v') (hnodup : v.row.handles.Nodup) (hnodup' : v'.row.handles.Nodup)
    (refuses : Deque.Growth) (delimiter : String) :
    Agree Eq (v.join refuses delimiter) (v'.join refuses delimiter) := by
  have hproceeds : Proceeds (σ := σ) (joinEntry (α := α) refuses delimiter) :=
    Proceeds.of_row fun _ _ _ => rfl
  have hwalk := (walk (B := Eq) (b := .start) (c := .start) hproceeds hproceeds ?_ h h.row.entries
    (.start hnodup) (.start hnodup') 0 rfl).logged
  · rw [View.join, View.join]
    generalize logged (v.walk (joinEntry refuses delimiter) v.row.slots 0 .start) = r,
      logged (v'.walk (joinEntry refuses delimiter) v'.row.slots 0 .start) = r' at hwalk ⊢
    cases hwalk with
    | error p hw => exact .error p hw
    | @ok x y w w' hxy hw =>
      obtain ⟨visited, j⟩ := x
      obtain ⟨_, _⟩ := y
      obtain ⟨rfl, rfl⟩ := hxy
      exact .ok rfl (hw.log _)
  · rintro j _ s s' run run' w w' rfl he - - - hw
    rw [joinEntry, joinEntry, Slot.payload, Slot.payload, he]
    exact .ok ⟨rfl, rfl⟩ hw

/-! ### Erasures by a predicate, and the end of a row -/

theorem siftEntry {s s' : Slot α} {run run' : List (Slot α)} (h : v.Twin v') (he : s.entry = s'.entry)
    (hrun : entriesOf run = entriesOf run') (hs : v.Stands (s :: run)) (hs' : v'.Stands (s' :: run'))
    (b : Nat × Callback τ (Entry α) Bool) :
    Agree (Along Eq) (v.siftEntry b s) (v'.siftEntry b s') := by
  obtain ⟨removed, predicate⟩ := b
  have hask := h.ask predicate s.entry
  -- as many entries are to come in both rows, so the two entries have the same position
  have hget := hs.getElem?
  have hget' := hs'.getElem?
  have hlen : run.length = run'.length := by simpa using congrArg List.length hrun
  rw [← h.row.length, ← hlen] at hget'
  have hrow₁ := ask_row predicate s.entry v
  have hrow₂ := ask_row predicate s.entry v'
  rw [View.siftEntry, View.siftEntry, ← he]
  generalize v.ask predicate s.entry = r, v'.ask predicate s.entry = r' at hask hrow₁ hrow₂ ⊢
  cases hask with
  | error p hw => exact .error p hw
  | @ok x _ w w' hb hw =>
    cases hb
    obtain ⟨accepts, predicate'⟩ := x
    cases accepts with
    | false => exact .ok ⟨rfl, rfl⟩ hw
    | true =>
      have hw₁ : w.row = v.row := hrow₁
      have hw₂ : w'.row = v'.row := hrow₂
      have herase := hw.erase (by rw [hw₁]; exact hs.nodup) (by rw [hw₂]; exact hs'.nodup)
        (by rw [hw₁]; exact hget) (by rw [hw₂]; exact hget') he
      simp only
      generalize w.erase s = r, w'.erase s' = r' at herase ⊢
      cases herase with
      | error p hw => exact .error p hw
      | ok _ hw => exact .ok ⟨rfl, rfl⟩ hw

theorem sift (h : v.Twin v') (hnodup : v.row.handles.Nodup) (hnodup' : v'.row.handles.Nodup)
    (b : Nat × Callback τ (Entry α) Bool) : Agree (Along Eq) (v.walk View.siftEntry v.row.slots 0 b)
      (v'.walk View.siftEntry v'.row.slots 0 b) := by
  refine walk proceeds_siftEntry proceeds_siftEntry ?_ h h.row.entries (.start hnodup) (.start hnodup') 0 rfl
  rintro b _ s s' run run' w w' rfl he hrun hs hs' hw
  exact hw.siftEntry he hrun hs hs' b

theorem eraseWhere (h : v.Twin v') (hnodup : v.row.handles.Nodup) (hnodup' : v'.row.handles.Nodup)
    (predicate : Callback τ (Entry α) Bool) (override : Option (Destructor σ α)) :
    Agree Eq (v.eraseWhere predicate override) (v'.eraseWhere predicate override) := by
  have hwalk : Agree (Along Eq)
      (v.withOverride override fun v => v.walk View.siftEntry v.row.slots 0 (0, predicate))
      (v'.withOverride override fun v => v.walk View.siftEntry v.row.slots 0 (0, predicate)) :=
    Agree.override ((h.setOverride override).sift hnodup hnodup' (0, predicate))
  rw [View.eraseWhere, View.eraseWhere]
  generalize v.withOverride override (fun v => v.walk View.siftEntry v.row.slots 0 (0, predicate)) = r,
    v'.withOverride override (fun v => v.walk View.siftEntry v.row.slots 0 (0, predicate)) = r' at hwalk ⊢
  cases hwalk with
  | error p hw => exact .error p hw
  | @ok x y w w' hxy hw =>
    obtain ⟨visited, removed, predicate'⟩ := x
    obtain ⟨_, _, _⟩ := y
    obtain ⟨rfl, he⟩ := hxy
    cases he
    exact .ok rfl (hw.logLength (.eraseWhere removed))

theorem drain {run run' : List (Slot α)} (h : v.Twin v') (hrun : entriesOf run = entriesOf run') :
    Agree Eq (v.drain run) (v'.drain run') := by
  induction run generalizing run' v v' with
  | nil =>
    rw [List.map_eq_nil_iff.1 hrun.symm]
    exact .ok rfl h
  | cons s run ih =>
    obtain ⟨s', run', rfl, he, hrest⟩ := List.map_eq_cons_iff.1 hrun.symm
    have hfree : View.Twin { v with rest := v.rest.set s.handle none }
      { v' with rest := v'.rest.set s'.handle none } := ⟨h.row, h.destructors, h.allocator, h.trace⟩
    have hdispose := hfree.dispose s.payload
    rw [View.drain, View.drain, show s'.payload = s.payload from congrArg Entry.value he]
    generalize View.dispose s.payload { v with rest := v.rest.set s.handle none } = r,
      View.dispose s.payload { v' with rest := v'.rest.set s'.handle none } = r' at hdispose ⊢
    cases hdispose with
    | error p hw => exact .error p hw
    | ok _ hw => exact ih hw hrest.symm

theorem clear (h : v.Twin v') (override : Option (Destructor σ α)) :
    Agree Eq (v.clear override) (v'.clear override) := by
  have hdrain : Agree Eq (v.abandon.withOverride override (·.drain v.row.slots))
      (v'.abandon.withOverride override (·.drain v'.row.slots)) := by
    have habandon : v.abandon.Twin v'.abandon := ⟨.refl _, h.destructors, h.allocator, h.trace⟩
    exact Agree.override ((habandon.setOverride override).drain h.row.entries)
  rw [View.clear, View.clear, ← h.row.length]
  generalize v.abandon.withOverride override (·.drain v.row.slots) = r,
    v'.abandon.withOverride override (·.drain v'.row.slots) = r' at hdrain ⊢
  cases hdrain with
  | error p hw => exact .error p hw
  | ok _ hw =>
    simp only
    split
    · exact .ok rfl (hw.log _)
    · exact .ok rfl hw

end View.Twin

/-! ## Transformations -/

/-- Two transformations under way have made the same entries, and came as far. -/
structure Transforming.Alike (m m' : Transforming τ α) : Prop where
  transform : m.transform = m'.transform
  made : entriesOf m.made = entriesOf m'.made
  progress : m.progress = m'.progress

namespace View.Twin

variable {v v' : View σ α} {made made' : List (Slot α)}

theorem aside (h : v.Twin v') (hmade : entriesOf made = entriesOf made') :
    (v.aside made).Twin (v'.aside made') := ⟨⟨hmade, rfl⟩, rfl, h.allocator, h.trace⟩

theorem beside {R : β → γ → Prop} {f : View σ α → Reading σ α β} {f' : View σ α → Reading σ α γ}
    (h : v.Twin v') (hf : Agree R (f (v.aside made)) (f' (v'.aside made'))) :
    Agree (fun x y => R x.1 y.1 ∧ entriesOf x.2 = entriesOf y.2) (v.beside made f) (v'.beside made' f') := by
  rw [View.beside, View.beside]
  generalize f (v.aside made) = r, f' (v'.aside made') = r' at hf ⊢
  cases hf with
  | ok hb hu => exact .ok ⟨hb, hu.row.entries⟩ ⟨h.row, h.destructors, hu.allocator, hu.trace⟩
  | error p hu => exact .error p ⟨h.row, h.destructors, hu.allocator, hu.trace⟩

theorem mapEntry {m m' : Transforming τ α} {s s' : Slot α} (h : v.Twin v') (hm : m.Alike m')
    (he : s.entry = s'.entry) :
    Agree (Along Transforming.Alike) (v.mapEntry m s) (v'.mapEntry m' s') := by
  rw [View.mapEntry, View.mapEntry, ← hm.transform, ← he]
  cases m.transform.call s.entry with
  | mk reply transform =>
    cases reply with
    | panics report => exact .ok ⟨rfl, rfl, hm.made, rfl⟩ (h.emit _)
    | returns result =>
      have hcalled := (h.emit (.called s.entry)).emit (.entered result.value)
      have happend := hcalled.beside ((hcalled.aside hm.made).append .after result)
      simp only
      generalize ((v.emit (.called s.entry)).emit (.entered result.value)).beside m.made
          (·.append .after result) = r,
        ((v'.emit (.called s.entry)).emit (.entered result.value)).beside m'.made
          (·.append .after result) = r' at happend ⊢
      cases happend with
      | error p hw => exact .error p hw
      | @ok x y w w' hxy hw =>
        obtain ⟨placed, made⟩ := x
        obtain ⟨_, made'⟩ := y
        obtain ⟨rfl, hmade⟩ := hxy
        cases placed with
        | true => exact .ok ⟨rfl, rfl, hmade, rfl⟩ hw
        | false => exact .ok ⟨rfl, rfl, hmade, rfl⟩ (hw.emit _)

theorem mapEnd {m m' : Transforming τ α} (h : v.Twin v') (hm : m.Alike m') (visited : Nat) :
    Agree (fun x y => x.1.map entriesOf = y.1.map entriesOf ∧ x.2 = y.2)
      (v.mapEnd visited m) (v'.mapEnd visited m') := by
  have hlen : m.made.length = m'.made.length := by simpa using congrArg List.length hm.made
  have hend : ∀ {w w' : View σ α} (override : Option (Destructor σ α)), w.Twin w' →
      (w.beside m.made (·.clear override)).2.Twin (w'.beside m'.made (·.clear override)).2 :=
    fun override hw => (hw.beside ((hw.aside hm.made).clear override)).view
  have hlog := h.logLength (.visit visited)
  rw [View.mapEnd, View.mapEnd, ← hm.progress, ← hm.transform, ← hlen]
  cases m.progress with
  | placed => exact .ok ⟨congrArg some hm.made, rfl⟩ (hlog.log _)
  | refused => exact .ok ⟨rfl, rfl⟩ (hend _ hlog)
  | panicked report => exact .error _ (hend none h)

theorem map (h : v.Twin v') (hnodup : v.row.handles.Nodup) (hnodup' : v'.row.handles.Nodup)
    (transform : Callback τ (Entry α) (Entry α)) :
    Agree (fun x y => x.1.map entriesOf = y.1.map entriesOf ∧ x.2 = y.2)
      (v.map transform) (v'.map transform) := by
  have hproceeds : Proceeds (View.mapEntry (σ := σ) (τ := τ) (α := α)) := Proceeds.of_row mapEntry_row
  have hwalk := walk (B := Transforming.Alike) (b := ⟨transform, [], .placed⟩)
    (c := ⟨transform, [], .placed⟩) hproceeds hproceeds
    (fun _ _ _ _ _ _ _ _ hm he _ _ _ hw => hw.mapEntry hm he) h h.row.entries
    (.start hnodup) (.start hnodup') 0 ⟨rfl, rfl, rfl⟩
  rw [View.map, View.map]
  generalize v.walk View.mapEntry v.row.slots 0 ⟨transform, [], .placed⟩ = r,
    v'.walk View.mapEntry v'.row.slots 0 ⟨transform, [], .placed⟩ = r' at hwalk ⊢
  cases hwalk with
  | error p hw => exact .error p hw
  | @ok x y w w' hxy hw =>
    obtain ⟨visited, m⟩ := x
    obtain ⟨_, m'⟩ := y
    obtain ⟨rfl, hm⟩ := hxy
    exact hw.mapEnd hm visited

end View.Twin

/-! ## Operations -/

namespace Op

variable [AsBytes α] [AsText α]

/-- What an operation comes to, with the entries of the list it makes. That list has no number yet. -/
def whole (v : View σ α) : Op σ α → Reading σ α (Answer α × Option (List (Slot α)))
  | map transform =>
    match v.map transform with
    | (.ok (made, _), w) => (.ok (if made.isSome then .list 0 else .allocError, made), w)
    | (.error p, w) => (.error p, w)
  | op => ((fun a => (a, none)) <$> (op.reading v).1, (op.reading v).2)

/-- Two operations answer the same, and make lists of the same entries or none. -/
def AnswersAlike (x y : Answer α × Option (List (Slot α))) : Prop :=
  x.1 = y.1 ∧ x.2.map entriesOf = y.2.map entriesOf

theorem whole_of_reading {op : Op σ α} (hop : op.isMap = false) (v : View σ α) :
    op.whole v = ((fun a => (a, none)) <$> (op.reading v).1, (op.reading v).2) := by
  cases op with
  | map transform => cases hop
  | _ => rfl

variable {v v' : View σ α} (h : v.Twin v') (hnodup : v.row.handles.Nodup) (hnodup' : v'.row.handles.Nodup)

include h hnodup hnodup'

/-- Operations on twins answer the same and leave twins. -/
theorem reading_agrees (op : Op σ α) : Agree Eq (op.reading v) (op.reading v') := by
  have hcongr : ∀ {β : Type} (f : β → Answer α) {r r' : Reading σ α β}, Agree Eq r r' →
      Agree Eq (answered f r) (answered f r') :=
    fun f _ _ hr => hr.answered fun _ _ he => congrArg f he
  have hcount : ∀ {ο : Type} {r r' : Reading σ α (Nat × ο)}, Agree (Along Eq) r r' →
      Agree Eq (answered (fun b => .count b.1) r) (answered (fun b => .count b.1) r') :=
    fun hr => hr.answered fun _ _ he => congrArg Answer.count he.1
  cases op with
  | length => exact .ok (congrArg Answer.count h.row.length) h
  | isEmpty =>
    have hempty : v.row.slots.isEmpty = v'.row.slots.isEmpty := by
      simpa [Row.entries] using congrArg List.isEmpty h.row.entries
    exact .ok (congrArg Answer.flag hempty) h
  | push side x byteLen => exact hcongr _ (h.push side x _)
  | pop side => exact hcongr _ (h.pop hnodup hnodup' side)
  | peek side write => exact hcongr _ (h.peek hnodup hnodup' side write)
  | get i write => exact hcongr _ (h.get hnodup hnodup' i write)
  | getRelative i => exact hcongr _ (h.getRelative i)
  | eraseIdx i override => exact hcongr _ (h.eraseIdx hnodup hnodup' i override)
  | takeIdx i => exact hcongr _ (h.takeIdx hnodup hnodup' i)
  | insertIdx i x byteLen => exact hcongr _ (h.insertIdx i x byteLen)
  | cursorReset => exact .ok rfl h.cursorReset
  | cursorNext write => exact hcongr _ (h.cursorNext hnodup hnodup' write)
  | cursorFirst write => exact hcongr _ (h.cursorReset.cursorNext hnodup hnodup' write)
  | visitEach visitor => exact hcount (h.visitEach hnodup hnodup' visitor)
  | eraseWhere predicate override => exact hcongr _ (h.eraseWhere hnodup hnodup' predicate override)
  | join refuses delimiter => exact hcongr _ (h.join hnodup hnodup' refuses delimiter)
  | destroy override => exact hcongr _ (h.clear override)
  | map transform => exact .ok rfl h

theorem whole_agrees (op : Op σ α) : Agree AnswersAlike (op.whole v) (op.whole v') := by
  cases hop : op.isMap with
  | false =>
    have hread := op.reading_agrees h hnodup hnodup'
    rw [whole_of_reading hop, whole_of_reading hop]
    generalize op.reading v = r, op.reading v' = r' at hread ⊢
    cases hread with
    | ok hb hw => exact .ok ⟨hb, rfl⟩ hw
    | error p hw => exact .error p hw
  | true =>
    obtain ⟨transform, rfl⟩ := eq_map hop
    have hmap := h.map hnodup hnodup' transform
    rw [whole, whole]
    generalize v.map transform = r, v'.map transform = r' at hmap ⊢
    cases hmap with
    | error p hw => exact .error p hw
    | @ok x y w w' hxy hw =>
      obtain ⟨made, transform'⟩ := x
      obtain ⟨made', _⟩ := y
      obtain ⟨hmade, -⟩ := hxy
      have hsome : made.isSome = made'.isSome := by simpa using congrArg Option.isSome hmade
      exact .ok ⟨by rw [hsome], hmade⟩ hw

end Op

end LinkedDeque
