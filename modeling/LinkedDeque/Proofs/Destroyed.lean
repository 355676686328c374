import LinkedDeque.Proofs.Readings

/-!
# LinkedDeque.Proofs.Destroyed

The end of a list, with whatever destructors:

* `Destructors.Breaks`    — destructors that return in front of an entry, and panic on it.
* `View.drained`          — what a part of a drain leaves on which no destructor panicked.
* `Deque.run_destroyWith` — a list that ended with a destructor given is empty, and its own end does nothing.
* `World.Destroying`      — the end of a list of a world: each payload goes to one destructor, in order, or
  those up to the one whose destructor panics. The nodes behind that one are lost for good.
* `World.run_destroys`    — so ends every list, after every run.

The record of a list is emptied before the first destructor is called. So the list that ends once more
after that, also while a panic unwinds, has nothing left to destroy.
-/

namespace LinkedDeque

variable {σ α : Type}

/-! ## Destructors called in a row -/

namespace Destructors

variable {ds : Destructors σ α} {x : α} {s : Slot α}

/-- The destructors return on the entries of a run, and panic on the next one. -/
structure Breaks (ds : Destructors σ α) (front : List (Slot α)) (s : Slot α) (report : String) : Prop where
  returns : ds.Returns (front.map Slot.payload)
  panics : ((ds.after (front.map Slot.payload)).dispose s.payload).2.1 = .panics report

/-- Either no destructor panics on a run, or there is a first entry on which one does. -/
theorem returns_or_breaks (ds : Destructors σ α) (run : List (Slot α)) :
    ds.Returns (run.map Slot.payload) ∨
      ∃ front s back report, run = front ++ s :: back ∧ ds.Breaks front s report := by
  induction run generalizing ds with
  | nil => exact .inl fun r hr => absurd hr List.not_mem_nil
  | cons s run ih =>
    cases hs : (ds.dispose s.payload).2.1 with
    | panics report =>
      exact .inr ⟨[], s, run, report, rfl, ⟨fun r hr => absurd hr List.not_mem_nil, hs⟩⟩
    | returns _ =>
      rcases ih (ds.dispose s.payload).2.2 with h | ⟨front, t, back, report, rfl, h⟩
      · exact .inl (returns_cons.2 ⟨hs, h⟩)
      · exact .inr ⟨s :: front, t, back, report, rfl, ⟨returns_cons.2 ⟨hs, h.returns⟩, h.panics⟩⟩

/-- A destructor given with a call is the only one that is called. -/
theorem after_default (o : Destructor σ α) (xs : List α) (ds : Destructors σ α) :
    ({ ds with override := some o }.after xs).default = ds.default := by
  induction xs generalizing o with
  | nil => rfl
  | cons x xs ih => exact ih (o.run x).2

end Destructors

/-! ## Rows -/

namespace View

variable {v : View σ α} {front back run : List (Slot α)} {s : Slot α} {report : String}
  {override : Option (Destructor σ α)}

/-- A view without the nodes of a run, whose payloads were destroyed. -/
def drained (run : List (Slot α)) (v : View σ α) : View σ α :=
  { v with
    rest := v.rest.hide run
    destructors := v.destructors.after (run.map Slot.payload)
    trace := v.trace ++ (run.map fun s => .left v.destructors.fate s.payload).toArray }

theorem drained_nil (v : View σ α) : v.drained [] = v := by
  have hrest : v.rest.hide [] = v.rest := rfl
  simp [drained, Destructors.after, hrest]

theorem drained_cons (s : Slot α) (run : List (Slot α)) (v : View σ α) :
    v.drained (s :: run) =
      ({ v with rest := v.rest.set s.handle none }.dispose s.payload).2.drained run := by
  have hfate := (v.destructors.fate_dispose s.payload).2
  have hrest := Nodes.set_hide v.rest s run
  rw [dispose_snd]
  simp [drained, emit, Destructors.after, hfate, hrest]

theorem drained_append (front run : List (Slot α)) (v : View σ α) :
    v.drained (front ++ run) = (v.drained front).drained run := by
  induction front generalizing v with
  | nil => rw [drained_nil, List.nil_append]
  | cons s front ih => rw [List.cons_append, drained_cons, drained_cons, ih]

/-- A drain goes on behind entries on which no destructor panicked. -/
theorem drain_returns (back : List (Slot α)) (h : v.destructors.Returns (front.map Slot.payload)) :
    v.drain (front ++ back) = (v.drained front).drain back := by
  induction front generalizing v with
  | nil => rw [drained_nil, List.nil_append]
  | cons s front ih =>
    let u : View σ α := { v with rest := v.rest.set s.handle none }
    obtain ⟨hs, hfront⟩ := Destructors.returns_cons.1 h
    have hdispose : u.dispose s.payload = (.ok (), (u.dispose s.payload).2) := dispose_returns hs
    have hnext : (u.dispose s.payload).2.destructors = (v.destructors.dispose s.payload).2.2 := by
      rw [dispose_snd]
    rw [← hnext] at hfront
    rw [List.cons_append, drain, show (_ : View σ α).dispose s.payload = _ from hdispose, drained_cons]
    exact ih hfront

/-- A drain ends where a destructor panics, and that entry is gone as well. -/
theorem drain_breaks (back : List (Slot α)) (h : v.destructors.Breaks front s report) :
    v.drain (front ++ s :: back) = (.error (.destructor report), v.drained (front ++ [s])) := by
  let u : View σ α := { v.drained front with rest := (v.drained front).rest.set s.handle none }
  have hpanics : u.dispose s.payload = (.error (.destructor report), (u.dispose s.payload).2) :=
    dispose_panics h.panics
  rw [drain_returns (s :: back) h.returns, drain, show (_ : View σ α).dispose s.payload = _ from hpanics,
    drained_append, drained_cons, drained_nil]

/-- A view whose row was abandoned, and a part of it drained. -/
def emptied (override : Option (Destructor σ α)) (run : List (Slot α)) (v : View σ α) : View σ α :=
  let w : View σ α := drained run { v.abandon with destructors := { v.destructors with override } }
  { w with destructors := { w.destructors with override := none } }

theorem clear_returns
    (h : Destructors.Returns { v.destructors with override } (v.row.slots.map Slot.payload)) :
    v.clear override = (.ok (), if 0 < v.row.length
      then (v.emptied override v.row.slots).log (.destroy v.row.length)
      else v.emptied override v.row.slots) := by
  have hdrain := drain_returns
    (v := { v.abandon with destructors := { v.destructors with override } }) [] h
  rw [List.append_nil, drain] at hdrain
  rw [clear, withOverride]
  simp only [show v.abandon.destructors = v.destructors from rfl, hdrain]
  rfl

theorem clear_breaks (hr : v.row.slots = front ++ s :: back)
    (h : Destructors.Breaks { v.destructors with override } front s report) :
    v.clear override = (.error (.destructor report), v.emptied override (front ++ [s])) := by
  have hdrain := drain_breaks
    (v := { v.abandon with destructors := { v.destructors with override } }) back h
  rw [← hr] at hdrain
  rw [clear, withOverride]
  simp only [show v.abandon.destructors = v.destructors from rfl, hdrain]
  rfl

/-- A part that was drained is freed, and all other nodes are as they were, those of the row included. -/
theorem get?_emptied {l l' : Linkage α} (hl : l.Shows v.toScene)
    (hl' : l'.Shows (v.emptied override run).toScene) (h : Handle) :
    l'.heap.get? h = if h ∈ handlesOf run then none else l.heap.get? h := by
  rw [hl'.outside h List.not_mem_nil, hl.look_eq]
  rfl

theorem trace_emptied (override : Option (Destructor σ α)) (run : List (Slot α)) (v : View σ α) :
    (v.emptied override run).trace = v.trace ++
      (run.map fun s => .left (Destructors.fate { v.destructors with override }) s.payload).toArray := rfl

/-- After the end of a row with a destructor given, the list has its own one again. -/
theorem destructors_clear (o : Destructor σ α) (v : View σ α) :
    (v.clear (some o)).2.destructors = .ofDefault v.destructors.default := by
  have hemptied : ∀ run, (v.emptied (some o) run).destructors = .ofDefault v.destructors.default :=
    fun run => congrArg Destructors.ofDefault (Destructors.after_default o _ v.destructors)
  rcases Destructors.returns_or_breaks { v.destructors with override := some o } v.row.slots with
    h | ⟨front, s, back, report, hr, h⟩
  · rw [clear_returns h]
    split
    · exact hemptied _
    · exact hemptied _
  · rw [clear_breaks hr h]
    exact hemptied _

end View

/-- A list that ended with a destructor given is empty, and its own end comes to nothing. -/
theorem Deque.run_destroyWith {l : Linkage α} {v : View σ α} (o : Destructor σ α)
    (hl : l.Shows v.toScene) :
    ∃ out m, (Deque.clear (some o)).run (v.machine l) = ending out m ∧ m.linkage.chain = .empty ∧
      m.destructors = .ofDefault v.destructors.default ∧ Deque.destroy.run m = .ok () m ∧
      (Deque.destroyWith o).run (v.machine l) = ending out m := by
  obtain ⟨hrow, hover⟩ := View.clear_keeps (some o) v
  obtain ⟨l', hrun, hl'⟩ := Leads.clear (some o) v l hl
  obtain ⟨l₂, hagain, hl₂⟩ := Leads.clear none (v.clear (some o)).2 l' hl'
  obtain ⟨l₃, hwith, hl₃⟩ := Leads.destroyWith o v l hl
  rw [View.clear_empty _ hrow hover] at hagain hl₂
  rw [hl'.unique hl₂] at hagain
  rw [hl'.unique hl₃] at hwith
  refine ⟨_, _, hrun, ?_, View.destructors_clear o v, hagain, hwith⟩
  have hends : l'.chain.ends = .empty := hl'.spans.eq_empty_iff.2 (by rw [hrow]; rfl)
  have hcursor : l'.chain.cursor = none := by rw [hl'.cursor, hrow]; rfl
  calc l'.chain = ⟨l'.chain.ends, l'.chain.cursor⟩ := rfl
    _ = .empty := by rw [hends, hcursor]; rfl

/-! ## Worlds -/

namespace World

/-- A list has ended. The nodes of a run are freed, and all others are as they were. -/
structure Ended (w w' : World σ α) (k : Nat) (run : List (Slot α)) : Prop where
  lists : w'.lists = w.lists.setIfInBounds k none
  gone : w'.list? k = none
  freed : ∀ h ∈ handlesOf run, w'.heap.get? h = none
  others : ∀ h, h ∉ handlesOf run → w'.heap.get? h = w.heap.get? h

variable [AsBytes α] [AsText α]

/-- What becomes of the payloads of a list that ends. -/
structure Destroying (w : World σ α) (k : Nat) (d : Deque σ α) (override : Option (Destructor σ α)) :
    Prop where
  through : Destructors.Returns ⟨d.default, override⟩ ((w.row k).slots.map Slot.payload) →
    (w.use k (.destroy override)).1 = ⟨.ok .done,
      ((w.row k).slots.map fun s => .left (Destructors.fate ⟨d.default, override⟩) s.payload).toArray ++
        if 0 < (w.row k).length then #[.logged (.destroy (w.row k).length)] else #[]⟩ ∧
    w.Ended (w.use k (.destroy override)).2 k (w.row k).slots
  /-- The payloads behind the one whose destructor panics are lost: no list has their nodes, ever. -/
  stopped : ∀ front s back report, (w.row k).slots = front ++ s :: back →
    Destructors.Breaks ⟨d.default, override⟩ front s report →
    (w.use k (.destroy override)).1 = ⟨.error (.destructor report), ((front ++ [s]).map fun s =>
      .left (Destructors.fate ⟨d.default, override⟩) s.payload).toArray⟩ ∧
    w.Ended (w.use k (.destroy override)).2 k (front ++ [s]) ∧
    ∀ steps, ∀ h ∈ handlesOf back,
      (∀ j, h ∉ ((run steps (w.use k (.destroy override)).2).2.row j).handles) ∧
      (run steps (w.use k (.destroy override)).2).2.heap.get? h = w.heap.get? h
  covered : Destructors.Returns ⟨d.default, override⟩ ((w.row k).slots.map Slot.payload) ∨
    ∃ front s back report, (w.row k).slots = front ++ s :: back ∧
      Destructors.Breaks ⟨d.default, override⟩ front s report
  /-- The list object that ends after its payloads went to the destructor given is empty, and has nothing
  to do, whatever its own destructor is. -/
  once : ∀ o, override = some o → ∃ out m,
    (Deque.clear (some o)).run ((w.view d).machine (w.linkage d)) = ending out m ∧
    m.linkage.chain = .empty ∧ m.destructors = .ofDefault d.default ∧ Deque.destroy.run m = .ok () m ∧
    (Deque.destroyWith o).run ((w.view d).machine (w.linkage d)) = ending out m

variable {w : World σ α} {strayed : List Handle} {k : Nat} {d : Deque σ α} {h : Handle}

/-- A node that has strayed stays as it is. -/
theorem step_stray (hw : w.Sound strayed) (hh : h ∈ strayed) (s : Step σ α) :
    (w.step s).2.heap.get? h = w.heap.get? h := by
  cases s with
  | create default => rfl
  | arm refuses => rfl
  | use k op =>
    cases hk : w.list? k with
    | none => rw [step, use_absent hk]
    | some d =>
      obtain ⟨n, hn⟩ := hw.live hh
      obtain ⟨u, heap', chain', strays, made, hu⟩ := use_eq hk (hw.shows hk) op
      rw [step, hu.world, hn]
      exact (hu.kept hw hk hn (hw.apart hh)).1

/-- No list ever has it again. -/
theorem run_stray (steps : List (Step σ α)) (hw : w.Sound strayed) (hh : h ∈ strayed) :
    (∀ j, h ∉ ((run steps w).2.row j).handles) ∧ (run steps w).2.heap.get? h = w.heap.get? h := by
  induction steps generalizing w strayed with
  | nil => exact ⟨fun _ => hw.apart hh, rfl⟩
  | cons s rest ih =>
    obtain ⟨hrow, hnode⟩ := ih (step_sound hw s) (List.mem_append_left _ hh)
    exact ⟨hrow, hnode.trans (step_stray hw hh s)⟩

/-- A list ends as its row does. -/
theorem use_destroy (hw : w.Sound strayed) (hk : w.list? k = some d) {override : Option (Destructor σ α)}
    {run : List (Slot α)} {out : Except Panic Unit} {u : View σ α}
    (hread : (w.view d).clear override = (out, u))
    (hscene : u.toScene = ((w.view d).emptied override run).toScene) :
    (w.use k (.destroy override)).1 = ⟨(fun _ => .done) <$> out, u.trace⟩ ∧
      w.Ended (w.use k (.destroy override)).2 k run := by
  obtain ⟨l, hl, huse⟩ := use_reads hw hk (.destroy override) rfl
  rw [Op.reading, Op.answered, hread] at hl huse
  have hl' : l.Shows ((w.view d).emptied override run).toScene := hscene ▸ hl
  have hnode := fun h => View.get?_emptied (hw.shows hk) hl' h
  rw [huse]
  refine ⟨rfl, rfl, ?_, fun h hh => (hnode h).trans (if_pos hh), fun h hh => (hnode h).trans (if_neg hh)⟩
  refine (getElem?_setIfInBounds_join (lt_of_list? hk) none k).trans ?_
  rw [if_pos rfl]

theorem use_destroy_through (hw : w.Sound strayed) (hk : w.list? k = some d)
    (override : Option (Destructor σ α))
    (h : Destructors.Returns ⟨d.default, override⟩ ((w.row k).slots.map Slot.payload)) :
    (w.use k (.destroy override)).1 = ⟨.ok .done,
        ((w.row k).slots.map fun s => .left (Destructors.fate ⟨d.default, override⟩) s.payload).toArray ++
          if 0 < (w.row k).length then #[.logged (.destroy (w.row k).length)] else #[]⟩ ∧
      w.Ended (w.use k (.destroy override)).2 k (w.row k).slots := by
  have hrow : w.row k = (w.view d).row := row_of_list? hk
  rw [hrow] at h ⊢
  have htrace := View.trace_emptied override (w.view d).row.slots (w.view d)
  rw [show (w.view d).trace = #[] from rfl, Array.empty_append] at htrace
  have hread := View.clear_returns (v := w.view d) h
  by_cases hlen : 0 < (w.view d).row.length
  · rw [if_pos hlen] at hread ⊢
    obtain ⟨hout, hended⟩ := use_destroy hw hk hread rfl
    refine ⟨hout.trans ?_, hended⟩
    exact congrArg (Outcome.mk _) (congrArg (Array.push · _) htrace)
  · rw [if_neg hlen] at hread ⊢
    obtain ⟨hout, hended⟩ := use_destroy hw hk hread rfl
    refine ⟨hout.trans ?_, hended⟩
    exact congrArg (Outcome.mk _) (htrace.trans Array.append_empty.symm)

section Stopped

variable {override : Option (Destructor σ α)} {front back : List (Slot α)} {s : Slot α}
  {report : String}

theorem use_destroy_stopped (hw : w.Sound strayed) (hk : w.list? k = some d)
    (hr : (w.row k).slots = front ++ s :: back)
    (h : Destructors.Breaks ⟨d.default, override⟩ front s report) :
    (w.use k (.destroy override)).1 = ⟨.error (.destructor report), ((front ++ [s]).map fun s =>
        .left (Destructors.fate ⟨d.default, override⟩) s.payload).toArray⟩ ∧
      w.Ended (w.use k (.destroy override)).2 k (front ++ [s]) := by
  have htrace := View.trace_emptied override (front ++ [s]) (w.view d)
  rw [show (w.view d).trace = #[] from rfl, Array.empty_append] at htrace
  rw [row_of_list? hk] at hr
  obtain ⟨hout, hended⟩ := use_destroy hw hk (View.clear_breaks (v := w.view d) hr h) rfl
  exact ⟨hout.trans (congrArg (Outcome.mk _) htrace), hended⟩

/-- The nodes behind the payload whose destructor panics stray. -/
theorem strays_destroy (hw : w.Sound strayed) (hk : w.list? k = some d)
    (hr : (w.row k).slots = front ++ s :: back)
    (h : Destructors.Breaks ⟨d.default, override⟩ front s report) :
    w.strays (.use k (.destroy override)) = handlesOf back := by
  have hhandles : (w.linkage d).handles = handlesOf (front ++ [s]) ++ handlesOf back := by
    rw [(hw.shows hk).handles_eq, Row.handles, show (w.linkage d).scene.row = w.row k from
      (row_of_list? hk).symm, hr, handlesOf, handlesOf, handlesOf, ← List.map_append, List.append_assoc]
    rfl
  have hleft : (leftIn ((front ++ [s]).map fun s => Event.left
      (Destructors.fate ⟨d.default, override⟩) s.payload).toArray).length =
      (handlesOf (front ++ [s])).length := by
    simp [leftIn, handlesOf, List.filterMap_map, Function.comp_def, Event.left?]
  simp only [strays, hk]
  rw [(use_destroy_stopped hw hk hr h).1, Op.abandons, hleft, hhandles, List.drop_left]

theorem run_lost (hw : w.Sound strayed) (hk : w.list? k = some d)
    (hr : (w.row k).slots = front ++ s :: back)
    (h : Destructors.Breaks ⟨d.default, override⟩ front s report) (steps : List (Step σ α)) :
    ∀ a ∈ handlesOf back, (∀ j, a ∉ ((run steps (w.use k (.destroy override)).2).2.row j).handles) ∧
      (run steps (w.use k (.destroy override)).2).2.heap.get? a = w.heap.get? a := by
  intro a ha
  have hstray : a ∈ strayed ++ w.strays (.use k (.destroy override)) := by
    rw [strays_destroy hw hk hr h]
    exact List.mem_append_right _ ha
  have hbehind : a ∉ handlesOf (front ++ [s]) := by
    have hnodup := hw.nodup_view hk
    rw [Row.handles, show (w.view d).row = w.row k from (row_of_list? hk).symm, hr,
      List.append_cons, handlesOf, List.map_append, List.nodup_append] at hnodup
    exact fun hfront => hnodup.2.2 a hfront a ha rfl
  obtain ⟨hrow, hnode⟩ := run_stray steps (use_sound hw k (.destroy override)) hstray
  exact ⟨hrow, hnode.trans ((use_destroy_stopped hw hk hr h).2.others a hbehind)⟩

end Stopped

theorem use_destroying (hw : w.Sound strayed) (hk : w.list? k = some d)
    (override : Option (Destructor σ α)) : w.Destroying k d override := by
  refine ⟨use_destroy_through hw hk override, ?_, Destructors.returns_or_breaks _ _, ?_⟩
  · intro front s back report hr h
    obtain ⟨hout, hended⟩ := use_destroy_stopped hw hk hr h
    exact ⟨hout, hended, run_lost hw hk hr h⟩
  · rintro o -
    exact Deque.run_destroyWith o (hw.shows hk)

/-- In every world that a run leads to, a list ends as it should: every payload goes to one destructor,
unless one panics. -/
theorem run_destroys (before : List (Step σ α)) (k : Nat) (d : Deque σ α)
    (hk : (run before start).2.list? k = some d) (override : Option (Destructor σ α)) :
    (run before start).2.Destroying k d override :=
  use_destroying (run_sound before start_sound) hk override

/-- The end of a list with a destructor that panics on the second of three payloads. The destructor of the
list itself is not called, and the third node stays where no list has it. -/
theorem run_destroys_boom :
    let boom : Destructor Bool Payload :=
      .custom ⟨false, fun b _ => (if b then .panics "boom" else .returns (), true)⟩
    let push (n : Int64) : Step Bool Payload := .use 0 (.push .after (.int n) (.exact 8))
    let before : List (Step Bool Payload) := [.create (some .drop), push 2, push 3, push 4,
      .use 0 (.cursorFirst none), .use 0 (.cursorNext none)]
    let w := (run before start).2
    let ended := w.use 0 (.destroy (some boom))
    ended.1 = ⟨.error (.destructor "boom"),
      #[.left (.destroyed .override false) (.int 2), .left (.destroyed .override false) (.int 3)]⟩ ∧
    ended.2.list? 0 = none ∧ ended.2.heap.get? 0 = none ∧ ended.2.heap.get? 1 = none ∧
    ended.2.heap.get? 2 = w.heap.get? 2 := by
  intro boom push before w ended
  let front : List (Slot Payload) := [⟨0, ⟨.int 2, 8⟩⟩]
  let d : Deque Bool Payload := ⟨⟨.full ⟨⟨3, by decide, by decide⟩, 0, 2⟩, some 2⟩, some .drop⟩
  have hk : w.list? 0 = some d := rfl
  obtain ⟨hout, hended, -⟩ := (run_destroys before 0 d hk (some boom)).stopped front ⟨1, ⟨.int 3, 8⟩⟩
    [⟨2, ⟨.int 4, 8⟩⟩] "boom" rfl ⟨by decide, rfl⟩
  have hfreed : ∀ h ∈ [0, 1], ended.2.heap.get? h = none := hended.freed
  exact ⟨hout, hended.gone, hfreed 0 (by decide), hfreed 1 (by decide), hended.others 2 (by decide)⟩

end World

end LinkedDeque
