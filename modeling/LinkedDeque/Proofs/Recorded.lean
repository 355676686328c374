import LinkedDeque.Proofs.Readings
import LinkedDeque.Proofs.Transformed

/-!
# LinkedDeque.Proofs.Recorded

The byte lengths that a row of entries has on record, by node:

* `Scene.Noted`  — all nodes have the byte lengths of a list, in which each node has its own place.
* `View.Adds`    — from one view to the next so many nodes were made, which have places behind those of
  all others, and callbacks heard these entries. The other nodes keep their byte lengths, or are gone.
* `View.Placing` — the same while a transformation is under way, whose second row is beside the first.

Every reading adds at most the nodes that the operation asks for; most add none, and are `View.Quiet`.
-/

namespace LinkedDeque

variable {σ τ α β : Type}

/-! ## What callbacks hear -/

def Event.called? : Event α → Option (Entry α)
  | called e => some e
  | _ => none

/-- The entries on which callbacks were called, in order. -/
def calledIn (events : Array (Event α)) : List (Entry α) := events.toList.filterMap Event.called?

@[simp] theorem calledIn_empty : calledIn (#[] : Array (Event α)) = [] := rfl

theorem calledIn_push (events : Array (Event α)) (e : Event α) :
    calledIn (events.push e) = calledIn events ++ e.called?.toList := by
  rw [calledIn, Array.toList_push, List.filterMap_append]
  cases e <;> rfl

/-! ## Nodes and their places -/

/-- The entries of a run have the byte lengths that stand in the places of their nodes. -/
def Places (lens : List UInt64) (run : List (Slot α)) : Prop :=
  ∀ s ∈ run, lens[s.handle]? = some s.entry.byteLen

theorem getElem?_extend {lens : List UInt64} {h : Handle} {n : UInt64} (hn : lens[h]? = some n)
    (made : List UInt64) : (lens ++ made)[h]? = some n := by
  obtain ⟨hlt, -⟩ := List.getElem?_eq_some_iff.1 hn
  rw [List.getElem?_append_left hlt, hn]

theorem Places.extend {lens : List UInt64} {run : List (Slot α)} (h : Places lens run)
    (made : List UInt64) : Places (lens ++ made) run :=
  fun s hs => getElem?_extend (h s hs) made

theorem Nodes.of_set {rest : Nodes α} {h k : Handle} {v : Option (Node α)} {n : Node α}
    (hn : rest.set h v k = some n) : k = h ∧ v = some n ∨ rest k = some n := by
  by_cases hk : k = h
  · rw [hk, set_same] at hn
    exact .inl ⟨hk, hn⟩
  · rw [set_other hk] at hn
    exact .inr hn

theorem Nodes.of_lay {rest : Nodes α} {back : Option Handle} {run : List (Slot α)} {h : Handle}
    {n : Node α} (hn : rest.lay back run h = some n) :
    rest h = some n ∨ ∃ s ∈ run, s.handle = h ∧ s.entry = n.entry := by
  induction run generalizing back with
  | nil => exact .inl hn
  | cons s run ih =>
    rcases of_set hn with ⟨he, hs⟩ | hn'
    · cases hs
      exact .inr ⟨s, List.mem_cons_self .., he.symm, (Node.entry_between ..).symm⟩
    · rcases ih hn' with hrest | ⟨t, ht, htn⟩
      · exact .inl hrest
      · exact .inr ⟨t, List.mem_cons_of_mem _ ht, htn⟩

/-- Every node of a heap has the byte length that stands in its place, and each place is that of a node that
was made. -/
structure Heap.Noted (heap : Heap α) (lens : List UInt64) : Prop where
  size : lens.length = heap.size
  nodes : ∀ h n, heap.get? h = some n → lens[h]? = some n.entry.byteLen

namespace Scene

/-- Every node of a scene has the byte length that stands in its place. -/
structure Noted (s : Scene α) (lens : List UInt64) : Prop where
  size : lens.length = s.fresh
  row : Places lens s.row.slots
  rest : ∀ h n, s.rest h = some n → lens[h]? = some n.entry.byteLen

variable {s t : Scene α} {lens : List UInt64}

/-- Nodes that go, and payloads that are overwritten, change no byte length. -/
theorem Noted.fewer (h : s.Noted lens) (hfresh : t.fresh = s.fresh)
    (hrow : ∀ x ∈ t.row.slots, ∃ y ∈ s.row.slots, y.handle = x.handle ∧ y.entry.byteLen = x.entry.byteLen)
    (hrest : ∀ a n, t.rest a = some n → s.rest a = some n) : t.Noted lens where
  size := h.size.trans hfresh.symm
  row := by
    intro x hx
    obtain ⟨y, hy, hhandle, hlen⟩ := hrow x hx
    rw [← hhandle, ← hlen]
    exact h.row y hy
  rest a n hn := h.rest a n (hrest a n hn)

/-- A new node has the next place. -/
theorem Noted.create (h : s.Noted lens) (e : Entry α) :
    Noted ⟨s.row, s.rest.set s.fresh (some (.detached e)), s.fresh + 1⟩ (lens ++ [e.byteLen]) where
  size := by rw [List.length_append, h.size, List.length_singleton]
  row := h.row.extend _
  rest := by
    intro a n hn
    rcases Nodes.of_set hn with ⟨rfl, he⟩ | hn'
    · cases he
      rw [← h.size, List.getElem?_concat_length]
      rfl
    · exact getElem?_extend (h.rest a n hn') _

theorem Noted.insert (h : s.Noted lens) (i : Nat) (e : Entry α) :
    Noted ⟨s.row.insert i ⟨s.fresh, e⟩, s.rest, s.fresh + 1⟩ (lens ++ [e.byteLen]) where
  size := by rw [List.length_append, h.size, List.length_singleton]
  row := by
    intro x hx
    rw [Row.slots_insert] at hx
    rcases List.eq_or_mem_of_mem_insertIdx hx with rfl | hx
    · rw [← h.size, List.getElem?_concat_length]
    · exact getElem?_extend (h.row x hx) _
  rest a n hn := getElem?_extend (h.rest a n hn) _

end Scene

/-- The byte lengths in a heap are those of the scene that it shows. -/
theorem Linkage.Shows.noted_iff {l : Linkage α} {s : Scene α} (hl : l.Shows s) {lens : List UInt64} :
    s.Noted lens ↔ l.heap.Noted lens := by
  constructor
  · rintro ⟨hsize, hrow, hrest⟩
    refine ⟨hsize.trans hl.size.symm, fun h n hn => ?_⟩
    by_cases hh : h ∈ s.row.handles
    · obtain ⟨x, hx, rfl⟩ := List.mem_map.1 hh
      obtain ⟨m, hm, hentry⟩ := hl.spans.linked.holds hx
      obtain rfl : n = m := Option.some.inj (hn.symm.trans hm)
      rw [hentry]
      exact hrow x hx
    · exact hrest h n ((hl.outside h hh).symm.trans hn)
  · rintro ⟨hsize, hnodes⟩
    refine ⟨hsize.trans hl.size, fun x hx => ?_, fun h n hn => ?_⟩
    · obtain ⟨m, hm, hentry⟩ := hl.spans.linked.holds hx
      rw [← hentry]
      exact hnodes _ m hm
    · have hh : h ∉ s.row.handles := by
        intro hmem
        rw [hl.apart h hmem] at hn
        cases hn
      exact hnodes h n ((hl.outside h hh).trans hn)

namespace View

/-- Nodes with these byte lengths were made, and callbacks heard these entries. -/
structure Adds (v w : View σ α) (made : List UInt64) (heard : List (Entry α)) : Prop where
  noted : ∀ {lens}, v.toScene.Noted lens → w.toScene.Noted (lens ++ made)
  called : calledIn w.trace = calledIn v.trace ++ heard

/-- No node was made, and no callback was called. -/
abbrev Quiet (v w : View σ α) : Prop := Adds v w [] []

variable {v w u : View σ α} {made made' : List UInt64} {heard heard' : List (Entry α)} {e : Entry α}
  {x : α} {n : UInt64} {i : Nat}

theorem Adds.trans (hw : v.Adds w made heard) (hu : w.Adds u made' heard') :
    v.Adds u (made ++ made') (heard ++ heard') where
  noted h := by
    rw [← List.append_assoc]
    exact hu.noted (hw.noted h)
  called := by rw [hu.called, hw.called, List.append_assoc]

theorem Adds.quiet (hw : v.Adds w made heard) (hu : w.Quiet u) : v.Adds u made heard := by
  have h := hw.trans hu
  rwa [List.append_nil, List.append_nil] at h

/-- A view that differs in neither nodes nor calls. -/
theorem Adds.of_scene (hscene : w.toScene = v.toScene) (htrace : calledIn w.trace = calledIn v.trace) :
    v.Quiet w where
  noted h := by rwa [hscene, List.append_nil]
  called := by rw [htrace, List.append_nil]

theorem Adds.of_fewer (hfresh : w.fresh = v.fresh)
    (hrow : ∀ x ∈ w.row.slots, ∃ y ∈ v.row.slots, y.handle = x.handle ∧ y.entry.byteLen = x.entry.byteLen)
    (hrest : ∀ a n, w.rest a = some n → v.rest a = some n) (htrace : w.trace = v.trace) : v.Quiet w where
  noted h := by
    rw [List.append_nil]
    exact h.fewer hfresh hrow hrest
  called := by rw [htrace, List.append_nil]

theorem Adds.refl (v : View σ α) : v.Quiet v := .of_scene rfl rfl

namespace Adds

theorem called_on (e : Entry α) (v : View σ α) : v.Adds (v.emit (.called e)) [] [e] where
  noted h := by rwa [List.append_nil]
  called := calledIn_push _ _

theorem emit (h : v.Adds w made heard) (event : Event α) (he : event.called? = none) :
    v.Adds (w.emit event) made heard := by
  refine h.quiet (.of_scene rfl ?_)
  rw [View.emit, calledIn_push, he]
  exact List.append_nil _

theorem log (h : v.Adds w made heard) (line : Log) : v.Adds (w.log line) made heard := h.emit _ rfl

theorem dispose (h : v.Adds w made heard) (x : α) : v.Adds (w.dispose x).2 made heard := by
  rw [View.dispose_snd]
  exact (h.emit _ rfl).quiet (.of_scene rfl rfl)

theorem withOverride {d : Option (Destructor σ α)} {f : View σ α → Reading σ α β}
    (h : Adds { v with destructors := { v.destructors with override := d } }
      (f { v with destructors := { v.destructors with override := d } }).2 made heard) :
    v.Adds (v.withOverride d f).2 made heard :=
  ⟨h.noted, h.called⟩

/-- A row with some entries less, or in which the cursor moved. -/
theorem subset (h : v.Adds w made heard) {r : Row α} (hr : ∀ x ∈ r.slots, x ∈ w.row.slots) :
    v.Adds { w with row := r } made heard :=
  h.quiet (.of_fewer rfl (fun x hx => ⟨x, hr x hx, rfl, rfl⟩) (fun _ _ => id) rfl)

theorem erase (h : v.Adds w made heard) (a : Handle) :
    v.Adds { w with row := w.row.erase a } made heard := by
  refine h.subset fun x hx => ?_
  rw [Row.erase, Row.slots_filter] at hx
  exact (List.mem_filter.1 hx).1

theorem write (h : v.Adds w made heard) (a : Handle) (x : α) :
    v.Adds { w with row := w.row.write a x } made heard := by
  refine h.quiet (.of_fewer rfl (fun y hy => ?_) (fun _ _ => id) rfl)
  rw [Row.slots_write] at hy
  obtain ⟨t, ht, rfl⟩ := List.mem_map.1 hy
  refine ⟨t, ht, ?_⟩
  split <;> exact ⟨rfl, rfl⟩

theorem release (h : v.Adds w made heard) (a : Handle) :
    v.Adds { w with rest := w.rest.set a none } made heard := by
  refine h.quiet (.of_fewer rfl (fun y hy => ⟨y, hy, rfl, rfl⟩) (fun b n hn => ?_) rfl)
  rcases Nodes.of_set hn with ⟨-, he⟩ | hn'
  · cases he
  · exact hn'

end Adds

/-! ## Entries that come -/

/-- At most these byte lengths were added, in this order, and all of them once it is done. -/
def AddsUpTo (v : View σ α) (lens : List UInt64) (done : β) (r : Reading σ α β) : Prop :=
  ∃ made, made <+: lens ∧ v.Adds r.2 made [] ∧ (r.1 = .ok done → made = lens)

theorem place_adds (i : Nat) (e : Entry α) (v : View σ α) : v.AddsUpTo [e.byteLen] true (v.place i e) := by
  rw [place, allocate]
  cases v.allocator.attempt with
  | mk refused allocator =>
    cases refused with
    | true =>
      have hsettle : v.Quiet { v with allocator } := .of_scene rfl rfl
      exact ⟨[], List.nil_prefix, hsettle.log _, fun h => by cases h⟩
    | false =>
      simp only [Bool.false_eq_true, if_false]
      split
      · exact ⟨_, List.prefix_rfl, ⟨fun h => h.insert i e, (List.append_nil _).symm⟩, fun _ => rfl⟩
      · exact ⟨_, List.prefix_rfl, ⟨fun h => h.create e, (List.append_nil _).symm⟩, fun _ => rfl⟩

theorem append_adds (side : Side) (e : Entry α) (v : View σ α) :
    v.AddsUpTo [e.byteLen] true (v.append side e) := by
  obtain ⟨made, hle, hplace, hdone⟩ := place_adds (v.tipIdx side) e v
  refine ⟨made, hle, ?_⟩
  rw [append]
  cases hr : v.place (v.tipIdx side) e with
  | mk out w =>
    rw [hr] at hplace hdone
    rcases out with p | _ | _
    · exact ⟨hplace, hdone⟩
    · exact ⟨hplace, hdone⟩
    · exact ⟨hplace.log _, fun _ => hdone rfl⟩

/-- An insertion adds what placing its entry did. -/
theorem Placed.adds {r : Reading σ α (Except (InsertError α) Unit)}
    (h : Placed x ((v.emit (.entered x)).place i ⟨x, n⟩) r) : v.AddsUpTo [n] (.ok ()) r := by
  obtain ⟨made, hle, hplace, hdone⟩ := place_adds i ⟨x, n⟩ (v.emit (.entered x))
  have hadds := ((Adds.refl v).emit (.entered x) rfl).trans hplace
  refine ⟨made, hle, ?_⟩
  cases hr : (v.emit (.entered x)).place i ⟨x, n⟩ with
  | mk out w =>
    rw [hr] at h hadds hdone
    rcases out with p | _ | _
    · obtain rfl := h
      exact ⟨hadds, fun h => by cases h⟩
    · obtain rfl := h
      exact ⟨hadds.emit _ rfl, fun h => by cases h⟩
    · obtain ⟨line, rfl⟩ := h
      exact ⟨hadds.log line, fun _ => hdone rfl⟩

theorem insertIdx_adds (i : Nat) (x : α) (n : UInt64) (v : View σ α) :
    v.AddsUpTo [n] (.ok ()) (v.insertIdx i x n) := by
  rcases Nat.lt_or_ge v.row.length i with hi | hi
  · rw [insertIdx_outside hi]
    exact ⟨[], List.nil_prefix, ((Adds.refl v).emit _ rfl).emit _ rfl, fun h => by cases h⟩
  · exact (insertIdx_placed hi).adds

/-! ## Entries that go, and entries that are read -/

theorem pop_quiet (side : Side) (v : View σ α) : v.Quiet (v.pop side).2 := by
  rw [pop]
  cases v.row.tip? side with
  | none => exact .refl v
  | some s => exact (((Adds.refl v).erase s.handle).emit _ rfl).log _

theorem takeIdx_quiet (i : Nat) (v : View σ α) : v.Quiet (v.takeIdx i).2 := by
  rw [takeIdx]
  cases v.row.slots[i]? with
  | none => exact .refl v
  | some s => exact (((Adds.refl v).log _).erase s.handle).emit _ rfl

theorem Adds.erased (h : v.Adds w made heard) (s : Slot α) : v.Adds (w.erase s).2 made heard :=
  (h.erase s.handle).dispose _

theorem eraseIdx_quiet (i : Nat) (override : Option (Destructor σ α)) (v : View σ α) :
    v.Quiet (v.eraseIdx i override).2 := by
  rw [eraseIdx]
  cases v.row.slots[i]? with
  | none => exact .refl v
  | some s =>
    have herase : v.Quiet (v.withOverride override (·.erase s)).2 :=
      Adds.withOverride ((Adds.refl _).erased s)
    simp only
    cases hr : v.withOverride override (·.erase s) with
    | mk out w =>
      rw [hr] at herase
      cases out with
      | error p => exact herase
      | ok _ => exact herase.log _

theorem Adds.access (h : v.Adds w made heard) (write : Option α) (s : Slot α) :
    v.Adds (w.access write s) made heard := by
  cases write with
  | none => exact h
  | some x => exact ((h.emit (.entered x) rfl).write s.handle x).emit _ rfl

theorem peek_quiet (side : Side) (write : Option α) (v : View σ α) : v.Quiet (v.peek side write).2 := by
  rw [peek]
  cases v.row.tip? side with
  | none => exact .refl v
  | some s => exact (Adds.refl v).access write s

theorem get_quiet (i : Nat) (write : Option α) (v : View σ α) : v.Quiet (v.get i write).2 := by
  rw [get]
  cases v.row.slots[i]? with
  | none => exact .refl v
  | some s => exact (Adds.refl v).access write s

theorem cursorReset_quiet (v : View σ α) : v.Quiet v.cursorReset :=
  ((Adds.refl v).subset (r := v.row.rewind) fun _ hx => hx).log _

theorem cursorNext_quiet (write : Option α) (v : View σ α) : v.Quiet (v.cursorNext write).2 := by
  rw [cursorNext]
  cases v.row.due with
  | nil => exact .refl v
  | cons s due =>
    refine Adds.access (Adds.subset (.refl v) fun x hx => ?_) write s
    rwa [Row.slots_advance] at hx

/-! ## Walks -/

/-- A walk that makes no node hears some of the entries from the front on, if each step hears its own. -/
theorem walk_adds {body : β → Slot α → View σ α → Reading σ α (Flow × β)}
    (hbody : ∀ b s (v : View σ α), v.Adds (body b s v).2 [] [s.entry]) (run : List (Slot α)) (k : Nat)
    (b : β) (v : View σ α) : ∃ heard, heard <+: entriesOf run ∧ v.Adds (v.walk body run k b).2 [] heard := by
  induction run generalizing k b v with
  | nil => exact ⟨[], List.prefix_rfl, .refl v⟩
  | cons s run ih =>
    have hs := hbody b s v
    have hfirst : [s.entry] <+: entriesOf (s :: run) := (List.prefix_cons_inj _).2 List.nil_prefix
    rw [walk]
    cases hr : body b s v with
    | mk out w =>
      rw [hr] at hs
      rcases out with p | ⟨_ | _, b'⟩
      · exact ⟨_, hfirst, hs⟩
      · obtain ⟨heard, hle, h⟩ := ih (k + 1) b' w
        exact ⟨s.entry :: heard, (List.prefix_cons_inj _).2 hle, hs.trans h⟩
      · exact ⟨_, hfirst, hs⟩

theorem ask_adds (f : Callback τ (Entry α) β) (e : Entry α) (v : View σ α) :
    v.Adds (v.ask f e).2 [] [e] := by
  rw [View.ask_snd]
  exact .called_on e v

theorem visitEach_adds (visitor : Callback τ (Entry α) Flow) (v : View σ α) :
    ∃ heard, heard <+: v.row.entries ∧ v.Adds (v.visitEach visitor).2 [] heard := by
  obtain ⟨heard, hle, h⟩ := walk_adds (fun visitor s w => ask_adds visitor s.entry w) v.row.slots 0 visitor v
  refine ⟨heard, hle, ?_⟩
  rw [visitEach]
  cases hr : v.walk (fun visitor s w => w.ask visitor s.entry) v.row.slots 0 visitor with
  | mk out w =>
    rw [hr] at h
    cases out with
    | error p => exact h
    | ok _ => exact h.log _

theorem siftEntry_adds (b : Nat × Callback τ (Entry α) Bool) (s : Slot α) (v : View σ α) :
    v.Adds (v.siftEntry b s).2 [] [s.entry] := by
  obtain ⟨removed, predicate⟩ := b
  have hask := ask_adds predicate s.entry v
  rw [siftEntry]
  cases hr : v.ask predicate s.entry with
  | mk out w =>
    rw [hr] at hask
    rcases out with p | ⟨_ | _, predicate'⟩
    · exact hask
    · exact hask
    · have herase := hask.erased s
      simp only at herase ⊢
      cases he : w.erase s with
      | mk out' u =>
        rw [he] at herase
        cases out' <;> exact herase

theorem eraseWhere_adds (predicate : Callback τ (Entry α) Bool) (override : Option (Destructor σ α))
    (v : View σ α) :
    ∃ heard, heard <+: v.row.entries ∧ v.Adds (v.eraseWhere predicate override).2 [] heard := by
  obtain ⟨heard, hle, h⟩ := walk_adds siftEntry_adds v.row.slots 0 (0, predicate)
    { v with destructors := { v.destructors with override } }
  have hwalk : v.Adds (v.withOverride override fun v => v.walk siftEntry v.row.slots 0 (0, predicate)).2
      [] heard := Adds.withOverride h
  refine ⟨heard, hle, ?_⟩
  rw [eraseWhere]
  cases hr : v.withOverride override fun v => v.walk siftEntry v.row.slots 0 (0, predicate) with
  | mk out w =>
    rw [hr] at hwalk
    cases out with
    | error p => exact hwalk
    | ok _ => exact hwalk.log _

theorem join_quiet [AsText α] (refuses : Deque.Growth) (delimiter : String) (v : View σ α) :
    v.Quiet (v.join refuses delimiter).2 := by
  have hwalk : v.Quiet (v.walk (joinEntry refuses delimiter) v.row.slots 0 .start).2 :=
    walk_keeps (P := v.Quiet) (fun _ _ _ h => h) 0 _ (.refl v)
  rw [join]
  cases hr : v.walk (joinEntry refuses delimiter) v.row.slots 0 .start with
  | mk out w =>
    rw [hr] at hwalk
    cases out with
    | error p => exact hwalk
    | ok _ => exact (hwalk.log _).log _

/-! ## The end of a row -/

theorem look_noted {lens : List UInt64} (h : v.toScene.Noted lens) {a : Handle} {n : Node α}
    (hn : v.look a = some n) : lens[a]? = some n.entry.byteLen := by
  rcases Nodes.of_lay hn with hrest | ⟨s, hs, rfl, he⟩
  · exact h.rest a n hrest
  · rw [← he]
    exact h.row s hs

theorem abandon_quiet (v : View σ α) : v.Quiet v.abandon where
  noted h := by
    rw [List.append_nil]
    exact ⟨h.size, fun x hx => (by cases hx), fun _ _ hn => look_noted h hn⟩
  called := (List.append_nil _).symm

theorem drain_quiet (run : List (Slot α)) (v : View σ α) : v.Quiet (v.drain run).2 := by
  induction run generalizing v with
  | nil => exact .refl v
  | cons s run ih =>
    have hs := ((Adds.refl v).release s.handle).dispose s.payload
    rw [drain]
    cases hr : ({ v with rest := v.rest.set s.handle none } : View σ α).dispose s.payload with
    | mk out w =>
      rw [hr] at hs
      cases out with
      | error p => exact hs
      | ok _ => exact hs.quiet (ih w)

theorem clear_quiet (override : Option (Destructor σ α)) (v : View σ α) :
    v.Quiet (v.clear override).2 := by
  have hdrain : v.Quiet (v.abandon.withOverride override (·.drain v.row.slots)).2 :=
    (abandon_quiet v).quiet (Adds.withOverride (drain_quiet v.row.slots _))
  rw [clear]
  cases hr : v.abandon.withOverride override (·.drain v.row.slots) with
  | mk out w =>
    rw [hr] at hdrain
    cases out with
    | error p => exact hdrain
    | ok _ =>
      simp only
      split
      · exact hdrain.log _
      · exact hdrain

/-! ## A second row beside the first -/

theorem beside_snd (made : List (Slot α)) (f : View σ α → Reading σ α β) (v : View σ α) :
    (v.beside made f).2 = (f (v.aside made)).2.resume v := by
  rw [beside]
  cases f (v.aside made) with
  | mk out u => cases out <;> rfl

/-- Both rows have their byte lengths on record. -/
structure Placing (v : View σ α) (made : List (Slot α)) (lens : List UInt64) : Prop where
  noted : v.toScene.Noted lens
  made : Places lens made

theorem Placing.aside {made : List (Slot α)} {lens : List UInt64} (h : v.Placing made lens) :
    (v.aside made).toScene.Noted lens where
  size := h.noted.size
  row := by
    rw [slots_aside]
    exact h.made
  rest a n hn := by
    have hlook : v.look.hide made a = some n := hn
    by_cases ha : a ∈ handlesOf made
    · rw [Nodes.hide_of_mem ha] at hlook
      cases hlook
    · rw [Nodes.hide_of_not_mem ha] at hlook
      exact look_noted h.noted hlook

theorem Placing.resume {made : List (Slot α)} {lens new : List UInt64} (h : v.Placing made lens)
    (hu : u.toScene.Noted (lens ++ new)) : (u.resume v).Placing u.row.slots (lens ++ new) where
  noted := by
    refine ⟨hu.size, h.noted.row.extend new, fun a n hn => ?_⟩
    have hlook : u.look.hide v.row.slots a = some n := hn
    by_cases ha : a ∈ handlesOf v.row.slots
    · rw [Nodes.hide_of_mem ha] at hlook
      cases hlook
    · rw [Nodes.hide_of_not_mem ha] at hlook
      exact look_noted hu hlook
  made := hu.row

/-- An operation on the second row adds to the record what it adds there. -/
theorem Placing.beside {made : List (Slot α)} {lens new : List UInt64} (h : v.Placing made lens)
    {f : View σ α → Reading σ α β} (hf : (v.aside made).Adds (f (v.aside made)).2 new heard) :
    (v.beside made f).2.Placing (f (v.aside made)).2.row.slots (lens ++ new) ∧
      calledIn (v.beside made f).2.trace = calledIn v.trace ++ heard := by
  rw [beside_snd]
  exact ⟨h.resume (hf.noted h.aside), hf.called⟩

/-- A transformation came to its next place, or to an end: the nodes that were made are on record, those
in the second row among them. -/
structure Mapped (lens : List UInt64) (v : View σ α) (r : Reading σ α (β × Transforming τ α))
    (made : List UInt64) (heard : List (Entry α)) : Prop where
  noted : r.2.toScene.Noted (lens ++ made)
  called : calledIn r.2.trace = calledIn v.trace ++ heard
  places : ∀ {b m}, r.1 = .ok (b, m) → Places (lens ++ made) m.made

variable {lens : List UInt64} {m : Transforming τ α} {s : Slot α}

theorem mapEntry_panics {report : String} (h : v.Placing m.made lens)
    (hcall : (m.transform.call s.entry).1 = .panics report) :
    Mapped lens v (v.mapEntry m s) [] [s.entry] ∧ ∀ m', (v.mapEntry m s).1 ≠ .ok (.go, m') := by
  rw [mapEntry]
  cases hc : m.transform.call s.entry with
  | mk reply transform =>
    rw [hc] at hcall
    cases hcall
    refine ⟨⟨by simpa using h.noted, calledIn_push _ _, ?_⟩, fun m' hm => by cases hm⟩
    intro b m' hm
    cases hm
    simpa using h.made

theorem mapEntry_returns {r : Entry α} {transform : Callback τ (Entry α) (Entry α)}
    (h : v.Placing m.made lens) (hcall : m.transform.call s.entry = (.returns r, transform)) :
    ∃ made, made <+: [r.byteLen] ∧ Mapped lens v (v.mapEntry m s) made [s.entry] ∧
      ∀ m', (v.mapEntry m s).1 = .ok (.go, m') → made = [r.byteLen] ∧ m'.transform = transform := by
  let u := (v.emit (.called s.entry)).emit (.entered r.value)
  have hu : u.Placing m.made lens := ⟨h.noted, h.made⟩
  have hheard : calledIn u.trace = calledIn v.trace ++ [s.entry] :=
    ((Adds.called_on s.entry v).emit _ rfl).called
  obtain ⟨made, hle, happend, hdone⟩ := append_adds .after r (u.aside m.made)
  obtain ⟨hplacing, hcalled⟩ := hu.beside (f := (·.append .after r)) happend
  rw [hheard, List.append_nil] at hcalled
  rw [beside] at hplacing hcalled
  refine ⟨made, hle, ?_⟩
  simp only [mapEntry, hcall, beside]
  cases hr : (u.aside m.made).append .after r with
  | mk out w =>
    rw [hr] at hplacing hcalled hdone
    rcases out with p | _ | _
    · exact ⟨⟨hplacing.noted, hcalled, fun h => by cases h⟩, fun _ h => by cases h⟩
    · refine ⟨⟨hplacing.noted, ?_, fun h => ?_⟩, fun _ h => by cases h⟩
      · rw [← hcalled]
        exact (calledIn_push _ _).trans (List.append_nil _)
      · cases h
        exact hplacing.made
    · refine ⟨⟨hplacing.noted, hcalled, fun h => ?_⟩, fun _ h => ?_⟩
      · cases h
        exact hplacing.made
      · cases h
        exact ⟨hdone rfl, rfl⟩

/-- A walk that transforms hears some of the entries from the front on, and adds the byte lengths of some of
the results. -/
theorem walk_mapEntry (run : List (Slot α)) (k : Nat) (h : v.Placing m.made lens) :
    ∃ made heard, made <+: (m.transform.answers (entriesOf run)).map Entry.byteLen ∧
      heard <+: entriesOf run ∧ Mapped lens v (v.walk mapEntry run k m) made heard := by
  induction run generalizing v m lens k with
  | nil =>
    refine ⟨[], [], List.nil_prefix, List.prefix_rfl, ?_, (List.append_nil _).symm, fun hm => ?_⟩
    · rw [List.append_nil]
      exact h.noted
    · cases hm
      rw [List.append_nil]
      exact h.made
  | cons s run ih =>
    have hfirst : [s.entry] <+: entriesOf (s :: run) := (List.prefix_cons_inj _).2 List.nil_prefix
    rw [walk]
    cases hcall : m.transform.call s.entry with
    | mk reply transform =>
      cases reply with
      | panics report =>
        obtain ⟨hmapped, hstop⟩ := mapEntry_panics h (congrArg Prod.fst hcall)
        refine ⟨[], [s.entry], List.nil_prefix, hfirst, ?_⟩
        cases hr : v.mapEntry m s with
        | mk out w =>
          rw [hr] at hmapped hstop
          rcases out with p | ⟨_ | _, m'⟩
          · exact ⟨hmapped.noted, hmapped.called, fun h => by cases h⟩
          · exact absurd rfl (hstop m')
          · refine ⟨hmapped.noted, hmapped.called, fun h => ?_⟩
            cases h
            exact hmapped.places rfl
      | returns r =>
        obtain ⟨made, hle, hmapped, hgo⟩ := mapEntry_returns h hcall
        rw [entriesOf_cons, Callback.answers_cons hcall, List.map_cons]
        have hle' : made <+: r.byteLen :: (transform.answers (entriesOf run)).map Entry.byteLen :=
          hle.trans ((List.prefix_cons_inj _).2 List.nil_prefix)
        cases hr : v.mapEntry m s with
        | mk out w =>
          rw [hr] at hmapped hgo
          rcases out with p | ⟨_ | _, m'⟩
          · exact ⟨made, _, hle', hfirst, hmapped.noted, hmapped.called, fun h => by cases h⟩
          · obtain ⟨rfl, rfl⟩ := hgo m' rfl
            obtain ⟨made', heard, hmade, hheard, hrest⟩ := ih (k + 1) (v := w) (m := m')
              ⟨hmapped.noted, hmapped.places rfl⟩
            refine ⟨r.byteLen :: made', s.entry :: heard, (List.prefix_cons_inj _).2 hmade,
              (List.prefix_cons_inj _).2 hheard, ?_, ?_, fun hm => ?_⟩
            · have hnoted := hrest.noted
              rwa [List.append_assoc] at hnoted
            · rw [hrest.called, hmapped.called, List.append_assoc]
              rfl
            · have hplaces := hrest.places hm
              rwa [List.append_assoc] at hplaces
          · refine ⟨made, _, hle', hfirst, hmapped.noted, hmapped.called, fun h => ?_⟩
            cases h
            exact hmapped.places rfl

theorem mapEnd_quiet (visited : Nat) (h : v.Placing m.made lens) :
    (v.mapEnd visited m).2.toScene.Noted lens ∧
      calledIn (v.mapEnd visited m).2.trace = calledIn v.trace := by
  have hclear : ∀ (u : View σ α) override, u.Placing m.made lens → calledIn u.trace = calledIn v.trace →
      (u.beside m.made (·.clear override)).2.toScene.Noted lens ∧
        calledIn (u.beside m.made (·.clear override)).2.trace = calledIn v.trace := by
    intro u override hu htrace
    obtain ⟨hplacing, hcalled⟩ := hu.beside (f := (·.clear override)) (clear_quiet override _)
    rw [List.append_nil] at hcalled
    refine ⟨?_, hcalled.trans htrace⟩
    have hnoted := hplacing.noted
    rwa [List.append_nil] at hnoted
  have hlog : ∀ (u : View σ α) line, calledIn (u.log line).trace = calledIn u.trace := by
    intro u line
    exact (calledIn_push _ _).trans (List.append_nil _)
  rw [mapEnd]
  cases m.progress with
  | panicked report => exact hclear v none h rfl
  | refused => exact hclear _ (some .drop) ⟨h.noted, h.made⟩ (hlog _ _)
  | placed => exact ⟨h.noted, (hlog _ _).trans (hlog _ _)⟩

/-- A transformation adds the byte lengths of some of its results, and hears some of the entries. -/
theorem map_adds (transform : Callback τ (Entry α) (Entry α)) (h : v.toScene.Noted lens) :
    ∃ made heard, made <+: (transform.answers v.row.entries).map Entry.byteLen ∧ heard <+: v.row.entries ∧
      (v.map transform).2.toScene.Noted (lens ++ made) ∧
      calledIn (v.map transform).2.trace = calledIn v.trace ++ heard := by
  have hstart : v.Placing [] lens := ⟨h, fun _ hs => by cases hs⟩
  obtain ⟨made, heard, hmade, hheard, hwalk⟩ :=
    walk_mapEntry (m := ⟨transform, [], .placed⟩) v.row.slots 0 hstart
  refine ⟨made, heard, hmade, hheard, ?_⟩
  rw [map]
  cases hr : v.walk mapEntry v.row.slots 0 ⟨transform, [], .placed⟩ with
  | mk out w =>
    rw [hr] at hwalk
    cases out with
    | error p => exact ⟨hwalk.noted, hwalk.called⟩
    | ok b =>
      obtain ⟨visited, m⟩ := b
      obtain ⟨hnoted, hcalled⟩ := mapEnd_quiet visited (v := w) ⟨hwalk.noted, hwalk.places rfl⟩
      exact ⟨hnoted, hcalled.trans hwalk.called⟩

end View

end LinkedDeque
