import LinkedDeque.Payload
import LinkedDeque.Proofs.Worlds

/-!
# LinkedDeque.Proofs.Sequence

A list as the plain sequence of its entries:

* `Sequence`       — a sequence of entries, and the allocator that says which new ones are refused.
* `Sequence.step`  — the operations on single entries, without nodes, links or a recorded length.
* `World.watch`    — the answers to the steps of a run, with the contents of one list after each.
* `World.watch_eq` — these are the answers and the contents of the sequence.
-/

namespace LinkedDeque

variable {σ α : Type}

/-- A sequence of entries. -/
structure Sequence (α : Type) where
  entries : List (Entry α)
  allocator : Allocator

namespace Sequence

/-- Adds an entry at a position, unless it is refused. There is no room for more entries than a count can
hold. -/
def add (i : Nat) (x : α) (byteLen : UInt64) (s : Sequence α) :
    Except Panic (Answer α) × Sequence α :=
  match s.allocator.attempt with
  | (true, allocator) => (.ok (.insertError ⟨x, .alloc⟩), { s with allocator })
  | (false, allocator) =>
    if s.entries.length + 1 < capacity then
      (.ok .done, ⟨s.entries.insertIdx i ⟨x, byteLen⟩, allocator⟩)
    else (.error (.fault .capacity), { s with allocator })

/-- Overwrites the payload at a position, if another one is given. -/
def overwrite (write : Option α) (i : Nat) (s : Sequence α) : Sequence α :=
  match write with
  | none => s
  | some x => { s with entries := s.entries.modify i (·.update fun _ => x) }

def erase (i : Nat) (s : Sequence α) : Sequence α := { s with entries := s.entries.eraseIdx i }

/-- Does something at a position, or answers that it is not one. -/
def atIdx (i : Nat) (s : Sequence α) (f : Entry α → Answer α × Sequence α) :
    Except Panic (Answer α) × Sequence α :=
  match s.entries[i]? with
  | none => (.ok (.indexError ⟨i, s.entries.length⟩), s)
  | some e => (.ok (f e).1, (f e).2)

/-- The operations on single entries. The others are left aside. -/
def use [AsBytes α] (op : Op σ α) (s : Sequence α) : Except Panic (Answer α) × Sequence α :=
  match op with
  | .length => (.ok (.count s.entries.length), s)
  | .isEmpty => (.ok (.flag s.entries.isEmpty), s)
  | .push .before x byteLen => s.add 0 x (byteLen.resolve x)
  | .push .after x byteLen => s.add s.entries.length x (byteLen.resolve x)
  | .pop .before => (.ok (.entry s.entries.head?), { s with entries := s.entries.tail })
  | .pop .after => (.ok (.entry s.entries.getLast?), { s with entries := s.entries.dropLast })
  | .peek .before write => (.ok (.entry s.entries.head?), s.overwrite write 0)
  | .peek .after write =>
    (.ok (.entry s.entries.getLast?), s.overwrite write (s.entries.length - 1))
  | .get i write => s.atIdx i fun e => (.entry (some e), s.overwrite write i)
  | .eraseIdx i _ => s.atIdx i fun _ => (.done, s.erase i)
  | .takeIdx i => s.atIdx i fun e => (.entry (some e), s.erase i)
  | .insertIdx i x byteLen =>
    if s.entries.length < i then
      (.ok (.insertError ⟨x, .index ⟨i, s.entries.length⟩⟩), s)
    else s.add i x byteLen
  | _ => (.ok .absent, s)

def step [AsBytes α] (s : Step σ α) (q : Sequence α) : Except Panic (Answer α) × Sequence α :=
  match s with
  | .use _ op => q.use op
  | .arm refuses => (.ok .done, { q with allocator := .ofPattern refuses })
  | .create _ => (.ok .absent, q)

/-- The answers to steps, with the contents after each. -/
def watch [AsBytes α] : List (Step σ α) → Sequence α →
    List (Except Panic (Answer α) × List (Entry α))
  | [], _ => []
  | s :: rest, q => ((q.step s).1, (q.step s).2.entries) :: watch rest (q.step s).2

end Sequence

def Destructor.Calm : Destructor σ α → Prop
  | drop => True
  | custom f => ∀ state x, (f.step state x).1 = .returns ()

/-- An operation on single entries, with no destructor given that panics. -/
def Op.Single : Op σ α → Prop
  | length | isEmpty | push .. | pop _ | peek .. | get .. | takeIdx _ | insertIdx .. => True
  | eraseIdx _ override => ∀ d, override = some d → d.Calm
  | _ => False

/-- A step that uses one list through an operation on single entries, or sets which allocations are
refused. -/
def Step.Single (k : Nat) : Step σ α → Prop
  | use j op => j = k ∧ op.Single
  | arm _ => True
  | create _ => False

/-- The answers to steps, with the contents of a list after each. -/
def World.watch [AsBytes α] [AsText α] (k : Nat) : List (Step σ α) → World σ α →
    List (Except Panic (Answer α) × List (Entry α))
  | [], _ => []
  | s :: rest, w =>
    ((w.step s).1.result, (w.step s).2.contents k) :: watch k rest (w.step s).2

/-! ## Rows as sequences -/

namespace Row

variable {r : Row α} {s : Slot α} {i : Nat}

theorem getElem?_entries (r : Row α) (i : Nat) : r.entries[i]? = r.slots[i]?.map Slot.entry :=
  List.getElem?_map ..

theorem entries_insert (i : Nat) (s : Slot α) (r : Row α) :
    (r.insert i s).entries = r.entries.insertIdx i s.entry := by
  rw [entries, slots_insert, List.map_insertIdx]
  rfl

theorem entries_erase (hs : r.slots[i]? = some s) (hnodup : r.handles.Nodup) :
    (r.erase s.handle).entries = r.entries.eraseIdx i := by
  obtain ⟨hr, hi⟩ := split_at hs
  rw [entries, slots_erase hr hnodup, entries, List.eraseIdx_map, List.eraseIdx_eq_take_drop_succ]

theorem entries_write (hs : r.slots[i]? = some s) (hnodup : r.handles.Nodup) (x : α) :
    (r.write s.handle x).entries = r.entries.modify i (·.update fun _ => x) := by
  obtain ⟨hr, -⟩ := split_at hs
  obtain ⟨hi, hs⟩ := List.getElem?_eq_some_iff.1 hs
  have hi' : i < r.entries.length := by rwa [length_entries]
  have hget : r.entries[i] = s.entry := by
    rw [← hs]
    exact List.getElem_map ..
  rw [List.modify_eq_take_cons_drop hi', hget, entries, slots_write_split hr hnodup, List.map_append,
    List.map_cons, List.map_take, List.map_drop]
  rfl

end Row

def View.sequence (v : View σ α) : Sequence α := ⟨v.row.entries, v.allocator⟩

namespace Op

variable {v : View σ α}

/-- An operation is that of the sequence, and the destructor of the list stays calm. -/
structure Refines [AsBytes α] [AsText α] (op : Op σ α) (v : View σ α) (out : Except Panic (Answer α))
    (u : View σ α) : Prop where
  leads : Leads op.act v ((fun a => (a, none)) <$> out, u)
  agrees : v.sequence.use op = (out, u.sequence)
  calm : ∀ d, u.destructors.default = some d → d.Calm

theorem leads_answer {β : Type} {act : Act σ α β} {r : Reading σ α β} (f : β → Answer α)
    (h : Leads act v r) :
    Leads (β := Answer α × Option Chain) (do return (f (← act), none)) v
      ((fun b => (b, none)) <$> (f <$> r.1), r.2) := by
  obtain ⟨out, w⟩ := r
  cases out with
  | ok b => exact h.bind (Leads.pure _ _)
  | error p => exact h.bind_error

end Op

namespace View

variable {v : View σ α}

theorem add_eq (i : Nat) (x : α) (n : UInt64) (v : View σ α) :
    v.sequence.add i x n =
      match v.place i ⟨x, n⟩ with
      | (.ok true, u) => (.ok .done, u.sequence)
      | (.ok false, u) => (.ok (.insertError ⟨x, .alloc⟩), u.sequence)
      | (.error p, u) => (.error p, u.sequence) := by
  rw [Sequence.add, place, allocate]
  have hlen : v.sequence.entries.length = v.row.length := Row.length_entries v.row
  rw [hlen]
  show (match v.allocator.attempt with | (true, allocator) => _ | (false, allocator) => _) = _
  cases v.allocator.attempt with
  | mk refused allocator =>
    cases refused with
    | true => rfl
    | false =>
      by_cases hcap : v.row.length + 1 < capacity
      · simp only [hcap, if_true, Bool.false_eq_true, if_false, sequence, Row.entries_insert]
      · simp only [hcap, if_false, Bool.false_eq_true]
        rfl

theorem push_eq (side : Side) (x : α) (n : UInt64) (v : View σ α) :
    v.sequence.add (match side with | .before => 0 | .after => v.sequence.entries.length) x n =
      (Op.inserted <$> (v.push side x n).1, (v.push side x n).2.sequence) := by
  have hidx : (match side with | .before => 0 | .after => v.sequence.entries.length) =
      (v.emit (.entered x)).tipIdx side := by
    cases side with
    | before => rfl
    | after => exact Row.length_entries v.row
  rw [hidx, push, append, show v.sequence = (v.emit (.entered x)).sequence from rfl, add_eq]
  cases (v.emit (.entered x)).place ((v.emit (.entered x)).tipIdx side) ⟨x, n⟩ with
  | mk out u =>
    cases out with
    | error p => rfl
    | ok placed => cases placed <;> rfl

theorem insertIdx_eq (i : Nat) (x : α) (n : UInt64) (v : View σ α) :
    (if v.sequence.entries.length < i then
        (.ok (.insertError ⟨x, .index ⟨i, v.sequence.entries.length⟩⟩), v.sequence)
      else v.sequence.add i x n) =
      (Op.inserted <$> (v.insertIdx i x n).1, (v.insertIdx i x n).2.sequence) := by
  have hlen : v.sequence.entries.length = (v.emit (.entered x)).row.length :=
    Row.length_entries v.row
  rw [insertIdx, hlen]
  by_cases hlt : (v.emit (.entered x)).row.length < i
  · simp only [hlt, if_true]
    rfl
  · simp only [hlt, if_false]
    rw [show v.sequence = (v.emit (.entered x)).sequence from rfl, add_eq]
    cases (v.emit (.entered x)).place i ⟨x, n⟩ with
    | mk out u =>
      cases out with
      | error p => rfl
      | ok placed => cases placed <;> rfl

theorem access_eq {write : Option α} {s : Slot α} {i : Nat} (hs : v.row.slots[i]? = some s)
    (hnodup : v.row.handles.Nodup) :
    (v.access write s).sequence = v.sequence.overwrite write i := by
  cases write with
  | none => rfl
  | some x =>
    have h := Row.entries_write hs hnodup x
    exact congrArg (Sequence.mk · v.allocator) h

end View

/-! ## Destructors that never panic -/

theorem Destructor.Calm.run {d : Destructor σ α} (hd : d.Calm) (x : α) :
    (d.run x).1 = .returns () ∧ (d.run x).2.Calm := by
  cases d with
  | drop => exact ⟨rfl, trivial⟩
  | custom f =>
    refine ⟨?_, hd⟩
    exact hd f.state x

theorem Destructors.dispose_calm (ds : Destructors σ α) (ho : ∀ d, ds.override = some d → d.Calm)
    (hd : ∀ d, ds.default = some d → d.Calm) (x : α) :
    (ds.dispose x).2.1 = .returns () ∧ ∀ d, (ds.dispose x).2.2.default = some d → d.Calm := by
  obtain ⟨default, override⟩ := ds
  cases override with
  | some d => exact ⟨((ho d rfl).run x).1, hd⟩
  | none =>
    cases default with
    | none => exact ⟨rfl, hd⟩
    | some d =>
      obtain ⟨hreply, hcalm⟩ := (hd d rfl).run x
      refine ⟨hreply, fun d' hd' => ?_⟩
      cases hd'
      exact hcalm

namespace View

variable {v : View σ α}

theorem erase_calm {override : Option (Destructor σ α)} (ho : ∀ d, override = some d → d.Calm)
    (hd : ∀ d, v.destructors.default = some d → d.Calm) (s : Slot α) :
    ∃ u, v.withOverride override (·.erase s) = (.ok (), u) ∧ u.row = v.row.erase s.handle ∧
      u.allocator = v.allocator ∧ ∀ d, u.destructors.default = some d → d.Calm := by
  obtain ⟨hreply, hcalm⟩ := Destructors.dispose_calm { v.destructors with override } ho hd
    s.payload
  rw [withOverride]
  simp only [erase, dispose]
  cases hr : Destructors.dispose { v.destructors with override } s.entry.value with
  | mk fate rest =>
    obtain ⟨reply, ds⟩ := rest
    rw [hr] at hreply hcalm
    cases hreply
    exact ⟨_, rfl, rfl, rfl, hcalm⟩

theorem place_destructors (i : Nat) (e : Entry α) (v : View σ α) :
    (v.place i e).2.destructors = v.destructors := by
  rw [place, allocate]
  cases v.allocator.attempt with
  | mk refused allocator =>
    cases refused with
    | true => rfl
    | false =>
      by_cases hcap : v.row.length + 1 < capacity
      · simp only [hcap, if_true, Bool.false_eq_true, if_false]
      · simp only [hcap, if_false, Bool.false_eq_true]

theorem push_destructors (side : Side) (x : α) (n : UInt64) (v : View σ α) :
    (v.push side x n).2.destructors = v.destructors := by
  have h := place_destructors ((v.emit (.entered x)).tipIdx side) ⟨x, n⟩ (v.emit (.entered x))
  rw [push, append]
  cases hr : (v.emit (.entered x)).place ((v.emit (.entered x)).tipIdx side) ⟨x, n⟩ with
  | mk out u =>
    rw [hr] at h
    cases out with
    | error p => exact h
    | ok placed => cases placed <;> exact h

theorem insertIdx_destructors (i : Nat) (x : α) (n : UInt64) (v : View σ α) :
    (v.insertIdx i x n).2.destructors = v.destructors := by
  have h := place_destructors i ⟨x, n⟩ (v.emit (.entered x))
  rw [insertIdx]
  by_cases hlt : (v.emit (.entered x)).row.length < i
  · simp only [hlt, if_true]
    rfl
  · simp only [hlt, if_false]
    cases hr : (v.emit (.entered x)).place i ⟨x, n⟩ with
    | mk out u =>
      rw [hr] at h
      cases out with
      | error p => exact h
      | ok placed => cases placed <;> exact h

theorem access_destructors (write : Option α) (s : Slot α) (v : View σ α) :
    (v.access write s).destructors = v.destructors := by
  cases write <;> rfl

end View

/-! ## Every operation on single entries -/

namespace Sequence

variable {s : Sequence α}

def tipIdx (side : Side) (s : Sequence α) : Nat :=
  match side with
  | .before => 0
  | .after => s.entries.length - 1

theorem use_pop [AsBytes α] (side : Side) (s : Sequence α) :
    s.use (.pop side : Op σ α) = (.ok (.entry s.entries[s.tipIdx side]?), s.erase (s.tipIdx side)) := by
  cases side with
  | before => rw [use, tipIdx, erase, List.head?_eq_getElem?, List.eraseIdx_zero]
  | after => rw [use, tipIdx, erase, List.getLast?_eq_getElem?, List.eraseIdx_length_sub_one]

theorem use_peek [AsBytes α] (side : Side) (write : Option α) (s : Sequence α) :
    s.use (.peek side write : Op σ α) =
      (.ok (.entry s.entries[s.tipIdx side]?), s.overwrite write (s.tipIdx side)) := by
  cases side with
  | before => rw [use, tipIdx, List.head?_eq_getElem?]
  | after => rw [use, tipIdx, List.getLast?_eq_getElem?]

theorem erase_of_none {i : Nat} (h : s.entries[i]? = none) : s.erase i = s := by
  rw [erase, List.eraseIdx_of_length_le (List.getElem?_eq_none_iff.1 h)]

theorem overwrite_of_none {i : Nat} (h : s.entries[i]? = none) (write : Option α) :
    s.overwrite write i = s := by
  cases write with
  | none => rfl
  | some x => rw [overwrite, List.modify_eq_self (List.getElem?_eq_none_iff.1 h)]

end Sequence

namespace View

variable {v : View σ α}

theorem getElem?_sequence (i : Nat) (v : View σ α) :
    v.sequence.entries[i]? = v.row.slots[i]?.map Slot.entry :=
  Row.getElem?_entries ..

theorem tip?_sequence (side : Side) (v : View σ α) :
    v.row.tip? side = v.row.slots[v.sequence.tipIdx side]? := by
  cases side with
  | before => exact List.head?_eq_getElem? ..
  | after =>
    rw [Sequence.tipIdx, show v.sequence.entries.length = _ from Row.length_entries v.row]
    exact List.getLast?_eq_getElem? ..

theorem atIdx_eq (i : Nat) (f : Entry α → Answer α × Sequence α) (v : View σ α) :
    v.sequence.atIdx i f = match v.row.slots[i]? with
      | none => (.ok (.indexError ⟨i, v.row.length⟩), v.sequence)
      | some s => (.ok (f s.entry).1, (f s.entry).2) := by
  rw [Sequence.atIdx, getElem?_sequence, show v.sequence.entries.length = _ from
    Row.length_entries v.row]
  cases v.row.slots[i]? <;> rfl

theorem erase_sequence {s : Slot α} {i : Nat} (hs : v.row.slots[i]? = some s)
    (hnodup : v.row.handles.Nodup) {u : View σ α} (hrow : u.row = v.row.erase s.handle)
    (halloc : u.allocator = v.allocator) : u.sequence = v.sequence.erase i := by
  rw [sequence, hrow, halloc, Row.entries_erase hs hnodup]
  rfl

theorem pop_sequence [AsBytes α] (side : Side) (hnodup : v.row.handles.Nodup) :
    v.sequence.use (.pop side : Op σ α) = (Answer.entry <$> (v.pop side).1, (v.pop side).2.sequence) := by
  rw [Sequence.use_pop, getElem?_sequence, pop, tip?_sequence]
  cases hs : v.row.slots[v.sequence.tipIdx side]? with
  | none =>
    have hnone : v.sequence.entries[v.sequence.tipIdx side]? = none := by
      rw [getElem?_sequence, hs]
      rfl
    rw [Sequence.erase_of_none hnone]
    rfl
  | some s =>
    rw [← erase_sequence (u := { v with row := v.row.erase s.handle }) hs hnodup rfl rfl]
    rfl

end View

namespace Op

variable [AsBytes α] [AsText α] {v : View σ α}

theorem refines_pop (side : Side) (hv : v.Sound)
    (hd : ∀ d, v.destructors.default = some d → d.Calm) : ∃ out u, Refines (pop side) v out u := by
  refine ⟨_, _, leads_answer .entry (Leads.pop side v), View.pop_sequence side hv.nodup, ?_⟩
  rw [View.pop]
  cases v.row.tip? side <;> exact hd

theorem refines_peek (side : Side) (write : Option α) (hv : v.Sound)
    (hd : ∀ d, v.destructors.default = some d → d.Calm) :
    ∃ out u, Refines (peek side write) v out u := by
  refine ⟨_, _, leads_answer .entry (Leads.peek side write v), ?_, ?_⟩
  · rw [Sequence.use_peek, View.getElem?_sequence, View.peek, View.tip?_sequence]
    cases hs : v.row.slots[v.sequence.tipIdx side]? with
    | none =>
      have hnone : v.sequence.entries[v.sequence.tipIdx side]? = none := by
        rw [View.getElem?_sequence, hs]
        rfl
      rw [Sequence.overwrite_of_none hnone]
      rfl
    | some s =>
      rw [← View.access_eq hs hv.nodup]
      rfl
  · rw [View.peek]
    cases v.row.tip? side with
    | none => exact hd
    | some s => rwa [show _ = v.destructors from View.access_destructors write s v]

theorem refines_get (i : Nat) (write : Option α) (hv : v.Sound)
    (hd : ∀ d, v.destructors.default = some d → d.Calm) :
    ∃ out u, Refines (get i write) v out u := by
  refine ⟨_, _, leads_answer (indexed (.entry ∘ some)) (Leads.get i write v), ?_, ?_⟩
  · rw [Sequence.use, View.atIdx_eq, View.get]
    cases hs : v.row.slots[i]? with
    | none => rfl
    | some s =>
      simp only
      rw [← View.access_eq hs hv.nodup]
      rfl
  · rw [View.get]
    cases v.row.slots[i]? with
    | none => exact hd
    | some s => rwa [show _ = v.destructors from View.access_destructors write s v]

theorem refines_takeIdx (i : Nat) (hv : v.Sound)
    (hd : ∀ d, v.destructors.default = some d → d.Calm) :
    ∃ out u, Refines (takeIdx i) v out u := by
  refine ⟨_, _, leads_answer (indexed (.entry ∘ some)) (Leads.takeIdx i v), ?_, ?_⟩
  · rw [Sequence.use, View.atIdx_eq, View.takeIdx]
    cases hs : v.row.slots[i]? with
    | none => rfl
    | some s =>
      simp only
      rw [← View.erase_sequence (u := { v with row := v.row.erase s.handle }) hs hv.nodup rfl rfl]
      rfl
  · rw [View.takeIdx]
    cases v.row.slots[i]? <;> exact hd

theorem refines_eraseIdx (i : Nat) {override : Option (Destructor σ α)} (hv : v.Sound)
    (hd : ∀ d, v.destructors.default = some d → d.Calm) (ho : ∀ d, override = some d → d.Calm) :
    ∃ out u, Refines (eraseIdx i override) v out u := by
  refine ⟨_, _, leads_answer (indexed fun _ => .done) (Leads.eraseIdx i override v), ?_, ?_⟩
  · rw [Sequence.use, View.atIdx_eq, View.eraseIdx]
    cases hs : v.row.slots[i]? with
    | none => rfl
    | some s =>
      obtain ⟨u, hu, hrow, halloc, -⟩ := View.erase_calm ho hd s
      simp only [hu]
      rw [← View.erase_sequence hs hv.nodup hrow halloc]
      rfl
  · rw [View.eraseIdx]
    cases hs : v.row.slots[i]? with
    | none => exact hd
    | some s =>
      obtain ⟨u, hu, -, -, hcalm⟩ := View.erase_calm ho hd s
      simp only [hu]
      exact hcalm

/-- An operation on single entries does to a list what it does to the sequence of its entries. -/
theorem refines (op : Op σ α) (hop : op.Single) (hv : v.Sound)
    (hd : ∀ d, v.destructors.default = some d → d.Calm) : ∃ out u, Refines op v out u := by
  cases op with
  | length =>
    refine ⟨_, _, leads_answer .count (Leads.length v), ?_, hd⟩
    rw [Sequence.use, show v.sequence.entries.length = _ from Row.length_entries v.row]
    rfl
  | isEmpty =>
    refine ⟨_, _, leads_answer .flag (Leads.read fun _ hl => congrArg Except.ok hl.isEmpty_eq), ?_, hd⟩
    rw [Sequence.use, show v.sequence.entries.isEmpty = v.row.slots.isEmpty from List.isEmpty_map]
    rfl
  | push side x byteLen =>
    refine ⟨_, _, leads_answer inserted (Leads.push side x (byteLen.resolve x) v), ?_, ?_⟩
    · rw [← View.push_eq]
      cases side <;> rfl
    · rwa [show _ = v.destructors from View.push_destructors ..]
  | pop side => exact refines_pop side hv hd
  | peek side write => exact refines_peek side write hv hd
  | get i write => exact refines_get i write hv hd
  | eraseIdx i override => exact refines_eraseIdx i hv hd hop
  | takeIdx i => exact refines_takeIdx i hv hd
  | insertIdx i x n =>
    refine ⟨_, _, leads_answer inserted (Leads.insertIdx i x n v), ?_, ?_⟩
    · rw [← View.insertIdx_eq]
      rfl
    · rwa [show _ = v.destructors from View.insertIdx_destructors ..]
  | getRelative | cursorReset | cursorNext | cursorFirst | visitEach | eraseWhere | map | join
  | destroy => exact hop.elim

end Op

/-! ## Whole runs -/

namespace World

variable [AsBytes α] [AsText α]

theorem use_leads {w : World σ α} {k : Nat} {d : Deque σ α} {op : Op σ α} {u : View σ α}
    {out : Except Panic (Answer α)} (hk : w.list? k = some d)
    (hshows : (w.linkage d).Shows (w.linkage d).scene)
    (h : Leads op.act (w.view d) ((fun a => (a, none)) <$> out, u)) (hends : op.endsList = false) :
    (w.use k op).1.result = out ∧ (w.use k op).2.allocator = u.allocator ∧
      (w.use k op).2.row k = u.row ∧
      ∃ chain', (w.use k op).2.list? k = some ⟨chain', u.destructors.default⟩ := by
  obtain ⟨⟨heap', chain'⟩, hrun, hl⟩ := h _ hshows
  have huse := use_run hk hrun
  have hresult : (w.use k op).1.result = out := by
    rw [huse]
    cases out <;> rfl
  have hmade : madeBy ((fun a => (a, none)) <$> out : Except Panic (Answer α × Option Chain)) = none := by
    cases out <;> rfl
  rw [hmade, hends, if_neg Bool.false_ne_true] at huse
  have hlist : (w.use k op).2.list? k = some ⟨chain', u.destructors.default⟩ := by
    rw [huse]
    exact (getElem?_settle (lt_of_list? hk) k).trans (if_pos rfl)
  refine ⟨hresult, by rw [huse], ?_, chain', hlist⟩
  rw [row_of_list? hlist, huse]
  exact hl.row_eq

/-- A step on a list is that of its sequence, and the list goes on with a destructor that never panics. -/
theorem step_refines {w : World σ α} {strayed : List Handle} {k : Nat} {d : Deque σ α}
    (hw : w.Sound strayed) (hk : w.list? k = some d) (hd : ∀ e, d.default = some e → e.Calm)
    {s : Step σ α} (hs : s.Single k) :
    Sequence.step s ⟨w.contents k, w.allocator⟩ =
      ((w.step s).1.result, ⟨(w.step s).2.contents k, (w.step s).2.allocator⟩) ∧
    ∃ d', (w.step s).2.list? k = some d' ∧ ∀ e, d'.default = some e → e.Calm := by
  cases s with
  | create default => exact hs.elim
  | arm refuses => exact ⟨rfl, d, hk, hd⟩
  | use j op =>
    obtain ⟨rfl, hop⟩ := hs
    have hsound : (w.view d).Sound := Linkage.Shows.sound (v := w.view d) (hw.shows hk)
    obtain ⟨out, u, h⟩ := op.refines hop hsound hd
    have hends : op.endsList = false := by
      cases op with
      | destroy override => exact hop.elim
      | _ => rfl
    obtain ⟨hresult, halloc, hrow, chain', hlist⟩ := use_leads hk (hw.shows hk) h.leads hends
    refine ⟨?_, _, hlist, h.calm⟩
    have hcontents : w.contents j = (w.view d).row.entries := by
      rw [hw.contents_eq, row_of_list? hk]
      rfl
    have hcontents' : (w.use j op).2.contents j = u.row.entries := by
      rw [(use_sound hw j op).contents_eq, hrow]
    rw [step, Sequence.step, hcontents, hresult, halloc, hcontents']
    exact h.agrees

/-- Steps on single entries of one list, from any world that a run leads to: each answer, and the
contents after each step, are those of the sequence. -/
theorem watch_eq (before steps : List (Step σ α)) {k : Nat} {d : Deque σ α}
    (hk : (run before start).2.list? k = some d) (hd : ∀ e, d.default = some e → e.Calm)
    (hsteps : ∀ s ∈ steps, s.Single k) :
    watch k steps (run before start).2 =
      Sequence.watch steps ⟨(run before start).2.contents k, (run before start).2.allocator⟩ := by
  have hw := run_sound before (start_sound (σ := σ) (α := α))
  generalize (run before start).2 = w at hk hw ⊢
  generalize [] ++ strayed before start = strays at hw
  induction steps generalizing w d strays with
  | nil => rfl
  | cons s rest ih =>
    rw [List.forall_mem_cons] at hsteps
    obtain ⟨hstep, d', hk', hd'⟩ := step_refines hw hk hd hsteps.1
    rw [watch, Sequence.watch, hstep]
    exact congrArg _ (ih hd' hsteps.2 _ hk' _ (step_sound hw s))

/-- A list that drops its payloads, used at both ends and in the middle, with one node refused. -/
theorem watch_refused_insertion :
    watch 0 [.use 0 (.push .after (.int 3) (.exact 8)), .use 0 (.insertIdx 0 (.int 5) 8),
        .arm fun _ => true, .use 0 (.insertIdx 1 (.int 7) 8), .use 0 (.eraseIdx 1 none),
        .use 0 (.pop .before)]
      (run [.create (some .drop)] (start : World Unit Payload)).2 =
    [(.ok .done, [⟨.int 3, 8⟩]), (.ok .done, [⟨.int 5, 8⟩, ⟨.int 3, 8⟩]),
      (.ok .done, [⟨.int 5, 8⟩, ⟨.int 3, 8⟩]),
      (.ok (.insertError ⟨.int 7, .alloc⟩), [⟨.int 5, 8⟩, ⟨.int 3, 8⟩]),
      (.ok .done, [⟨.int 5, 8⟩]), (.ok (.entry (some ⟨.int 5, 8⟩)), [])] := by
  refine (watch_eq [.create (some .drop)] _ (k := 0) (d := ⟨.empty, some .drop⟩) rfl ?_ ?_).trans rfl
  · rintro e he
    cases he
    trivial
  · simp [Step.Single, Op.Single]

end World

end LinkedDeque
