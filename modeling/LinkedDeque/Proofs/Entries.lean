import LinkedDeque.Deque.Cursor
import LinkedDeque.Proofs.View

/-!
# LinkedDeque.Proofs.Entries

The operations on single entries, read off a row:

* `View.append`, `View.push`, `View.insertIdx` — a new entry comes into the row, unless it is refused.
* `View.Placed`                               — what both insertions make of an entry that was placed or not.
* `View.pop`, `View.takeIdx`, `View.eraseIdx`  — an entry leaves the row.
* `View.peek`, `View.get`, `View.cursorNext`   — an entry is read, and perhaps overwritten.

Each reading is followed by the theorem that the operation leads to it.
-/

namespace LinkedDeque

variable {σ τ α β : Type}

/-! ## Entries that come -/

namespace View

def tipIdx (side : Side) (v : View σ α) : Nat :=
  match side with
  | .before => 0
  | .after => v.row.length

/-- A node made for an entry and placed at a position. A full chain does not take it up: the node
stays where it was made. -/
def place (i : Nat) (e : Entry α) (v : View σ α) : Reading σ α Bool :=
  match v.allocate e with
  | (none, v') => (.ok false, v')
  | (some h, v') =>
    if v.row.length + 1 < capacity then
      (.ok true, { v' with row := v.row.insert i ⟨h, e⟩, rest := v.rest })
    else (.error (.fault .capacity), v')

def append (side : Side) (e : Entry α) (v : View σ α) : Reading σ α Bool :=
  match v.place (v.tipIdx side) e with
  | (.ok true, v) => (.ok true, v.log (.push side e.byteLen v.row.length))
  | r => r

def refuse (x : α) (failure : InsertFailure) (v : View σ α) :
    Reading σ α (Except (InsertError α) Unit) :=
  (.ok (.error ⟨x, failure⟩), v.emit (.left .returned x))

def push (side : Side) (x : α) (byteLen : UInt64) (v : View σ α) :
    Reading σ α (Except (InsertError α) Unit) :=
  match (v.emit (.entered x)).append side ⟨x, byteLen⟩ with
  | (.ok true, v) => (.ok (.ok ()), v)
  | (.ok false, v) => v.refuse x .alloc
  | (.error p, v) => (.error p, v)

/-- A payload inserted at a position, or handed back. -/
def insertIdx (i : Nat) (x : α) (byteLen : UInt64) (v : View σ α) :
    Reading σ α (Except (InsertError α) Unit) :=
  let v := v.emit (.entered x)
  if v.row.length < i then v.refuse x (.index ⟨i, v.row.length⟩)
  else
    match v.place i ⟨x, byteLen⟩ with
    | (.ok true, v') => (.ok (.ok ()), v'.log (.insert i (v.row.length + 1)))
    | (.ok false, v') => v'.refuse x .alloc
    | (.error p, v') => (.error p, v')

/-- An insertion ends as placing its entry did: a payload whose node was refused is handed back. -/
def Placed (x : α) (placed : Reading σ α Bool) (r : Reading σ α (Except (InsertError α) Unit)) : Prop :=
  match placed with
  | (.ok true, v) => ∃ line, r = (.ok (.ok ()), v.log line)
  | (.ok false, v) => r = v.refuse x .alloc
  | (.error p, v) => r = (.error p, v)

variable {v : View σ α} {x : α} {byteLen : UInt64} {i : Nat}

theorem push_placed (side : Side) :
    Placed x ((v.emit (.entered x)).place (v.tipIdx side) ⟨x, byteLen⟩) (v.push side x byteLen) := by
  have htip : (v.emit (.entered x)).tipIdx side = v.tipIdx side := rfl
  rw [push, append, htip]
  cases hr : (v.emit (.entered x)).place (v.tipIdx side) ⟨x, byteLen⟩ with
  | mk out w =>
    rcases out with p | _ | _
    · rfl
    · rfl
    · exact ⟨_, rfl⟩

theorem insertIdx_placed (hi : i ≤ v.row.length) :
    Placed x ((v.emit (.entered x)).place i ⟨x, byteLen⟩) (v.insertIdx i x byteLen) := by
  have hnot : ¬ (v.emit (.entered x)).row.length < i := Nat.not_lt.2 hi
  rw [insertIdx]
  simp only [hnot, if_false]
  cases hr : (v.emit (.entered x)).place i ⟨x, byteLen⟩ with
  | mk out w =>
    rcases out with p | _ | _
    · rfl
    · rfl
    · exact ⟨_, rfl⟩

theorem insertIdx_outside (hi : v.row.length < i) :
    v.insertIdx i x byteLen = (v.emit (.entered x)).refuse x (.index ⟨i, v.row.length⟩) := by
  rw [insertIdx]
  exact if_pos hi

end View

namespace Leads

variable {v : View σ α} {a b : List (Slot α)} {s : Slot α}

theorem attach {anchor : Option Handle} {side : Side} (e : Entry α) (allocator : Allocator)
    (hr : v.row.slots = a ++ b) (hgap : Gap anchor side a b) (hfree : v.rest v.fresh = none)
    (hlen : v.row.length < capacity) :
    Leads (Act.linking (.attach v.fresh anchor side))
      { v with
        allocator
        rest := v.rest.set v.fresh (some (.detached e))
        fresh := v.fresh + 1 }
      (if v.row.length + 1 < capacity then
        (.ok (), { v with
          allocator
          row := v.row.insert a.length ⟨v.fresh, e⟩
          fresh := v.fresh + 1 })
      else (.error (.fault .capacity), { v with
        allocator
        rest := v.rest.set v.fresh (some (.detached e))
        fresh := v.fresh + 1 })) := by
  split
  · rename_i hcap
    have hback : (v.rest.set v.fresh (some (.detached e))).set v.fresh none = v.rest := by
      rw [Nodes.set_set, Nodes.set_eq_self hfree]
    refine Leads.linking (s := ⟨v.row.insert a.length ⟨v.fresh, e⟩, v.rest, v.fresh + 1⟩)
      fun l hl => ?_
    obtain ⟨l', hrun, hl'⟩ := LinkM.attach_shows (x := ⟨v.fresh, e⟩) hl hr hgap Nodes.set_same hcap
    simp only [hback] at hl'
    exact ⟨l', hrun, hl'⟩
  · rename_i hcap
    refine Leads.linking_error ?_
    intro l hl
    exact LinkM.attach_full (x := ⟨v.fresh, e⟩) hl Nodes.set_same
      (Nat.le_antisymm hlen (Nat.le_of_not_lt hcap))

theorem gap_tip (side : Side) (v : View σ α) :
    ∃ a b, v.row.slots = a ++ b ∧ Gap none side a b ∧ v.tipIdx side = a.length := by
  cases side with
  | before => exact ⟨[], v.row.slots, rfl, gap_front _, rfl⟩
  | after => exact ⟨v.row.slots, [], (List.append_nil _).symm, gap_back _, rfl⟩

theorem attachAt {anchor : Option Handle} {side : Side} (e : Entry α)
    {refused : Act σ α β} {done : Act σ α β} {r₁ r₂ : View σ α → Reading σ α β}
    (hr : v.row.slots = a ++ b) (hgap : Gap anchor side a b)
    (hrefused : ∀ w, Leads refused w (r₁ w)) (hdone : ∀ w, Leads done w (r₂ w)) :
    Leads (do
        match ← Act.allocate e with
        | none => refused
        | some h => do
          Act.linking (.attach h anchor side)
          done) v
      (match v.place a.length e with
        | (.ok true, w) => r₂ w
        | (.ok false, w) => r₁ w
        | (.error p, w) => (.error p, w)) := by
  refine Leads.of_shows ?_
  intro l hl
  rw [View.place]
  refine (Leads.allocate e v).bind ?_
  cases href : v.allocator.attempt with
  | mk refused allocator =>
    simp only [View.allocate, href]
    cases refused with
    | true => exact hrefused _
    | false =>
      have hattach := Leads.attach e allocator hr hgap hl.rest_fresh hl.length_lt
      by_cases hcap : v.row.length + 1 < capacity
      · simp only [hcap, if_true, Bool.false_eq_true, if_false] at hattach ⊢
        exact hattach.bind (hdone _)
      · simp only [hcap, if_false, Bool.false_eq_true] at hattach ⊢
        exact hattach.bind_error

theorem append (side : Side) (e : Entry α) (v : View σ α) :
    Leads (Deque.append side e) v (v.append side e) := by
  obtain ⟨a, b, hr, hgap, hi⟩ := gap_tip side v
  have hdone : ∀ w : View σ α, Leads (do
      Act.log (.push side e.byteLen (← Act.length))
      return true) w (.ok true, w.log (.push side e.byteLen w.row.length)) :=
    fun w => (Leads.length w).bind ((Leads.log _ _).bind (Leads.pure _ _))
  have h := Leads.attachAt e hr hgap (Leads.pure false) hdone
  rw [← hi] at h
  simp only [Deque.append, Deque.link, bind_assoc] at h ⊢
  rw [View.append]
  cases hp : v.place (v.tipIdx side) e with
  | mk out w =>
    rw [hp] at h
    cases out with
    | error p => exact h
    | ok placed => cases placed <;> exact h

theorem refuse (x : α) (failure : InsertFailure) (v : View σ α) :
    Leads (Deque.refuse x failure) v (v.refuse x failure) :=
  (Leads.emit _ _).bind (Leads.pure _ _)

theorem push (side : Side) (x : α) (byteLen : UInt64) (v : View σ α) :
    Leads (Deque.push side x byteLen) v (v.push side x byteLen) := by
  rw [Deque.push, View.push]
  refine (Leads.emit _ _).bind ?_
  have happend := Leads.append side ⟨x, byteLen⟩ (v.emit (.entered x))
  cases hr : (v.emit (.entered x)).append side ⟨x, byteLen⟩ with
  | mk out v' =>
    rw [hr] at happend
    cases out with
    | error p => exact happend.bind_error
    | ok placed =>
      refine happend.bind ?_
      cases placed with
      | true => exact Leads.pure _ _
      | false => exact Leads.refuse _ _ _

theorem insertIdx (i : Nat) (x : α) (byteLen : UInt64) (v : View σ α) :
    Leads (Deque.insertIdx i x byteLen) v (v.insertIdx i x byteLen) := by
  rw [Deque.insertIdx, View.insertIdx]
  refine (Leads.emit _ _).bind ((Leads.length _).bind ?_)
  generalize v.emit (.entered x) = w
  have hdone : ∀ w' : View σ α, Leads (β := Except (InsertError α) Unit) (do
      Act.log (.insert i (w.row.length + 1))
      return .ok ()) w' (.ok (.ok ()), w'.log (.insert i (w.row.length + 1))) :=
    fun w' => (Leads.log _ _).bind (Leads.pure _ _)
  by_cases hlt : w.row.length < i
  · simp only [hlt, if_true]
    exact Leads.refuse _ _ _
  simp only [hlt, if_false]
  by_cases heq : i = w.row.length
  · have h := Leads.attachAt (a := w.row.slots) (b := []) ⟨x, byteLen⟩ (List.append_nil _).symm
      (gap_back _) (Leads.refuse x .alloc) hdone
    simp only [heq, if_true, pure_bind] at h ⊢
    exact h
  · have hi : i < w.row.slots.length := by
      rw [Row.length] at hlt heq
      omega
    have hr : w.row.slots = w.row.slots.take i ++ w.row.slots[i] :: w.row.slots.drop (i + 1) := by
      rw [← List.drop_eq_getElem_cons hi, List.take_append_drop]
    have hfind : Leads (Act.read (·.find i)) w (.ok (some w.row.slots[i].handle), w) := by
      refine Leads.read ?_
      intro l hl
      rw [hl.find_eq, List.getElem?_eq_getElem hi]
      rfl
    have h := Leads.attachAt ⟨x, byteLen⟩ hr (gap_before _ _ _) (Leads.refuse x .alloc) hdone
    rw [List.length_take, Nat.min_eq_left (Nat.le_of_lt hi)] at h
    simp only [heq, if_false]
    exact hfind.bind h

end Leads

/-! ## Entries that go, and entries that are read -/

namespace View

def pop (side : Side) (v : View σ α) : Reading σ α (Option (Entry α)) :=
  match v.row.tip? side with
  | none => (.ok none, v)
  | some s =>
    let v := { v with row := v.row.erase s.handle }.emit (.left .returned s.entry.value)
    (.ok (some s.entry), v.log (.pop side v.row.length))

def takeIdx (i : Nat) (v : View σ α) : Reading σ α (Except IndexError (Entry α)) :=
  match v.row.slots[i]? with
  | none => (.ok (.error ⟨i, v.row.length⟩), v)
  | some s =>
    let v := v.log (.take i v.row.length)
    (.ok (.ok s.entry), { v with row := v.row.erase s.handle }.emit (.left .returned s.entry.value))

def erase (s : Slot α) (v : View σ α) : Reading σ α Unit :=
  { v with row := v.row.erase s.handle }.dispose s.entry.value

/-- The entry at a position removed, and its payload destroyed. -/
def eraseIdx (i : Nat) (override : Option (Destructor σ α)) (v : View σ α) :
    Reading σ α (Except IndexError Unit) :=
  match v.row.slots[i]? with
  | none => (.ok (.error ⟨i, v.row.length⟩), v)
  | some s =>
    match v.withOverride override (·.erase s) with
    | (.ok (), v') => (.ok (.ok ()), v'.log (.erase i (v.row.length - 1)))
    | (.error p, v') => (.error p, v')

/-- The payload of an entry overwritten, if another one is given. -/
def access (write : Option α) (s : Slot α) (v : View σ α) : View σ α :=
  match write with
  | none => v
  | some x =>
    { v.emit (.entered x) with row := v.row.write s.handle x }.emit (.left .replaced s.entry.value)

/-- The entry at one end read, and perhaps overwritten. -/
def peek (side : Side) (write : Option α) (v : View σ α) : Reading σ α (Option (Entry α)) :=
  match v.row.tip? side with
  | none => (.ok none, v)
  | some s => (.ok (some s.entry), v.access write s)

/-- The entry at a position read, and perhaps overwritten. -/
def get (i : Nat) (write : Option α) (v : View σ α) : Reading σ α (Except IndexError (Entry α)) :=
  match v.row.slots[i]? with
  | none => (.ok (.error ⟨i, v.row.length⟩), v)
  | some s => (.ok (.ok s.entry), v.access write s)

def getRelative (i : Int64) (v : View σ α) : Reading σ α (Option (Entry α)) :=
  (.ok (((Linkage.absoluteIndex? v.row.length i).bind (v.row.slots[·]?)).map Slot.entry), v)

def cursorReset (v : View σ α) : View σ α :=
  { v with row := v.row.rewind }.log (.cursorReset v.row.length)

/-- The next entry that is due, read and perhaps overwritten. -/
def cursorNext (write : Option α) (v : View σ α) : Reading σ α (Option (Entry α)) :=
  match v.row.due with
  | [] => (.ok none, v)
  | s :: _ => (.ok (some s.entry), { v with row := v.row.advance }.access write s)

theorem cursorNext_fst (write : Option α) (v : View σ α) :
    (v.cursorNext write).1 = .ok (v.row.due.head?.map Slot.entry) := by
  rw [cursorNext]
  cases v.row.due <;> rfl

end View

namespace Leads

variable {v : View σ α} {a b : List (Slot α)} {s : Slot α}

theorem take (hs : s ∈ v.row.slots) :
    Leads (Act.linking (.take s.handle)) v
      (.ok s.entry, { v with row := v.row.erase s.handle }) := by
  obtain ⟨a, b, hr⟩ := List.append_of_mem hs
  exact Leads.linking (s := { v.toScene with row := v.row.erase s.handle })
    fun l hl => LinkM.take_shows hl hr

theorem mem_of_tip? {side : Side} {r : Row α} (h : r.tip? side = some s) : s ∈ r.slots := by
  cases side with
  | before => exact List.mem_of_head? h
  | after => exact List.mem_of_getLast? h

theorem pop (side : Side) (v : View σ α) : Leads (Deque.pop side) v (v.pop side) := by
  rw [Deque.pop, View.pop]
  refine (Leads.tip? side v).bind ?_
  cases htip : v.row.tip? side with
  | none => exact Leads.pure _ _
  | some s =>
    refine (Leads.take (mem_of_tip? htip)).bind ((Leads.emit _ _).bind ?_)
    exact (Leads.length _).bind ((Leads.log _ _).bind (Leads.pure _ _))

theorem find (i : Nat) (v : View σ α) :
    Leads (Act.read (·.find i)) v (.ok (v.row.slots[i]?.map Slot.handle), v) :=
  Leads.read fun _ hl => hl.find_eq i

theorem takeIdx (i : Nat) (v : View σ α) : Leads (Deque.takeIdx i) v (v.takeIdx i) := by
  rw [Deque.takeIdx, View.takeIdx]
  refine (Leads.length v).bind ((Leads.find i v).bind ?_)
  cases hs : v.row.slots[i]? with
  | none => exact Leads.pure _ _
  | some s =>
    have hmem : s ∈ v.row.slots := List.mem_of_getElem? hs
    refine (Leads.log _ _).bind ((Leads.take (v := v.log (.take i v.row.length)) hmem).bind ?_)
    exact (Leads.emit _ _).bind (Leads.pure _ _)

theorem erase (hs : s ∈ v.row.slots) : Leads (Deque.erase s.handle) v (v.erase s) :=
  (Leads.take hs).bind (Leads.dispose _ _)

theorem eraseIdx (i : Nat) (override : Option (Destructor σ α)) (v : View σ α) :
    Leads (Deque.eraseIdx i override) v (v.eraseIdx i override) := by
  rw [Deque.eraseIdx, View.eraseIdx]
  refine (Leads.length v).bind ((Leads.find i v).bind ?_)
  cases hs : v.row.slots[i]? with
  | none => exact Leads.pure _ _
  | some s =>
    have hmem : s ∈ v.row.slots := List.mem_of_getElem? hs
    have herase : Leads (Act.withOverride override (Deque.erase s.handle)) v
        (v.withOverride override (·.erase s)) :=
      Leads.withOverride override (f := (·.erase s)) (Leads.erase hmem)
    simp only [Option.map_some]
    cases hr : v.withOverride override (·.erase s) with
    | mk out v' =>
      rw [hr] at herase
      cases out with
      | error p => exact herase.bind_error
      | ok u => exact herase.bind ((Leads.log _ _).bind (Leads.pure _ _))

theorem entry (hs : s ∈ v.row.slots) : Leads (Act.read (·.entry s.handle)) v (.ok s.entry, v) :=
  Leads.read fun _ hl => hl.entry_eq hs

theorem access (write : Option α) (hs : s ∈ v.row.slots) :
    Leads (Deque.access write s.handle) v (.ok s.entry, v.access write s) := by
  refine (Leads.entry hs).bind ?_
  cases write with
  | none => exact Leads.pure _ _
  | some x =>
    obtain ⟨a, b, hr⟩ := List.append_of_mem hs
    have hwrite : Leads (Act.linking (.setValue s.handle x)) (v.emit (.entered x))
        (.ok (), { v.emit (.entered x) with row := v.row.write s.handle x }) :=
      Leads.linking (s := { v.toScene with row := v.row.write s.handle x })
        fun l hl => LinkM.setValue_shows hl hr x
    exact (Leads.emit _ _).bind (hwrite.bind ((Leads.emit _ _).bind (Leads.pure _ _)))

theorem peek (side : Side) (write : Option α) (v : View σ α) :
    Leads (Deque.peek side write) v (v.peek side write) := by
  rw [Deque.peek, View.peek]
  refine (Leads.tip? side v).bind ?_
  cases htip : v.row.tip? side with
  | none => exact Leads.pure _ _
  | some s => exact (Leads.access write (mem_of_tip? htip)).map _

theorem get (i : Nat) (write : Option α) (v : View σ α) :
    Leads (Deque.get i write) v (v.get i write) := by
  rw [Deque.get, View.get]
  refine (Leads.find i v).bind ?_
  cases hs : v.row.slots[i]? with
  | none => exact (Leads.length v).bind (Leads.pure _ _)
  | some s => exact (Leads.access write (List.mem_of_getElem? hs)).map _

theorem getRelative (i : Int64) (v : View σ α) :
    Leads (Deque.getRelative i) v (v.getRelative i) := by
  rw [Deque.getRelative, View.getRelative]
  have hfind : Leads (Act.read (·.findRelative i)) v
      (.ok (((Linkage.absoluteIndex? v.row.length i).bind (v.row.slots[·]?)).map Slot.handle), v) := by
    refine Leads.read ?_
    intro l hl
    rw [Linkage.findRelative, hl.length_eq]
    cases Linkage.absoluteIndex? v.row.length i with
    | none => rfl
    | some j => exact hl.find_eq j
  refine hfind.bind ?_
  cases hs : (Linkage.absoluteIndex? v.row.length i).bind (v.row.slots[·]?) with
  | none => exact Leads.pure _ _
  | some s =>
    obtain ⟨j, -, hj⟩ := Option.bind_eq_some_iff.1 hs
    exact (Leads.access none (List.mem_of_getElem? hj)).map _

theorem setCursor (row : Row α) (hr : row.slots = v.row.slots) :
    Leads (Act.linking (.setCursor row.cursor)) v (.ok (), { v with row }) :=
  Leads.linking (s := { v.toScene with row }) fun _ hl => LinkM.setCursor_shows hl hr

theorem cursorReset (v : View σ α) : Leads Deque.cursorReset v (.ok (), v.cursorReset) := by
  refine (Leads.front v).bind ?_
  exact (Leads.setCursor v.row.rewind (Row.slots_rewind _)).bind
    ((Leads.length _).bind (Leads.log _ _))

theorem cursorNext (write : Option α) (v : View σ α) :
    Leads (Deque.cursorNext write) v (v.cursorNext write) := by
  rw [Deque.cursorNext, View.cursorNext]
  have hcursor : Leads (Act.linking .cursor) v (.ok v.row.cursor, v) :=
    Leads.linking (s := v.toScene) fun l hl => ⟨l, by rw [LinkM.run_cursor, hl.cursor], hl⟩
  refine hcursor.bind ?_
  rw [Row.cursor]
  cases hd : v.row.due with
  | nil => exact Leads.pure _ _
  | cons s rest =>
    have hr : v.row.slots = v.row.passed ++ s :: rest := by rw [Row.slots, hd]
    have hnext : ahead rest none = v.row.advance.cursor := by
      rw [Row.cursor, Row.advance, hd]
      rfl
    have hlink : Leads (Act.linking (.getLink .after s.handle)) v (.ok v.row.advance.cursor, v) :=
      Leads.linking (s := v.toScene) fun l hl => ⟨l, by rw [LinkM.getLink_shows hl hr, hnext], hl⟩
    have hmem : s ∈ v.row.advance.slots := by
      rw [Row.slots_advance, hr]
      exact List.mem_append_right _ (List.mem_cons_self ..)
    have hmove := Leads.setCursor (v := v) v.row.advance (Row.slots_advance _)
    exact hlink.bind (hmove.bind ((Leads.access write (v := { v with row := v.row.advance }) hmem).map _))

theorem cursorFirst (write : Option α) (v : View σ α) :
    Leads (Deque.cursorFirst write) v (v.cursorReset.cursorNext write) :=
  (Leads.cursorReset v).bind (Leads.cursorNext write _)

end Leads

end LinkedDeque
