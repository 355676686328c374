import LinkedDeque.Proofs.Mapped
import LinkedDeque.World

/-!
# LinkedDeque.Proofs.Effects

What each operation on a list may do, and that it does no more:

* `Op.receives` — the payloads that an operation receives.
* `Op.permits`  — where it may send payloads.
* `Op.handed`   — the payloads that its answer hands to the caller.
* `Op.abandons` — the nodes that it leaves behind in no list.
* `Op.part`     — where it puts the cursor before anything else.
* `Op.Effect`   — its course keeps to all of these.

Every operation has its effect (`Op.ensures`), on every list.
-/

namespace LinkedDeque

variable {σ α β : Type}

def returnedIn (events : Array (Event α)) : List α :=
  (leftIn events).filterMap fun (fate, x) => if fate = .returned then some x else none

theorem returnedIn_push (events : Array (Event α)) (e : Event α) :
    returnedIn (events.push e) = returnedIn events ++
      e.left?.toList.filterMap fun (fate, x) => if fate = .returned then some x else none := by
  rw [returnedIn, leftIn_push, List.filterMap_append]
  rfl

theorem returnedIn_eq_nil {events : Array (Event α)}
    (h : ∀ fate x, (fate, x) ∈ leftIn events → fate ≠ .returned) : returnedIn events = [] := by
  rw [returnedIn, List.filterMap_eq_nil_iff]
  rintro ⟨fate, x⟩ hmem
  exact if_neg (h fate x hmem)

namespace Op

/-- The payloads that an operation on these entries receives, when it ends in this way: what is handed
over with the call, and what a transform makes. Nothing is overwritten where there is no entry, and a
transformation stops at the first node that is refused. -/
def receives (entries : List (Entry α)) :
    Op σ α → Except Panic (Answer α) → List α → Prop
  | push _ x _, _, came | insertIdx _ x _, _, came => came = [x]
  | peek _ write, .ok (.entry (some _)), came | get _ write, .ok (.entry (some _)), came
  | cursorNext write, .ok (.entry (some _)), came
  | cursorFirst write, .ok (.entry (some _)), came => came = write.toList
  | map transform, .ok .allocError, came => came <+: transform.results entries
  | map transform, _, came => came = transform.results entries
  | _, _, came => came = []

/-- Where an operation may send payloads when it ends in this way, with this destructor of the list. A
destructor given with the call comes before the one of the list. -/
def permits (default : Option (Destructor σ α)) :
    Op σ α → Except Panic (Answer α) → Fate → Prop
  | push .., _, fate | insertIdx .., _, fate | pop _, _, fate | takeIdx _, _, fate => fate = .returned
  | peek .., _, fate | get .., _, fate | cursorNext _, _, fate | cursorFirst _, _, fate =>
    fate = .replaced
  | eraseIdx _ override, _, fate | eraseWhere _ override, _, fate | destroy override, _, fate =>
    fate = Destructors.fate ⟨default, override⟩
  | map _, .error _, fate => fate = .forgotten
  | map _, .ok .allocError, fate => fate = .dropped ∨ fate = .destroyed .override true
  | _, _, _ => False

/-- The payloads that an answer hands to the caller for good. -/
def handed : Op σ α → Except Panic (Answer α) → List α
  | pop _, .ok (.entry (some e)) | takeIdx _, .ok (.entry (some e)) => [e.value]
  | push .., .ok (.insertError e) | insertIdx .., .ok (.insertError e) => [e.value]
  | _, _ => []

/-- The nodes that an operation leaves behind in no list: those behind a destructor that panicked while
a list ended, and a new node that a list with as many entries as it can record did not take up. -/
def abandons (handles : List Handle) (fresh : Handle) (events : Array (Event α)) :
    Op σ α → Except Panic (Answer α) → List Handle
  | destroy _, .error (.destructor _) => handles.drop (leftIn events).length
  | push .., .error (.fault .capacity) | insertIdx .., .error (.fault .capacity) =>
    if capacity ≤ handles.length + 1 then [fresh] else []
  | _, _ => []

/-- Where the cursor is put before anything else is done. -/
def part (r : Row α) : Op σ α → Row α
  | cursorReset => r.rewind
  | cursorFirst _ => r.rewind.advance
  | cursorNext _ => r.advance
  | _ => r

@[simp] theorem slots_part (op : Op σ α) (r : Row α) : (op.part r).slots = r.slots := by
  cases op with
  | cursorFirst write => exact Row.slots_advance _
  | cursorNext write => exact Row.slots_advance _
  | _ => rfl

/-- What an operation does to a view, when it ends in this way. -/
inductive Effect (op : Op σ α) (v : View σ α) :
    Except Panic (Answer α × Option Chain) → View σ α → Prop
  /-- It makes no list: the strays are what it abandons. -/
  | single {out : Except Panic (Answer α)} {w : View σ α} {came : List α} {strays : List (Slot α)}
    (course : Course (op.permits v.destructors.default out) { v with row := op.part v.row } w came []
      strays)
    (receives : op.receives v.row.entries out came)
    (abandons : handlesOf strays = op.abandons v.row.handles v.fresh w.trace out)
    (ended : op.endsList = true → w.row = .empty)
    (handed : returnedIn w.trace = op.handed out) :
    Effect op v ((fun a => (a, none)) <$> out) w
  /-- It makes a list, and nothing goes: the strays are the list. -/
  | makes {a : Answer α} {chain : Chain} {w : View σ α} {came : List α} {strays : List (Slot α)}
    (course : Course (fun _ => False) { v with row := op.part v.row } w came [] strays)
    (receives : ∀ k, op.receives v.row.entries (.ok (.list k)) came)
    (made : Made w chain strays) (goesOn : op.endsList = false) :
    Effect op v (.ok (a, some chain)) w

end Op

/-! ## The courses of readings -/

namespace Course

variable {permits : Fate → Prop} {v w : View σ α} {came hand : List α} {s : Slot α}

theorem placed {e : Entry α} {i : Nat} (hi : i ≤ w.row.length)
    (c : Course permits v w came (e.value :: hand) []) :
    returnedIn (w.place i e).2.trace = returnedIn w.trace ∧
    match w.place i e with
    | (.ok true, u) => Course permits v u came hand []
    | (.ok false, u) => Course permits v u came (e.value :: hand) []
    | (.error p, u) => p = .fault .capacity ∧ capacity ≤ w.row.length + 1 ∧
      Course permits v u came hand [⟨w.fresh, e⟩] := by
  rw [View.place, View.allocate]
  cases w.allocator.attempt with
  | mk refused allocator =>
    have c' := c.settle allocator w.destructors
    cases refused with
    | true =>
      refine ⟨?_, c'.logged _⟩
      exact (returnedIn_push _ _).trans (List.append_nil _)
    | false =>
      by_cases hcap : w.row.length + 1 < capacity
      · simp only [hcap, if_true, Bool.false_eq_true, if_false]
        exact ⟨trivial, Course.place (w := { w with allocator }) hi c'⟩
      · simp only [hcap, Bool.false_eq_true, if_false]
        refine ⟨trivial, trivial, Nat.le_of_not_lt hcap, Course.make (w := { w with allocator }) ?_ ?_ c'⟩
        · intro h hh
          exact Nodes.set_other fun he => hh (by rw [he]; exact List.mem_singleton_self _)
        · intro t ht
          rw [List.mem_singleton.1 ht]
          exact ⟨_, Nodes.set_same, rfl⟩

theorem access {write : Option α} (hs : s ∈ w.row.slots) (hf : permits .replaced)
    (c : Course permits v w came hand []) :
    Course permits v (w.access write s) (came ++ write.toList) hand [] := by
  cases write with
  | none =>
    rw [Option.toList_none, List.append_nil]
    exact c
  | some x => exact Course.give hf (Course.write (w := w.emit (.entered x)) hs (c.receive x))

end Course

/-! ## The effect of each operation -/

namespace Op

variable {v w : View σ α} {came : List α} {op : Op σ α}

theorem answers {act : Act σ α β} {r : Reading σ α β} {q : Except Panic (Answer α × Option Chain) →
    View σ α → Prop} (f : β → Answer α) (h : Leads act v r)
    (hq : q ((fun b => (f b, none)) <$> r.1) r.2) :
    Ensures (do return (f (← act), none)) v q := by
  obtain ⟨out, w⟩ := r
  cases out with
  | ok b => exact Leads.ensures (h.bind (Leads.pure _ _)) hq
  | error p => exact Leads.ensures h.bind_error hq

theorem Effect.of_course (op : Op σ α) (out : Except Panic (Answer α))
    (c : Course (op.permits v.destructors.default out) { v with row := op.part v.row } w came [] [])
    (hreceives : op.receives v.row.entries out came)
    (habandons : op.abandons v.row.handles v.fresh w.trace out = [])
    (hends : op.endsList = false) (hhanded : returnedIn w.trace = op.handed out) :
    op.Effect v ((fun a => (a, none)) <$> out) w :=
  .single c hreceives habandons.symm (fun h => by rw [hends] at h; cases h) hhanded

theorem Effect.handed_nil {permits : Fate → Prop} {strays : List (Slot α)} {hand : List α}
    (ht : v.trace = #[]) (c : Course permits v w came hand strays) (hf : ¬ permits .returned) :
    returnedIn w.trace = [] := by
  refine returnedIn_eq_nil ?_
  intro fate x hmem he
  rcases c.fates hmem with h | h
  · rw [ht] at h
    exact absurd h List.not_mem_nil
  · exact hf (he ▸ h)

theorem Effect.of_stray (op : Op σ α) {e : Entry α} (hfull : capacity ≤ v.row.length + 1)
    (c : Course (op.permits v.destructors.default (.error (.fault .capacity)))
      { v with row := op.part v.row } w came [] [⟨v.fresh, e⟩])
    (hreceives : op.receives v.row.entries (.error (.fault .capacity)) came)
    (habandons : op.abandons v.row.handles v.fresh w.trace (.error (.fault .capacity)) =
      if capacity ≤ v.row.handles.length + 1 then [v.fresh] else [])
    (hends : op.endsList = false)
    (hhanded : returnedIn w.trace = op.handed (.error (.fault .capacity))) :
    op.Effect v (.error (.fault .capacity)) w := by
  have hfull' : capacity ≤ v.row.handles.length + 1 := by
    rw [Row.handles, handlesOf, List.length_map]
    exact hfull
  rw [if_pos hfull'] at habandons
  have hout : (.error (.fault .capacity) : Except Panic (Answer α × Option Chain)) =
      (fun a => (a, none)) <$> (.error (.fault .capacity) : Except Panic (Answer α)) := rfl
  rw [hout]
  exact .single c hreceives habandons.symm (fun h => by rw [hends] at h; cases h) hhanded

/-- What an insertion comes to: the payload is in the row, or with the caller, or in a node that a full
list did not take up. -/
def Inserts (v : View σ α) (x : α) (n : UInt64) :
    Reading σ α (Except (InsertError α) Unit) → Prop
  | (.ok (.ok ()), w) =>
    Course (fun fate => fate = .returned) v w [x] [] [] ∧ returnedIn w.trace = []
  | (.ok (.error e), w) =>
    e.value = x ∧ Course (fun fate => fate = .returned) v w [x] [] [] ∧ returnedIn w.trace = [x]
  | (.error p, w) => p = .fault .capacity ∧ capacity ≤ v.row.length + 1 ∧
    Course (fun fate => fate = .returned) v w [x] [] [⟨v.fresh, ⟨x, n⟩⟩] ∧ returnedIn w.trace = []

theorem Inserts.refuse {x : α} {n : UInt64} (failure : InsertFailure)
    (c : Course (fun fate => fate = .returned) v w [x] [x] []) (hw : returnedIn w.trace = []) :
    Inserts v x n (w.refuse x failure) := by
  have hback := returnedIn_push w.trace (.left .returned x)
  rw [hw] at hback
  exact ⟨rfl, c.give rfl, hback⟩

theorem Inserts.logged {x : α} {n : UInt64} (line : Log)
    (c : Course (fun fate => fate = .returned) v w [x] [] []) (hw : returnedIn w.trace = []) :
    Inserts v x n (.ok (.ok ()), w.log line) := by
  have hlog := (returnedIn_push w.trace (.logged line)).trans (List.append_nil _)
  exact ⟨c.logged line, hlog.trans hw⟩

/-- A payload that came, and that no caller got back so far. -/
theorem received_course (x : α) (ht : v.trace = #[]) :
    Course (fun fate => fate = .returned) v (v.emit (.entered x)) [x] [x] [] ∧
      returnedIn (v.emit (.entered x)).trace = [] := by
  refine ⟨Course.start.receive x, ?_⟩
  rw [show (v.emit (.entered x)).trace = v.trace.push (.entered x) from rfl, ht]
  rfl

theorem push_inserts (side : Side) (x : α) (n : UInt64) (ht : v.trace = #[]) :
    Inserts v x n (v.push side x n) := by
  let u := v.emit (.entered x)
  have hi : u.tipIdx side ≤ u.row.length := by
    cases side with
    | before => exact Nat.zero_le _
    | after => exact Nat.le_refl _
  obtain ⟨c, hnone⟩ := received_course x ht
  obtain ⟨hreturned, hplaced⟩ := Course.placed (e := ⟨x, n⟩) hi c
  rw [View.push, View.append]
  cases hr : u.place (u.tipIdx side) ⟨x, n⟩ with
  | mk out w =>
    rw [hr] at hreturned hplaced
    have hw : returnedIn w.trace = [] := hreturned.trans hnone
    cases out with
    | error p => exact ⟨hplaced.1, hplaced.2.1, hplaced.2.2, hw⟩
    | ok placed =>
      cases placed with
      | true => exact .logged _ hplaced hw
      | false => exact .refuse .alloc hplaced hw

theorem insertIdx_inserts (i : Nat) (x : α) (n : UInt64) (ht : v.trace = #[]) :
    Inserts v x n (v.insertIdx i x n) := by
  let u := v.emit (.entered x)
  obtain ⟨c, hnone⟩ := received_course x ht
  rw [View.insertIdx]
  by_cases hlt : u.row.length < i
  · simp only [u] at hlt
    simp only [hlt, if_true]
    exact .refuse _ c hnone
  · simp only [u] at hlt
    simp only [hlt, if_false]
    obtain ⟨hreturned, hplaced⟩ := Course.placed (e := ⟨x, n⟩) (Nat.le_of_not_lt hlt) c
    cases hr : u.place i ⟨x, n⟩ with
    | mk out w =>
      rw [hr] at hreturned hplaced
      have hw : returnedIn w.trace = [] := hreturned.trans hnone
      cases out with
      | error p => exact ⟨hplaced.1, hplaced.2.1, hplaced.2.2, hw⟩
      | ok placed =>
        cases placed with
        | true => exact .logged _ hplaced hw
        | false => exact .refuse .alloc hplaced hw

theorem Effect.of_inserts {x : α} {n : UInt64} {r : Reading σ α (Except (InsertError α) Unit)}
    (hop : (∃ side byteLen, op = push side x byteLen) ∨ ∃ i byteLen, op = insertIdx i x byteLen)
    (h : Inserts v x n r) : op.Effect v ((fun b => (inserted b, none)) <$> r.1) r.2 := by
  obtain ⟨out, w⟩ := r
  rcases out with p | (e | _)
  · obtain ⟨rfl, hfull, c, hw⟩ := h
    rcases hop with ⟨side, byteLen, rfl⟩ | ⟨i, byteLen, rfl⟩ <;>
      exact Effect.of_stray _ hfull c rfl rfl rfl hw
  · obtain ⟨rfl, c, hw⟩ := h
    rcases hop with ⟨side, byteLen, rfl⟩ | ⟨i, byteLen, rfl⟩ <;>
      exact Effect.of_course _ (.ok (.insertError e)) c rfl rfl rfl hw
  · obtain ⟨c, hw⟩ := h
    rcases hop with ⟨side, byteLen, rfl⟩ | ⟨i, byteLen, rfl⟩ <;>
      exact Effect.of_course _ (.ok .done) c rfl rfl rfl hw

theorem pop_effect (side : Side) (ht : v.trace = #[]) :
    (pop side : Op σ α).Effect v ((fun b => (.entry b, none)) <$> (v.pop side).1) (v.pop side).2 := by
  rw [View.pop]
  cases htip : v.row.tip? side with
  | none => exact Effect.of_course (pop side) (.ok (.entry none)) .start rfl rfl rfl (by rw [ht]; rfl)
  | some s =>
    have c : Course (fun fate => fate = .returned) v _ [] [] [] :=
      (Course.start.take (Leads.mem_of_tip? htip) rfl).give rfl
    refine Effect.of_course (pop side) (.ok (.entry (some s.entry))) (c.logged _) rfl rfl rfl ?_
    simp only [View.log, View.emit, returnedIn_push, ht]
    rfl

theorem takeIdx_effect (i : Nat) (ht : v.trace = #[]) :
    (takeIdx i : Op σ α).Effect v ((fun b => (indexed (.entry ∘ some) b, none)) <$> (v.takeIdx i).1)
      (v.takeIdx i).2 := by
  rw [View.takeIdx]
  cases hs : v.row.slots[i]? with
  | none =>
    exact Effect.of_course (takeIdx i) (.ok (.indexError _)) .start rfl rfl rfl (by rw [ht]; rfl)
  | some s =>
    have c : Course (fun fate => fate = .returned) v (v.log (.take i v.row.length)) [] [] [] :=
      Course.start.logged _
    have hmem : s ∈ v.row.slots := List.mem_of_getElem? hs
    have c' : Course (fun fate => fate = .returned) v _ [] [] [] :=
      (Course.take (v := v) (w := v.log (.take i v.row.length)) hmem rfl c).give rfl
    refine Effect.of_course (takeIdx i) (.ok (.entry (some s.entry))) c' rfl rfl rfl ?_
    simp only [View.log, View.emit, returnedIn_push, ht]
    rfl

theorem Effect.plain (op : Op σ α) (out : Except Panic (Answer α)) (ht : v.trace = #[])
    (c : Course (op.permits v.destructors.default out) { v with row := op.part v.row } w came [] [])
    (hf : ¬ op.permits v.destructors.default out .returned)
    (hreceives : op.receives v.row.entries out came)
    (habandons : op.abandons v.row.handles v.fresh w.trace out = [])
    (hends : op.endsList = false) (hhanded : op.handed out = []) :
    op.Effect v ((fun a => (a, none)) <$> out) w :=
  .of_course op out c hreceives habandons hends
    ((Effect.handed_nil (v := { v with row := op.part v.row }) ht c hf).trans hhanded.symm)

theorem returned_ne_replaced : Fate.returned ≠ .replaced := by decide

theorem returned_ne_forgotten : Fate.returned ≠ .forgotten := by decide

theorem returned_ne_fate (ds : Destructors σ α) : Fate.returned ≠ ds.fate := by
  obtain ⟨default, override⟩ := ds
  cases default <;> cases override <;> intro h <;> cases h

theorem eraseIdx_effect (i : Nat) (override : Option (Destructor σ α)) (ht : v.trace = #[]) :
    (eraseIdx i override).Effect v
      ((fun b => (indexed (fun _ => .done) b, none)) <$> (v.eraseIdx i override).1)
      (v.eraseIdx i override).2 := by
  have hne := returned_ne_fate (σ := σ) (α := α)
  rw [View.eraseIdx]
  cases hs : v.row.slots[i]? with
  | none =>
    exact Effect.plain (eraseIdx i override) (.ok (.indexError _)) ht .start (hne _) rfl rfl rfl rfl
  | some s =>
    let u : View σ α := { v with destructors := { v.destructors with override } }
    have c : Course (fun fate => fate = u.destructors.fate) v (u.erase s).2 [] [] [] :=
      Course.erase (w := u) (List.mem_of_getElem? hs) rfl rfl (Course.start.settle v.allocator _)
    have c' := c.settle (u.erase s).2.allocator { (u.erase s).2.destructors with override := none }
    simp only
    cases hr : v.withOverride override (·.erase s) with
    | mk out w =>
      have hw : w = { (u.erase s).2 with
          destructors := { (u.erase s).2.destructors with override := none } } :=
        (congrArg Prod.snd hr).symm
      rw [← hw] at c'
      cases out with
      | error p => exact Effect.plain (eraseIdx i override) (.error p) ht c' (hne _) rfl rfl rfl rfl
      | ok _ =>
        exact Effect.plain (eraseIdx i override) (.ok .done) ht (c'.logged _) (hne _) rfl rfl rfl rfl

theorem peek_effect (side : Side) (write : Option α) (ht : v.trace = #[]) :
    (peek side write : Op σ α).Effect v ((fun b => (.entry b, none)) <$> (v.peek side write).1)
      (v.peek side write).2 := by
  rw [View.peek]
  cases htip : v.row.tip? side with
  | none =>
    exact Effect.plain (peek side write) (.ok (.entry none)) ht .start returned_ne_replaced rfl rfl rfl rfl
  | some s =>
    exact Effect.plain (peek side write) (.ok (.entry (some s.entry))) ht
      (Course.start.access (Leads.mem_of_tip? htip) rfl) returned_ne_replaced rfl rfl rfl rfl

theorem get_effect (i : Nat) (write : Option α) (ht : v.trace = #[]) :
    (get i write : Op σ α).Effect v
      ((fun b => (indexed (.entry ∘ some) b, none)) <$> (v.get i write).1) (v.get i write).2 := by
  rw [View.get]
  cases hs : v.row.slots[i]? with
  | none =>
    exact Effect.plain (get i write) (.ok (.indexError _)) ht .start returned_ne_replaced rfl rfl rfl rfl
  | some s =>
    exact Effect.plain (get i write) (.ok (.entry (some s.entry))) ht
      (Course.start.access (List.mem_of_getElem? hs) rfl) returned_ne_replaced rfl rfl rfl rfl

/-- The next entry yielded, after the cursor was put somewhere. A payload comes only where there is an
entry. -/
theorem next_course {v₀ : View σ α} (write : Option α)
    (c : Course (fun fate => fate = .replaced) v₀ { v with row := v.row.advance } [] [] []) :
    ∃ e, (v.cursorNext write).1 = .ok e ∧ ∃ came,
      Course (fun fate => fate = .replaced) v₀ (v.cursorNext write).2 came [] [] ∧
      came = match e with | none => [] | some _ => write.toList := by
  rw [View.cursorNext]
  cases hd : v.row.due with
  | nil =>
    rw [Row.advance_exhausted hd] at c
    exact ⟨none, rfl, _, c, rfl⟩
  | cons s rest =>
    have hs : s ∈ v.row.advance.slots := by
      rw [Row.slots_advance, Row.slots, hd]
      exact List.mem_append_right _ (List.mem_cons_self ..)
    exact ⟨some s.entry, rfl, _, c.access hs rfl, rfl⟩

theorem cursorNext_effect (write : Option α) (ht : v.trace = #[]) :
    (cursorNext write : Op σ α).Effect v ((fun b => (.entry b, none)) <$> (v.cursorNext write).1)
      (v.cursorNext write).2 := by
  have hstart : Course (fun fate => fate = .replaced) { v with row := v.row.advance }
      { v with row := v.row.advance } [] [] [] := .start
  obtain ⟨e, he, came, c, hcame⟩ := next_course write hstart
  rw [he]
  cases e with
  | none =>
    exact Effect.plain (cursorNext write) (.ok (.entry none)) ht c returned_ne_replaced hcame rfl rfl rfl
  | some e =>
    exact Effect.plain (cursorNext write) (.ok (.entry (some e))) ht c returned_ne_replaced hcame rfl rfl rfl

theorem cursorFirst_effect (write : Option α) (ht : v.trace = #[]) :
    (cursorFirst write : Op σ α).Effect v
      ((fun b => (.entry b, none)) <$> (v.cursorReset.cursorNext write).1)
      (v.cursorReset.cursorNext write).2 := by
  have hstart : Course (fun fate => fate = .replaced) { v with row := v.row.rewind.advance }
      { v.cursorReset with row := v.cursorReset.row.advance } [] [] [] := Course.start.logged _
  obtain ⟨e, he, came, c, hcame⟩ := next_course write hstart
  rw [he]
  cases e with
  | none =>
    exact Effect.plain (cursorFirst write) (.ok (.entry none)) ht c returned_ne_replaced hcame rfl rfl rfl
  | some e =>
    exact Effect.plain (cursorFirst write) (.ok (.entry (some e))) ht c returned_ne_replaced hcame rfl
      rfl rfl

theorem map_effect (transform : Callback σ (Entry α) (Entry α)) (ht : v.trace = #[]) :
    Ensures (do
      match (← Deque.map transform).1 with
      | none => return (.allocError, none)
      | some chain => return (.done, some chain)) v ((map transform).Effect v) := by
  refine (Ensures.map transform v).bind ?_ ?_
  · rintro ⟨made, transform'⟩ w h
    cases made with
    | none =>
      obtain ⟨-, came, hstopped, c⟩ := h
      have hf : ¬ (Fate.returned = .dropped ∨ Fate.returned = .destroyed .override true) := by decide
      exact (Leads.pure _ w).ensures
        (Effect.plain (map transform) (.ok .allocError) ht c hf hstopped.came_prefix rfl rfl rfl)
    | some chain =>
      obtain ⟨-, -, -, -, made, -, hm, c⟩ := h
      exact (Leads.pure _ w).ensures (.makes c (fun _ => rfl) hm rfl)
  · rintro p w ⟨-, report, came, rfl, ⟨-, -, -, -, -, -, rfl⟩, c⟩
    exact Effect.plain (map transform) (.error (.callback report)) ht c returned_ne_forgotten rfl rfl rfl rfl

theorem destroy_effect (override : Option (Destructor σ α)) (ht : v.trace = #[]) :
    (destroy override).Effect v ((fun _ => (.done, none)) <$> (v.clear override).1)
      (v.clear override).2 := by
  have hne := returned_ne_fate (σ := σ) (α := α)
  let permits := fun fate => fate = Destructors.fate ⟨v.destructors.default, override⟩
  have hf : permits { v.destructors with override }.fate := rfl
  obtain ⟨remaining, c, h⟩ := Course.clear override hf
  have hrow := (View.clear_keeps override v).1
  have hnone : returnedIn (v.clear override).2.trace = [] := Effect.handed_nil ht c (hne _)
  cases hr : v.clear override with
  | mk out w =>
    rw [hr] at c h hrow hnone
    cases out with
    | ok _ =>
      have hdone : remaining = [] := h.done rfl
      rw [hdone] at c
      have heffect : (destroy override).Effect v ((fun a => (a, none)) <$> .ok .done) w :=
        .single c rfl rfl (fun _ => hrow) hnone
      exact heffect
    | error p =>
      obtain ⟨report, rfl⟩ := h.panicked p rfl
      have hbehind := h.behind
      rw [ht, leftIn_empty, List.length_nil, Nat.sub_zero] at hbehind
      have habandons : handlesOf remaining = v.row.handles.drop (leftIn w.trace).length := by
        rw [hbehind, handlesOf, List.map_drop]
        rfl
      have heffect : (destroy override).Effect v
          ((fun a => (a, none)) <$> .error (.destructor report)) w :=
        .single c rfl habandons (fun _ => hrow) hnone
      exact heffect

/-- Every operation has its effect. -/
theorem ensures [AsBytes α] [AsText α] (op : Op σ α) (ht : v.trace = #[]) :
    Ensures op.act v (op.Effect v) := by
  cases op with
  | length =>
    exact answers .count (Leads.length v)
      (Effect.plain length (.ok (.count _)) ht .start not_false rfl rfl rfl rfl)
  | isEmpty =>
    exact answers .flag (Leads.read fun _ hl => (congrArg Except.ok hl.isEmpty_eq))
      (Effect.plain isEmpty (.ok (.flag _)) ht .start not_false rfl rfl rfl rfl)
  | push side x byteLen =>
    exact answers inserted (Leads.push _ _ _ _)
      (.of_inserts (.inl ⟨side, byteLen, rfl⟩) (push_inserts _ _ _ ht))
  | pop side => exact answers .entry (Leads.pop _ _) (pop_effect _ ht)
  | peek side write => exact answers .entry (Leads.peek _ _ _) (peek_effect _ _ ht)
  | get i write => exact answers (indexed (.entry ∘ some)) (Leads.get _ _ _) (get_effect _ _ ht)
  | getRelative i =>
    exact answers .entry (Leads.getRelative _ _)
      (Effect.plain (getRelative i) (.ok (.entry _)) ht .start not_false rfl rfl rfl rfl)
  | eraseIdx i override =>
    exact answers (indexed fun _ => .done) (Leads.eraseIdx _ _ _) (eraseIdx_effect _ _ ht)
  | takeIdx i => exact answers (indexed (.entry ∘ some)) (Leads.takeIdx _ _) (takeIdx_effect _ ht)
  | insertIdx i x n =>
    exact answers inserted (Leads.insertIdx _ _ _ _)
      (.of_inserts (.inr ⟨i, n, rfl⟩) (insertIdx_inserts _ _ _ ht))
  | cursorReset =>
    exact answers (fun _ => .done) (Leads.cursorReset v)
      (Effect.plain cursorReset (.ok .done) ht (Course.start.logged _) not_false rfl rfl rfl rfl)
  | cursorNext write => exact answers .entry (Leads.cursorNext _ _) (cursorNext_effect _ ht)
  | cursorFirst write => exact answers .entry (Leads.cursorFirst _ _) (cursorFirst_effect _ ht)
  | visitEach visitor =>
    refine (Ensures.visitEach visitor v fun _ => False).bind ?_ ?_
    · exact fun b w c => (Leads.pure _ w).ensures
        (Effect.plain (visitEach visitor) (.ok (.count _)) ht c not_false rfl rfl rfl rfl)
    · exact fun p w c =>
        Effect.plain (visitEach visitor) (.error p) ht c not_false rfl rfl rfl rfl
  | eraseWhere predicate override =>
    have hne := returned_ne_fate (σ := σ) (α := α)
    let permits := fun fate => fate = Destructors.fate ⟨v.destructors.default, override⟩
    have hf : permits { v.destructors with override }.fate := rfl
    refine (Ensures.eraseWhere predicate override hf).bind ?_ ?_
    · exact fun b w c => (Leads.pure _ w).ensures
        (Effect.plain (eraseWhere predicate override) (.ok (.count _)) ht c (hne _) rfl rfl rfl rfl)
    · exact fun p w c =>
        Effect.plain (eraseWhere predicate override) (.error p) ht c (hne _) rfl rfl rfl rfl
  | map transform => exact map_effect transform ht
  | join refuses delimiter =>
    refine (Ensures.join refuses delimiter v fun _ => False).bind ?_ ?_
    · rintro b w c
      cases b with
      | none =>
        exact (Leads.pure _ w).ensures
          (Effect.plain (join refuses delimiter) (.ok .allocError) ht c not_false rfl rfl rfl rfl)
      | some s =>
        exact (Leads.pure _ w).ensures
          (Effect.plain (join refuses delimiter) (.ok (.text s)) ht c not_false rfl rfl rfl rfl)
    · exact fun p w c =>
        Effect.plain (join refuses delimiter) (.error p) ht c not_false rfl rfl rfl rfl
  | destroy override =>
    cases override with
    | none => exact answers (fun _ => .done) (Leads.clear none v) (destroy_effect none ht)
    | some d => exact answers (fun _ => .done) (Leads.destroyWith d v) (destroy_effect (some d) ht)

end Op

end LinkedDeque
