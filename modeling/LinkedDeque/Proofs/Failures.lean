import LinkedDeque.Proofs.Readings

/-!
# LinkedDeque.Proofs.Failures

Operations that fail:

* `Answer.isFailure`  — an answer that says so.
* `World.Untouched`   — an operation left every list as it was, and no payload of theirs went.
* `Insertion`         — when a single insertion is refused, with which error, and after how many attempts
  to make a node.
* `World.run_failing` — in every world that a run leads to, each operation that fails leaves all lists
  untouched, and its error says what was asked for.
-/

namespace LinkedDeque

variable {σ α β : Type}

/-- An operation was refused, or found no entry. -/
def Answer.isFailure : Answer α → Bool
  | .entry none | .indexError _ | .insertError _ | .allocError => true
  | _ => false

/-- The position that an operation is asked for. -/
def Op.index? : Op σ α → Option Nat
  | get i _ | eraseIdx i _ | takeIdx i | insertIdx i .. => some i
  | _ => none

/-- The payload that a single insertion is given, its byte length, and its position if it names one. -/
def Op.inserted? [AsBytes α] : Op σ α → Option (α × UInt64 × Option Nat)
  | push _ x byteLen => some (x, byteLen.resolve x, none)
  | insertIdx i x byteLen => some (x, byteLen, some i)
  | _ => none

/-- A single insertion of a payload into a list of so many entries: when it is refused, with which error,
how often it attempts to make a node, and what happens to the payload. -/
structure Insertion (len : Nat) (x : α) (n : UInt64) (i? : Option Nat) (allocator : Allocator)
    (o : Outcome α) (allocator' : Allocator) : Prop where
  outside : ∀ y e, o.result = .ok (.insertError ⟨y, .index e⟩) ↔
    y = x ∧ e.len = len ∧ i? = some e.index ∧ len < e.index
  refused : ∀ y, o.result = .ok (.insertError ⟨y, .alloc⟩) ↔
    y = x ∧ (∀ i, i? = some i → i ≤ len) ∧ allocator.attempt.1 = true
  attempts : allocator' = if ∃ i, i? = some i ∧ len < i then allocator else allocator.attempt.2
  events : ∀ y failure, o.result = .ok (.insertError ⟨y, failure⟩) →
    o.events = if failure = .alloc then #[.entered x, .logged (.refused n), .left .returned x]
      else #[.entered x, .left .returned x]

/-! ## Readings that fail -/

namespace View

/-- An operation leaves the view as it was, and only payloads that came with it went. -/
structure Fails (v w : View σ α) : Prop extends Keeps v w where
  payloads : ((leftIn w.trace).map Prod.snd).Perm (enteredIn w.trace)
  destroyed : ∀ tier byDrop x, (.destroyed tier byDrop, x) ∉ leftIn w.trace

variable {v : View σ α} {x : α} {n : UInt64} {i : Nat}

theorem Fails.refl (ht : v.trace = #[]) : Fails v v := by
  refine ⟨.refl v, ?_, ?_⟩
  · simp [ht]
  · simp [ht]

theorem Fails.of_eq {w : View σ α} (h : w = v) (ht : v.trace = #[]) : Fails v w := by
  rw [h]
  exact .refl ht

/-- A walk that joins texts leaves the view as it is, but for the lines of the log. -/
theorem join_snd [AsText α] (refuses : Deque.Growth) (delimiter : String) (v : View σ α) :
    ∃ line line', (v.join refuses delimiter).2 = (v.log line).log line' := by
  obtain ⟨text, ht⟩ := join_ok refuses delimiter v
  have hwalk : (v.walk (joinEntry refuses delimiter) v.row.slots 0 .start).2 = v :=
    walk_keeps (P := (· = v)) (fun _ _ _ h => h) 0 _ rfl
  rw [join] at ht ⊢
  cases hr : v.walk (joinEntry refuses delimiter) v.row.slots 0 .start with
  | mk out w =>
    rw [hr] at ht hwalk
    obtain rfl : w = v := hwalk
    cases out with
    | error p => cases ht
    | ok b => exact ⟨_, _, rfl⟩

theorem join_fails [AsText α] (refuses : Deque.Growth) (delimiter : String) (ht : v.trace = #[]) :
    Fails v (v.join refuses delimiter).2 := by
  obtain ⟨line, line', h⟩ := join_snd refuses delimiter v
  have hleft : leftIn ((v.log line).log line').trace = [] := by
    simp [log, emit, leftIn, ht, Event.left?]
  have hentered : enteredIn ((v.log line).log line').trace = [] := by
    simp [log, emit, enteredIn, ht, Event.entered?]
  rw [h]
  refine ⟨⟨⟨rfl, rfl⟩, rfl⟩, ?_, ?_⟩
  · rw [hleft, hentered]
    rfl
  · rw [hleft]
    simp

/-- A payload that came is handed back, after lines of the log. -/
theorem refuse_fails {w : View σ α} (failure : InsertFailure) (hkeeps : Keeps v w)
    (hleft : leftIn w.trace = []) (hentered : enteredIn w.trace = [x]) :
    Fails v (w.refuse x failure).2 := by
  refine ⟨⟨⟨hkeeps.row, hkeeps.destructors⟩, hkeeps.rest⟩, ?_, ?_⟩
  · simp [refuse, emit, leftIn_push, enteredIn_push, hleft, hentered, Event.left?, Event.entered?]
  · simp [refuse, emit, leftIn_push, hleft, Event.left?]

/-! ## Positions that are not there -/

theorem get_error {write : Option α} {e : IndexError} (h : (v.get i write).1 = .ok (.error e)) :
    e = ⟨i, v.row.length⟩ ∧ v.row.length ≤ i ∧ (v.get i write).2 = v := by
  rw [get] at h ⊢
  cases hs : v.row.slots[i]? with
  | none =>
    rw [hs] at h
    cases h
    exact ⟨rfl, List.getElem?_eq_none_iff.1 hs, rfl⟩
  | some s =>
    rw [hs] at h
    cases h

theorem takeIdx_error {e : IndexError} (h : (v.takeIdx i).1 = .ok (.error e)) :
    e = ⟨i, v.row.length⟩ ∧ v.row.length ≤ i ∧ (v.takeIdx i).2 = v := by
  rw [takeIdx] at h ⊢
  cases hs : v.row.slots[i]? with
  | none =>
    rw [hs] at h
    cases h
    exact ⟨rfl, List.getElem?_eq_none_iff.1 hs, rfl⟩
  | some s =>
    rw [hs] at h
    cases h

theorem eraseIdx_error {override : Option (Destructor σ α)} {e : IndexError}
    (h : (v.eraseIdx i override).1 = .ok (.error e)) :
    e = ⟨i, v.row.length⟩ ∧ v.row.length ≤ i ∧ (v.eraseIdx i override).2 = v := by
  rw [eraseIdx] at h ⊢
  cases hs : v.row.slots[i]? with
  | none =>
    rw [hs] at h
    cases h
    exact ⟨rfl, List.getElem?_eq_none_iff.1 hs, rfl⟩
  | some s =>
    rw [hs] at h
    simp only at h
    cases hr : v.withOverride override (·.erase s) with
    | mk out w =>
      rw [hr] at h
      cases out <;> cases h

/-- The cursor finds no first entry in an empty list only. -/
theorem cursorFirst_none {write : Option α} (h : (v.cursorReset.cursorNext write).1 = .ok none) :
    v.row = .empty ∧ (v.cursorReset.cursorNext write).2 = v.cursorReset := by
  have hdue : v.cursorReset.row.due = v.row.slots := rfl
  rw [cursorNext_fst, hdue] at h
  have hnil : v.row.slots = [] := by
    cases hs : v.row.slots with
    | nil => rfl
    | cons s rest =>
      rw [hs] at h
      cases h
  refine ⟨?_, ?_⟩
  · obtain ⟨hpassed, hdue⟩ : v.row.passed = [] ∧ v.row.due = [] := List.append_eq_nil_iff.1 hnil
    cases hv : v.row with
    | mk passed due =>
      rw [hv] at hpassed hdue
      cases hpassed
      cases hdue
      rfl
  · rw [cursorNext, hdue, hnil]

theorem Fails.of_eq_cursorReset {w : View σ α} (hrow : v.row = .empty) (h : w = v.cursorReset)
    (ht : v.trace = #[]) : Fails v w := by
  have htrace : w.trace = #[.logged (.cursorReset v.row.length)] := by
    rw [h, cursorReset, log, emit, ht]
    rfl
  refine ⟨⟨⟨?_, ?_⟩, ?_⟩, ?_, ?_⟩
  · rw [h, show v.cursorReset.row = v.row.rewind from rfl, hrow]
    rfl
  · rw [h]
    rfl
  · rw [h]
    rfl
  · rw [htrace]
    exact .refl []
  · rw [htrace]
    exact fun tier byDrop x => List.not_mem_nil

/-! ## Insertions -/

/-- A view after a payload came and the node for it was refused. -/
def deny (x : α) (n : UInt64) (v : View σ α) : View σ α :=
  { v.emit (.entered x) with allocator := v.allocator.attempt.2 }.log (.refused n)

theorem place_refused {e : Entry α} (h : v.allocator.attempt.1 = true) :
    v.place i e = (.ok false, { v with allocator := v.allocator.attempt.2 }.log (.refused e.byteLen)) := by
  cases ha : v.allocator.attempt with
  | mk refused allocator =>
    rw [ha] at h
    cases h
    simp [place, allocate, ha]

theorem place_granted {e : Entry α} (h : v.allocator.attempt.1 = false) :
    (v.place i e).1 ≠ .ok false ∧ (v.place i e).2.allocator = v.allocator.attempt.2 := by
  cases ha : v.allocator.attempt with
  | mk refused allocator =>
    rw [ha] at h
    cases h
    rw [place, allocate]
    by_cases hroom : v.row.length + 1 < capacity
    · simp [ha, hroom]
    · simp [ha, hroom]

theorem Placed.refused {r : Reading σ α (Except (InsertError α) Unit)}
    (h : Placed x ((v.emit (.entered x)).place i ⟨x, n⟩) r) (ha : v.allocator.attempt.1 = true) :
    r = (v.deny x n).refuse x .alloc := by
  have ha' : (v.emit (.entered x)).allocator.attempt.1 = true := ha
  rw [place_refused ha'] at h
  exact h

theorem Placed.granted {r : Reading σ α (Except (InsertError α) Unit)}
    (h : Placed x ((v.emit (.entered x)).place i ⟨x, n⟩) r) (ha : v.allocator.attempt.1 = false) :
    (∀ e, r.1 ≠ .ok (.error e)) ∧ r.2.allocator = v.allocator.attempt.2 := by
  have hplace : ((v.emit (.entered x)).place i ⟨x, n⟩).1 ≠ .ok false ∧
      ((v.emit (.entered x)).place i ⟨x, n⟩).2.allocator = v.allocator.attempt.2 := place_granted ha
  cases hr : (v.emit (.entered x)).place i ⟨x, n⟩ with
  | mk out w =>
    rw [hr] at h hplace
    rcases out with p | _ | _
    · obtain rfl : r = (.error p, w) := h
      refine ⟨?_, hplace.2⟩
      intro e he
      cases he
    · exact absurd rfl hplace.1
    · obtain ⟨line, rfl⟩ := h
      refine ⟨?_, hplace.2⟩
      intro e he
      cases he

theorem deny_fails (ht : v.trace = #[]) : Fails v ((v.deny x n).refuse x .alloc).2 := by
  refine refuse_fails .alloc ⟨⟨rfl, rfl⟩, rfl⟩ ?_ ?_
  · simp [deny, log, emit, leftIn, ht, Event.left?]
  · simp [deny, log, emit, enteredIn, ht, Event.entered?]

theorem outside_fails (failure : InsertFailure) (ht : v.trace = #[]) :
    Fails v ((v.emit (.entered x)).refuse x failure).2 := by
  refine refuse_fails failure ⟨⟨rfl, rfl⟩, rfl⟩ ?_ ?_
  · simp [emit, leftIn, ht, Event.left?]
  · simp [emit, enteredIn, ht, Event.entered?]

/-- When an insertion at a position, or at an end, is refused, and what it leaves then. -/
structure Inserting (v : View σ α) (x : α) (n : UInt64) (i? : Option Nat)
    (r : Reading σ α (Except (InsertError α) Unit)) : Prop where
  outside : ∀ i, i? = some i → v.row.length < i →
    r = (v.emit (.entered x)).refuse x (.index ⟨i, v.row.length⟩)
  refused : (∀ i, i? = some i → i ≤ v.row.length) → v.allocator.attempt.1 = true →
    r = (v.deny x n).refuse x .alloc
  granted : (∀ i, i? = some i → i ≤ v.row.length) → v.allocator.attempt.1 = false →
    (∀ e, r.1 ≠ .ok (.error e)) ∧ r.2.allocator = v.allocator.attempt.2

theorem push_inserting (side : Side) (x : α) (n : UInt64) (v : View σ α) :
    Inserting v x n none (v.push side x n) where
  outside := fun i hi => by cases hi
  refused := fun _ h => (push_placed side).refused h
  granted := fun _ h => (push_placed side).granted h

theorem insertIdx_inserting (i : Nat) (x : α) (n : UInt64) (v : View σ α) :
    Inserting v x n (some i) (v.insertIdx i x n) where
  outside := by
    rintro _ ⟨rfl⟩ hi
    exact insertIdx_outside hi
  refused := fun hi h => (insertIdx_placed (hi i rfl)).refused h
  granted := fun hi h => (insertIdx_placed (hi i rfl)).granted h

/-- Either the position lies outside, or one attempt to make a node decides. -/
theorem outside_or_within (i? : Option Nat) (v : View σ α) :
    (∃ i, i? = some i ∧ v.row.length < i) ∨ ∀ i, i? = some i → i ≤ v.row.length := by
  cases i? with
  | none => exact .inr fun i hi => by cases hi
  | some i =>
    rcases Nat.lt_or_ge v.row.length i with hi | hi
    · exact .inl ⟨i, rfl, hi⟩
    · refine .inr ?_
      rintro _ ⟨rfl⟩
      exact hi

theorem Inserting.fails {i? : Option Nat} {r : Reading σ α (Except (InsertError α) Unit)}
    (h : Inserting v x n i? r) (ht : v.trace = #[]) {e : InsertError α} (he : r.1 = .ok (.error e)) :
    Fails v r.2 := by
  rcases outside_or_within i? v with ⟨i, hi, hlt⟩ | hi
  · rw [h.outside i hi hlt]
    exact outside_fails _ ht
  · cases hattempt : v.allocator.attempt.1 with
    | true =>
      rw [h.refused hi hattempt]
      exact deny_fails ht
    | false => exact absurd he ((h.granted hi hattempt).1 e)

end View

namespace View

/-- A course that spares the row and ends with nothing in hand leaves the view as it was, and only
payloads that came went. -/
theorem Spares.keeps {v w : View σ α} {permits : Fate → Prop} {came : List α} (h : Spares v w)
    (hv : v.Sound) (ht : v.trace = #[]) (c : Course permits v w came [] []) :
    Keeps v w ∧ ((leftIn w.trace).map Prod.snd).Perm (enteredIn w.trace) := by
  refine ⟨⟨h, funext fun a => (c.accounts hv).other a List.not_mem_nil⟩, ?_⟩
  have hbalance := c.balance hv
  simp only [ht, Row.payloads, h.row, leftIn_empty, enteredIn_empty, List.map_nil,
    Multiset.coe_nil, add_zero, zero_add, add_left_inj] at hbalance
  exact (Multiset.coe_eq_coe.1 hbalance).symm

/-- A transformation that is refused a node drops its results, and leaves the view as it was. -/
theorem mapped_fails {v w : View σ α} {transform transform' : Callback σ (Entry α) (Entry α)}
    (h : Ensures.Mapped transform v (.ok (none, transform')) w) (hv : v.Sound) (ht : v.trace = #[]) :
    Keeps v w ∧ ((leftIn w.trace).map Prod.snd).Perm (enteredIn w.trace) ∧
      ∀ {tier byDrop x}, (.destroyed tier byDrop, x) ∈ leftIn w.trace →
        tier = .override ∧ byDrop = true := by
  obtain ⟨hspares, came, -, c⟩ := h
  obtain ⟨hkeeps, hbalance⟩ := hspares.keeps hv ht c
  refine ⟨hkeeps, hbalance, ?_⟩
  intro tier byDrop x hx
  rcases c.fates hx with hx | hx | hx
  · rw [ht] at hx
    cases hx
  · cases hx
  · cases hx
    exact ⟨rfl, rfl⟩

end View

namespace Op

variable {v : View σ α} {a : Answer α}

theorem answered_ok {f : β → Answer α} {r : Reading σ α β} (h : (answered f r).1 = .ok a) :
    ∃ b, r.1 = .ok b ∧ f b = a := by
  obtain ⟨out, w⟩ := r
  cases out with
  | error p => cases h
  | ok b => exact ⟨b, rfl, Except.ok.inj h⟩

theorem indexed_error {f : β → Answer α} {r : Reading σ α (Except IndexError β)} {e : IndexError}
    (hf : ∀ b, (f b).isFailure = false) (h : (answered (indexed f) r).1 = .ok (.indexError e)) :
    r.1 = .ok (.error e) := by
  obtain ⟨b, hb, ha⟩ := answered_ok h
  cases b with
  | error e' =>
    cases ha
    exact hb
  | ok c =>
    have hc := hf c
    rw [show f c = .indexError e from ha] at hc
    cases hc

theorem indexed_fails {f : β → Answer α} {r : Reading σ α (Except IndexError β)}
    (hf : ∀ b, (f b).isFailure = false) (h : (answered (indexed f) r).1 = .ok a)
    (ha : a.isFailure = true) : ∃ e, r.1 = .ok (.error e) := by
  obtain ⟨b, hb, rfl⟩ := answered_ok h
  cases b with
  | error e => exact ⟨e, hb⟩
  | ok c =>
    rw [indexed, hf] at ha
    cases ha

theorem inserted_fails {r : Except Panic (Except (InsertError α) Unit)}
    {b : Except (InsertError α) Unit} (hr : r = .ok b) (hb : inserted b = a)
    (ha : a.isFailure = true) : ∃ e, r = .ok (.error e) := by
  cases b with
  | error e => exact ⟨e, hr⟩
  | ok _ =>
    rw [← hb] at ha
    cases ha

/-- An operation that fails leaves the view as it was. -/
theorem reading_fails [AsBytes α] [AsText α] (op : Op σ α) (hop : op.isMap = false) (ht : v.trace = #[])
    (h : (op.reading v).1 = .ok a) (ha : a.isFailure = true) : View.Fails v (op.reading v).2 := by
  cases op with
  | map transform => cases hop
  | length | isEmpty | cursorReset =>
    cases h
    cases ha
  | push side x byteLen =>
    obtain ⟨b, hb, hf⟩ := answered_ok h
    obtain ⟨e, he⟩ := inserted_fails hb hf ha
    exact (View.push_inserting side x _ v).fails ht he
  | insertIdx i x n =>
    obtain ⟨b, hb, hf⟩ := answered_ok h
    obtain ⟨e, he⟩ := inserted_fails hb hf ha
    exact (View.insertIdx_inserting i x n v).fails ht he
  | pop side =>
    obtain ⟨b, hb, rfl⟩ := answered_ok h
    rw [View.pop] at hb
    rw [reading, View.pop]
    cases hs : v.row.tip? side with
    | none => exact .refl ht
    | some s =>
      rw [hs] at hb
      cases hb
      cases ha
  | peek side write =>
    obtain ⟨b, hb, rfl⟩ := answered_ok h
    rw [View.peek] at hb
    rw [reading, View.peek]
    cases hs : v.row.tip? side with
    | none => exact .refl ht
    | some s =>
      rw [hs] at hb
      cases hb
      cases ha
  | getRelative i => exact .refl ht
  | get i write =>
    obtain ⟨e, he⟩ := indexed_fails (fun _ => rfl) h ha
    exact .of_eq (View.get_error he).2.2 ht
  | eraseIdx i override =>
    obtain ⟨e, he⟩ := indexed_fails (fun _ => rfl) h ha
    exact .of_eq (View.eraseIdx_error he).2.2 ht
  | takeIdx i =>
    obtain ⟨e, he⟩ := indexed_fails (fun _ => rfl) h ha
    exact .of_eq (View.takeIdx_error he).2.2 ht
  | cursorNext write =>
    obtain ⟨b, hb, rfl⟩ := answered_ok h
    rw [View.cursorNext_fst] at hb
    rw [reading, View.cursorNext]
    cases hd : v.row.due with
    | nil => exact .refl ht
    | cons s rest =>
      rw [hd] at hb
      cases hb
      cases ha
  | cursorFirst write =>
    obtain ⟨b, hb, rfl⟩ := answered_ok h
    cases b with
    | some e => cases ha
    | none =>
      obtain ⟨hrow, hstate⟩ := View.cursorFirst_none hb
      exact .of_eq_cursorReset hrow hstate ht
  | visitEach visitor =>
    obtain ⟨b, hb, rfl⟩ := answered_ok h
    cases ha
  | eraseWhere predicate override =>
    obtain ⟨b, hb, rfl⟩ := answered_ok h
    cases ha
  | join refuses delimiter => exact View.join_fails refuses delimiter ht
  | destroy override =>
    obtain ⟨b, hb, rfl⟩ := answered_ok h
    cases ha

/-- An operation that answers an index error names the position it was asked for, and the length. -/
theorem reading_index [AsBytes α] [AsText α] (op : Op σ α) {e : IndexError}
    (h : (op.reading v).1 = .ok (.indexError e)) :
    op.index? = some e.index ∧ e.len = v.row.length ∧ e.len ≤ e.index := by
  cases op with
  | get i write =>
    obtain ⟨rfl, hi, -⟩ := View.get_error (indexed_error (fun _ => rfl) h)
    exact ⟨rfl, rfl, hi⟩
  | eraseIdx i override =>
    obtain ⟨rfl, hi, -⟩ := View.eraseIdx_error (indexed_error (fun _ => rfl) h)
    exact ⟨rfl, rfl, hi⟩
  | takeIdx i =>
    obtain ⟨rfl, hi, -⟩ := View.takeIdx_error (indexed_error (fun _ => rfl) h)
    exact ⟨rfl, rfl, hi⟩
  | push side x byteLen =>
    obtain ⟨b, -, hf⟩ := answered_ok h
    cases b <;> cases hf
  | insertIdx i x n =>
    obtain ⟨b, -, hf⟩ := answered_ok h
    cases b <;> cases hf
  | join refuses delimiter =>
    obtain ⟨b, -, hf⟩ := answered_ok h
    cases b <;> cases hf
  | length | isEmpty | cursorReset | map transform => cases h
  | pop side | peek side write | getRelative i | cursorNext write | cursorFirst write
  | visitEach visitor | eraseWhere predicate override | destroy override =>
    obtain ⟨b, -, hf⟩ := answered_ok h
    cases hf

/-- What an insertion comes to, as a step of a run tells it. -/
theorem insertion_of_inserting {x : α} {n : UInt64} {i? : Option Nat}
    {r : Reading σ α (Except (InsertError α) Unit)} (h : View.Inserting v x n i? r)
    (ht : v.trace = #[]) :
    Insertion v.row.length x n i? v.allocator ⟨(answered inserted r).1, r.2.trace⟩ r.2.allocator := by
  rcases View.outside_or_within i? v with ⟨i, rfl, hlt⟩ | hi
  · obtain rfl := h.outside i rfl hlt
    refine ⟨fun y e => ⟨?_, ?_⟩, fun y => ⟨?_, ?_⟩, ?_, ?_⟩
    · intro hr
      cases hr
      exact ⟨rfl, rfl, rfl, hlt⟩
    · rintro ⟨rfl, hlen, hindex, -⟩
      obtain ⟨index, len⟩ := e
      cases hlen
      cases hindex
      rfl
    · intro hr
      cases hr
    · rintro ⟨-, hle, -⟩
      exact absurd (hle i rfl) (Nat.not_le.2 hlt)
    · exact (if_pos ⟨i, rfl, hlt⟩).symm
    · intro y failure hr
      cases hr
      simp [View.refuse, View.emit, ht]
  · have hnot : ¬ ∃ i, i? = some i ∧ v.row.length < i := by
      rintro ⟨i, hi', hlt⟩
      exact absurd (hi i hi') (Nat.not_le.2 hlt)
    cases hattempt : v.allocator.attempt.1 with
    | true =>
      obtain rfl := h.refused hi hattempt
      refine ⟨fun y e => ⟨?_, ?_⟩, fun y => ⟨?_, ?_⟩, ?_, ?_⟩
      · intro hr
        cases hr
      · rintro ⟨-, -, hi', hlt⟩
        exact absurd ⟨e.index, hi', hlt⟩ hnot
      · intro hr
        cases hr
        exact ⟨rfl, hi, hattempt⟩
      · rintro ⟨rfl, -, -⟩
        rfl
      · exact (if_neg hnot).symm
      · intro y failure hr
        cases hr
        simp [View.refuse, View.deny, View.log, View.emit, ht]
    | false =>
      obtain ⟨hne, halloc⟩ := h.granted hi hattempt
      have hno : ∀ e, (answered inserted r).1 ≠ .ok (.insertError e) := by
        intro e hr
        obtain ⟨b, hb, hf⟩ := answered_ok hr
        cases b with
        | ok _ => cases hf
        | error e' => exact hne e' hb
      refine ⟨fun y e => ⟨fun hr => absurd hr (hno _), ?_⟩, fun y => ⟨fun hr => absurd hr (hno _), ?_⟩,
        halloc.trans (if_neg hnot).symm, fun y failure hr => absurd hr (hno _)⟩
      · rintro ⟨-, -, hi', hlt⟩
        exact absurd ⟨e.index, hi', hlt⟩ hnot
      · rintro ⟨-, -, hrefused⟩
        rw [hattempt] at hrefused
        cases hrefused

theorem reading_insertion [AsBytes α] [AsText α] (op : Op σ α) {x : α} {n : UInt64} {i? : Option Nat}
    (ht : v.trace = #[]) (hop : op.inserted? = some (x, n, i?)) :
    Insertion v.row.length x n i? v.allocator ⟨(op.reading v).1, (op.reading v).2.trace⟩
      (op.reading v).2.allocator := by
  cases op with
  | push side y byteLen =>
    cases hop
    exact insertion_of_inserting (View.push_inserting side x _ v) ht
  | insertIdx i y m =>
    cases hop
    exact insertion_of_inserting (View.insertIdx_inserting i x n v) ht
  | _ => cases hop

theorem isMap_of_inserted? [AsBytes α] {op : Op σ α} {p : α × UInt64 × Option Nat}
    (hop : op.inserted? = some p) : op.isMap = false := by
  cases op with
  | map transform => cases hop
  | _ => rfl

/-- An operation that fails does not end its list. -/
theorem endsList_of_fails [AsBytes α] [AsText α] {op : Op σ α} (h : (op.reading v).1 = .ok a)
    (ha : a.isFailure = true) : op.endsList = false := by
  cases op with
  | destroy override =>
    obtain ⟨b, -, rfl⟩ := answered_ok h
    cases ha
  | _ => rfl

end Op

/-! ## Worlds -/

namespace World

/-- An operation changed no list and no node, and of the payloads only those that came with it went. -/
structure Untouched (w w' : World σ α) (events : Array (Event α)) : Prop where
  lists : w'.lists = w.lists
  nodes : ∀ a, w'.heap.get? a = w.heap.get? a
  payloads : ((leftIn events).map Prod.snd).Perm (enteredIn events)

/-- What an operation on a list leaves when it fails, and what its error says. -/
structure Failing [AsBytes α] [AsText α] (w : World σ α) (k : Nat) (d : Deque σ α) (op : Op σ α) :
    Prop where
  untouched : ∀ a, (w.use k op).1.result = .ok a → a.isFailure = true →
    Untouched w (w.use k op).2 (w.use k op).1.events
  /-- A transformation drops results of its own; no other payload is destroyed. -/
  destroyed : ∀ a tier byDrop x, (w.use k op).1.result = .ok a → a.isFailure = true →
    (.destroyed tier byDrop, x) ∈ leftIn (w.use k op).1.events →
    op.isMap = true ∧ tier = .override ∧ byDrop = true
  cursorFirst : ∀ write, op = .cursorFirst write → (w.use k op).1.result = .ok (.entry none) →
    w.contents k = [] ∧ d.chain.cursor = none
  index : ∀ e, (w.use k op).1.result = .ok (.indexError e) →
    op.index? = some e.index ∧ e.len = (w.contents k).length ∧ e.len ≤ e.index
  insertion : ∀ x n i?, op.inserted? = some (x, n, i?) →
    Insertion (w.contents k).length x n i? w.allocator (w.use k op).1 (w.use k op).2.allocator

variable [AsBytes α] [AsText α] {w : World σ α} {strayed : List Handle} {k : Nat} {d : Deque σ α}

theorem use_fails (hw : w.Sound strayed) (hk : w.list? k = some d) {op : Op σ α} {a : Answer α}
    (h : (w.use k op).1.result = .ok a) (ha : a.isFailure = true) :
    Untouched w (w.use k op).2 (w.use k op).1.events ∧
      ∀ tier byDrop x, (.destroyed tier byDrop, x) ∈ leftIn (w.use k op).1.events →
        op.isMap = true ∧ tier = .override ∧ byDrop = true := by
  cases hop : op.isMap with
  | false =>
    obtain ⟨l, hl, huse⟩ := use_reads hw hk op hop
    rw [huse] at h
    have hfails := op.reading_fails hop rfl h ha
    have hends := Op.endsList_of_fails h ha
    obtain ⟨hlists, hnodes⟩ := hw.kept hk hl hfails.toKeeps
    rw [huse, hends]
    exact ⟨⟨hlists, hnodes, hfails.payloads⟩, fun tier byDrop x hx =>
      absurd hx (hfails.destroyed tier byDrop x)⟩
  | true =>
    obtain ⟨transform, rfl⟩ := Op.eq_map hop
    obtain ⟨out, u, l, hmapped, hl, huse⟩ := use_maps hw hk transform
    rw [huse] at h
    rcases out with p | ⟨_ | chain, transform'⟩
    · cases h
    · obtain ⟨hkeeps, hpayloads, hdestroyed⟩ :=
        View.mapped_fails hmapped (Linkage.Shows.sound (v := w.view d) (hw.shows hk)) rfl
      obtain ⟨hlists, hnodes⟩ := hw.kept hk hl hkeeps
      rw [huse]
      exact ⟨⟨hlists, hnodes, hpayloads⟩, fun tier byDrop x hx => ⟨rfl, hdestroyed hx⟩⟩
    · cases h
      cases ha

/-- A transformation answers no index error. -/
theorem use_index (hw : w.Sound strayed) (hk : w.list? k = some d) {op : Op σ α} {e : IndexError}
    (h : (w.use k op).1.result = .ok (.indexError e)) :
    op.index? = some e.index ∧ e.len = (w.contents k).length ∧ e.len ≤ e.index := by
  cases hop : op.isMap with
  | false =>
    obtain ⟨l, -, huse⟩ := use_reads hw hk op hop
    rw [huse] at h
    rw [← hw.entries_view hk, Row.length_entries]
    exact op.reading_index h
  | true =>
    obtain ⟨transform, rfl⟩ := Op.eq_map hop
    obtain ⟨out, u, l, -, -, huse⟩ := use_maps hw hk transform
    rw [huse] at h
    rcases out with p | ⟨_ | chain, transform'⟩ <;> cases h

theorem use_failing (hw : w.Sound strayed) (hk : w.list? k = some d) (op : Op σ α) :
    w.Failing k d op where
  untouched := fun a h ha => (use_fails hw hk h ha).1
  destroyed := fun a tier byDrop x h ha hx => (use_fails hw hk h ha).2 tier byDrop x hx
  index := fun e h => use_index hw hk h
  cursorFirst := by
    rintro write rfl h
    obtain ⟨l, -, huse⟩ := use_reads hw hk (.cursorFirst write) rfl
    rw [huse] at h
    obtain ⟨b, hb, hf⟩ := Op.answered_ok h
    cases hf
    obtain ⟨hrow, -⟩ := View.cursorFirst_none hb
    refine ⟨?_, ?_⟩
    · rw [← hw.entries_view hk, hrow]
      rfl
    · rw [show d.chain.cursor = (w.view d).row.cursor from (hw.shows hk).cursor, hrow]
      rfl
  insertion := by
    intro x n i? hop
    obtain ⟨l, -, huse⟩ := use_reads hw hk op (Op.isMap_of_inserted? hop)
    rw [huse, ← hw.entries_view hk, Row.length_entries]
    exact op.reading_insertion rfl hop

/-- In every world that a run leads to, an operation that fails leaves all lists and nodes as they were
and destroys no payload of a list, and its error says what was asked for and hands the payload back. -/
theorem run_failing (before : List (Step σ α)) (k : Nat) (d : Deque σ α) (op : Op σ α)
    (hk : (run before start).2.list? k = some d) : (run before start).2.Failing k d op :=
  use_failing (run_sound before start_sound) hk op

/-- An insertion behind the only entry, which is refused its node. -/
theorem run_failing_refused :
    let before : List (Step Unit Payload) := [.create none, .use 0 (.push .after (.int 3) (.exact 8)),
      .arm (Allocator.refuseNext 0 1)]
    let w := (run before start).2
    let insertion : Op Unit Payload := .insertIdx 1 (.int 5) 16
    ∃ d, w.list? 0 = some d ∧
      (w.use 0 insertion).1.result = .ok (.insertError ⟨.int 5, .alloc⟩) ∧
      Untouched w (w.use 0 insertion).2 (w.use 0 insertion).1.events :=
  ⟨_, rfl, rfl, (run_failing _ 0 _ _ rfl).untouched (.insertError ⟨.int 5, .alloc⟩) rfl rfl⟩

end World

end LinkedDeque
