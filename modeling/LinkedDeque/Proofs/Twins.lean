import LinkedDeque.Proofs.Positions
import LinkedDeque.Proofs.Readings

/-!
# LinkedDeque.Proofs.Twins

Views that differ in their nodes only:

* `Row.Alike`  — two rows have the same entries on either side of the cursor.
* `View.Twin`  — two views have rows alike, and the same destructors, refusals to come and events.
* `Agree`      — two readings answer alike and leave twins.

Every operation on single entries respects this: the entries settle it, whatever nodes they are in.
-/

namespace LinkedDeque

variable {σ τ α β γ ο : Type}

namespace Allocator

/-- The refusals still to come. -/
def upcoming (a : Allocator) : Nat → Bool := fun i => a.refuses (a.attempts + i)

@[simp] theorem upcoming_ofPattern (refuses : Nat → Bool) : (ofPattern refuses).upcoming = refuses := by
  funext i
  rw [upcoming, ofPattern, Nat.zero_add]

theorem upcoming_attempt (a : Allocator) : a.attempt.2.upcoming = fun i => a.upcoming (i + 1) := by
  funext i
  rw [upcoming, upcoming, attempt, Nat.add_assoc, Nat.add_comm 1]

end Allocator

/-! ## Rows -/

/-- Two rows have the same entries, parted at the same place. -/
structure Row.Alike (r r' : Row α) : Prop where
  passed : entriesOf r.passed = entriesOf r'.passed
  due : entriesOf r.due = entriesOf r'.due

namespace Row.Alike

variable {r r' : Row α} {s s' : Slot α} {i : Nat}

theorem refl (r : Row α) : r.Alike r := ⟨rfl, rfl⟩

theorem entries (h : r.Alike r') : r.entries = r'.entries := by
  simpa [Row.entries, slots] using congrArg₂ (· ++ ·) h.passed h.due

theorem length (h : r.Alike r') : r.length = r'.length := by
  rw [← length_entries, ← length_entries, h.entries]

theorem length_passed (h : r.Alike r') : r.passed.length = r'.passed.length := by
  simpa using congrArg List.length h.passed

/-- At each position there are entries in both, which are the same, or in neither. -/
theorem slots_cases (h : r.Alike r') (i : Nat) : (r.slots[i]? = none ∧ r'.slots[i]? = none) ∨
    ∃ s s', r.slots[i]? = some s ∧ r'.slots[i]? = some s' ∧ s.entry = s'.entry := by
  have hentries : r.entries[i]? = r'.entries[i]? := by rw [h.entries]
  rw [getElem?_entries, getElem?_entries] at hentries
  cases hs : r.slots[i]? with
  | none =>
    rw [hs, Option.map_none, eq_comm, Option.map_eq_none_iff] at hentries
    exact .inl ⟨rfl, hentries⟩
  | some s =>
    rw [hs] at hentries
    obtain ⟨s', hs', he⟩ := Option.map_eq_some_iff.1 hentries.symm
    exact .inr ⟨s, s', rfl, hs', he.symm⟩

theorem tipAt (h : r.Alike r') (side : Side) : r.tipAt side = r'.tipAt side := by
  cases side with
  | before => rfl
  | after => rw [Row.tipAt, Row.tipAt, h.length]

theorem cursorIndex? (h : r.Alike r') : r.cursorIndex? = r'.cursorIndex? := by
  have hpassed := h.length_passed
  have hdue := congrArg List.length h.due
  rw [Row.cursorIndex?, Row.cursorIndex?]
  cases hd : r.due <;> cases hd' : r'.due <;> simp_all

theorem insert (h : r.Alike r') (i : Nat) (he : s.entry = s'.entry) :
    (r.insert i s).Alike (r'.insert i s') := by
  have hinsert : ∀ {run run' : List (Slot α)} (j : Nat), entriesOf run = entriesOf run' →
      entriesOf (run.insertIdx j s) = entriesOf (run'.insertIdx j s') := by
    intro run run' j hrun
    rw [entriesOf, List.map_insertIdx, he, show run.map Slot.entry = entriesOf run' from hrun,
      entriesOf, entriesOf, List.map_insertIdx]
  rw [Row.insert, Row.insert, h.length_passed]
  split
  · exact ⟨hinsert i h.passed, h.due⟩
  · exact ⟨h.passed, hinsert _ h.due⟩

theorem changeAt {f : Nat → List (Slot α) → List (Slot α)} (h : r.Alike r') (i : Nat)
    (hf : ∀ j run run', entriesOf run = entriesOf run' → entriesOf (f j run) = entriesOf (f j run')) :
    (r.changeAt f i).Alike (r'.changeAt f i) := by
  rw [Row.changeAt, Row.changeAt, h.length_passed]
  split
  · exact ⟨hf _ _ _ h.passed, h.due⟩
  · exact ⟨h.passed, hf _ _ _ h.due⟩

theorem erase (h : r.Alike r') (hs : r.slots[i]? = some s) (hs' : r'.slots[i]? = some s')
    (hnodup : r.handles.Nodup) (hnodup' : r'.handles.Nodup) :
    (r.erase s.handle).Alike (r'.erase s'.handle) := by
  rw [erase_eq_eraseAt hs hnodup, erase_eq_eraseAt hs' hnodup']
  refine h.changeAt i fun j run run' hrun => ?_
  exact (List.eraseIdx_map ..).symm.trans ((congrArg (·.eraseIdx j) hrun).trans (List.eraseIdx_map ..))

theorem write (h : r.Alike r') (hs : r.slots[i]? = some s) (hs' : r'.slots[i]? = some s')
    (hnodup : r.handles.Nodup) (hnodup' : r'.handles.Nodup) (x : α) :
    (r.write s.handle x).Alike (r'.write s'.handle x) := by
  have hmodify : ∀ (run : List (Slot α)) (j : Nat),
      entriesOf (run.modify j fun s => { s with entry := s.entry.update fun _ => x }) =
        (entriesOf run).modify j (Entry.update fun _ => x) := by
    intro run j
    induction run generalizing j with
    | nil => cases j <;> rfl
    | cons t run ih => cases j <;> simp [ih]
  rw [write_eq_writeAt hs hnodup, write_eq_writeAt hs' hnodup']
  refine h.changeAt i fun j run run' hrun => ?_
  rw [hmodify, hmodify, hrun]

theorem rewind (h : r.Alike r') : r.rewind.Alike r'.rewind := ⟨rfl, h.entries⟩

theorem advance (h : r.Alike r') : r.advance.Alike r'.advance := by
  have htake := congrArg (List.take 1) h.due
  have hdrop := congrArg (List.drop 1) h.due
  refine ⟨?_, by simpa [Row.advance] using hdrop⟩
  simpa [Row.advance, List.map_take] using congrArg₂ (· ++ ·) h.passed htake

end Row.Alike

/-! ## Views and readings -/

/-- Two views differ in nodes only. -/
structure View.Twin (v v' : View σ α) : Prop where
  row : v.row.Alike v'.row
  destructors : v.destructors = v'.destructors
  allocator : v.allocator.upcoming = v'.allocator.upcoming
  trace : v.trace = v'.trace

theorem View.Twin.setOverride {v v' : View σ α} (h : v.Twin v') (d : Option (Destructor σ α)) :
    View.Twin { v with destructors := { v.destructors with override := d } }
      { v' with destructors := { v'.destructors with override := d } } :=
  ⟨h.row, by rw [h.destructors], h.allocator, h.trace⟩

/-- Two readings answer alike and leave twins, or end with the same panic. -/
inductive Agree (R : β → γ → Prop) : Reading σ α β → Reading σ α γ → Prop where
  | ok {b : β} {c : γ} {v v' : View σ α} (hb : R b c) (hv : v.Twin v') : Agree R (.ok b, v) (.ok c, v')
  | error {v v' : View σ α} (p : Panic) (hv : v.Twin v') : Agree R (.error p, v) (.error p, v')

namespace Agree

variable {R : β → γ → Prop} {r : Reading σ α β} {r' : Reading σ α γ}

theorem view (h : Agree R r r') : r.2.Twin r'.2 := by
  cases h with
  | ok hb hv => exact hv
  | error p hv => exact hv

theorem answered {f : β → Answer α} {f' : γ → Answer α} (h : Agree R r r')
    (hf : ∀ b c, R b c → f b = f' c) : Agree Eq (Op.answered f r) (Op.answered f' r') := by
  cases h with
  | ok hb hv => exact .ok (hf _ _ hb) hv
  | error p hv => exact .error p hv

theorem override {d : Option (Destructor σ α)} {f : View σ α → Reading σ α β}
    {f' : View σ α → Reading σ α γ} {v v' : View σ α}
    (h : Agree R (f { v with destructors := { v.destructors with override := d } })
      (f' { v' with destructors := { v'.destructors with override := d } })) :
    Agree R (v.withOverride d f) (v'.withOverride d f') := by
  rw [View.withOverride, View.withOverride]
  generalize f { v with destructors := { v.destructors with override := d } } = r,
    f' { v' with destructors := { v'.destructors with override := d } } = r' at h ⊢
  cases h with
  | ok hb hv => exact .ok hb (hv.setOverride none)
  | error p hv => exact .error p (hv.setOverride none)

end Agree

namespace View.Twin

variable {v v' : View σ α} {s s' : Slot α} {i : Nat}

theorem emit (h : v.Twin v') (e : Event α) : (v.emit e).Twin (v'.emit e) :=
  ⟨h.row, h.destructors, h.allocator, by rw [View.emit, View.emit, h.trace]⟩

theorem log (h : v.Twin v') (line : Log) : (v.log line).Twin (v'.log line) := h.emit _

/-- A line of the log with the length is the same line. -/
theorem logLength (h : v.Twin v') (line : Nat → Log) :
    (v.log (line v.row.length)).Twin (v'.log (line v'.row.length)) := by
  rw [h.row.length]
  exact h.log _

theorem withRow (h : v.Twin v') {r r' : Row α} (hr : r.Alike r') :
    View.Twin { v with row := r } { v' with row := r' } :=
  ⟨hr, h.destructors, h.allocator, h.trace⟩

theorem ask (h : v.Twin v') (f : Callback τ (Entry α) ο) (e : Entry α) :
    Agree Eq (v.ask f e) (v'.ask f e) := by
  rw [View.ask, View.ask]
  cases f.call e with
  | mk reply f' =>
    cases reply with
    | returns answer => exact .ok rfl (h.emit _)
    | panics report => exact .error _ (h.emit _)

theorem dispose (h : v.Twin v') (x : α) : Agree Eq (v.dispose x) (v'.dispose x) := by
  rw [View.dispose, View.dispose, ← h.destructors, ← h.trace]
  cases v.destructors.dispose x with
  | mk fate rest =>
    obtain ⟨reply, destructors⟩ := rest
    cases reply with
    | returns u => exact .ok rfl ⟨h.row, rfl, h.allocator, rfl⟩
    | panics report => exact .error _ ⟨h.row, rfl, h.allocator, rfl⟩

/-! ### Entries that come -/

theorem tipIdx (h : v.Twin v') (side : Side) : v.tipIdx side = v'.tipIdx side := by
  cases side with
  | before => rfl
  | after => exact h.row.length

/-- The nodes made for an entry are different ones, and so are those that a full list does not take up. -/
theorem place (h : v.Twin v') (i : Nat) (e : Entry α) : Agree Eq (v.place i e) (v'.place i e) := by
  have hrefused : v.allocator.attempt.1 = v'.allocator.attempt.1 := congrFun h.allocator 0
  have hnext : v.allocator.attempt.2.upcoming = v'.allocator.attempt.2.upcoming := by
    rw [Allocator.upcoming_attempt, Allocator.upcoming_attempt, h.allocator]
  rw [View.place, View.place, View.allocate, View.allocate, ← h.row.length]
  generalize v.allocator.attempt = attempt, v'.allocator.attempt = attempt' at hrefused hnext ⊢
  obtain ⟨refused, allocator⟩ := attempt
  obtain ⟨_, allocator'⟩ := attempt'
  cases hrefused
  cases refused with
  | true =>
    have hw : View.Twin { v with allocator } { v' with allocator := allocator' } :=
      ⟨h.row, h.destructors, hnext, h.trace⟩
    exact .ok rfl (hw.log _)
  | false =>
    by_cases hcap : v.row.length + 1 < capacity
    · simp only [hcap, if_true, Bool.false_eq_true, if_false]
      exact .ok rfl ⟨h.row.insert i rfl, h.destructors, hnext, h.trace⟩
    · simp only [hcap, if_false, Bool.false_eq_true]
      exact .error _ ⟨h.row, h.destructors, hnext, h.trace⟩

theorem append (h : v.Twin v') (side : Side) (e : Entry α) :
    Agree Eq (v.append side e) (v'.append side e) := by
  have hplace := h.place (v.tipIdx side) e
  rw [View.append, View.append, ← h.tipIdx side]
  generalize v.place (v.tipIdx side) e = r, v'.place (v.tipIdx side) e = r' at hplace ⊢
  cases hplace with
  | error p hw => exact .error p hw
  | @ok placed _ w w' hb hw =>
    cases hb
    cases placed with
    | true => exact .ok rfl (hw.logLength (.push side e.byteLen))
    | false => exact .ok rfl hw

theorem refuse (h : v.Twin v') (x : α) (failure : InsertFailure) :
    Agree Eq (v.refuse x failure) (v'.refuse x failure) := .ok rfl (h.emit _)

theorem push (h : v.Twin v') (side : Side) (x : α) (n : UInt64) :
    Agree Eq (v.push side x n) (v'.push side x n) := by
  have happend := (h.emit (.entered x)).append side ⟨x, n⟩
  rw [View.push, View.push]
  generalize (v.emit (.entered x)).append side ⟨x, n⟩ = r,
    (v'.emit (.entered x)).append side ⟨x, n⟩ = r' at happend ⊢
  cases happend with
  | error p hw => exact .error p hw
  | @ok placed _ w w' hb hw =>
    cases hb
    cases placed with
    | true => exact .ok rfl hw
    | false => exact hw.refuse x .alloc

theorem insertIdx (h : v.Twin v') (i : Nat) (x : α) (n : UInt64) :
    Agree Eq (v.insertIdx i x n) (v'.insertIdx i x n) := by
  have hplace := (h.emit (.entered x)).place i ⟨x, n⟩
  have hlen : (v.emit (.entered x)).row.length = (v'.emit (.entered x)).row.length := h.row.length
  simp only [View.insertIdx, ← hlen]
  split
  · exact (h.emit _).refuse x _
  generalize (v.emit (.entered x)).place i ⟨x, n⟩ = r,
    (v'.emit (.entered x)).place i ⟨x, n⟩ = r' at hplace ⊢
  cases hplace with
  | error p hw => exact .error p hw
  | @ok placed _ w w' hb hw =>
    cases hb
    cases placed with
    | true => exact .ok rfl (hw.log _)
    | false => exact hw.refuse x .alloc

/-! ### Entries that go, and entries that are read -/

section Entries

variable (h : v.Twin v') (hnodup : v.row.handles.Nodup) (hnodup' : v'.row.handles.Nodup)

include h hnodup hnodup'

theorem take (hs : v.row.slots[i]? = some s) (hs' : v'.row.slots[i]? = some s') :
    View.Twin { v with row := v.row.erase s.handle } { v' with row := v'.row.erase s'.handle } :=
  h.withRow (h.row.erase hs hs' hnodup hnodup')

theorem erase (hs : v.row.slots[i]? = some s) (hs' : v'.row.slots[i]? = some s')
    (he : s.entry = s'.entry) : Agree Eq (v.erase s) (v'.erase s') := by
  rw [View.erase, View.erase, he]
  exact (h.take hnodup hnodup' hs hs').dispose _

theorem access (write : Option α) (hs : v.row.slots[i]? = some s) (hs' : v'.row.slots[i]? = some s')
    (he : s.entry = s'.entry) : (v.access write s).Twin (v'.access write s') := by
  cases write with
  | none => exact h
  | some x =>
    rw [View.access, View.access, he]
    exact ((h.emit _).withRow (h.row.write hs hs' hnodup hnodup' x)).emit _

theorem pop (side : Side) : Agree Eq (v.pop side) (v'.pop side) := by
  rw [View.pop, View.pop, Row.tip?_eq_getElem?, Row.tip?_eq_getElem?, ← h.row.tipAt side]
  rcases h.row.slots_cases (v.row.tipAt side) with ⟨hs, hs'⟩ | ⟨s, s', hs, hs', he⟩
  · rw [hs, hs']
    exact .ok rfl h
  · rw [hs, hs']
    simp only [he]
    exact .ok rfl (((h.take hnodup hnodup' hs hs').emit _).logLength (.pop side))

theorem takeIdx (i : Nat) : Agree Eq (v.takeIdx i) (v'.takeIdx i) := by
  rw [View.takeIdx, View.takeIdx, h.row.length]
  rcases h.row.slots_cases i with ⟨hs, hs'⟩ | ⟨s, s', hs, hs', he⟩
  · rw [hs, hs']
    exact .ok rfl h
  · rw [hs, hs']
    simp only [he]
    exact .ok rfl (((h.log _).take hnodup hnodup' hs hs').emit _)

theorem eraseIdx (i : Nat) (override : Option (Destructor σ α)) :
    Agree Eq (v.eraseIdx i override) (v'.eraseIdx i override) := by
  rw [View.eraseIdx, View.eraseIdx, h.row.length]
  rcases h.row.slots_cases i with ⟨hs, hs'⟩ | ⟨s, s', hs, hs', he⟩
  · rw [hs, hs']
    exact .ok rfl h
  · have herase : Agree Eq (v.withOverride override (·.erase s)) (v'.withOverride override (·.erase s')) :=
      Agree.override ((h.setOverride override).erase hnodup hnodup' hs hs' he)
    rw [hs, hs']
    simp only
    generalize v.withOverride override (·.erase s) = r,
      v'.withOverride override (·.erase s') = r' at herase ⊢
    cases herase with
    | ok hb hw => exact .ok rfl (hw.log _)
    | error p hw => exact .error p hw

theorem peek (side : Side) (write : Option α) : Agree Eq (v.peek side write) (v'.peek side write) := by
  rw [View.peek, View.peek, Row.tip?_eq_getElem?, Row.tip?_eq_getElem?, ← h.row.tipAt side]
  rcases h.row.slots_cases (v.row.tipAt side) with ⟨hs, hs'⟩ | ⟨s, s', hs, hs', he⟩
  · rw [hs, hs']
    exact .ok rfl h
  · rw [hs, hs']
    exact .ok (congrArg some he) (h.access hnodup hnodup' write hs hs' he)

theorem get (i : Nat) (write : Option α) : Agree Eq (v.get i write) (v'.get i write) := by
  rw [View.get, View.get, h.row.length]
  rcases h.row.slots_cases i with ⟨hs, hs'⟩ | ⟨s, s', hs, hs', he⟩
  · rw [hs, hs']
    exact .ok rfl h
  · rw [hs, hs']
    exact .ok (congrArg Except.ok he) (h.access hnodup hnodup' write hs hs' he)

/-- The entry under the cursor is the first one that is due, at the same position in both. -/
theorem cursorNext (write : Option α) : Agree Eq (v.cursorNext write) (v'.cursorNext write) := by
  have hdue := h.row.due
  rw [View.cursorNext, View.cursorNext]
  cases hd : v.row.due with
  | nil =>
    rw [hd] at hdue
    rw [List.map_eq_nil_iff.1 hdue.symm]
    exact .ok rfl h
  | cons s rest =>
    rw [hd] at hdue
    obtain ⟨s', rest', hd', he, -⟩ := List.map_eq_cons_iff.1 hdue.symm
    have hs : v.row.advance.slots[v.row.passed.length]? = some s := by
      rw [Row.slots_advance, Row.slots, hd]
      simp
    have hs' : v'.row.advance.slots[v.row.passed.length]? = some s' := by
      rw [Row.slots_advance, Row.slots, hd', h.row.length_passed]
      simp
    have hadvance : ∀ u : View σ α, u.row.handles.Nodup → u.row.advance.handles.Nodup := by
      intro u hu
      rwa [Row.handles, Row.slots_advance]
    rw [hd']
    exact .ok (congrArg some he.symm) ((h.withRow h.row.advance).access (hadvance v hnodup)
      (hadvance v' hnodup') write hs hs' he.symm)

end Entries

theorem getRelative (h : v.Twin v') (i : Int64) : Agree Eq (v.getRelative i) (v'.getRelative i) := by
  refine .ok ?_ h
  rw [h.row.length, Option.map_bind, Option.map_bind]
  refine congrArg _ (funext fun j => ?_)
  exact (Row.getElem?_entries ..).symm.trans
    ((congrArg (·[j]?) h.row.entries).trans (Row.getElem?_entries ..))

theorem cursorReset (h : v.Twin v') : v.cursorReset.Twin v'.cursorReset := by
  rw [View.cursorReset, View.cursorReset, h.row.length]
  exact (h.withRow h.row.rewind).log (.cursorReset v'.row.length)

end View.Twin

end LinkedDeque
