import LinkedDeque.Machine
import LinkedDeque.Proofs.Moves

/-!
# LinkedDeque.Proofs.View

A machine seen as a row of entries, and what it means to read an operation off that:

* `View`    — a scene with everything else a machine has.
* `Reading` — what an operation comes to, and the view it leaves.
* `Leads`   — on every machine that shows a view, an operation comes to what a reading says, and the
  machine it leaves shows what the reading leaves. It never faults, unless the reading says so.

Readings compose as operations do (`Leads.bind`), so an operation is read step by step.
-/

namespace LinkedDeque

variable {σ τ α β γ ο : Type}

/-- A machine seen as a row of entries. -/
structure View (σ α : Type) extends Scene α where
  destructors : Destructors σ α
  allocator : Allocator
  trace : Array (Event α)

/-- What an operation comes to, and the view it leaves. -/
abbrev Reading (σ α β : Type) := Except Panic β × View σ α

namespace View

def machine (v : View σ α) (l : Linkage α) : Machine σ α :=
  ⟨l, v.destructors, v.allocator, v.trace⟩

def emit (e : Event α) (v : View σ α) : View σ α := { v with trace := v.trace.push e }

def log (line : Log) (v : View σ α) : View σ α := v.emit (.logged line)

def ask (f : Callback τ (Entry α) ο) (e : Entry α) (v : View σ α) :
    Reading σ α (ο × Callback τ (Entry α) ο) :=
  match f.call e with
  | (.returns answer, f) => (.ok (answer, f), v.emit (.called e))
  | (.panics report, _) => (.error (.callback report), v.emit (.called e))

def dispose (x : α) (v : View σ α) : Reading σ α Unit :=
  let (fate, reply, destructors) := v.destructors.dispose x
  let v : View σ α := { v with destructors, trace := v.trace.push (.left fate x) }
  match reply with
  | .returns () => (.ok (), v)
  | .panics report => (.error (.destructor report), v)

def withOverride (d : Option (Destructor σ α)) (f : View σ α → Reading σ α β) (v : View σ α) :
    Reading σ α β :=
  let (out, v) := f { v with destructors := { v.destructors with override := d } }
  (out, { v with destructors := { v.destructors with override := none } })

/-- A node made for an entry, unless the allocator refuses. -/
def allocate (e : Entry α) (v : View σ α) : Option Handle × View σ α :=
  let (refused, allocator) := v.allocator.attempt
  if refused then (none, { v with allocator }.log (.refused e.byteLen))
  else (some v.fresh, { v with
    allocator
    rest := v.rest.set v.fresh (some (.detached e))
    fresh := v.fresh + 1 })

@[simp] theorem toScene_emit (e : Event α) (v : View σ α) : (v.emit e).toScene = v.toScene := rfl

@[simp] theorem toScene_log (line : Log) (v : View σ α) : (v.log line).toScene = v.toScene := rfl

end View

/-- An operation that ended, with the machine it leaves. -/
def ending (out : Except Panic β) (m : Machine σ α) : EStateM.Result Panic (Machine σ α) β :=
  match out with
  | .ok b => .ok b m
  | .error p => .error p m

/-- On every machine that shows a view, an operation is as a reading says. -/
def Leads (act : Act σ α β) (v : View σ α) (r : Reading σ α β) : Prop :=
  ∀ l : Linkage α, l.Shows v.toScene →
    ∃ l', act.run (v.machine l) = ending r.1 (r.2.machine l') ∧ l'.Shows r.2.toScene

namespace Leads

variable {v v₁ : View σ α} {r : Reading σ α β}

theorem of_shows {act : Act σ α β} (h : ∀ l : Linkage α, l.Shows v.toScene → Leads act v r) :
    Leads act v r :=
  fun l hl => h l hl l hl

theorem pure (b : β) (v : View σ α) : Leads (Pure.pure b) v (.ok b, v) :=
  fun l hl => ⟨l, rfl, hl⟩

theorem throw (p : Panic) (v : View σ α) : Leads (throw p : Act σ α β) v (.error p, v) :=
  fun l hl => ⟨l, rfl, hl⟩

theorem bind {act : Act σ α β} {f : β → Act σ α γ} {b : β} {s : Reading σ α γ}
    (h : Leads act v (.ok b, v₁)) (hf : Leads (f b) v₁ s) : Leads (act >>= f) v s := by
  intro l hl
  obtain ⟨l₁, hrun, hl₁⟩ := h l hl
  obtain ⟨l₂, hrun', hl₂⟩ := hf l₁ hl₁
  refine ⟨l₂, ?_, hl₂⟩
  rw [EStateM.run_bind, hrun]
  exact hrun'

theorem bind_error {act : Act σ α β} {f : β → Act σ α γ} {p : Panic}
    (h : Leads act v (.error p, v₁)) : Leads (act >>= f) v (.error p, v₁) := by
  intro l hl
  obtain ⟨l₁, hrun, hl₁⟩ := h l hl
  refine ⟨l₁, ?_, hl₁⟩
  rw [EStateM.run_bind, hrun]
  rfl

theorem map {act : Act σ α β} {b : β} (f : β → γ) (h : Leads act v (.ok b, v₁)) :
    Leads (f <$> act) v (.ok (f b), v₁) := by
  rw [map_eq_pure_bind]
  exact h.bind (.pure _ _)

theorem linking {act : LinkM α β} {b : β} {s : Scene α}
    (h : ∀ l, l.Shows v.toScene → ∃ l', act.run l = .ok b l' ∧ l'.Shows s) :
    Leads (Act.linking act) v (.ok b, { v with toScene := s }) := by
  intro l hl
  obtain ⟨l', hrun, hl'⟩ := h l hl
  exact ⟨l', Act.run_linking_ok (v.machine l) hrun, hl'⟩

theorem linking_error {act : LinkM α β} {f : Fault}
    (h : ∀ l, l.Shows v.toScene → act.run l = .error f l) :
    Leads (Act.linking act) v (.error (.fault f), v) :=
  fun l hl => ⟨l, Act.run_linking_error (v.machine l) (h l hl), hl⟩

theorem read {f : Linkage α → Except Fault β} {b : β}
    (h : ∀ l, l.Shows v.toScene → f l = .ok b) : Leads (Act.read f) v (.ok b, v) :=
  fun l hl => ⟨l, Act.run_read_ok (v.machine l) (h l hl), hl⟩

theorem length (v : View σ α) : Leads Act.length v (.ok v.row.length, v) := by
  intro l hl
  refine ⟨l, ?_, hl⟩
  rw [Act.run_length, ← hl.length_eq]
  rfl

theorem tip? (side : Side) (v : View σ α) :
    Leads (Act.tip? side) v (.ok ((v.row.tip? side).map Slot.handle), v) := by
  intro l hl
  refine ⟨l, ?_, hl⟩
  rw [Act.run_tip?, ← hl.tip?_eq]
  rfl

/-- A walk starts from the first entry. -/
theorem front (v : View σ α) : Leads (Act.tip? .before) v (.ok (ahead v.row.slots none), v) := by
  have hfirst : (v.row.tip? .before).map Slot.handle = ahead v.row.slots none := by
    rw [ahead_eq_head?, handlesOf, List.head?_map]
    rfl
  rw [← hfirst]
  exact Leads.tip? .before v

/-- A walk is bounded by the number of handles that were given out. -/
theorem bound (v : View σ α) :
    Leads (Act.read fun l : Linkage α => .ok l.heap.size) v (.ok v.fresh, v) := by
  refine Leads.read ?_
  intro l hl
  rw [hl.size]

theorem emit (e : Event α) (v : View σ α) : Leads (Act.emit e) v (.ok (), v.emit e) :=
  fun l hl => ⟨l, rfl, hl⟩

theorem log (line : Log) (v : View σ α) : Leads (Act.log line) v (.ok (), v.log line) :=
  fun l hl => ⟨l, rfl, hl⟩

theorem ask (f : Callback τ (Entry α) ο) (e : Entry α) (v : View σ α) :
    Leads (Act.ask f e) v (v.ask f e) := by
  intro l hl
  refine ⟨l, ?_, ?_⟩
  · rw [Act.ask, EStateM.run_bind, Act.run_emit, View.ask]
    cases hcall : f.call e with
    | mk reply f' => cases reply <;> rfl
  · rw [View.ask]
    cases hcall : f.call e with
    | mk reply f' => cases reply <;> exact hl

theorem dispose (x : α) (v : View σ α) : Leads (Act.dispose x) v (v.dispose x) := by
  intro l hl
  refine ⟨l, ?_, ?_⟩
  · rw [View.dispose]
    cases hd : v.destructors.dispose x with
    | mk fate rest =>
      obtain ⟨reply, destructors⟩ := rest
      cases reply <;> simp [Act.dispose, EStateM.run, View.machine, hd, ending]
  · rw [View.dispose]
    cases hd : v.destructors.dispose x with
    | mk fate rest =>
      obtain ⟨reply, destructors⟩ := rest
      cases reply <;> exact hl

theorem withOverride (d : Option (Destructor σ α)) {act : Act σ α β}
    {f : View σ α → Reading σ α β} {v : View σ α}
    (h : Leads act { v with destructors := { v.destructors with override := d } }
      (f { v with destructors := { v.destructors with override := d } })) :
    Leads (Act.withOverride d act) v (v.withOverride d f) := by
  intro l hl
  obtain ⟨l', hrun, hl'⟩ := h l hl
  refine ⟨l', ?_, hl'⟩
  rw [View.withOverride]
  cases hf : f { v with destructors := { v.destructors with override := d } } with
  | mk out v' =>
    rw [hf] at hrun
    cases out <;> simp_all [Act.withOverride, EStateM.run, View.machine, ending]

theorem allocate (e : Entry α) (v : View σ α) :
    Leads (Act.allocate e) v (.ok (v.allocate e).1, (v.allocate e).2) := by
  intro l hl
  obtain ⟨l', hrun, hl'⟩ := LinkM.create_shows hl e
  cases href : v.allocator.attempt with
  | mk refused allocator =>
    cases refused with
    | true =>
      refine ⟨l, ?_, ?_⟩
      · simp [Act.allocate, View.allocate, EStateM.run, View.machine, href, ending, View.log,
          View.emit]
      · simpa [View.allocate, href] using hl
    | false =>
      refine ⟨l', ?_, ?_⟩
      · have hmake : (some <$> Act.linking (.create e) : Act σ α (Option Handle)).run
            { v.machine l with allocator } = .ok (some v.fresh) ⟨l', v.destructors, allocator, v.trace⟩ := by
          rw [map_eq_pure_bind, EStateM.run_bind, Act.run_linking_ok _ hrun]
          rfl
        simp only [Act.allocate, View.machine, EStateM.run] at hmake ⊢
        simp only [href, View.allocate]
        exact hmake
      · simpa [View.allocate, href] using hl'

end Leads

end LinkedDeque
