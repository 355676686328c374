import LinkedDeque.Allocator
import LinkedDeque.Chain
import LinkedDeque.Destructors

/-!
# LinkedDeque.Machine

The state in which list operations run, and their basic steps:

* `Machine` — a linkage with the list in hand, its destructors, the allocator, and the events so
  far.
* `Act`     — an operation. One that panics keeps everything it did before.
* `linking` — an operation on the links, as one of the machine.
* `emit`, `ask`, `dispose`, `allocate` — record an event, call a callback, destroy a payload, make a
  node.
* `onChain` — an operation on another chain of the same heap.
-/

namespace LinkedDeque

/-- A list in use: its linkage and destructors, the allocator, and what happened so far. -/
structure Machine (σ α : Type) where
  linkage : Linkage α
  destructors : Destructors σ α
  allocator : Allocator
  trace : Array (Event α)

/-- An operation on the list in hand. One that panics keeps everything it did before. -/
abbrev Act (σ α : Type) := EStateM Panic (Machine σ α)

variable {σ τ α β ο : Type}

namespace Act

/-- An operation on the linkage; its fault is a panic. -/
def linking (act : LinkM α β) : Act σ α β := fun ⟨linkage, destructors, allocator, trace⟩ =>
  match act.run linkage with
  | .ok b linkage => .ok b ⟨linkage, destructors, allocator, trace⟩
  | .error f linkage => .error (.fault f) ⟨linkage, destructors, allocator, trace⟩

def read (f : Linkage α → Except Fault β) : Act σ α β := linking (.read f)

def length : Act σ α Nat := fun m => .ok m.linkage.length m

def tip? (side : Side) : Act σ α (Option Handle) := fun m => .ok (m.linkage.tip? side) m

def emit (e : Event α) : Act σ α Unit := fun ⟨linkage, destructors, allocator, trace⟩ =>
  .ok () ⟨linkage, destructors, allocator, trace.push e⟩

def log (line : Log) : Act σ α Unit := emit (.logged line)

/-- Calls a callback on an entry: its answer, and the callback as the call leaves it. -/
def ask (f : Callback τ (Entry α) ο) (e : Entry α) : Act σ α (ο × Callback τ (Entry α) ο) := do
  emit (.called e)
  match f.call e with
  | (.returns answer, f) => return (answer, f)
  | (.panics report, _) => throw (.callback report)

/-- Destroys a payload with the destructor in force. The payload is gone also when that panics. -/
def dispose (v : α) : Act σ α Unit := fun ⟨linkage, destructors, allocator, trace⟩ =>
  let (fate, reply, destructors) := destructors.dispose v
  let trace := trace.push (.left fate v)
  match reply with
  | .returns () => .ok () ⟨linkage, destructors, allocator, trace⟩
  | .panics report => .error (.destructor report) ⟨linkage, destructors, allocator, trace⟩

/-- Puts a destructor in force ahead of the list's own, for one operation. -/
def withOverride (d : Option (Destructor σ α)) (act : Act σ α β) : Act σ α β :=
  fun ⟨linkage, destructors, allocator, trace⟩ =>
    match act.run ⟨linkage, { destructors with override := d }, allocator, trace⟩ with
    | .ok b ⟨linkage, destructors, allocator, trace⟩ =>
      .ok b ⟨linkage, { destructors with override := none }, allocator, trace⟩
    | .error p ⟨linkage, destructors, allocator, trace⟩ =>
      .error p ⟨linkage, { destructors with override := none }, allocator, trace⟩

/-- Makes a detached node for an entry, unless the allocator refuses. -/
def allocate (e : Entry α) : Act σ α (Option Handle) :=
  fun ⟨linkage, destructors, allocator, trace⟩ =>
    let (refused, allocator) := allocator.attempt
    if refused then
      .ok none ⟨linkage, destructors, allocator, trace.push (.logged (.refused e.byteLen))⟩
    else
      (some <$> linking (.create e)).run ⟨linkage, destructors, allocator, trace⟩

/-- Runs an operation on another chain, which has no destructors; answers that chain as well. -/
def onChain (chain : Chain) (act : Act σ α β) : Act σ α (β × Chain) :=
  fun ⟨⟨heap, own⟩, destructors, allocator, trace⟩ =>
    match act.run ⟨⟨heap, chain⟩, .none, allocator, trace⟩ with
    | .ok b ⟨⟨heap, chain⟩, _, allocator, trace⟩ =>
      .ok (b, chain) ⟨⟨heap, own⟩, destructors, allocator, trace⟩
    | .error p ⟨⟨heap, _⟩, _, allocator, trace⟩ =>
      .error p ⟨⟨heap, own⟩, destructors, allocator, trace⟩

/-! The steps run on a machine. -/

section Run

variable (m : Machine σ α)

theorem run_linking_ok {act : LinkM α β} {b : β} {l : Linkage α} (h : act.run m.linkage = .ok b l) :
    (linking act : Act σ α β).run m = .ok b { m with linkage := l } := by
  simp [linking, EStateM.run] at h ⊢
  simp [h]

theorem run_linking_error {act : LinkM α β} {f : Fault} {l : Linkage α}
    (h : act.run m.linkage = .error f l) :
    (linking act : Act σ α β).run m = .error (.fault f) { m with linkage := l } := by
  simp [linking, EStateM.run] at h ⊢
  simp [h]

theorem run_read_ok {f : Linkage α → Except Fault β} {b : β} (h : f m.linkage = .ok b) :
    (read f : Act σ α β).run m = .ok b m :=
  run_linking_ok m (LinkM.run_read_ok m.linkage h)

@[simp] theorem run_length : (length : Act σ α Nat).run m = .ok m.linkage.length m := rfl

@[simp] theorem run_tip? (side : Side) :
    (tip? side : Act σ α (Option Handle)).run m = .ok (m.linkage.tip? side) m := rfl

@[simp] theorem run_emit (e : Event α) :
    (emit e : Act σ α Unit).run m = .ok () { m with trace := m.trace.push e } := rfl

end Run

end Act

end LinkedDeque
