import LinkedDeque.Deque.Cursor
import LinkedDeque.Deque.Join
import LinkedDeque.Deque.Map

/-!
# LinkedDeque.World

Any number of lists over one heap, and the operations on them:

* `Op`     — an operation on one list, with all its arguments.
* `Answer` — what an operation answers when it does not panic.
* `Step`   — making a list, an operation on a list, or a new pattern of refused allocations.
* `World.step`, `World.run` — one step, and several in a row. A panic ends its step only: the state
  it left is what the next step starts from.
-/

namespace LinkedDeque

/-- All lists ever made, with the heap they share. A list that ended has an empty place. -/
structure World (σ α : Type) where
  heap : Heap α
  allocator : Allocator
  lists : Array (Option (Deque σ α))

/-- An operation on one list. -/
inductive Op (σ α : Type) where
  | length
  | isEmpty
  | push (side : Side) (v : α) (byteLen : ByteLen)
  | pop (side : Side)
  | peek (side : Side) (write : Option α)
  | get (index : Nat) (write : Option α)
  | getRelative (index : Int64)
  | eraseIdx (index : Nat) (override : Option (Destructor σ α))
  | takeIdx (index : Nat)
  | insertIdx (index : Nat) (v : α) (byteLen : UInt64)
  | cursorReset
  | cursorNext (write : Option α)
  | cursorFirst (write : Option α)
  | visitEach (visitor : Callback σ (Entry α) Flow)
  | eraseWhere (predicate : Callback σ (Entry α) Bool) (override : Option (Destructor σ α))
  | map (transform : Callback σ (Entry α) (Entry α))
  | join (refuses : Deque.Growth) (delimiter : String)
  | destroy (override : Option (Destructor σ α))

/-- What an operation answers. -/
inductive Answer (α : Type) where
  | done
  | count (n : Nat)
  | flag (b : Bool)
  | entry (e : Option (Entry α))
  | text (s : String)
  | list (k : Nat)
  | indexError (e : IndexError)
  | insertError (e : InsertError α)
  | allocError
  | absent

namespace Op

variable {σ α : Type} [AsBytes α] [AsText α]

def endsList : Op σ α → Bool
  | destroy _ => true
  | _ => false

def inserted : Except (InsertError α) Unit → Answer α
  | .ok () => .done
  | .error e => .insertError e

def indexed {β : Type} (answer : β → Answer α) : Except IndexError β → Answer α
  | .ok b => answer b
  | .error e => .indexError e

/-- Carries an operation out on the list in hand. Answers also the chain of a new list, if one was
made; its number is not known here. -/
def act : Op σ α → Act σ α (Answer α × Option Chain)
  | length => do return (.count (← Act.length), none)
  | isEmpty => do return (.flag (← Act.read fun l => .ok l.isEmpty), none)
  | push side v byteLen => do return (inserted (← Deque.push side v (byteLen.resolve v)), none)
  | pop side => do return (.entry (← Deque.pop side), none)
  | peek side write => do return (.entry (← Deque.peek side write), none)
  | get index write => do return (indexed (.entry ∘ some) (← Deque.get index write), none)
  | getRelative index => do return (.entry (← Deque.getRelative index), none)
  | eraseIdx index override => do
    return (indexed (fun () => .done) (← Deque.eraseIdx index override), none)
  | takeIdx index => do return (indexed (.entry ∘ some) (← Deque.takeIdx index), none)
  | insertIdx index v byteLen => do return (inserted (← Deque.insertIdx index v byteLen), none)
  | cursorReset => do
    Deque.cursorReset
    return (.done, none)
  | cursorNext write => do return (.entry (← Deque.cursorNext write), none)
  | cursorFirst write => do return (.entry (← Deque.cursorFirst write), none)
  | visitEach visitor => do return (.count (← Deque.visitEach visitor).1, none)
  | eraseWhere predicate override => do
    return (.count (← Deque.eraseWhere predicate override).1, none)
  | map transform => do
    match (← Deque.map transform).1 with
    | none => return (.allocError, none)
    | some chain => return (.done, some chain)
  | join refuses delimiter => do
    match ← Deque.join refuses delimiter with
    | none => return (.allocError, none)
    | some s => return (.text s, none)
  | destroy none => do
    Deque.destroy
    return (.done, none)
  | destroy (some d) => do
    Deque.destroyWith d
    return (.done, none)

end Op

/-- One step of a run. -/
inductive Step (σ α : Type) where
  /-- Makes a list, with or without a destructor of its own. -/
  | create (default : Option (Destructor σ α))
  | use (k : Nat) (op : Op σ α)
  /-- Sets the pattern of refused allocations, counted from here. -/
  | arm (refuses : Nat → Bool)

/-- What a step comes to, and the events during it. -/
structure Outcome (α : Type) where
  result : Except Panic (Answer α)
  events : Array (Event α)

namespace World

variable {σ α : Type}

def start : World σ α := ⟨.empty, .generous, #[]⟩

def list? (w : World σ α) (k : Nat) : Option (Deque σ α) := w.lists[k]?.join

def linkage (w : World σ α) (d : Deque σ α) : Linkage α := ⟨w.heap, d.chain⟩

variable [AsBytes α] [AsText α]

def use (k : Nat) (op : Op σ α) : World σ α → Outcome α × World σ α
  | ⟨heap, allocator, lists⟩ =>
    match lists[k]?.join with
    | none => (⟨.ok .absent, #[]⟩, ⟨heap, allocator, lists⟩)
    | some d =>
      match op.act.run ⟨⟨heap, d.chain⟩, .ofDefault d.default, allocator, #[]⟩ with
      | .ok (answer, made) ⟨⟨heap, chain⟩, ds, allocator, events⟩ =>
        let left := if op.endsList then none else some ⟨chain, ds.default⟩
        let lists := lists.setIfInBounds k left
        match made with
        | none => (⟨.ok answer, events⟩, ⟨heap, allocator, lists⟩)
        | some chain =>
          (⟨.ok (.list lists.size), events⟩, ⟨heap, allocator, lists.push (some ⟨chain, none⟩)⟩)
      | .error p ⟨⟨heap, chain⟩, ds, allocator, events⟩ =>
        let left := if op.endsList then none else some ⟨chain, ds.default⟩
        (⟨.error p, events⟩, ⟨heap, allocator, lists.setIfInBounds k left⟩)

def step (s : Step σ α) (w : World σ α) : Outcome α × World σ α :=
  match s with
  | .create default =>
    (⟨.ok (.list w.lists.size), #[]⟩, { w with lists := w.lists.push (some ⟨.empty, default⟩) })
  | .use k op => w.use k op
  | .arm refuses => (⟨.ok .done, #[]⟩, { w with allocator := .ofPattern refuses })

def run : List (Step σ α) → World σ α → List (Outcome α) × World σ α
  | [], w => ([], w)
  | s :: rest, w =>
    let (outcome, w) := w.step s
    let (outcomes, w) := run rest w
    (outcome :: outcomes, w)

end World

end LinkedDeque
