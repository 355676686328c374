import LinkedDeque.Inspect

/-!
# LinkedDeque.Node

The nodes of a doubly linked chain:

* `Side`   — one of the two directions along a chain, `before` toward the head, `after` toward the
  tail.
* `Handle` — the name by which nodes refer to each other.
* `Entry`  — a payload with the byte length recorded for it when it was inserted.
* `Node`   — an entry and one optional link per side.

Everything that a chain does to its two directions is written once, for a `Side`.
-/

namespace LinkedDeque

/-- A direction along a chain: `before` leads to the head, `after` to the tail. -/
inductive Side where
  | before
  | after
deriving DecidableEq, Repr

namespace Side

def flip : Side → Side
  | before => after
  | after => before

@[simp] theorem flip_flip (s : Side) : s.flip.flip = s := by cases s <;> rfl

end Side

abbrev Handle := Nat

/-- A payload and the length in bytes recorded for it on insertion. -/
structure Entry (α : Type) where
  value : α
  byteLen : UInt64
deriving DecidableEq

/-- Overwrites the payload by a function of it; the recorded byte length stays. -/
def Entry.update {α : Type} (f : α → α) (e : Entry α) : Entry α := { e with value := f e.value }

/-- The inspected form of an entry, from that of its payload. -/
def Entry.inspect {α : Type} (value : α → Inspect) (e : Entry α) : Inspect :=
  .record "Entry" [("value", value e.value), ("byte_len", .num e.byteLen.toNat)] false

/-- An entry with links to its neighbours; a detached node has neither. -/
structure Node (α : Type) where
  entry : Entry α
  prev : Option Handle
  next : Option Handle

namespace Node

variable {α : Type}

def detached (entry : Entry α) : Node α := ⟨entry, none, none⟩

def link (side : Side) (n : Node α) : Option Handle :=
  match side with
  | .before => n.prev
  | .after => n.next

def setLink (side : Side) (v : Option Handle) (n : Node α) : Node α :=
  match side with
  | .before => { n with prev := v }
  | .after => { n with next := v }

/-- Overwrites the payload; the recorded byte length stays. -/
def setValue (v : α) (n : Node α) : Node α :=
  { n with entry := n.entry.update fun _ => v }

@[simp] theorem link_detached (s : Side) (e : Entry α) : (detached e).link s = none := by
  cases s <;> rfl

@[simp] theorem link_setLink_same (s : Side) (v : Option Handle) (n : Node α) :
    (n.setLink s v).link s = v := by cases s <;> rfl

@[simp] theorem link_setLink_flip (s : Side) (v : Option Handle) (n : Node α) :
    (n.setLink s.flip v).link s = n.link s := by cases s <;> rfl

@[simp] theorem link_flip_setLink (s : Side) (v : Option Handle) (n : Node α) :
    (n.setLink s v).link s.flip = n.link s.flip := by cases s <;> rfl

@[simp] theorem entry_setLink (s : Side) (v : Option Handle) (n : Node α) :
    (n.setLink s v).entry = n.entry := by cases s <;> rfl

@[simp] theorem link_setValue (s : Side) (v : α) (n : Node α) :
    (n.setValue v).link s = n.link s := by cases s <;> rfl

@[simp] theorem byteLen_setValue (v : α) (n : Node α) :
    (n.setValue v).entry.byteLen = n.entry.byteLen := rfl

end Node

end LinkedDeque
