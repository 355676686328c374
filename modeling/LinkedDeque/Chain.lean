import LinkedDeque.Count
import LinkedDeque.Fault
import LinkedDeque.Heap

/-!
# LinkedDeque.Chain

A chain of nodes in a heap, and the primitives that link and unlink one node:

* `Ends`    — what a chain records of its nodes: nothing, or a count with the first and last node.
* `Chain`   — the ends and the cursor, which names the node that iteration would yield next.
* `Linkage` — a heap with one chain in it; the other chains of the heap are only seen as nodes.
* `LinkM`   — operations on a linkage. A failed check stops an operation and keeps what was written.
* `attach`, `detach` — link a node beside an anchor, and cut one out.
* `unlink`, `take`   — cut a node out so that the cursor never names it, and free it as well.

Both directions of a chain obey one text: an operation names a `Side` and its flip.
-/

namespace LinkedDeque

/-- The record of a non-empty chain: how many nodes it has, and its two ends. -/
structure Span where
  len : Count
  head : Handle
  tail : Handle
deriving DecidableEq

namespace Span

def tip (side : Side) (s : Span) : Handle :=
  match side with
  | .before => s.head
  | .after => s.tail

def setTip (side : Side) (h : Handle) (s : Span) : Span :=
  match side with
  | .before => { s with head := h }
  | .after => { s with tail := h }

def lastIndex (s : Span) : Nat := s.len.val - 1

@[simp] theorem tip_setTip_same (side : Side) (h : Handle) (s : Span) :
    (s.setTip side h).tip side = h := by cases side <;> rfl

@[simp] theorem tip_setTip_flip (side : Side) (h : Handle) (s : Span) :
    (s.setTip side.flip h).tip side = s.tip side := by cases side <;> rfl

@[simp] theorem len_setTip (side : Side) (h : Handle) (s : Span) :
    (s.setTip side h).len = s.len := by cases side <;> rfl

end Span

/-- What a chain records of its nodes. -/
inductive Ends where
  | empty
  | full (span : Span)
deriving DecidableEq

namespace Ends

def length : Ends → Nat
  | empty => 0
  | full span => span.len.val

/-- The end on one side, which an empty chain does not have. -/
def tip? (side : Side) : Ends → Option Handle
  | empty => none
  | full span => some (span.tip side)

def isEmpty : Ends → Bool
  | empty => true
  | full _ => false

end Ends

/-- The ends of a chain and the node that its cursor would yield next. -/
structure Chain where
  ends : Ends
  cursor : Option Handle
deriving DecidableEq

namespace Chain

def empty : Chain := ⟨.empty, none⟩

end Chain

/-- A heap and one chain of its nodes. -/
structure Linkage (α : Type) where
  heap : Heap α
  chain : Chain

variable {α β : Type}

namespace Linkage

/-- The neighbour of a node on one side; a freed node is a fault. -/
def link (l : Linkage α) (side : Side) (h : Handle) : Except Fault (Option Handle) :=
  match l.heap.get? h with
  | some n => .ok (n.link side)
  | none => .error (.dangling h)

def entry (l : Linkage α) (h : Handle) : Except Fault (Entry α) :=
  match l.heap.get? h with
  | some n => .ok n.entry
  | none => .error (.dangling h)

def length (l : Linkage α) : Nat := l.chain.ends.length

def isEmpty (l : Linkage α) : Bool := l.chain.ends.isEmpty

def tip? (l : Linkage α) (side : Side) : Option Handle := l.chain.ends.tip? side

end Linkage

/-- An operation on a linkage. One that faults keeps the writes it made before. -/
abbrev LinkM (α : Type) := EStateM Fault (Linkage α)

namespace LinkM

def read (f : Linkage α → Except Fault β) : LinkM α β := fun l =>
  match f l with
  | .ok b => .ok b l
  | .error e => .error e l

def getLink (side : Side) (h : Handle) : LinkM α (Option Handle) := read (·.link side h)

def ends : LinkM α Ends := fun l => .ok l.chain.ends l

def cursor : LinkM α (Option Handle) := fun l => .ok l.chain.cursor l

def setEnds (ends : Ends) : LinkM α Unit := fun ⟨heap, chain⟩ =>
  .ok () ⟨heap, { chain with ends }⟩

def setCursor (cursor : Option Handle) : LinkM α Unit := fun ⟨heap, chain⟩ =>
  .ok () ⟨heap, { chain with cursor }⟩

def check (condition : Bool) (f : Fault) : LinkM α Unit := fun l =>
  if condition then .ok () l else .error f l

def update (h : Handle) (f : Node α → Node α) : LinkM α Unit := fun ⟨heap, chain⟩ =>
  match heap.get? h with
  | some n => .ok () ⟨heap.put h (f n), chain⟩
  | none => .error (.dangling h) ⟨heap, chain⟩

def setLink (side : Side) (h : Handle) (v : Option Handle) : LinkM α Unit :=
  update h (·.setLink side v)

/-- Overwrites the payload of a node; its recorded byte length stays. -/
def setValue (h : Handle) (v : α) : LinkM α Unit :=
  update h (·.setValue v)

def create (e : Entry α) : LinkM α Handle := fun ⟨heap, chain⟩ =>
  let (h, heap) := heap.alloc (.detached e)
  .ok h ⟨heap, chain⟩

def release (h : Handle) : LinkM α (Entry α) := fun ⟨heap, chain⟩ =>
  match heap.get? h with
  | some n => .ok n.entry ⟨heap.free h, chain⟩
  | none => .error (.dangling h) ⟨heap, chain⟩

/-- The ends of a chain have no neighbours beyond them. -/
def checkEnds : LinkM α Unit := do
  match ← ends with
  | .empty => return ()
  | .full span =>
    check (← getLink .before span.head).isNone (.beyondTheEnd .before)
    check (← getLink .after span.tail).isNone (.beyondTheEnd .after)

/-! Each primitive run on a linkage. -/

section Run

variable (l : Linkage α) (h : Handle)

theorem run_read_ok {f : Linkage α → Except Fault β} {b : β} (hf : f l = .ok b) :
    (read f).run l = .ok b l := by simp [read, EStateM.run, hf]

theorem run_read_error {f : Linkage α → Except Fault β} {e : Fault} (hf : f l = .error e) :
    (read f).run l = .error e l := by simp [read, EStateM.run, hf]

@[simp] theorem run_ends : (ends : LinkM α Ends).run l = .ok l.chain.ends l := rfl

@[simp] theorem run_cursor : (cursor : LinkM α (Option Handle)).run l = .ok l.chain.cursor l := rfl

@[simp] theorem run_setEnds (e : Ends) :
    (setEnds e).run l = .ok () ⟨l.heap, { l.chain with ends := e }⟩ := rfl

@[simp] theorem run_setCursor (c : Option Handle) :
    (setCursor c).run l = .ok () ⟨l.heap, { l.chain with cursor := c }⟩ := rfl

@[simp] theorem run_check_true (f : Fault) : (check true f).run l = .ok () l := rfl

@[simp] theorem run_check_false (f : Fault) : (check false f).run l = .error f l := rfl

@[simp] theorem run_create (e : Entry α) :
    (create e).run l =
      .ok (l.heap.alloc (.detached e)).1 ⟨(l.heap.alloc (.detached e)).2, l.chain⟩ := rfl

variable {l h}

theorem run_getLink {n : Node α} (side : Side) (hn : l.heap.get? h = some n) :
    (getLink side h).run l = .ok (n.link side) l :=
  run_read_ok l (by simp [Linkage.link, hn])

theorem run_update {n : Node α} (f : Node α → Node α) (hn : l.heap.get? h = some n) :
    (update h f).run l = .ok () ⟨l.heap.put h (f n), l.chain⟩ := by
  simp [update, EStateM.run, hn]

theorem run_release {n : Node α} (hn : l.heap.get? h = some n) :
    (release h).run l = .ok n.entry ⟨l.heap.free h, l.chain⟩ := by
  simp [release, EStateM.run, hn]

end Run

/--
Links a detached node beside an anchor, on the given side of it. Without an anchor the node becomes
the end of the chain on that side; in an empty chain it becomes both ends, and there is no anchor to
name.
-/
def attach (node : Handle) (anchor : Option Handle) (side : Side) : LinkM α Unit := do
  let prev ← getLink .before node
  let next ← getLink .after node
  check (prev.isNone && next.isNone) .linkedNode
  match ← ends with
  | .empty =>
    check anchor.isNone .anchorInEmpty
    setEnds (.full ⟨.one, node, node⟩)
  | .full span =>
    match span.len.add? 1 with
    | none => throw .capacity
    | some len =>
      let span := { span with len }
      let anchor := anchor.getD (span.tip side)
      setLink side.flip node (some anchor)
      let beyond ← getLink side anchor
      setLink side node beyond
      match beyond with
      | some neighbour =>
        setEnds (.full span)
        setLink side.flip neighbour (some node)
      | none => setEnds (.full (span.setTip side node))
      setLink side anchor (some node)
  checkEnds

/--
Closes the gap that a node leaves on one side. Its neighbour there is linked to the node's opposite
neighbour. A node without a neighbour must be the end on that side, and the opposite neighbour
becomes that end.
-/
def bridge (side : Side) (node : Handle) (neighbour opposite : Option Handle) (span : Span) :
    LinkM α Span :=
  match neighbour with
  | some n => do
    setLink side.flip n opposite
    return span
  | none => do
    check (span.tip side == node) (.notTheEnd side)
    match opposite with
    | some o => return span.setTip side o
    | none => throw .missingLink

/--
Cuts a node out of the chain: its neighbours are linked to each other, an end that was the node
moves inward, and the node's own links are cleared. Its entry stays, and so does the cursor.
-/
def detach (node : Handle) : LinkM α Unit := do
  match ← ends with
  | .empty => throw .emptyChain
  | .full span =>
    match span.len.sub? 1 with
    | none =>
      check (span.head == node && span.tail == node) .notTheOnlyNode
      setEnds .empty
    | some len =>
      let prev ← getLink .before node
      let next ← getLink .after node
      let span ← bridge .after node next prev span
      let span ← bridge .before node prev next span
      setEnds (.full { span with len })
  setLink .before node none
  setLink .after node none
  checkEnds

/-- Cuts a node out of the chain; a cursor on it moves on to the next node. -/
def unlink (node : Handle) : LinkM α Unit := do
  if (← cursor) == some node then
    setCursor (← getLink .after node)
  detach node

/-- Cuts a node out of the chain, frees it and hands its entry out. -/
def take (node : Handle) : LinkM α (Entry α) := do
  unlink node
  release node

end LinkM

end LinkedDeque
