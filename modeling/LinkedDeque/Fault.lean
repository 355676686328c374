import LinkedDeque.Node

/-!
# LinkedDeque.Fault

Why an operation on nodes and links stops short:

* `Fault`  — a check on the links of a chain that failed, each with the text it reports.
* `Panic`  — everything that stops a list operation: a fault, or the caller's own code.

Every check is made, also those that a build for speed leaves out.
-/

namespace LinkedDeque

/-- A failed check of the chain primitives. -/
inductive Fault where
  /-- The node to insert has a neighbour already. -/
  | linkedNode
  /-- An anchor was named although the chain has no nodes. -/
  | anchorInEmpty
  /-- The chain records as many nodes as a count can hold. -/
  | capacity
  /-- A node was to leave a chain without nodes. -/
  | emptyChain
  /-- The node to unlink is not the single node of the chain. -/
  | notTheOnlyNode
  /-- The node to unlink has no neighbour on this side and is not the end there. -/
  | notTheEnd (side : Side)
  /-- A link that the length of the chain promises is missing. -/
  | missingLink
  /-- The end on this side has a neighbour beyond it. -/
  | beyondTheEnd (side : Side)
  /-- The next node has no link back. -/
  | missingBackLink
  /-- The next node links back to another node. -/
  | brokenBackLink
  /-- The walk toward this side ended at another node than the end there. -/
  | strayWalk (side : Side)
  /-- The walk toward this side met another number of nodes than the chain records. -/
  | wrongLength (side : Side) (found recorded : Nat)
  /-- A position was counted back from the last one although it lies behind it. -/
  | indexPastEnd
  /-- A handle was used after its node was freed. -/
  | dangling (h : Handle)
  /-- A walk took more steps than there are nodes. -/
  | endless
deriving DecidableEq

/-- The text for two numbers that should have been equal. -/
def Fault.mismatch (what : String) (found recorded : Nat) : String :=
  s!"assertion `left == right` failed: {what}\n  left: {found}\n right: {recorded}"

def Fault.message : Fault → String
  | linkedNode => "assertion failed: node.prev().is_none() && node.next().is_none()"
  | anchorInEmpty => "anchor given for an empty chain"
  | capacity => "Capacity overflow!"
  | emptyChain => "unlink called on an empty chain"
  | notTheOnlyNode => "assertion failed: contents.head == node && contents.tail == node"
  | notTheEnd .before => "assertion failed: contents.head == node"
  | notTheEnd .after => "assertion failed: contents.tail == node"
  | missingLink => "internal error: entered unreachable code"
  | beyondTheEnd .before => "head has a previous node"
  | beyondTheEnd .after => "tail has a next node"
  | missingBackLink => "called `Option::unwrap()` on a `None` value"
  | brokenBackLink => "broken back link"
  | strayWalk .after => "forward walk didn't end at the tail"
  | strayWalk .before => "backward walk didn't end at the head"
  | wrongLength .after found recorded => mismatch "length doesn't match the chain" found recorded
  | wrongLength .before found recorded =>
    mismatch "backward walk length doesn't match" found recorded
  | indexPastEnd => "attempt to subtract with overflow"
  | dangling h => s!"node {h} was used after it was freed"
  | endless => "the walk never ends"

def Fault.require {β : Type} (f : Fault) : Option β → Except Fault β
  | some b => .ok b
  | none => .error f

/-- What stops a list operation before it is through. -/
inductive Panic where
  /-- A visitor, predicate or transform gave up with a report. -/
  | callback (report : String)
  | destructor (report : String)
  | fault (f : Fault)
deriving DecidableEq

/-- The text a panic reports. What the caller's own code reports is passed on as it is. -/
def Panic.message : Panic → String
  | callback report => report
  | destructor report => report
  | fault f => f.message

end LinkedDeque
