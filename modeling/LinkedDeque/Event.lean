import LinkedDeque.Node

/-!
# LinkedDeque.Event

What happens while lists are used, in order:

* `Fate`  — where a payload goes when it leaves a list, or does not get into one.
* `Log`   — a line of the log, with its text.
* `Event` — a call of a callback, a payload that comes or goes, or a log line.

Every payload that a caller hands over, or a transform makes, comes with one `entered` event, and
has one `left` event once it is neither in a list nor in a node that was abandoned.
-/

namespace LinkedDeque

/-- The two places a destructor may come from. -/
inductive Tier where
  | default
  /-- The destructor given with a call, which takes precedence. -/
  | override
deriving DecidableEq

/-- Where a payload goes. -/
inductive Fate where
  | returned
  | replaced
  /-- To a destructor, which may be the plain drop. -/
  | destroyed (tier : Tier) (byDrop : Bool)
  /-- It is dropped by a transformation that could not place it. -/
  | dropped
  | forgotten
deriving DecidableEq

/-- A line of the log. -/
inductive Log where
  | push (side : Side) (byteLen : UInt64) (len : Nat)
  | pop (side : Side) (len : Nat)
  | take (index len : Nat)
  | erase (index len : Nat)
  | insert (index len : Nat)
  | cursorReset (len : Nat)
  | visit (visited len : Nat)
  | eraseWhere (removed len : Nat)
  | map (len : Nat)
  | join (appended bytes : Nat)
  | destroy (len : Nat)
  | refused (byteLen : UInt64)
deriving DecidableEq

def Side.name : Side → String
  | before => "Before"
  | after => "After"

def Log.text : Log → String
  | push side byteLen len => s!"TRACE push side={side.name} byte_len={byteLen.toNat} len={len}"
  | pop side len => s!"TRACE pop side={side.name} len={len}"
  | take index len => s!"TRACE take_nth index={index} len={len}"
  | erase index len => s!"TRACE remove_nth index={index} len={len}"
  | insert index len => s!"TRACE try_insert index={index} len={len}"
  | cursorReset len => s!"TRACE cursor_reset len={len}"
  | visit visited len => s!"DEBUG foreach visited={visited} len={len}"
  | eraseWhere removed len => s!"DEBUG foreach_remove removed={removed} len={len}"
  | map len => s!"DEBUG map len={len}"
  | join appended bytes => s!"DEBUG join appended={appended} bytes={bytes}"
  | destroy len => s!"DEBUG destroyed list entries len={len}"
  | refused byteLen => s!"WARN failed to allocate a list entry byte_len={byteLen.toNat}"

/-- What happens while a list is used. -/
inductive Event (α : Type) where
  /-- A visitor, predicate or transform is called on an entry. -/
  | called (e : Entry α)
  /-- A payload is handed over to a list, or made for one. -/
  | entered (v : α)
  | left (fate : Fate) (v : α)
  | logged (line : Log)

end LinkedDeque
