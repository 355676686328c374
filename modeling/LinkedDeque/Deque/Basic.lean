import LinkedDeque.Chain.Position
import LinkedDeque.Error
import LinkedDeque.Machine

/-!
# LinkedDeque.Deque.Basic

The list type, and its operations on single entries: adding and removing at either end, reading and
overwriting, and the same at a position.

A payload enters with its call. An operation that refuses it, or that removes an entry for the
caller, returns it; only erasing an entry destroys a payload.
-/

namespace LinkedDeque

/-- A list between two operations: its chain, and the destructor of its own. -/
structure Deque (σ α : Type) where
  chain : Chain
  default : Option (Destructor σ α)

namespace Deque

open Act

variable {σ α : Type}

def link (side : Side) (h : Handle) (byteLen : UInt64) : Act σ α Unit := do
  linking (.attach h none side)
  log (.push side byteLen (← length))

/-- Adds an entry at one end, unless there is no memory for its node. The node is made first. -/
def append (side : Side) (e : Entry α) : Act σ α Bool := do
  match ← allocate e with
  | none => return false
  | some h =>
    link side h e.byteLen
    return true

def refuse (v : α) (failure : InsertFailure) : Act σ α (Except (InsertError α) Unit) := do
  emit (.left .returned v)
  return .error ⟨v, failure⟩

def push (side : Side) (v : α) (byteLen : UInt64) : Act σ α (Except (InsertError α) Unit) := do
  emit (.entered v)
  if ← append side ⟨v, byteLen⟩ then return .ok () else refuse v .alloc

def pop (side : Side) : Act σ α (Option (Entry α)) := do
  match ← tip? side with
  | none => return none
  | some h =>
    let e ← linking (.take h)
    emit (.left .returned e.value)
    log (.pop side (← length))
    return some e

/-- Reads the entry of a node, and overwrites its payload if another one is given. Whoever holds an entry
may write its payload only: putting another entry in its place as a whole, byte length included, is left
out. -/
def access (write : Option α) (h : Handle) : Act σ α (Entry α) := do
  let e ← read (·.entry h)
  match write with
  | none => return e
  | some v =>
    emit (.entered v)
    linking (.setValue h v)
    emit (.left .replaced e.value)
    return e

/-- Reads the entry at one end, and overwrites its payload if another one is given. -/
def peek (side : Side) (write : Option α) : Act σ α (Option (Entry α)) := do
  match ← tip? side with
  | none => return none
  | some h => some <$> access write h

/-- Reads the entry at a position, and overwrites its payload if another one is given. -/
def get (index : Nat) (write : Option α) : Act σ α (Except IndexError (Entry α)) := do
  match ← read (·.find index) with
  | none => return .error ⟨index, ← length⟩
  | some h => .ok <$> access write h

/-- Reads the entry at a signed position, where negative ones count from the tail. -/
def getRelative (index : Int64) : Act σ α (Option (Entry α)) := do
  match ← read (·.findRelative index) with
  | none => return none
  | some h => some <$> access none h

/-- Removes a node and destroys its payload. The node is gone before the destructor is called. -/
def erase (h : Handle) : Act σ α Unit := do
  let e ← linking (.take h)
  dispose e.value

/-- Removes the entry at a position and destroys its payload. -/
def eraseIdx (index : Nat) (override : Option (Destructor σ α)) :
    Act σ α (Except IndexError Unit) := do
  let len ← length
  match ← read (·.find index) with
  | none => return .error ⟨index, len⟩
  | some h =>
    withOverride override (erase h)
    log (.erase index (len - 1))
    return .ok ()

/-- Removes the entry at a position and hands it out. -/
def takeIdx (index : Nat) : Act σ α (Except IndexError (Entry α)) := do
  let len ← length
  match ← read (·.find index) with
  | none => return .error ⟨index, len⟩
  | some h =>
    log (.take index len)
    let e ← linking (.take h)
    emit (.left .returned e.value)
    return .ok e

/-- Inserts a payload so that it ends up at a position; the length is the position behind the last
entry. A position beyond it is refused before a node is made. -/
def insertIdx (index : Nat) (v : α) (byteLen : UInt64) : Act σ α (Except (InsertError α) Unit) := do
  emit (.entered v)
  let len ← length
  if len < index then
    refuse v (.index ⟨index, len⟩)
  else
    let anchor ← if index = len then pure none else read (·.find index)
    let side := if index = len then Side.after else Side.before
    match ← allocate ⟨v, byteLen⟩ with
    | none => refuse v .alloc
    | some h =>
      linking (.attach h anchor side)
      log (.insert index (len + 1))
      return .ok ()

end Deque

end LinkedDeque
