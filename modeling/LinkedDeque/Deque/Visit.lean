import LinkedDeque.Chain.Verify
import LinkedDeque.Chain.Walk
import LinkedDeque.Deque.Basic

/-!
# LinkedDeque.Deque.Visit

Walks over a whole list from front to back:

* `walk`       — runs a body on every node until the body stops it. The body may remove the node it
  is run on.
* `visitEach`  — calls a visitor on every entry, until it says stop.
* `eraseWhere` — removes the entries that a predicate accepts.
-/

namespace LinkedDeque.Deque

open Act

variable {σ τ α β : Type}

/-- Walks on from a node. The number of nodes visited before is given, and so is a bound on the
number of nodes still to come. -/
def walkFrom (body : β → Handle → Entry α → Act σ α (Flow × β)) :
    Nat → Option Handle → Nat → β → Act σ α (Nat × β)
  | fuel, start, visited, b => do
    match ← read (·.visit start) with
    | none => return (visited, b)
    | some (h, next) =>
      match fuel with
      | 0 => throw (.fault .endless)
      | fuel + 1 =>
        match ← body b h (← read (·.entry h)) with
        | (.stop, b) => return (visited + 1, b)
        | (.go, b) => walkFrom body fuel next (visited + 1) b

/-- Runs a body on every node from the front on, threading a value, until the body stops the walk.
Answers the number of nodes visited, the last one included. -/
def walk (body : β → Handle → Entry α → Act σ α (Flow × β)) (b : β) : Act σ α (Nat × β) := do
  let bound ← read fun l => .ok l.heap.size
  walkFrom body bound (← tip? .before) 0 b

def loggedWalk (body : β → Handle → Entry α → Act σ α (Flow × β)) (b : β) : Act σ α (Nat × β) := do
  let (visited, b) ← walk body b
  log (.visit visited (← length))
  return (visited, b)

/-- Calls a visitor on every entry from the front on, until it says stop. Answers how many entries
were visited, the last one included, and the visitor as the calls leave it. -/
def visitEach (visitor : Callback τ (Entry α) Flow) :
    Act σ α (Nat × Callback τ (Entry α) Flow) :=
  loggedWalk (fun visitor _ e => ask visitor e) visitor

/-- Removes the entries that a predicate accepts and destroys their payloads, each one right after
the predicate was called on it. Answers their number and the predicate as the calls leave it. -/
def eraseWhere (predicate : Callback τ (Entry α) Bool) (override : Option (Destructor σ α)) :
    Act σ α (Nat × Callback τ (Entry α) Bool) := do
  let (_, removed, predicate) ← withOverride override <|
    walk (fun (removed, predicate) h e => do
      match ← ask predicate e with
      | (true, predicate) =>
        erase h
        return (.go, removed + 1, predicate)
      | (false, predicate) => return (.go, removed, predicate)) (0, predicate)
  read (·.verify)
  log (.eraseWhere removed (← length))
  return (removed, predicate)

end LinkedDeque.Deque
