import LinkedDeque.Deque.Basic

/-!
# LinkedDeque.Pool

Threads that share one list. A thread adds an entry in two steps: it makes the node, and later it
takes the lock and links it. Removing an entry is one step under the lock. A schedule says which
thread makes the next step, so a run of a pool under a schedule is one interleaving.
-/

namespace LinkedDeque

/-- What a thread calls. -/
inductive Call (α : Type) where
  | push (side : Side) (v : α) (byteLen : UInt64)
  | pop (side : Side)

/-- A thread: the calls still to come, and the node that it made and has not linked yet. -/
structure Thread (α : Type) where
  calls : List (Call α)
  inHand : Option (Handle × Side × Entry α)

/-- What a step of a thread came to. -/
inductive Happening (α : Type) where
  /-- A node for this payload was refused, and the payload is back with its thread. -/
  | refused (thread : Nat) (v : α)
  | linked (thread : Nat) (side : Side) (v : α)
  | removed (thread : Nat) (side : Side) (v : α)

/-- Threads with the list they share, and what happened so far, the first event first. -/
structure Pool (σ α : Type) where
  machine : Machine σ α
  threads : Array (Thread α)
  history : Array (Happening α)

namespace Pool

variable {σ α : Type}

/-- A step of a thread: it links the node in its hand, or begins its next call. -/
def threadStep (t : Nat) (th : Thread α) : Act σ α (Thread α × Option (Happening α)) := do
  match th.inHand with
  | some (h, side, e) =>
    Deque.link side h e.byteLen
    return ({ th with inHand := none }, some (.linked t side e.value))
  | none =>
    match th.calls with
    | [] => return (th, none)
    | .push side v byteLen :: calls =>
      match ← Act.allocate ⟨v, byteLen⟩ with
      | none => return (⟨calls, none⟩, some (.refused t v))
      | some h => return (⟨calls, some (h, side, ⟨v, byteLen⟩)⟩, none)
    | .pop side :: calls =>
      match ← Deque.pop side with
      | none => return (⟨calls, none⟩, none)
      | some e => return (⟨calls, none⟩, some (.removed t side e.value))

/-- Lets one thread make a step; a thread that is through, or does not exist, makes none. -/
def step (t : Nat) : Pool σ α → Except Panic (Pool σ α)
  | ⟨machine, threads, history⟩ =>
    match threads[t]? with
    | none => .ok ⟨machine, threads, history⟩
    | some th =>
      match (threadStep t th).run machine with
      | .ok (th, happening) machine =>
        .ok ⟨machine, threads.setIfInBounds t th, history ++ happening.toArray⟩
      | .error p _ => .error p

def run : List Nat → Pool σ α → Except Panic (Pool σ α)
  | [], p => .ok p
  | t :: schedule, p =>
    match p.step t with
    | .ok p => run schedule p
    | .error e => .error e

/-- An empty list under a pattern of refused allocations, and threads at the beginning of their
calls. -/
def start (refuses : Nat → Bool) (programs : List (List (Call α))) : Pool σ α where
  machine := ⟨⟨.empty, .empty⟩, .none, .ofPattern refuses, #[]⟩
  threads := (programs.map fun calls => ⟨calls, none⟩).toArray
  history := #[]

/-- The payloads removed so far, in the order of their removal. -/
def removed (p : Pool σ α) : List α :=
  p.history.toList.filterMap fun
    | .removed _ _ v => some v
    | _ => none

/-- The payloads linked so far, in the order of their linking. -/
def linked (p : Pool σ α) : List α :=
  p.history.toList.filterMap fun
    | .linked _ _ v => some v
    | _ => none

end Pool

end LinkedDeque
