import LinkedDeque.Chain

/-!
# LinkedDeque.Chain.Walk

Iteration over the nodes of a chain:

* `Linkage.visit` — one step of a walk. It reads the next node before it hands the present one out,
  so the present node may be unlinked and freed without upsetting the walk.
* `LinkM.sweep`   — a whole walk under a policy, which may unlink or free each node once it was
  yielded.
* `Linkage.trail` — the nodes met by following links toward one side, as a list.
* `Linkage.handles`, `contents`, `cursorIndex?` — the chain seen as a sequence.
-/

namespace LinkedDeque

variable {α σ : Type}

namespace Linkage

/-- One step of a walk toward the tail: the node it stands on, and where the walk goes on. -/
def visit (l : Linkage α) : Option Handle → Except Fault (Option (Handle × Option Handle))
  | none => .ok none
  | some h =>
    match l.link .after h with
    | .error e => .error e
    | .ok next => .ok (some (h, next))

/-- The nodes met from a start by following links toward one side, up to a bound. -/
def trail (l : Linkage α) (side : Side) : Nat → Option Handle → List Handle
  | 0, _ => []
  | _ + 1, none => []
  | bound + 1, some h =>
    match l.heap.get? h with
    | none => []
    | some n => h :: l.trail side bound (n.link side)

def handles (l : Linkage α) : List Handle := l.trail .after l.heap.size (l.tip? .before)

def contents (l : Linkage α) : List (Entry α) :=
  l.handles.filterMap fun h => (l.heap.get? h).map Node.entry

def cursorIndex? (l : Linkage α) : Option Nat :=
  l.chain.cursor.bind fun h => l.handles.idxOf? h

end Linkage

/-- What happens to a node once a walk has yielded it. -/
inductive Treatment where
  | keep
  | unlink
  | free
deriving DecidableEq

namespace LinkM

def treat (h : Handle) : Treatment → LinkM α Unit
  | .keep => return ()
  | .unlink => unlink h
  | .free => discard (take h)

/-- Walks on from a node under a policy with a state of its own; the nodes yielded before are in
`seen`, the last one first. -/
def sweepFrom (policy : σ → Handle → Treatment × σ) :
    Nat → Option Handle → σ → List Handle → LinkM α (List Handle × σ)
  | fuel, start, s, seen => do
    match ← read (·.visit start) with
    | none => return (seen.reverse, s)
    | some (h, next) =>
      match fuel with
      | 0 => throw .endless
      | fuel + 1 =>
        let (treatment, s) := policy s h
        treat h treatment
        sweepFrom policy fuel next s (h :: seen)

/--
Walks from a start to the end of the links under a policy, and answers the nodes yielded in order. A
walk that keeps its nodes is over after as many steps as there are nodes, and one that unlinks them
after as many as the chain records.
-/
def sweep (policy : σ → Handle → Treatment × σ) (start : Option Handle) (s : σ) :
    LinkM α (List Handle × σ) := do
  let bound ← read fun l => .ok (l.heap.size + l.length + 1)
  sweepFrom policy bound start s []

end LinkM

end LinkedDeque
