import LinkedDeque.Chain.Position
import LinkedDeque.Chain.Verify
import LinkedDeque.Chain.Walk
import LinkedDeque.Deque.Basic

/-!
# LinkedDeque.Bench

A bench for the chain primitives: commands that make nodes, apply one primitive to them, and
overwrite links, ends and length at will. What a bench shows of its chain is a `Snapshot`.
-/

namespace LinkedDeque.Bench

variable {σ α : Type}

/-- A command to the bench. -/
inductive Command (σ α : Type) where
  | create (e : Entry α)
  /-- Lets `skip` node allocations succeed and refuses the next `n`. -/
  | refuseNext (skip n : Nat)
  | attach (node : Handle) (anchor : Option Handle) (side : Side)
  | detach (node : Handle)
  | unlink (node : Handle)
  | take (node : Handle)
  | erase (node : Handle) (override : Option (Destructor σ α))
  | setCursor (node : Option Handle)
  | entry (node : Handle)
  | setValue (node : Handle) (v : α)
  | find (index : Nat)
  | findRelative (index : Int64)
  | seek (index : Nat)
  /-- Follows a number of links toward one side. -/
  | follow (side : Side) (node : Handle) (count : Nat)
  | lastIndex
  | isEmpty
  | hasDestructor
  | verify
  /-- Walks from a node, unlinking what is yielded if asked to. -/
  | sweep (start : Option Handle) (unlinking : Bool)
  | setLength (n : Nat)
  | setLink (side : Side) (node : Handle) (v : Option Handle)
  | setTip (side : Side) (node : Handle)

/-- What a command answers. -/
inductive Answer (α : Type) where
  | done
  | handle (h : Option Handle)
  | entry (e : Entry α)
  | count (n : Nat)
  | flag (b : Bool)
  /-- Whether the chain is empty, and whether it is not. -/
  | fullness (isEmpty isFull : Bool)
  | handles (hs : List Handle)
  /-- There was no memory for the node of an entry. -/
  | refused (e : Entry α)

def span : Act σ α Span := Act.read fun l =>
  match l.chain.ends with
  | .empty => .error .emptyChain
  | .full span => .ok span

/-- Makes a detached node, without a line in the log. -/
def create (e : Entry α) : Act σ α (Answer α) := fun ⟨linkage, destructors, allocator, trace⟩ =>
  let (refused, allocator) := allocator.attempt
  if refused then .ok (.refused e) ⟨linkage, destructors, allocator, trace⟩
  else ((.handle ∘ some) <$> Act.linking (.create e)).run ⟨linkage, destructors, allocator, trace⟩

def perform : Command σ α → Act σ α (Answer α)
  | .create e => create e
  | .refuseNext skip n => do
    modify fun m => { m with allocator := .ofPattern (Allocator.refuseNext skip n) }
    return .done
  | .attach node anchor side => do
    Act.linking (.attach node anchor side)
    return .done
  | .detach node => do
    Act.linking (.detach node)
    return .done
  | .unlink node => do
    Act.linking (.unlink node)
    return .done
  | .take node => return .entry (← Act.linking (.take node))
  | .erase node override => do
    Act.withOverride override (Deque.erase node)
    return .done
  | .setCursor node => do
    Act.linking (.setCursor node)
    return .done
  | .entry node => return .entry (← Act.read (·.entry node))
  | .setValue node v => do
    Act.linking (.setValue node v)
    return .done
  | .find index => return .handle (← Act.read (·.find index))
  | .findRelative index => return .handle (← Act.read (·.findRelative index))
  | .seek index => do
    let s ← span
    return .handle (some (← Act.read (·.seek s index)))
  | .follow side node count => return .handle (some (← Act.read (·.follow side count node)))
  | .lastIndex => return .count (← span).lastIndex
  | .isEmpty => do
    let isEmpty ← Act.read fun l => .ok l.isEmpty
    return .fullness isEmpty !isEmpty
  | .hasDestructor => return .flag (← get).destructors.default.isSome
  | .verify => do
    Act.read (·.verify)
    return .done
  | .sweep start unlinking => do
    let treatment := if unlinking then Treatment.unlink else .keep
    let (handles, ()) ← Act.linking (.sweep (fun () _ => (treatment, ())) start ())
    return .handles handles
  | .setLength n => do
    let s ← span
    match Count.ofNat? n with
    | none => return .done
    | some len => Act.linking (.setEnds (.full { s with len }))
    return .done
  | .setLink side node v => do
    Act.linking (.setLink side node v)
    return .done
  | .setTip side node => do
    let s ← span
    Act.linking (.setEnds (.full (s.setTip side node)))
    return .done

/-- What a bench shows of its chain. -/
structure Snapshot where
  len : Nat
  head : Option Handle
  tail : Option Handle
  cursor : Option Handle
  /-- The nodes met from the head toward the tail, at most a hundred. -/
  forward : List Handle
  nodes : List (Handle × Option Handle × Option Handle)

def snapshot (l : Linkage α) : Snapshot where
  len := l.length
  head := l.tip? .before
  tail := l.tip? .after
  cursor := l.chain.cursor
  forward := l.trail .after 100 (l.tip? .before)
  nodes := l.heap.live.filterMap fun h => (l.heap.get? h).map fun n => (h, n.prev, n.next)

/-- A bench without nodes, with or without a destructor of its own. -/
def start (default : Option (Destructor σ α)) : Machine σ α :=
  ⟨⟨.empty, .empty⟩, .ofDefault default, .generous, #[]⟩

end LinkedDeque.Bench
