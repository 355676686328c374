import LinkedDeque.Chain.Walk
import LinkedDeque.Pool

/-!
# LinkedDeque.Pool.Trial

A trial of a pool: producers add numbers, each at its own end, and possibly one consumer removes
them all from the front. The trial runs one schedule, in which the producers take turns and the
consumer comes last, and reports what holds under every schedule.
-/

namespace LinkedDeque.Pool

/-- A producer: the end at which it adds, and what it adds, in order. -/
structure Producer where
  side : Side
  values : List Int64

/-- What a trial reports. -/
structure Trial where
  left : Nat
  /-- All values that were removed, or that are left, in ascending order. -/
  sorted : List Int64
  /-- Removing the entries left from the back gives the reverse of the walk from the front. -/
  reversible : Bool
  /-- The values of each producer are in the order of its calls, or the reverse if it adds in front.
  -/
  ordered : Bool
  /-- Nothing is left once all entries were removed. -/
  emptied : Bool

variable {σ α : Type}

def Producer.calls (p : Producer) : List (Call Int64) := p.values.map fun v => .push p.side v 0

/-- The order in which the values of a producer should be met from the front on. -/
def Producer.expected (p : Producer) : List Int64 :=
  match p.side with
  | .before => p.values.reverse
  | .after => p.values

/-- A number of rounds in which each of a number of threads makes one step. -/
def rounds (threads n : Nat) : List Nat := (List.range n).flatMap fun _ => List.range threads

/-- Removes entries at one end until there are none; a bound on their number is given. -/
def popAll (side : Side) : Nat → Act σ α (List α)
  | 0 => return []
  | bound + 1 => do
    match ← Deque.pop side with
    | none => return []
    | some e => return e.value :: (← popAll side bound)

def trial (producers : List Producer) (consuming : Bool) : Except Panic Trial := do
  let total := (producers.flatMap Producer.values).length
  let longest := (producers.map fun p => p.values.length).foldl max 0
  let consumer := if consuming then List.replicate total (Call.pop .before) else []
  let schedule := rounds producers.length (2 * longest) ++ List.replicate total producers.length
  let programs := producers.map Producer.calls ++ [consumer]
  let pool ← run schedule (start (fun _ => false) programs : Pool Unit Int64)
  let left := pool.machine.linkage.contents.map Entry.value
  let met := if consuming then pool.removed else left
  match (popAll .after (left.length + 1)).run pool.machine with
  | .error p _ => .error p
  | .ok backward machine =>
    return {
      left := pool.machine.linkage.length
      sorted := met.mergeSort (· ≤ ·)
      reversible := backward == left.reverse
      ordered := producers.all fun p => met.filter p.values.contains == p.expected
      emptied := machine.linkage.length == 0 }

end LinkedDeque.Pool
