import LinkedDeque.Chain

/-!
# LinkedDeque.Chain.Verify

A check of every link of a chain. `Linkage.verify` walks from the head to the tail and compares each
link with the one back, then walks from the tail to the head; both walks have to arrive at the other
end after the recorded number of nodes. Links may be arbitrary: a walk that checks the links back
cannot meet a node twice, so it takes no more steps than there are nodes.
-/

namespace LinkedDeque.Linkage

variable {α : Type}

/-- Walks toward the tail, counting nodes, as long as each next node links back to the one before
it. The result is the last node with the count there. -/
def walkForward (l : Linkage α) : Nat → Handle → Nat → Except Fault (Handle × Nat)
  | fuel, curr, count =>
    match l.link .after curr with
    | .error e => .error e
    | .ok none => .ok (curr, count)
    | .ok (some next) =>
      match l.link .before next with
      | .error e => .error e
      | .ok none => .error .missingBackLink
      | .ok (some back) =>
        if back = curr then
          match fuel with
          | 0 => .error .endless
          | fuel + 1 => l.walkForward fuel next (count + 1)
        else .error .brokenBackLink

def walkBackward (l : Linkage α) : Nat → Handle → Nat → Except Fault (Handle × Nat)
  | fuel, curr, count =>
    match l.link .before curr with
    | .error e => .error e
    | .ok none => .ok (curr, count)
    | .ok (some prev) =>
      match fuel with
      | 0 => .error .endless
      | fuel + 1 => l.walkBackward fuel prev (count + 1)

/-- The end of a walk toward one side has to be the end of the chain there, after the recorded
number of nodes. -/
def checkArrival (side : Side) (span : Span) : Handle × Nat → Except Fault Unit
  | (last, count) =>
    if span.tip side = last then
      if count = span.len.val then .ok () else .error (.wrongLength side count span.len.val)
    else .error (.strayWalk side)

def checkTip (l : Linkage α) (side : Side) (span : Span) : Except Fault Unit :=
  match l.link side (span.tip side) with
  | .error e => .error e
  | .ok none => .ok ()
  | .ok (some _) => .error (.beyondTheEnd side)

/-- The chain as it is recorded and the links of its nodes agree. -/
def verify (l : Linkage α) : Except Fault Unit :=
  match l.chain.ends with
  | .empty => .ok ()
  | .full span => do
    l.checkTip .before span
    l.checkTip .after span
    checkArrival .after span (← l.walkForward l.heap.size span.head 1)
    checkArrival .before span (← l.walkBackward l.heap.size span.tail 1)

end LinkedDeque.Linkage
