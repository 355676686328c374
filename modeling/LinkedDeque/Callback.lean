/-!
# LinkedDeque.Callback

Code that a caller hands to a list, as a state machine:

* `Callback`   — a state and a step from an argument to a reply and the next state, so each reply
  may depend on all calls before it.
* `Reply`      — an answer, or giving up with a report.
* `Destructor` — what destroys a payload: dropping it, or a callback.
-/

namespace LinkedDeque

/-- What one call of a callback comes to. -/
inductive Reply (ο : Type) where
  | returns (answer : ο)
  | panics (report : String)
deriving DecidableEq

/-- Code with a state of its own. -/
structure Callback (σ ι ο : Type) where
  state : σ
  step : σ → ι → Reply ο × σ

namespace Callback

variable {σ ι ο : Type}

/-- One call: the reply, and the callback as the call leaves it. -/
def call (f : Callback σ ι ο) (x : ι) : Reply ο × Callback σ ι ο :=
  let (reply, state) := f.step f.state x
  (reply, { f with state })

end Callback

/-- A visitor's answer: whether the walk goes on. -/
inductive Flow where
  | go
  | stop
deriving DecidableEq

/-- What a payload goes to when it is destroyed. -/
inductive Destructor (σ α : Type) where
  /-- The payload is dropped. That it panics while it is dropped is left out: what may panic is a
  callback. -/
  | drop
  | custom (f : Callback σ α Unit)

namespace Destructor

variable {σ α : Type}

def isDrop : Destructor σ α → Bool
  | drop => true
  | custom _ => false

/-- Destroys a payload: the reply, and the destructor as the call leaves it. -/
def run (d : Destructor σ α) (v : α) : Reply Unit × Destructor σ α :=
  match d with
  | drop => (.returns (), drop)
  | custom f =>
    let (reply, f) := f.call v
    (reply, custom f)

end Destructor

end LinkedDeque
