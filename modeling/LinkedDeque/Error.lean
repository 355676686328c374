import LinkedDeque.Inspect

/-!
# LinkedDeque.Error

Why a list refuses an operation, and how it says so:

* `IndexError`    — a position at or behind the end.
* `InsertFailure` — the two reasons for which an insertion is refused.
* `InsertError`   — the reason together with the payload, which goes back to the caller.
* `Report`        — the texts of an error: its message, its inspected form and the messages of its
  causes.
-/

namespace LinkedDeque

/-- A position that is not one of a list of `len` entries. -/
structure IndexError where
  index : Nat
  len : Nat
deriving DecidableEq

/-- Why an insertion was refused. -/
inductive InsertFailure where
  | index (e : IndexError)
  | alloc
deriving DecidableEq

/-- A refused insertion hands its payload back. -/
structure InsertError (α : Type) where
  value : α
  failure : InsertFailure
deriving DecidableEq

/-- What an error tells: its message, its inspected form, and the messages of the errors behind it,
the nearest cause first. -/
structure Report where
  message : String
  form : Inspect
  causes : List String

namespace IndexError

def message (e : IndexError) : String :=
  s!"Index {e.index} out of bounds for collection with {e.len} elements!"

def inspect (e : IndexError) : Inspect :=
  .record "IndexOutOfBounds" [("index", .num e.index), ("len", .num e.len)] false

def report (e : IndexError) : Report := ⟨e.message, e.inspect, []⟩

end IndexError

def allocReport : Report := ⟨"Memory allocation failed!", .atom "AllocError", []⟩

def capacityReport : Report := ⟨"Capacity overflow!", .atom "CapacityOverflow", []⟩

namespace InsertFailure

def inner : InsertFailure → Report
  | index e => e.report
  | alloc => allocReport

def name : InsertFailure → String
  | index _ => "IndexOutOfBounds"
  | alloc => "AllocError"

/-- A failure speaks with the message of the error it wraps, which is its cause. -/
def report (f : InsertFailure) : Report :=
  ⟨f.inner.message, .wrapped f.name f.inner.form, f.inner.message :: f.inner.causes⟩

def isIndex : InsertFailure → Bool
  | index _ => true
  | alloc => false

def isAlloc : InsertFailure → Bool
  | index _ => false
  | alloc => true

end InsertFailure

namespace InsertError

variable {α : Type}

/-- The texts of an insertion error, which leave the payload out. -/
def report (e : InsertError α) : Report :=
  let cause := e.failure.report
  ⟨"Insertion failed: " ++ cause.message, .record "InsertError" [("kind", cause.form)] true,
    cause.message :: cause.causes⟩

end InsertError

end LinkedDeque
