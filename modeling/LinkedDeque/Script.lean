import LinkedDeque.Callback
import LinkedDeque.Payload

/-!
# LinkedDeque.Script

Callbacks written down as data. Each one counts its own calls, may panic at one of them, and else
follows a rule on the entry and the number of the call. The reports of their panics are fixed here.

* `Script.Destructor` — records its payloads, or drops them.
* `Script.Predicate`  — accepts an entry if any of its conditions holds.
* `Script.Transform`  — makes a new entry by one rule.
-/

namespace LinkedDeque.Script

/-- What a visitor, predicate or transform reports when it panics as its script says. -/
def callbackReport : String := "callback panic"

/-- What a destructor reports when it panics as its script says. -/
def destructorReport : String := "destructor panic"

/-- What a transform reports when a payload would take up too many bytes. -/
def oversizeReport : String := "capacity overflow"

/-- A callback on its number of calls so far. It panics with a report at the call of the given
number from 1. -/
def counted {ι ο : Type} (panicAt : Nat) (report : String) (reply : Nat → ι → Reply ο) :
    Callback Nat ι ο where
  state := 0
  step n x := (if n + 1 = panicAt then .panics report else reply n x, n + 1)

/-- What destroys payloads. -/
inductive Destructor where
  | drop
  /-- Lets them be recorded, and panics at the call of a number from 1; 0 is no call. -/
  | record (panicAt : Nat)

def Destructor.build {α : Type} : Destructor → LinkedDeque.Destructor Nat α
  | drop => .drop
  | record panicAt => .custom (counted panicAt destructorReport fun _ _ => .returns ())

/-- Conditions on an entry and the number of the call, from 0. -/
structure Predicate where
  all : Bool
  among : List Payload
  calls : List Nat
  /-- Accepts at each call whose number leaves this remainder by this divisor. -/
  every : Option (Nat × Nat)
  /-- Accepts entries recorded as shorter than this. -/
  lenBelow : Option Nat
  /-- Accepts entries recorded as at least this long. -/
  lenFrom : Option Nat
  odd : Bool
  /-- Panics at the call of this number from 1. -/
  panicAt : Nat

namespace Predicate

def holds (p : Predicate) (call : Nat) (e : Entry Payload) : Bool :=
  p.all || p.among.contains e.value || p.calls.contains call
    || p.every.any (fun (divisor, remainder) => call % divisor == remainder)
    || p.lenBelow.any (e.byteLen.toNat < ·)
    || p.lenFrom.any (· ≤ e.byteLen.toNat)
    || (p.odd && e.value.isOdd)

def selector (p : Predicate) : Callback Nat (Entry Payload) Bool :=
  counted p.panicAt callbackReport fun n e => .returns (p.holds n e)

def visitor (p : Predicate) : Callback Nat (Entry Payload) Flow :=
  counted p.panicAt callbackReport fun n e => .returns (if p.holds n e then .stop else .go)

end Predicate

/-- How a new entry is made from an entry. -/
inductive Rule where
  | identity
  | setLen (n : UInt64)
  /-- Records a greater byte length, modulo `2 ^ 64`. -/
  | addLen (n : UInt64)
  /-- Repeats a text or bytes, which fails if they grow too long; multiplies a number. -/
  | times (k : Nat)
  /-- Makes a text of the payload, of length 0. -/
  | toText
  /-- Makes a number of the byte length, and records the number of the call in its place. -/
  | toLen

namespace Rule

def apply (r : Rule) (call : Nat) (e : Entry Payload) : Reply (Entry Payload) :=
  match r with
  | identity => .returns e
  | setLen n => .returns { e with byteLen := n }
  | addLen n => .returns { e with byteLen := e.byteLen + n }
  | times k =>
    match e.value.times? k with
    | some v => .returns { e with value := v }
    | none => .panics oversizeReport
  | toText => .returns ⟨.text e.value.asText, 0⟩
  | toLen => .returns ⟨.int e.byteLen.toInt64, UInt64.ofNat call⟩

/-- The kind of payload that a rule makes from one of a kind. -/
def kind (r : Rule) (source : Kind) : Kind :=
  match r with
  | toText => .text
  | toLen => .int
  | _ => source

end Rule

/-- A transform by one rule. -/
structure Transform where
  rule : Rule
  /-- Panics at the call of this number from 1. -/
  panicAt : Nat

def Transform.build (t : Transform) : Callback Nat (Entry Payload) (Entry Payload) :=
  counted t.panicAt callbackReport t.rule.apply

/-- Refuses the first append of a text that is not empty. -/
def refuseFirstGrowth : Nat → String → String → Bool :=
  fun _ buffer text => buffer.isEmpty && !text.isEmpty

end LinkedDeque.Script
