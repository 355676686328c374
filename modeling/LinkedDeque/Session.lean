import LinkedDeque.Forms
import LinkedDeque.Script

/-!
# LinkedDeque.Session

Scripted runs over lists of scripted payloads. A session is a world that also knows the kind of each
list, and its commands are single operations and short programs of them: filling a list, draining
it, walking it by its cursor, and showing it.
-/

namespace LinkedDeque

/-- A world of scripted payloads with the kind of each list. -/
structure Session where
  world : World Nat Payload
  kinds : Array Kind

namespace Session

/-- A command to the session. -/
inductive Command where
  | create (kind : Kind) (default : Option Script.Destructor)
  | use (k : Nat) (op : Op Nat Payload)
  /-- Removes an entry at one end and answers its payload alone. -/
  | popValue (k : Nat) (side : Side)
  | map (k : Nat) (transform : Script.Transform)
  /-- Shows a list, on one line or over several. -/
  | inspect (k : Nat) (pretty : Bool)
  /-- Lets `skip` node allocations succeed and refuses the next `n`. -/
  | refuseNext (skip n : Nat)
  /-- Adds payloads that stand for `n` numbers from `first` on at one end, each with its number in
  the series as byte length. -/
  | fill (k : Nat) (side : Side) (n : Nat) (first : Int64)
  /-- Removes entries at one end until there are none. -/
  | drain (k : Nat) (side : Side)
  /-- Walks a list from its front by its cursor. -/
  | walk (k : Nat)

namespace Command

def popBack (k : Nat) : Command := popValue k .after

def popFront (k : Nat) : Command := popValue k .before

def dequeue (k : Nat) : Command := popFront k

end Command

/-- What a command answers when it does not panic. -/
inductive Response where
  | plain (answer : Answer Payload)
  | value (v : Option Payload)
  | entries (es : Array (Entry Payload))
  | mapped (kind : Kind) (es : List (Entry Payload))

/-- An answer of which only the payload is handed out. -/
def Response.valueOf : Answer Payload → Response
  | .entry e => .value (e.map Entry.value)
  | answer => .plain answer

/-- The outcome of a command, and the events during it. -/
structure Output where
  result : Except Panic Response
  events : Array (Event Payload)

def start : Session := ⟨.start, #[]⟩

def kind? (s : Session) (k : Nat) : Option Kind := s.kinds[k]?

/-- A list that has not ended, with the heap it lives in. -/
def linkage? (s : Session) (k : Nat) : Option (Linkage Payload) :=
  (s.world.list? k).map s.world.linkage

/-- The inspected form of a list: its entries, its length, and whether it has a destructor. -/
def inspectList (l : Linkage Payload) (hasDestructor : Bool) : Inspect :=
  .record "LockedList"
    [("entries", .list (l.contents.map (·.inspect Payload.inspect))), ("len", .num l.length),
      ("destructor", .flag hasDestructor)] false

def outputOf (respond : Answer Payload → Response) (o : Outcome Payload) : Output :=
  ⟨o.result.map respond, o.events⟩

/-- Adds the payloads of a series from one number on, counting those that were inserted. -/
def fillFrom (k : Nat) (side : Side) (kind : Kind) (first : Int64) :
    Nat → Nat → Nat → Array (Event Payload) → World Nat Payload → Output × World Nat Payload
  | 0, _, inserted, events, w => (⟨.ok (.plain (.count inserted)), events⟩, w)
  | left + 1, i, inserted, events, w =>
    let v := Payload.ofNumber kind (first + Int64.ofNat i)
    match w.use k (.push side v (.exact (UInt64.ofNat i))) with
    | (⟨.ok .done, new⟩, w) =>
      fillFrom k side kind first left (i + 1) (inserted + 1) (events ++ new) w
    | (⟨.ok _, new⟩, w) => fillFrom k side kind first left (i + 1) inserted (events ++ new) w
    | (⟨.error p, new⟩, w) => (⟨.error p, events ++ new⟩, w)

/-- Repeats an operation until it answers no entry, collecting the entries; a bound on their number
is given. -/
def collect (k : Nat) (op : Op Nat Payload) :
    Nat → Array (Entry Payload) → Array (Event Payload) → World Nat Payload →
      Output × World Nat Payload
  | 0, entries, events, w => (⟨.ok (.entries entries), events⟩, w)
  | bound + 1, entries, events, w =>
    match w.use k op with
    | (⟨.ok (.entry (some e)), new⟩, w) => collect k op bound (entries.push e) (events ++ new) w
    | (⟨.ok _, new⟩, w) => (⟨.ok (.entries entries), events ++ new⟩, w)
    | (⟨.error p, new⟩, w) => (⟨.error p, events ++ new⟩, w)

/-- The recorded length of a list, 0 if it has ended. -/
def lengthOf (w : World Nat Payload) (k : Nat) : Nat :=
  ((w.list? k).map fun d => d.chain.ends.length).getD 0

def perform (c : Command) : Session → Output × Session
  | ⟨world, kinds⟩ =>
    match c with
    | .create kind default =>
      let (o, world) := world.step (.create (default.map (·.build)))
      (outputOf .plain o, ⟨world, kinds.push kind⟩)
    | .use k op =>
      let (o, world) := world.use k op
      (outputOf .plain o, ⟨world, kinds⟩)
    | .popValue k side =>
      let (o, world) := world.use k (.pop side)
      (outputOf .valueOf o, ⟨world, kinds⟩)
    | .map k transform =>
      match world.use k (.map transform.build) with
      | (⟨.ok (.list made), events⟩, world) =>
        let kind := transform.rule.kind (kinds[k]?.getD .int)
        let es := ((world.list? made).map fun d => (world.linkage d).contents).getD []
        (⟨.ok (.mapped kind es), events⟩, ⟨world, kinds.push kind⟩)
      | (o, world) => (outputOf .plain o, ⟨world, kinds⟩)
    | .inspect k pretty =>
      match world.list? k with
      | none => (⟨.ok (.plain .absent), #[]⟩, ⟨world, kinds⟩)
      | some d =>
        let form := inspectList (world.linkage d) d.default.isSome
        (⟨.ok (.plain (.text (if pretty then form.pretty else form.compact))), #[]⟩, ⟨world, kinds⟩)
    | .refuseNext skip n =>
      let (o, world) := world.step (.arm (Allocator.refuseNext skip n))
      (outputOf .plain o, ⟨world, kinds⟩)
    | .fill k side n first =>
      let (output, world) := fillFrom k side (kinds[k]?.getD .int) first n 0 0 #[] world
      (output, ⟨world, kinds⟩)
    | .drain k side =>
      let (output, world) := collect k (.pop side) (lengthOf world k + 1) #[] #[] world
      (output, ⟨world, kinds⟩)
    | .walk k =>
      let (reset, world) := world.use k .cursorReset
      let (output, world) :=
        collect k (.cursorNext none) (lengthOf world k + 1) #[] reset.events world
      (output, ⟨world, kinds⟩)

end Session

end LinkedDeque
