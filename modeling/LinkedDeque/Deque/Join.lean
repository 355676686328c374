import LinkedDeque.ByteLen
import LinkedDeque.Deque.Visit

/-!
# LinkedDeque.Deque.Join

The texts of a list joined by a delimiter into one buffer. An append may be refused for lack of
memory; it then leaves the buffer as it is, and nothing is appended after it.
-/

namespace LinkedDeque.Deque

open Act

variable {σ α : Type}

/-- Whether an append is refused: by its number from 0, the buffer, and the text to append. -/
abbrev Growth := Nat → String → String → Bool

/-- A join under way: the buffer, the elements that were reached, the appends that were tried, and
whether one was refused. -/
structure Joining where
  buffer : String
  appended : Nat
  attempts : Nat
  refused : Bool

namespace Joining

def start : Joining := ⟨"", 0, 0, false⟩

/-- Appends a text, unless that or an earlier append is refused. -/
def append (refuses : Growth) (text : String) (j : Joining) : Joining :=
  if j.refused then j
  else if refuses j.attempts j.buffer text then
    { j with attempts := j.attempts + 1, refused := true }
  else { j with buffer := j.buffer ++ text, attempts := j.attempts + 1 }

/-- Appends one element, after the delimiter unless it is the first. -/
def element (refuses : Growth) (delimiter text : String) (j : Joining) : Joining :=
  let j := if 0 < j.appended then j.append refuses delimiter else j
  let j := j.append refuses text
  { j with appended := j.appended + 1 }

end Joining

/-- Joins the texts of the list, unless an append is refused. -/
def join [AsText α] (refuses : Growth) (delimiter : String) : Act σ α (Option String) := do
  let (_, j) ← loggedWalk (fun (j : Joining) _ e =>
    let j := j.element refuses delimiter (AsText.text e.value)
    return (if j.refused then .stop else .go, j)) .start
  log (.join j.appended j.buffer.utf8ByteSize)
  return if j.refused then none else some j.buffer

end LinkedDeque.Deque
