import LinkedDeque.Deque.Basic

/-!
# LinkedDeque.Deque.Cursor

The cursor of a list, which every user of the list shares. It is put at the front, and then yields
one entry per call toward the back; once it has yielded the last one it stays exhausted.
-/

namespace LinkedDeque.Deque

open Act

variable {σ α : Type}

def cursorReset : Act σ α Unit := do
  linking (.setCursor (← tip? .before))
  log (.cursorReset (← length))

/-- Yields the entry under the cursor, overwriting its payload if another one is given, and moves
the cursor toward the back. -/
def cursorNext (write : Option α) : Act σ α (Option (Entry α)) := do
  match ← linking .cursor with
  | none => return none
  | some h =>
    linking (.setCursor (← linking (.getLink .after h)))
    some <$> access write h

/-- Puts the cursor at the front and yields the first entry. -/
def cursorFirst (write : Option α) : Act σ α (Option (Entry α)) := do
  cursorReset
  cursorNext write

end LinkedDeque.Deque
