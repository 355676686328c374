import LinkedDeque.Deque.Destroy
import LinkedDeque.Deque.Visit

/-!
# LinkedDeque.Deque.Map

A new list from the results of a transform on the entries of a list, in order. When a node of the
new list is refused, the walk stops, the refused payload is dropped, and so are the payloads placed
before it. When the transform panics, the partial list ends without a destructor. Dropping a payload is
taken to return, here as everywhere.
-/

namespace LinkedDeque.Deque

open Act

variable {σ τ α : Type}

/-- How far a transformation came. -/
inductive Progress where
  | placed
  | refused
  | panicked (report : String)
deriving DecidableEq

/-- A transformation under way: the transform, the list made so far, and how far it came. -/
structure Mapping (τ α : Type) where
  transform : Callback τ (Entry α) (Entry α)
  made : Chain
  progress : Progress

/-- Transforms one entry and places the result at the back of the new list. -/
def mapEntry (m : Mapping τ α) (e : Entry α) : Act σ α (Flow × Mapping τ α) := do
  emit (.called e)
  match m.transform.call e with
  | (.panics report, transform) =>
    return (.stop, { m with transform, progress := .panicked report })
  | (.returns result, transform) =>
    emit (.entered result.value)
    let (placed, made) ← onChain m.made (append .after result)
    if placed then
      return (.go, ⟨transform, made, .placed⟩)
    else
      emit (.left .dropped result.value)
      return (.stop, ⟨transform, made, .refused⟩)

/-- Makes a list from the results of a transform. Answers the new list, unless a node of it was
refused, and the transform as the calls leave it. -/
def map (transform : Callback τ (Entry α) (Entry α)) :
    Act σ α (Option Chain × Callback τ (Entry α) (Entry α)) := do
  let (visited, m) ← walk (fun m _ e => mapEntry m e) (⟨transform, .empty, .placed⟩ : Mapping τ α)
  match m.progress with
  | .panicked report =>
    discard (onChain m.made destroy)
    throw (.callback report)
  | .refused =>
    log (.visit visited (← length))
    discard (onChain m.made (destroyWith .drop))
    return (none, m.transform)
  | .placed =>
    log (.visit visited (← length))
    log (.map m.made.ends.length)
    return (some m.made, m.transform)

end LinkedDeque.Deque
