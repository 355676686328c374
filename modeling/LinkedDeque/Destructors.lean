import LinkedDeque.Callback
import LinkedDeque.Event

/-!
# LinkedDeque.Destructors

Who destroys the payloads of a list. A destructor given with a call takes precedence over the list's
own; when there is neither, a payload is forgotten.
-/

namespace LinkedDeque

/-- The destructor of a list and the one given with the present call. -/
structure Destructors (σ α : Type) where
  default : Option (Destructor σ α)
  override : Option (Destructor σ α)

namespace Destructors

variable {σ α : Type}

def none : Destructors σ α := ⟨.none, .none⟩

def ofDefault (d : Option (Destructor σ α)) : Destructors σ α := ⟨d, .none⟩

/-- Destroys a payload: where it goes, what the destructor comes to, and the destructors after it.
-/
def dispose (ds : Destructors σ α) (v : α) : Fate × Reply Unit × Destructors σ α :=
  match ds.override, ds.default with
  | some d, _ =>
    let (reply, d') := d.run v
    (.destroyed .override d.isDrop, reply, { ds with override := some d' })
  | .none, some d =>
    let (reply, d') := d.run v
    (.destroyed .default d.isDrop, reply, { ds with default := some d' })
  | .none, .none => (.forgotten, .returns (), ds)

/-- Destroys payloads in order; a destructor that panics is called again on the next one. -/
def disposeEach : List α → Destructors σ α → List (Fate × Reply Unit)
  | [], _ => []
  | v :: rest, ds =>
    let (fate, reply, ds) := ds.dispose v
    (fate, reply) :: disposeEach rest ds

end Destructors

end LinkedDeque
