import LinkedDeque.Proofs.CursorIndex
import LinkedDeque.Session

/-!
# LinkedDeque.Proofs.Sessions

Scripted sessions as runs of their worlds:

* `Session.perform_reaches`, `Session.after_reaches` — every command is a run of steps, so that what holds
  of all runs holds of all sessions.
* `Session.perform_popValue`  — the value form of a removal answers the payload of the entry form.
* `Session.popValue_sequence` — that is the payload at this end of the sequence of entries, from which the
  entry is gone.
-/

namespace LinkedDeque

variable {σ α : Type}

/-! ## Commands as runs -/

/-- Some steps lead from a world to another one. -/
def World.Reaches [AsBytes α] [AsText α] (w w' : World σ α) : Prop :=
  ∃ steps, (World.run steps w).2 = w'

namespace World.Reaches

variable [AsBytes α] [AsText α] {w w' w'' : World σ α} {k : Nat} {op : Op σ α}
  {o : Outcome α}

theorem refl (w : World σ α) : w.Reaches w := ⟨[], rfl⟩

theorem trans (h : w.Reaches w') (h' : w'.Reaches w'') : w.Reaches w'' := by
  obtain ⟨a, rfl⟩ := h
  obtain ⟨b, rfl⟩ := h'
  exact ⟨a ++ b, run_append a b w⟩

theorem of_step (s : Step σ α) (w : World σ α) : w.Reaches (w.step s).2 := ⟨[s], rfl⟩

theorem of_use (h : w.use k op = (o, w')) : w.Reaches w' :=
  ⟨[.use k op], congrArg Prod.snd h⟩

end World.Reaches

namespace Session

open World (Reaches)

theorem fillFrom_reaches (k : Nat) (side : Side) (kind : Kind) (first : Int64) (n i inserted : Nat)
    (events : Array (Event Payload)) (w : World Nat Payload) :
    w.Reaches (fillFrom k side kind first n i inserted events w).2 := by
  induction n generalizing i inserted events w with
  | zero => exact .refl w
  | succ n ih =>
    -- the push is the first step, whatever it answers; a panic ends the series
    rw [fillFrom]
    split
    · next huse => exact (Reaches.of_use huse).trans (ih ..)
    · next huse => exact (Reaches.of_use huse).trans (ih ..)
    · next huse => exact .of_use huse

theorem collect_reaches (k : Nat) (op : Op Nat Payload) (bound : Nat) (entries : Array (Entry Payload))
    (events : Array (Event Payload)) (w : World Nat Payload) :
    w.Reaches (collect k op bound entries events w).2 := by
  induction bound generalizing entries events w with
  | zero => exact .refl w
  | succ bound ih =>
    rw [collect]
    split
    · next huse => exact (Reaches.of_use huse).trans (ih ..)
    · next huse => exact .of_use huse
    · next huse => exact .of_use huse

/-- Every command is a run of steps of the world. -/
theorem perform_reaches (c : Command) (s : Session) : s.world.Reaches (s.perform c).2.world := by
  obtain ⟨world, kinds⟩ := s
  cases c with
  | create kind default => exact .of_step (.create (default.map (·.build))) world
  | use k op => exact .of_step (.use k op) world
  | popValue k side => exact .of_step (.use k (.pop side)) world
  | map k transform =>
    rw [perform]
    split
    · next huse => exact .of_use huse
    · next huse => exact .of_use huse
  | inspect k pretty =>
    rw [perform]
    cases world.list? k <;> exact .refl world
  | refuseNext skip n => exact .of_step (.arm (Allocator.refuseNext skip n)) world
  | fill k side n first => exact fillFrom_reaches k side _ first n 0 0 #[] world
  | drain k side => exact collect_reaches k (.pop side) (lengthOf world k + 1) #[] #[] world
  | walk k =>
    let w := (world.use k .cursorReset).2
    have hreset : world.Reaches w := .of_step (.use k .cursorReset) world
    exact hreset.trans (collect_reaches k (.cursorNext none) (lengthOf w k + 1) #[] _ w)

/-- The session that commands lead to. -/
def after : List Command → Session → Session
  | [], s => s
  | c :: rest, s => after rest (s.perform c).2

/-- The world of a session that commands lead to is one that steps lead to. -/
theorem after_reaches (cs : List Command) (s : Session) : s.world.Reaches (after cs s).world := by
  induction cs generalizing s with
  | nil => exact .refl s.world
  | cons c rest ih => exact (perform_reaches c s).trans (ih (s.perform c).2)

theorem after_sound (cs : List Command) : ∃ strayed, (after cs start).world.Sound strayed := by
  obtain ⟨steps, hsteps⟩ := after_reaches cs start
  rw [← hsteps]
  exact ⟨_, World.run_sound steps World.start_sound⟩

end Session

/-! ## Values that are handed out -/

/-- A removal at one end of a list is that of the sequence of its entries. -/
theorem World.use_pop [AsBytes α] [AsText α] {w : World σ α} {strayed : List Handle} (hw : w.Sound strayed)
    {k : Nat} {d : Deque σ α} (hk : w.list? k = some d) (side : Side) :
    let q : Sequence α := ⟨w.contents k, w.allocator⟩
    (w.use k (.pop side)).1.result = .ok (.entry q.entries[q.tipIdx side]?) ∧
      (w.use k (.pop side)).2.contents k = q.entries.eraseIdx (q.tipIdx side) := by
  intro q
  have hq : (w.view d).sequence = q := congrArg (Sequence.mk · w.allocator) (hw.entries_view hk)
  have hpop := View.pop_sequence side (hw.nodup_view hk)
  rw [Sequence.use_pop, hq] at hpop
  obtain ⟨hanswer, herase⟩ := Prod.mk.inj hpop
  constructor
  · rw [use_result hw hk (.pop side) rfl, hanswer]
    rfl
  · rw [(use_sound hw k (.pop side)).contents_eq, use_row hw hk (.pop side) rfl]
    exact (congrArg Sequence.entries herase).symm

namespace Session

/-- The value form of a removal answers the payload of what the entry form answers. It makes the same
events, and leaves the same session. -/
theorem perform_popValue (k : Nat) (side : Side) (s : Session) :
    (s.perform (.popValue k side)).1.result = Response.valueOf <$> (s.world.use k (.pop side)).1.result ∧
      (s.perform (.popValue k side)).1.events = (s.perform (.use k (.pop side))).1.events ∧
      (s.perform (.popValue k side)).2 = (s.perform (.use k (.pop side))).2 :=
  ⟨rfl, rfl, rfl⟩

/-- The entries of a list of a session, with its allocator. -/
def sequence (s : Session) (k : Nat) : Sequence Payload := ⟨s.world.contents k, s.world.allocator⟩

/-- In every session that commands lead to, a list hands out the payload at one end, or none if it is
empty, and the entry there is gone. -/
theorem popValue_sequence (cs : List Command) {k : Nat} {d : Deque Nat Payload}
    (hk : (after cs start).world.list? k = some d) (side : Side) :
    let s := after cs start
    let q := s.sequence k
    (s.perform (.popValue k side)).1.result = .ok (.value (q.entries[q.tipIdx side]?.map Entry.value)) ∧
      ((s.perform (.popValue k side)).2.sequence k).entries = q.entries.eraseIdx (q.tipIdx side) := by
  intro s q
  obtain ⟨strayed, hw⟩ := after_sound cs
  obtain ⟨hresult, hcontents⟩ := World.use_pop hw hk side
  obtain ⟨hvalue, -, hleft⟩ := perform_popValue k side s
  constructor
  · rw [hvalue, hresult]
    rfl
  · rw [hleft]
    exact hcontents

end Session

end LinkedDeque
