import LinkedDeque.Deque.Destroy
import LinkedDeque.Proofs.Walks

/-!
# LinkedDeque.Proofs.Clearing

The end of a row:

* `View.drain` — the nodes of a run freed and their payloads destroyed, until a destructor panics.
* `View.clear` — a row abandoned and then drained.

Nothing of a row is left when no destructor panics. When one does, the nodes behind it stay, as many as
were not drained (`Course.clear`).
-/

namespace LinkedDeque

variable {σ α : Type}

namespace View

/-- Nodes freed and their payloads destroyed, in order. -/
def drain : List (Slot α) → View σ α → Reading σ α Unit
  | [], v => (.ok (), v)
  | s :: run, v =>
    match { v with rest := v.rest.set s.handle none }.dispose s.payload with
    | (.ok (), v) => v.drain run
    | (.error p, v) => (.error p, v)

def abandon (v : View σ α) : View σ α :=
  { v with row := .empty, rest := v.rest.lay none v.row.slots }

def clear (override : Option (Destructor σ α)) (v : View σ α) : Reading σ α Unit :=
  match v.abandon.withOverride override (·.drain v.row.slots) with
  | (.ok (), w) => (.ok (), if 0 < v.row.length then w.log (.destroy v.row.length) else w)
  | (.error p, w) => (.error p, w)

theorem clear_empty (v : View σ α) (hrow : v.row = .empty) (ho : v.destructors.override = none) :
    v.clear none = (.ok (), v) := by
  obtain ⟨⟨row, rest, fresh⟩, ⟨default, override⟩, allocator, trace⟩ := v
  cases hrow
  cases ho
  rfl

theorem drain_keeps (run : List (Slot α)) (v : View σ α) :
    (v.drain run).2.row = v.row ∧ (v.drain run).2.destructors.fate = v.destructors.fate := by
  induction run generalizing v with
  | nil => exact ⟨rfl, rfl⟩
  | cons s run ih =>
    let u : View σ α := { v with rest := v.rest.set s.handle none }
    have hscene := View.toScene_dispose s.payload u
    have hfate := View.fate_dispose s.payload u
    rw [drain]
    cases hr : u.dispose s.payload with
    | mk out w =>
      rw [hr] at hscene hfate
      have hrow : w.row = v.row := by rw [show w.toScene = u.toScene from hscene]
      cases out with
      | error p => exact ⟨hrow, hfate⟩
      | ok _ => exact ⟨(ih w).1.trans hrow, (ih w).2.trans hfate⟩

theorem clear_keeps (override : Option (Destructor σ α)) (v : View σ α) :
    (v.clear override).2.row = .empty ∧ (v.clear override).2.destructors.override = none := by
  have hrow : (v.abandon.withOverride override (·.drain v.row.slots)).2.row = .empty :=
    (drain_keeps v.row.slots _).1
  have hover : (v.abandon.withOverride override (·.drain v.row.slots)).2.destructors.override = none :=
    rfl
  rw [clear]
  cases hr : v.abandon.withOverride override (·.drain v.row.slots) with
  | mk out w =>
    rw [hr] at hrow hover
    cases out with
    | error p => exact ⟨hrow, hover⟩
    | ok _ =>
      simp only
      split
      · exact ⟨hrow, hover⟩
      · exact ⟨hrow, hover⟩

end View

namespace Leads

open Deque

variable {v : View σ α} {s : Slot α} {β γ : Type}

theorem after_abandon {act : Act σ α β} {r : Reading σ α β} (h : Leads act v.abandon r) :
    Leads (do
      Act.linking (.setCursor none)
      Act.linking (.setEnds .empty)
      act) v r := by
  intro l hl
  obtain ⟨l', hrun, hl'⟩ := LinkM.abandon_shows hl
  have he : EStateM.Result.ok () ⟨l.heap, ⟨.empty, none⟩⟩ = .ok () l' := hrun
  cases he
  obtain ⟨l₂, hrun₂, hl₂⟩ := h _ hl'
  exact ⟨l₂, hrun₂, hl₂⟩

theorem disposeFrom {run : List (Slot α)} {fuel : Nat} {back : Option Handle}
    (hfuel : run.length ≤ fuel) (hrow : v.row = .empty) (hnodup : (handlesOf run).Nodup)
    (hlinked : Linked v.rest .after back run none) :
    Leads (disposeFrom fuel (ahead run none)) v (v.drain run) := by
  induction run generalizing fuel back v with
  | nil =>
    unfold Deque.disposeFrom
    exact Leads.pure _ _
  | cons s run ih =>
    obtain ⟨fuel, rfl⟩ : ∃ f, fuel = f + 1 := ⟨fuel - 1, by simp at hfuel; omega⟩
    obtain ⟨hs, hlinked⟩ := hlinked
    rw [handlesOf, List.map_cons, List.nodup_cons] at hnodup
    have hnext : Leads (Act.linking (.getLink .after s.handle)) v (.ok (ahead run none), v) := by
      refine Leads.linking (s := v.toScene) fun l hl => ⟨l, ?_, hl⟩
      have hnot : s.handle ∉ v.row.handles := by
        rw [hrow]
        exact List.not_mem_nil
      refine LinkM.run_getLink_eq ((hl.outside _ hnot).trans hs) (Node.link_between ..)
    have hfree : Leads (Act.linking (.release s.handle)) v
        (.ok s.entry, { v with rest := v.rest.set s.handle none }) := by
      refine Leads.linking (s := { v.toScene with rest := v.rest.set s.handle none }) ?_
      intro l hl
      have h := LinkM.release_shows hl hs
      rwa [Node.entry_between] at h
    let u : View σ α := { v with rest := v.rest.set s.handle none }
    have hdispose := Leads.dispose s.payload u
    have hscene := View.toScene_dispose s.payload u
    rw [ahead_cons, View.drain]
    unfold Deque.disposeFrom
    refine hnext.bind (hfree.bind ?_)
    cases hr : u.dispose s.payload with
    | mk out w =>
      rw [hr] at hdispose hscene
      have hrow' : w.row = .empty := (congrArg Scene.row hscene).trans hrow
      have hrest : w.rest = v.rest.set s.handle none := congrArg Scene.rest hscene
      cases out with
      | error p => exact hdispose.bind_error
      | ok _ =>
        have hrun : Linked w.rest .after (some s.handle) run none := by
          rw [hrest]
          exact hlinked.set_other hnodup.1 _
        exact hdispose.bind (ih (by simpa using hfuel) hrow' hnodup.2 hrun)

theorem clear (override : Option (Destructor σ α)) (v : View σ α) :
    Leads (Deque.clear override) v (v.clear override) := by
  refine Leads.of_shows ?_
  intro l hl
  have hlen : v.row.slots.length ≤ v.fresh := by
    rw [← hl.size]
    exact hl.length_le
  have hdrain : Leads (Act.withOverride override (Deque.disposeFrom v.fresh (ahead v.row.slots none)))
      v.abandon (v.abandon.withOverride override (·.drain v.row.slots)) :=
    Leads.withOverride override (f := (·.drain v.row.slots))
      (disposeFrom hlen rfl hl.nodup (Nodes.linked_lay hl.nodup))
  rw [Deque.clear, View.clear]
  refine (Leads.length v).bind ((Leads.front v).bind ((Leads.bound v).bind (after_abandon ?_)))
  cases hr : v.abandon.withOverride override (·.drain v.row.slots) with
  | mk out w =>
    rw [hr] at hdrain
    cases out with
    | error p => exact hdrain.bind_error
    | ok _ =>
      refine hdrain.bind ?_
      split
      · exact Leads.log _ _
      · exact Leads.pure _ _

theorem tryCatch_ok {act : Act σ α β} {handler : Panic → Act σ α β} {b : β} {w : View σ α}
    (h : Leads act v (.ok b, w)) : Leads (tryCatch act handler) v (.ok b, w) := by
  intro l hl
  obtain ⟨l', hrun, hl'⟩ := h l hl
  refine ⟨l', ?_, hl'⟩
  have hrun' : act (v.machine l) = .ok b (w.machine l') := hrun
  simp only [tryCatch, tryCatchThe, MonadExceptOf.tryCatch, EStateM.tryCatch, EStateM.run, hrun']
  rfl

theorem tryCatch_error {act : Act σ α β} {handler : Panic → Act σ α β} {p : Panic} {w : View σ α}
    {r : Reading σ α β} (h : Leads act v (.error p, w)) (hh : Leads (handler p) w r) :
    Leads (tryCatch act handler) v r := by
  intro l hl
  obtain ⟨l₁, hrun, hl₁⟩ := h l hl
  obtain ⟨l₂, hrun₂, hl₂⟩ := hh l₁ hl₁
  refine ⟨l₂, ?_, hl₂⟩
  have hrun' : act (v.machine l) = .error p (w.machine l₁) := hrun
  simp only [tryCatch, tryCatchThe, MonadExceptOf.tryCatch, EStateM.tryCatch, EStateM.run, hrun']
  exact hrun₂

/-- The end of a list with a destructor given: once the row was drained, nothing more is to do. -/
theorem destroyWith (d : Destructor σ α) (v : View σ α) :
    Leads (Deque.destroyWith d) v (v.clear (some d)) := by
  have hclear := Leads.clear (some d) v
  obtain ⟨hrow, hover⟩ := View.clear_keeps (some d) v
  have hagain := Leads.clear none (v.clear (some d)).2
  rw [View.clear_empty _ hrow hover] at hagain
  cases hr : v.clear (some d) with
  | mk out w =>
    rw [hr] at hclear hagain
    cases out with
    | ok _ => exact (tryCatch_ok hclear).bind hagain
    | error p =>
      exact Leads.bind_error (tryCatch_error hclear (hagain.bind (Leads.throw _ _)))

end Leads

/-! ## The course of an end -/

/-- What a drain comes to: as many payloads went as nodes were freed, and nodes are left only behind a
destructor that panicked. -/
structure Drained (events events' : Array (Event α)) (run remaining : List (Slot α))
    (out : Except Panic Unit) : Prop where
  behind : remaining = run.drop ((leftIn events').length - (leftIn events).length)
  count : (leftIn events).length ≤ (leftIn events').length
  done : out = .ok () → remaining = []
  panicked : ∀ p, out = .error p → ∃ report, p = .destructor report

namespace Drained

variable {events events₁ events' : Array (Event α)} {s : Slot α} {run remaining : List (Slot α)}
  {out : Except Panic Unit}

theorem stopped (s : Slot α) (report : String)
    (hcount : (leftIn events').length = (leftIn events).length + 1) :
    Drained events events' (s :: run) run (.error (.destructor report)) where
  behind := by
    rw [hcount, Nat.add_sub_cancel_left]
    rfl
  count := by omega
  done h := by cases h
  panicked p h := by
    cases h
    exact ⟨report, rfl⟩

theorem cons (s : Slot α) (h : Drained events₁ events' run remaining out)
    (hcount : (leftIn events₁).length = (leftIn events).length + 1) :
    Drained events events' (s :: run) remaining out where
  behind := by
    have hle := h.count
    have hsub : (leftIn events').length - (leftIn events).length =
        (leftIn events').length - (leftIn events₁).length + 1 := by omega
    rw [h.behind, hsub]
    rfl
  count := by
    have hle := h.count
    omega
  done := h.done
  panicked := h.panicked

end Drained

namespace Course

variable {permits : Fate → Prop} {v w : View σ α} {came hand : List α}

theorem drain {run : List (Slot α)} (hf : permits w.destructors.fate)
    (c : Course permits v w came hand run) :
    ∃ remaining, Course permits v (w.drain run).2 came hand remaining ∧
      Drained w.trace (w.drain run).2.trace run remaining (w.drain run).1 := by
  induction run generalizing w with
  | nil => exact ⟨[], c, by simp [View.drain], Nat.le_refl _, fun _ => rfl, by simp [View.drain]⟩
  | cons s run ih =>
    let u : View σ α := { w with rest := w.rest.set s.handle none }
    have hfate := View.fate_dispose s.payload u
    have c' : Course permits v (u.dispose s.payload).2 came hand run :=
      Course.dispose (w := u) hf c.release
    have hcount : (leftIn (u.dispose s.payload).2.trace).length = (leftIn w.trace).length + 1 := by
      rw [View.leftIn_dispose, List.length_append]
      rfl
    rw [View.drain]
    cases hr : u.dispose s.payload with
    | mk out u' =>
      rw [hr] at hfate c' hcount
      cases out with
      | error p =>
        obtain ⟨report, rfl, -⟩ := View.dispose_error (congrArg Prod.fst hr)
        exact ⟨run, c', Drained.stopped s report hcount⟩
      | ok _ =>
        obtain ⟨remaining, c'', h⟩ := ih (w := u') (by rw [hfate]; exact hf) c'
        exact ⟨remaining, c'', h.cons s hcount⟩

/-- All payloads of a row are destroyed, or those in front of one whose destructor panicked. -/
theorem clear (override : Option (Destructor σ α))
    (hf : permits { v.destructors with override }.fate) :
    ∃ remaining, Course permits v (v.clear override).2 [] [] remaining ∧
      Drained v.trace (v.clear override).2.trace v.row.slots remaining (v.clear override).1 := by
  let u : View σ α := { v.abandon with destructors := { v.destructors with override } }
  have c : Course permits v u [] [] v.row.slots := Course.start.abandon.settle v.allocator _
  obtain ⟨remaining, c', h⟩ := c.drain hf
  let w := (u.drain v.row.slots).2
  have c'' : Course permits v (v.abandon.withOverride override (·.drain v.row.slots)).2 [] []
      remaining :=
    c'.settle w.allocator _
  refine ⟨remaining, ?_⟩
  have h' : Drained v.trace (v.abandon.withOverride override (·.drain v.row.slots)).2.trace v.row.slots
    remaining (v.abandon.withOverride override (·.drain v.row.slots)).1 := h
  rw [View.clear]
  cases hr : v.abandon.withOverride override (·.drain v.row.slots) with
  | mk out w =>
    rw [hr] at c'' h'
    cases out with
    | error p => exact ⟨c'', h'⟩
    | ok _ =>
      simp only
      split
      · refine ⟨c''.logged _, ?_⟩
        have htrace : leftIn (w.log (.destroy v.row.length)).trace = leftIn w.trace := by
          rw [View.log, View.emit, leftIn_push]
          exact List.append_nil _
        obtain ⟨h₁, h₂, h₃, h₄⟩ := h'
        exact ⟨by rw [htrace]; exact h₁, by rw [htrace]; exact h₂, h₃, h₄⟩
      · exact ⟨c'', h'⟩

end Course

end LinkedDeque
