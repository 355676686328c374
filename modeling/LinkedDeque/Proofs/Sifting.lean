import LinkedDeque.Proofs.Chained
import LinkedDeque.Proofs.Visits
import Mathlib.Tactic.IntervalCases

/-!
# LinkedDeque.Proofs.Sifting

An erasure by a predicate on which nobody panics, as a filter:

* `Linkage.Filtered`     — a list that has come down to some of its nodes, the others being freed.
* `View.eraseWhere_answers` — what the whole walk comes to, in the terms of a row.
* `Deque.eraseWhere_filters` — on every well-formed list: the answer, each call in its order, and the
  list that is left.
-/

namespace LinkedDeque

variable {σ τ α : Type}

/-- A list has come down to a run of its nodes, with their entries. Its other nodes are freed, and the
nodes of no concern to it are as they were. -/
structure Linkage.Filtered (l l' : Linkage α) (kept : List (Slot α)) : Prop where
  wellFormed : l'.WellFormed (handlesOf kept)
  slots : l'.slots = kept
  contents : l'.contents = entriesOf kept
  length : l'.length = kept.length
  empty : l'.chain.ends = .empty ↔ kept = []
  freed : ∀ h ∈ l.handles, h ∉ handlesOf kept → l'.heap.get? h = none
  others : ∀ h, h ∉ l.handles → l'.heap.get? h = l.heap.get? h

/-- A machine seen as the row of its list. -/
def Machine.view (m : Machine σ α) : View σ α :=
  ⟨m.linkage.scene, m.destructors, m.allocator, m.trace⟩

theorem Callback.length_accepted_rejected {predicate : Callback τ (Entry α) Bool} {run : List (Slot α)}
    (hall : predicate.Answers (entriesOf run)) :
    (predicate.accepted run).length + (predicate.rejected run).length = run.length := by
  induction run generalizing predicate with
  | nil => rfl
  | cons s run ih =>
    obtain ⟨accepts, predicate', hc, hall'⟩ := hall.cons
    have hrest := ih hall'
    rw [accepted_cons hc, rejected_cons hc]
    cases accepts <;> simp <;> omega

namespace View

variable {predicate : Callback τ (Entry α) Bool} {override : Option (Destructor σ α)} {v : View σ α}

/-- An erasure on which nobody panics goes through all entries, and its log line counts those that are
gone and those that are left. -/
theorem eraseWhere_answers (hall : predicate.Answers (entriesOf v.row.slots))
    (hreturns : Destructors.Returns { v.destructors with override }
      ((predicate.accepted v.row.slots).map Slot.payload)) :
    let w := View.sifted predicate v.row.slots { v with destructors := { v.destructors with override } }
    v.eraseWhere predicate override =
      (.ok ((predicate.accepted v.row.slots).length, predicate.after (entriesOf v.row.slots)),
        View.log (.eraseWhere (predicate.accepted v.row.slots).length w.row.length)
          { w with destructors := { w.destructors with override := none } }) := by
  intro w
  have hwalk := walk_sift (v := { v with destructors := { v.destructors with override } })
    hall hreturns [] 0 0
  rw [List.append_nil, walk, Nat.zero_add, Nat.zero_add] at hwalk
  rw [eraseWhere, withOverride]
  simp only [hwalk]
  rfl

end View

namespace Linkage

variable {l l' : Linkage α} {s s' : Scene α} {kept : List (Slot α)}

/-- What a row and its surroundings say of a list that has come down to some of its nodes. -/
theorem Shows.filtered (hl : l.Shows s) (hl' : l'.Shows s') (hrow : s'.row.slots = kept)
    (hsub : kept.Sublist s.row.slots) (hrest : s'.rest = s.rest) : l.Filtered l' kept := by
  have hhandles : s'.row.handles = handlesOf kept := by rw [Row.handles, hrow]
  have hkept : ∀ h ∈ handlesOf kept, h ∈ s.row.handles := fun h hh => (hsub.map Slot.handle).subset hh
  have hlength : l'.length = kept.length := by rw [hl'.length_eq, Row.length, hrow]
  refine ⟨?_, ?_, ?_, hlength, ?_, ?_, ?_⟩
  · have hwf := hl'.wellFormed
    rwa [hl'.handles_eq, hhandles] at hwf
  · rw [hl'.slots_eq, hrow]
  · rw [hl'.contents_eq, Row.entries, hrow]
  · rw [hl'.spans.eq_empty_iff, hrow]
  · intro h hh hnot
    rw [hl.handles_eq] at hh
    rw [hl'.outside h (by rwa [hhandles]), hrest, hl.apart h hh]
  · intro h hh
    rw [hl.handles_eq] at hh
    have hh' : h ∉ s'.row.handles := by
      rw [hhandles]
      exact fun hk => hh (hkept h hk)
    rw [hl'.outside h hh', hrest, hl.outside h hh]

end Linkage

/-- An erasure by a predicate is a filter. On every well-formed list, with every predicate that answers
and every destructor that returns, it comes to an end; it calls the predicate on each entry in turn,
destroys the payload of an accepted one right after that call and no other payload, answers how many
it accepted, and leaves the entries that it rejected. -/
theorem Deque.eraseWhere_filters {m : Machine σ α} {nodes : List Handle}
    (hm : m.linkage.WellFormed nodes) {predicate : Callback τ (Entry α) Bool}
    {override : Option (Destructor σ α)} (hall : predicate.Answers m.linkage.contents)
    (hreturns : Destructors.Returns { m.destructors with override }
      ((predicate.accepted m.linkage.slots).map Slot.payload)) :
    ∃ l', m.linkage.Filtered l' (predicate.rejected m.linkage.slots) ∧
      (predicate.accepted m.linkage.slots).length + l'.length = m.linkage.length ∧
      (Deque.eraseWhere predicate override).run m =
        .ok ((predicate.accepted m.linkage.slots).length, predicate.after m.linkage.contents)
          ⟨l', { Destructors.after { m.destructors with override }
              ((predicate.accepted m.linkage.slots).map Slot.payload) with override := none },
            m.allocator,
            (m.trace ++ (View.siftEvents (Destructors.fate { m.destructors with override }) predicate
              m.linkage.slots).toArray).push
              (.logged (.eraseWhere (predicate.accepted m.linkage.slots).length l'.length))⟩ := by
  obtain ⟨hl, -⟩ := hm.shows
  have hslots : m.linkage.slots = m.view.row.slots := hl.slots_eq
  have hcontents : m.linkage.contents = entriesOf m.view.row.slots := hl.contents_eq
  rw [hcontents] at hall ⊢
  rw [hslots] at hreturns ⊢
  obtain ⟨l', hrun, hl'⟩ := Leads.eraseWhere predicate override m.view m.linkage hl
  rw [View.eraseWhere_answers hall hreturns] at hrun hl'
  have hleft := View.slots_sifted
    (v := { m.view with destructors := { m.view.destructors with override } })
    (List.append_nil _).symm hl.nodup hall
  rw [List.append_nil] at hleft
  have hsub : (predicate.rejected m.view.row.slots).Sublist m.view.row.slots := by
    rw [← Callback.filter_accepted hall hl.nodup]
    exact List.filter_sublist
  have hfiltered := hl.filtered hl' hleft hsub rfl
  refine ⟨l', hfiltered, ?_, ?_⟩
  · rw [hfiltered.length, Callback.length_accepted_rejected hall, hl.length_eq]
    rfl
  · rw [hl'.length_eq]
    exact hrun

/-- A list of three entries, the cursor on the second one. -/
def trio : Machine Unit Nat :=
  ⟨⟨⟨#[some ⟨⟨7, 0⟩, none, some 1⟩, some ⟨⟨8, 2⟩, some 0, some 2⟩,
    some ⟨⟨9, 0⟩, some 1, none⟩]⟩,
    ⟨.full ⟨⟨3, by decide, by decide⟩, 0, 2⟩, some 1⟩⟩, .none, .generous, #[]⟩

theorem trio_wellFormed : trio.linkage.WellFormed [0, 1, 2] := by
  refine ⟨by decide, ⟨rfl, rfl, rfl⟩, ?_, ?_⟩
  · intro i hi
    have hlt : i < 3 := hi
    interval_cases i <;> exact ⟨_, rfl, rfl, rfl⟩
  · intro c hc
    cases hc
    decide

/-- A predicate that accepts every other entry, whatever it is. -/
def alternating : Callback Bool (Entry Nat) Bool := ⟨true, fun accepts _ => (.returns accepts, !accepts)⟩

/-- The two ends go, the entry with the cursor stays. -/
theorem eraseWhere_filters_alternating :
    trio.linkage.WellFormed [0, 1, 2] ∧ alternating.Answers trio.linkage.contents ∧
      Destructors.Returns { trio.destructors with override := none } [7, 9] ∧
      ∃ l', trio.linkage.Filtered l' [⟨1, ⟨8, 2⟩⟩] ∧ 2 + l'.length = 3 ∧
        (Deque.eraseWhere alternating none).run trio =
          .ok (2, { alternating with state := false }) ⟨l', .none, .generous,
            #[.called ⟨7, 0⟩, .left .forgotten 7, .called ⟨8, 2⟩, .called ⟨9, 0⟩, .left .forgotten 9,
              .logged (.eraseWhere 2 l'.length)]⟩ := by
  have hall : alternating.Answers trio.linkage.contents := by rfl
  have hreturns : Destructors.Returns { trio.destructors with override := none } [7, 9] := by decide
  exact ⟨trio_wellFormed, hall, hreturns,
    Deque.eraseWhere_filters trio_wellFormed hall hreturns⟩

end LinkedDeque
