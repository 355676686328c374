import LinkedDeque.Proofs.Worlds
import Mathlib.Algebra.BigOperators.Group.Finset.Basic

/-!
# LinkedDeque.Proofs.Ledger

Where every payload is, and how it got there:

* `World.payloads`  — the payloads of all lists; `World.lost` — those in nodes that strayed.
* `World.Justified` — in a step, the payloads that come are those that the operation receives; they go
  only where it may send them, and exactly those in its answer go to the caller.
* `World.run_conserves` — the payloads that came are those that are in a list, or went, or are in a node
  that strayed: each in one of these places, and once.
-/

namespace LinkedDeque

variable {σ α : Type}

namespace World

def payloads (w : World σ α) : List α :=
  (List.range w.lists.size).flatMap fun k => (w.contents k).map Entry.value

def lost (w : World σ α) (strays : List Handle) : List α :=
  strays.filterMap fun h => (w.heap.get? h).map fun n => n.entry.value

def received (outcomes : List (Outcome α)) : List α := outcomes.flatMap fun o => enteredIn o.events

/-- The payloads that went during some steps, each with where it went. -/
def sent (outcomes : List (Outcome α)) : List (Fate × α) := outcomes.flatMap fun o => leftIn o.events

/-- The payloads that come in a step are those that its operation receives. They go where it may send
them, and those in its answer, and no others, go to the caller. -/
def Justified (w : World σ α) (s : Step σ α) (o : Outcome α) : Prop :=
  match s with
  | .use k op =>
    match w.list? k with
    | none => enteredIn o.events = [] ∧ leftIn o.events = []
    | some d => op.receives (w.contents k) o.result (enteredIn o.events) ∧
      (∀ fate x, (fate, x) ∈ leftIn o.events → op.permits d.default o.result fate) ∧
      returnedIn o.events = op.handed o.result
  | _ => enteredIn o.events = [] ∧ leftIn o.events = []

theorem Sound.payloads_eq {w : World σ α} {strays : List Handle} (hw : w.Sound strays) :
    (w.payloads : Multiset α) = ∑ k ∈ Finset.range w.lists.size, ((w.row k).payloads : Multiset α) := by
  rw [payloads]
  generalize w.lists.size = n
  induction n with
  | zero => rfl
  | succ n ih =>
    rw [List.range_succ, List.flatMap_append, ← Multiset.coe_add, ih, Finset.sum_range_succ,
      List.flatMap_singleton, hw.contents_eq n, Row.entries, List.map_map]
    rfl

theorem lost_append (w : World σ α) (a b : List Handle) : w.lost (a ++ b) = w.lost a ++ w.lost b :=
  List.filterMap_append

variable [AsBytes α] [AsText α]

namespace Use

variable {w : World σ α} {k : Nat} {d : Deque σ α} {op : Op σ α} {u : View σ α} {heap' : Heap α}
  {chain' : Chain} {strays : List (Slot α)} {made : Option Chain} {strayed : List Handle}
  (hw : w.Sound strayed) (hk : w.list? k = some d)
  (hu : Use w k d op u heap' chain' strays made)

include hw hk hu

theorem payloads_eq :
    ((w.use k op).2.payloads : Multiset α) + (w.row k).payloads =
      (w.payloads : Multiset α) + u.row.payloads +
        if made = none then 0 else (strays.map Slot.payload : Multiset α) := by
  have hlt := lt_of_list? hk
  have hmem : k ∈ Finset.range w.lists.size := Finset.mem_range.2 hlt
  have hold := Finset.add_sum_erase _ (fun j => ((w.row j).payloads : Multiset α)) hmem
  have hnew := Finset.add_sum_erase _ (fun j => (((w.use k op).2.row j).payloads : Multiset α)) hmem
  have hothers : ∑ j ∈ (Finset.range w.lists.size).erase k,
      (((w.use k op).2.row j).payloads : Multiset α) =
      ∑ j ∈ (Finset.range w.lists.size).erase k, ((w.row j).payloads : Multiset α) := by
    refine Finset.sum_congr rfl ?_
    intro j hj
    rw [Finset.mem_erase, Finset.mem_range] at hj
    rw [row_other hw hk hu hj.1 (Nat.ne_of_lt hj.2)]
  have hself := row_self hk hu
  have hmade := row_made hw hk hu
  rw [(sound hw hk hu).payloads_eq, hw.payloads_eq, ← hold]
  rw [hself, hothers] at hnew
  cases made with
  | none =>
    have hsize : (w.use k op).2.lists.size = w.lists.size := by
      rw [hu.world]
      exact Array.size_setIfInBounds
    rw [hsize, ← hnew, if_pos rfl]
    abel
  | some chain =>
    have hsize : (w.use k op).2.lists.size = w.lists.size + 1 := by
      rw [hu.world]
      exact (Array.size_push _).trans (congrArg (· + 1) Array.size_setIfInBounds)
    have hrow : (⟨strays, []⟩ : Row α).payloads = strays.map Slot.payload := by
      rw [Row.payloads, Row.slots, List.append_nil]
    rw [hsize, Finset.sum_range_succ, hmade, Option.elim_some, hrow, ← hnew, if_neg (Option.some_ne_none _)]
    abel

theorem lost_eq : (w.use k op).2.lost (strayed ++ w.strays (.use k op)) =
    w.lost strayed ++ if made = none then strays.map Slot.payload else [] := by
  have hheap : (w.use k op).2.heap = heap' := by rw [hu.world]
  rw [lost_append]
  refine congrArg₂ (· ++ ·) ?_ ?_
  · refine List.filterMap_congr ?_
    intro h hh
    obtain ⟨n, hn⟩ := hw.live hh
    rw [hheap, hn, (kept hw hk hu hn (hw.apart hh)).1]
  · rw [strays_eq hu, lost, hheap]
    split
    · rw [handlesOf, List.filterMap_map, ← List.filterMap_eq_map]
      refine List.filterMap_congr ?_
      intro s hs
      obtain ⟨⟨n, hn, hentry⟩, -⟩ := stray hw hk hu hs
      simp only [Function.comp, hn, Option.map_some, hentry]
    · rfl

theorem balance :
    (enteredIn (w.use k op).1.events : Multiset α) + w.payloads + w.lost strayed =
      (leftIn (w.use k op).1.events).map Prod.snd + (w.use k op).2.payloads +
        (w.use k op).2.lost (strayed ++ w.strays (.use k op)) := by
  have hcourse := hu.course.balance (hw.before hk op)
  have hpayloads := payloads_eq hw hk hu
  have hrow : (op.part (w.row k)).payloads = (w.row k).payloads := by
    rw [Row.payloads, Op.slots_part]
    rfl
  have hstart : (w.view d).trace = #[] := rfl
  simp only [hrow, hstart, leftIn_empty, enteredIn_empty, List.map_nil, Multiset.coe_nil, add_zero,
    zero_add] at hcourse
  rw [hu.events, lost_eq hw hk hu]
  refine add_right_cancel (b := ((w.row k).payloads : Multiset α)) ?_
  calc (enteredIn u.trace : Multiset α) + w.payloads + w.lost strayed + (w.row k).payloads
      = ((enteredIn u.trace : Multiset α) + (w.row k).payloads) + w.payloads + w.lost strayed := by
        abel
    _ = (leftIn u.trace).map Prod.snd + ((w.payloads : Multiset α) + u.row.payloads +
          strays.map Slot.payload) + w.lost strayed := by
        rw [hcourse]
        abel
    _ = (leftIn u.trace).map Prod.snd + ((w.use k op).2.payloads + ((w.row k).payloads : Multiset α)) +
          (w.lost strayed ++ if made = none then strays.map Slot.payload else [] : List α) := by
        rw [hpayloads, ← Multiset.coe_add]
        cases made with
        | none =>
          rw [if_pos rfl, if_pos rfl]
          abel
        | some chain =>
          rw [if_neg (Option.some_ne_none _), if_neg (Option.some_ne_none _), Multiset.coe_nil]
          abel
    _ = _ := by abel

end Use

theorem step_balance {w : World σ α} {strayed : List Handle} (hw : w.Sound strayed) (s : Step σ α) :
    (enteredIn (w.step s).1.events : Multiset α) + w.payloads + w.lost strayed =
      (leftIn (w.step s).1.events).map Prod.snd + (w.step s).2.payloads +
        (w.step s).2.lost (strayed ++ w.strays s) := by
  cases s with
  | use k op =>
    cases hk : w.list? k with
    | none =>
      have hnone : w.strays (.use k op) = [] := by simp only [strays, hk]
      simp only [step, use_absent hk, hnone, List.append_nil, enteredIn_empty, leftIn_empty,
        List.map_nil]
    | some d =>
      obtain ⟨u, heap', chain', strays, made, hu⟩ := use_eq hk (hw.shows hk) op
      exact hu.balance hw hk
  | arm refuses =>
    rw [show w.strays (.arm refuses) = [] from rfl, List.append_nil]
    rfl
  | create default =>
    have hnew := step_sound hw (.create default)
    have hrow := create_row w default
    have hsize : (w.step (.create default)).2.lists.size = w.lists.size + 1 := Array.size_push _
    have hempty : w.row w.lists.size = .empty :=
      row_of_not_list? (by rw [list?, Array.getElem?_eq_none (Nat.le_refl _)]; rfl)
    have hpayloads : ((w.step (.create default)).2.payloads : Multiset α) = w.payloads := by
      rw [hnew.payloads_eq, hw.payloads_eq, hsize, Finset.sum_range_succ]
      simp only [hrow, hempty]
      exact add_zero _
    rw [show w.strays (.create default) = [] from rfl, List.append_nil, hpayloads]
    rfl

theorem run_balance (steps : List (Step σ α)) {w : World σ α} {strays : List Handle}
    (hw : w.Sound strays) :
    (received (run steps w).1 : Multiset α) + w.payloads + w.lost strays =
      (sent (run steps w).1).map Prod.snd + (run steps w).2.payloads +
        (run steps w).2.lost (strays ++ strayed steps w) := by
  induction steps generalizing w strays with
  | nil =>
    rw [show strayed [] w = [] from rfl, List.append_nil]
    rfl
  | cons s rest ih =>
    have hstep := step_balance hw s
    have hrest := ih (step_sound hw s)
    rw [List.append_assoc] at hrest
    have hreceived : received (run (s :: rest) w).1 =
        enteredIn (w.step s).1.events ++ received (run rest (w.step s).2).1 := rfl
    have hsent : sent (run (s :: rest) w).1 =
        leftIn (w.step s).1.events ++ sent (run rest (w.step s).2).1 := rfl
    rw [hreceived, hsent, List.map_append, ← Multiset.coe_add, ← Multiset.coe_add]
    calc (enteredIn (w.step s).1.events : Multiset α) + received (run rest (w.step s).2).1 +
          w.payloads + w.lost strays
        = ((enteredIn (w.step s).1.events : Multiset α) + w.payloads + w.lost strays) +
            received (run rest (w.step s).2).1 := by abel
      _ = (leftIn (w.step s).1.events).map Prod.snd +
            ((received (run rest (w.step s).2).1 : Multiset α) + (w.step s).2.payloads +
              (w.step s).2.lost (strays ++ w.strays s)) := by
          rw [hstep]
          abel
      _ = _ := by
          rw [hrest]
          show _ = _ + ((run rest (w.step s).2).2.payloads : Multiset α) +
            (run rest (w.step s).2).2.lost (strays ++ (w.strays s ++ strayed rest (w.step s).2))
          abel

theorem Sound.justified {w : World σ α} {strays : List Handle} (hw : w.Sound strays) (s : Step σ α) :
    w.Justified s (w.step s).1 := by
  cases s with
  | create default => exact ⟨rfl, rfl⟩
  | arm refuses => exact ⟨rfl, rfl⟩
  | use k op =>
    rw [Justified, step]
    cases hk : w.list? k with
    | none =>
      rw [use_absent hk]
      exact ⟨rfl, rfl⟩
    | some d =>
      obtain ⟨u, heap', chain', strays', made, hu⟩ := use_eq hk (hw.shows hk) op
      simp only [hu.events, hw.contents_eq]
      refine ⟨hu.receives, fun fate x hmem => ?_, hu.handed⟩
      rcases hu.course.fates hmem with h | h
      · exact absurd h List.not_mem_nil
      · exact h

/-- After every run, the payloads that came are in a list, or went, or are in a node that strayed; and in
the step after it, payloads come and go as the operation and the destructors of the list say. -/
theorem run_conserves (steps : List (Step σ α)) :
    (received (run steps start).1).Perm ((run steps start).2.payloads ++
      ((sent (run steps start).1).map Prod.snd ++
        (run steps start).2.lost (strayed steps start))) ∧
    ∀ s, (run steps start).2.Justified s ((run steps start).2.step s).1 := by
  refine ⟨?_, (run_sound steps start_sound).justified⟩
  have hbalance := run_balance steps (start_sound (σ := σ) (α := α))
  rw [← Multiset.coe_eq_coe, ← Multiset.coe_add, ← Multiset.coe_add]
  rw [show (start : World σ α).payloads = [] from rfl, show (start : World σ α).lost [] = [] from rfl,
    Multiset.coe_nil, add_zero, add_zero, List.nil_append] at hbalance
  rw [hbalance]
  abel

end World

end LinkedDeque
