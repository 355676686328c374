import LinkedDeque.Proofs.Chained
import Mathlib.Tactic.IntervalCases

/-!
# LinkedDeque.Proofs.Verified

The check of all links on any heap, however its links run: crossing, shared, turning back on themselves.

* `Linkage.Closed`        — links and ends lead to nodes in use; nothing else is asked of a heap.
* `walkForward_cases`     — the walk toward the tail ends, at a broken link or at the end of a run.
* `Linkage.verify_decides` — the check passes exactly the well-linked chains and stops at every other.

The walk keeps no set of the nodes it met and has no bound of its own. What ends it is the link back:
the nodes met so far are a run with nothing behind it, such a run has no node twice (`Linked.nodup`),
and so it is no longer than there are nodes.
-/

namespace LinkedDeque

variable {α : Type}

/-- The faults that the checks of both ends and of the way toward the tail report. A number of nodes
found there is at most `bound`. -/
def Fault.IsForward (bound : Nat) : Fault → Prop
  | .beyondTheEnd _ => True
  | .missingBackLink => True
  | .brokenBackLink => True
  | .strayWalk side => side = .after
  | .wrongLength side found _ => side = .after ∧ found ≤ bound
  | _ => False

/-- The node a run leads to comes into it, if it links back to the last one. -/
theorem Linked.extend {look : Nodes α} {seen : List (Slot α)} {curr : Handle} {n : Node α}
    (hseen : Linked look .after none seen (some curr)) (hcurr : look curr = some n)
    (hback : n.prev = behind none seen) :
    Linked look .after none (seen ++ [⟨curr, n.entry⟩]) n.next := by
  refine append.2 ⟨hseen, ?_, trivial⟩
  rw [hcurr, ← hback]
  rfl

namespace Linkage

/-- Every link of a node in use, and both recorded ends, lead to nodes in use. -/
structure Closed (l : Linkage α) : Prop where
  links : ∀ h n side k, l.heap.get? h = some n → n.link side = some k → k ∈ l.heap.live
  ends : ∀ side k, l.tip? side = some k → k ∈ l.heap.live

variable {l : Linkage α}

/-! ## The two halves of the check -/

/-- The check of both ends and of the way toward the tail. -/
def verifyForward (l : Linkage α) (span : Span) : Except Fault Unit := do
  l.checkTip .before span
  l.checkTip .after span
  checkArrival .after span (← l.walkForward l.heap.size span.head 1)

/-- The check of the way toward the head. -/
def verifyBackward (l : Linkage α) (span : Span) : Except Fault Unit := do
  checkArrival .before span (← l.walkBackward l.heap.size span.tail 1)

theorem verify_full {span : Span} (hends : l.chain.ends = .full span) :
    l.verify = (do l.verifyForward span; l.verifyBackward span) := by
  rw [verify, hends]
  simp only [verifyForward, verifyBackward, bind_assoc]

/-! ## The walk toward the tail -/

/-- The walk toward the tail stops at a link that is not answered, or at the end of a run that begins
where the walk began. -/
theorem walkForward_cases (hl : l.Closed) (seen : List (Slot α)) {curr : Handle} {n : Node α}
    (fuel : Nat) (hseen : Linked l.heap.get? .after none seen (some curr))
    (hcurr : l.heap.get? curr = some n) (hback : n.prev = behind none seen)
    (hfuel : l.heap.size ≤ fuel + seen.length) :
    (∃ f, l.walkForward fuel curr (seen.length + 1) = .error f ∧
      (f = .missingBackLink ∨ f = .brokenBackLink)) ∨
    ∃ run last, Linked l.heap.get? .after none run none ∧ ahead run none = ahead seen (some curr) ∧
      behind none run = some last ∧
      l.walkForward fuel curr (seen.length + 1) = .ok (last, run.length) := by
  induction fuel generalizing seen curr n with
  | zero =>
    -- the nodes met so far, with this one, would be more than the heap has
    have hlinked := hseen.extend hcurr hback
    have hle := hlinked.length_le hlinked.nodup
    rw [List.length_append, List.length_singleton] at hle
    omega
  | succ fuel ih =>
    have hlinked := hseen.extend hcurr hback
    have hnext : l.link .after curr = .ok n.next := link_eq hcurr .after
    unfold walkForward
    simp only [hnext]
    cases hn : n.next with
    | none =>
      rw [hn] at hlinked
      refine .inr ⟨_, curr, hlinked, ?_, ?_, ?_⟩
      · rw [ahead_append, ahead_cons]
      · rw [behind_append, behind_cons, behind_nil]
      · rw [List.length_append, List.length_singleton]
    | some next =>
      rw [hn] at hlinked
      obtain ⟨m, hm⟩ := Heap.mem_live.1 (hl.links curr n .after next hcurr hn)
      have hprev : l.link .before next = .ok m.prev := link_eq hm .before
      simp only [hprev]
      cases hp : m.prev with
      | none => exact .inl ⟨_, rfl, .inl rfl⟩
      | some back =>
        by_cases hb : back = curr
        · have hback' : m.prev = behind none (seen ++ [⟨curr, n.entry⟩]) := by
            rw [hp, hb, behind_append, behind_cons, behind_nil]
          have hwalk := ih _ hlinked hm hback' (by
            rw [List.length_append, List.length_singleton]
            omega)
          rw [ahead_append, ahead_cons, List.length_append, List.length_singleton] at hwalk
          simp only [if_pos hb]
          exact hwalk
        · simp only [if_neg hb]
          exact .inl ⟨_, rfl, .inr rfl⟩

theorem checkTip_cases (hl : l.Closed) {span : Span} (hends : l.chain.ends = .full span) (side : Side) :
    ∃ n, l.heap.get? (span.tip side) = some n ∧
      l.checkTip side span = if n.link side = none then .ok () else .error (.beyondTheEnd side) := by
  obtain ⟨n, hn⟩ := Heap.mem_live.1 (hl.ends side (span.tip side) (by rw [tip?, hends]; rfl))
  refine ⟨n, hn, ?_⟩
  rw [checkTip, link_eq hn side]
  cases hlink : n.link side with
  | none => rfl
  | some k => rfl

/-- The first half of the check stops short with a fault of its own, or the record is that of a run. -/
theorem verifyForward_cases (hl : l.Closed) {span : Span} (hends : l.chain.ends = .full span) :
    (∃ f, l.verifyForward span = .error f ∧ f.IsForward l.heap.live.length) ∨
    l.verifyForward span = .ok () ∧ ∃ run, Spans l.heap.get? (.full span) .after run := by
  obtain ⟨first, hfirst, hbefore⟩ := checkTip_cases hl hends .before
  obtain ⟨_, -, hafter⟩ := checkTip_cases hl hends .after
  rw [verifyForward, hbefore, hafter]
  split
  case isFalse => exact .inl ⟨_, rfl, trivial⟩
  case isTrue hhead =>
    split
    case isFalse => exact .inl ⟨_, rfl, trivial⟩
    case isTrue =>
      rcases walkForward_cases hl [] l.heap.size trivial hfirst hhead (Nat.le_refl _)
        with ⟨f, hwalk, hf⟩ | ⟨run, last, hlinked, hahead, hlast, hwalk⟩
      · have hwalk' : l.walkForward l.heap.size span.head 1 = .error f := hwalk
        rw [hwalk']
        refine .inl ⟨f, rfl, ?_⟩
        rcases hf with rfl | rfl <;> exact trivial
      · have hwalk' : l.walkForward l.heap.size span.head 1 = .ok (last, run.length) := hwalk
        have hle := hlinked.length_le_live hlinked.nodup
        rw [hwalk']
        simp only [bind, Except.bind, checkArrival]
        split
        case isFalse => exact .inl ⟨_, rfl, rfl⟩
        case isTrue htail =>
          split
          case isFalse => exact .inl ⟨_, rfl, rfl, hle⟩
          case isTrue hlen =>
            refine .inr ⟨rfl, run, hlinked.nodup, hlinked, hlen.symm, ?_, hahead.symm⟩
            rw [hlast, ← htail]
            rfl

/-! ## The whole check -/

/-- Once the way toward the tail is found good, so is the way toward the head. -/
theorem verifyBackward_of_forward (hl : l.Closed) {span : Span} (hends : l.chain.ends = .full span)
    (hf : l.verifyForward span = .ok ()) : l.verifyBackward span = .ok () := by
  rcases verifyForward_cases hl hends with ⟨f, herror, -⟩ | ⟨-, run, hs⟩
  · rw [hf] at herror
    cases herror
  · rw [← hends] at hs
    have hverify := verify_of_spans hs
    rw [verify_full hends, hf] at hverify
    exact hverify

/-- On links that lead to nodes in use, the check of all links comes to an end and changes nothing. It
passes exactly when the record is that of a well-linked sequence of nodes; otherwise it stops in the
first half, which leaves nothing for the second half to find. -/
theorem verify_decides (hl : l.Closed) :
    ((LinkM.read verify).run l = .ok () l ↔ ∃ nodes, l.Chained nodes) ∧
    ((¬ ∃ nodes, l.Chained nodes) →
      ∃ f, (LinkM.read verify).run l = .error f l ∧ f.IsForward l.heap.live.length) ∧
    ∀ span, l.chain.ends = .full span → l.verifyForward span = .ok () →
      l.verifyBackward span = .ok () := by
  have hgood : (∃ nodes, l.Chained nodes) → (LinkM.read verify).run l = .ok () l := by
    rintro ⟨nodes, h⟩
    exact LinkM.run_read_ok l (verify_of_spans h.spans)
  have hbad : (¬ ∃ nodes, l.Chained nodes) →
      ∃ f, (LinkM.read verify).run l = .error f l ∧ f.IsForward l.heap.live.length := by
    intro hnot
    cases hends : l.chain.ends with
    | empty =>
      have hs : Spans l.heap.get? l.chain.ends .after [] := by
        rw [hends]
        exact ⟨List.nodup_nil, trivial, rfl, rfl, rfl⟩
      exact absurd ⟨_, .of_spans hs⟩ hnot
    | full span =>
      rcases verifyForward_cases hl hends with ⟨f, herror, hf⟩ | ⟨-, run, hs⟩
      · refine ⟨f, LinkM.run_read_error l ?_, hf⟩
        rw [verify_full hends, herror]
        rfl
      · rw [← hends] at hs
        exact absurd ⟨_, .of_spans hs⟩ hnot
  refine ⟨⟨fun hok => ?_, hgood⟩, hbad, fun span hends => verifyBackward_of_forward hl hends⟩
  by_contra hnot
  obtain ⟨f, herror, -⟩ := hbad hnot
  rw [hok] at herror
  cases herror

/-- A chain whose third node leads back to the second one, recorded to end at a node apart. -/
def lasso : Linkage Nat :=
  ⟨⟨#[some ⟨⟨7, 0⟩, none, some 1⟩, some ⟨⟨8, 0⟩, some 0, some 2⟩,
    some ⟨⟨9, 0⟩, some 1, some 1⟩, some ⟨⟨5, 0⟩, none, none⟩]⟩,
    ⟨.full ⟨(Count.ofNat? 3).get rfl, 0, 3⟩, none⟩⟩

theorem lasso_closed : lasso.Closed := by
  constructor
  · intro h n side k hn hk
    have hlt : h < 4 := Heap.lt_size_of_get? hn
    interval_cases h <;> cases hn <;> cases side <;> cases hk <;> decide
  · intro side k hk
    cases side <;> cases hk <;> decide

/-- Following the links of this chain never ends; the check of them does. -/
theorem verify_decides_lasso : lasso.Closed ∧ (¬ ∃ nodes, lasso.Chained nodes) ∧
    ∃ f, (LinkM.read verify).run lasso = .error f lasso ∧ f.IsForward 4 := by
  have hrun : (LinkM.read verify).run lasso = .error .brokenBackLink lasso := by rfl
  obtain ⟨hiff, hstops, -⟩ := verify_decides lasso_closed
  have hnot : ¬ ∃ nodes, lasso.Chained nodes := by
    rw [← hiff, hrun]
    exact fun h => nomatch h
  exact ⟨lasso_closed, hnot, hstops hnot⟩

end Linkage

end LinkedDeque
