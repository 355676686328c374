import LinkedDeque.Pool
import LinkedDeque.Proofs.Entries
import LinkedDeque.Proofs.Walks
import Mathlib.Algebra.Order.Group.Multiset
import Mathlib.Tactic.Abel

/-!
# LinkedDeque.Proofs.Interleavings

Threads that share a list, under every schedule:

* `Pool.Move`    — what one step of a thread does to the thread and to the row of the list.
* `Pool.Held`    — the list shows its row, and the nodes in the hands of threads lie beside it.
* `Pool.Queued`  — what was removed and what is in the row is what was linked; each push of a program
  came to an end once, or is still to come.
* `Pool.Orderly` — the same, read off the list.
* `Pool.run_orderly` — every schedule of threads that push at the back and pop at the front leads to an
  orderly pool, unless a push meets a full list.
-/

namespace LinkedDeque

variable {σ α : Type}

/-! ## One step of a thread -/

namespace Pool

/-- The moves of a thread, from a view. A node is made beside the row, and linked later. -/
inductive Move (t : Nat) (v : View σ α) :
    Thread α → Thread α → Option (Happening α) → Scene α → Prop
  | idle : Move t v ⟨[], none⟩ ⟨[], none⟩ none v.toScene
  | link {calls h side e} : Move t v ⟨calls, some (h, side, e)⟩ ⟨calls, none⟩
      (some (.linked t side e.value))
      ⟨v.row.insert (v.tipIdx side) ⟨h, e⟩, v.rest.set h none, v.fresh⟩
  | refuse {side x n calls} : Move t v ⟨.push side x n :: calls, none⟩ ⟨calls, none⟩
      (some (.refused t x)) v.toScene
  | make {side x n calls} : Move t v ⟨.push side x n :: calls, none⟩
      ⟨calls, some (v.fresh, side, ⟨x, n⟩)⟩ none
      ⟨v.row, v.rest.set v.fresh (some (.detached ⟨x, n⟩)), v.fresh + 1⟩
  | miss {side calls} (hs : v.row.tip? side = none) : Move t v ⟨.pop side :: calls, none⟩
      ⟨calls, none⟩ none v.toScene
  | remove {side calls s} (hs : v.row.tip? side = some s) : Move t v ⟨.pop side :: calls, none⟩
      ⟨calls, none⟩ (some (.removed t side s.entry.value)) ⟨v.row.erase s.handle, v.rest, v.fresh⟩

end Pool

namespace Ensures

variable {v : View σ α} {side : Side} {h : Handle} {e : Entry α}

/-- A node beside the row is linked at one end, unless the list is full. -/
theorem link (hx : v.rest h = some (.detached e)) (n : UInt64) :
    Ensures (Deque.link side h n) v fun out w =>
      (out = .ok () ∧ w.toScene = ⟨v.row.insert (v.tipIdx side) ⟨h, e⟩, v.rest.set h none, v.fresh⟩) ∨
      (out = .error (.fault .capacity) ∧ w = v ∧ v.row.length + 1 = capacity) := by
  refine of_shows ?_
  intro l hl
  obtain ⟨a, b, hr, hgap, hi⟩ := Leads.gap_tip side v
  by_cases hroom : v.row.length + 1 < capacity
  · have hattach : Leads (Act.linking (.attach h none side)) v (.ok (),
        { v with row := v.row.insert a.length ⟨h, e⟩, rest := v.rest.set h none }) :=
      Leads.linking (s := ⟨v.row.insert a.length ⟨h, e⟩, v.rest.set h none, v.fresh⟩)
        fun l hl => LinkM.attach_shows (x := ⟨h, e⟩) hl hr hgap hx hroom
    refine after hattach (after (Leads.length _) ((Leads.log _ _).ensures (.inl ⟨rfl, ?_⟩)))
    rw [hi]
    rfl
  · have hfull : v.row.length + 1 = capacity := by
      have hlt := hl.length_lt
      omega
    have hattach : Leads (Act.linking (.attach h none side)) v (.error (.fault .capacity), v) :=
      Leads.linking_error fun l hl => LinkM.attach_full (x := ⟨h, e⟩) hl hx hfull
    exact hattach.bind_error.ensures (.inr ⟨rfl, rfl, hfull⟩)

/-- A step of a thread is a move, or it meets a full list. -/
theorem threadStep {th : Thread α} (t : Nat)
    (hhand : ∀ h side e, th.inHand = some (h, side, e) → v.rest h = some (.detached e)) :
    Ensures (Pool.threadStep t th) v fun out w =>
      (∃ th' happening, out = .ok (th', happening) ∧ Pool.Move t v th th' happening w.toScene) ∨
      (out = .error (.fault .capacity) ∧ v.row.length + 1 = capacity) := by
  obtain ⟨calls, inHand⟩ := th
  cases inHand with
  | some hand =>
    obtain ⟨h, side, e⟩ := hand
    refine (link (hhand h side e rfl) e.byteLen).bind ?_ ?_
    · rintro _ w (⟨-, hw⟩ | ⟨hout, -⟩)
      · refine (Leads.pure _ w).ensures (.inl ⟨_, _, rfl, ?_⟩)
        rw [hw]
        exact .link
      · cases hout
    · rintro p w (⟨hout, -⟩ | ⟨hout, -, hfull⟩)
      · cases hout
      · cases hout
        exact .inr ⟨rfl, hfull⟩
  | none =>
    cases calls with
    | nil => exact (Leads.pure _ v).ensures (.inl ⟨_, _, rfl, .idle⟩)
    | cons call calls =>
      cases call with
      | push side x n =>
        refine after (Leads.allocate ⟨x, n⟩ v) ?_
        cases ha : v.allocator.attempt with
        | mk refused allocator =>
          cases refused with
          | true =>
            simp only [View.allocate, ha, if_true]
            exact (Leads.pure _ _).ensures (.inl ⟨_, _, rfl, .refuse⟩)
          | false =>
            simp only [View.allocate, ha, Bool.false_eq_true, if_false]
            exact (Leads.pure _ _).ensures (.inl ⟨_, _, rfl, .make⟩)
      | pop side =>
        have hpop := Leads.pop side v
        rw [View.pop] at hpop
        cases hs : v.row.tip? side with
        | none =>
          rw [hs] at hpop
          exact after hpop ((Leads.pure _ _).ensures (.inl ⟨_, _, rfl, .miss hs⟩))
        | some s =>
          rw [hs] at hpop
          exact after hpop ((Leads.pure _ _).ensures (.inl ⟨_, _, rfl, .remove hs⟩))

end Ensures

/-! ## Nodes in the hands of threads -/

/-- The node that a thread has made and not linked yet. -/
def Thread.node? (th : Thread α) : Option Handle := th.inHand.map Prod.fst

namespace Pool

variable {p : Pool σ α} {v : View σ α} {t : Nat} {th th' : Thread α} {happening : Option (Happening α)}
  {s : Scene α}

/-- The list shows a view. Each node in hand lies beside the row, and is in one hand. -/
structure Held (p : Pool σ α) (v : View σ α) : Prop where
  shows : ∃ l, p.machine = v.machine l ∧ l.Shows v.toScene
  hands : ∀ {t : Nat} {th : Thread α} {h side e}, p.threads[t]? = some th →
    th.inHand = some (h, side, e) → v.rest h = some (.detached e)
  single : ∀ {t t' : Nat} {th th' : Thread α} {h}, p.threads[t]? = some th → p.threads[t']? = some th' →
    th.node? = some h → th'.node? = some h → t = t'

/-- A node that comes into the hand of a thread is new, and lies beside the row. -/
theorem Move.made (hm : Move t v th th' happening s) {h : Handle} {side : Side} {e : Entry α}
    (hh : th'.inHand = some (h, side, e)) : h = v.fresh ∧ s.rest h = some (.detached e) := by
  cases hm with
  | make =>
    cases hh
    exact ⟨rfl, Nodes.set_same⟩
  | _ => cases hh

/-- A move takes up the node in the hand of its thread only. -/
theorem Move.rest_eq (hm : Move t v th th' happening s) {h : Handle} (hh : th.node? ≠ some h)
    (hfresh : h ≠ v.fresh) : s.rest h = v.rest h := by
  cases hm with
  | link =>
    refine Nodes.set_other ?_
    rintro rfl
    exact hh rfl
  | make => exact Nodes.set_other hfresh
  | _ => rfl

theorem threads_step (ht : p.threads[t]? = some th) (j : Nat) :
    (p.threads.setIfInBounds t th')[j]? = if j = t then some th' else p.threads[j]? := by
  obtain ⟨hlt, -⟩ := Array.getElem?_eq_some_iff.1 ht
  rw [Array.getElem?_setIfInBounds]
  by_cases hj : j = t
  · rw [if_pos hj.symm, if_pos hj, if_pos hlt]
  · rw [if_neg fun h => hj h.symm, if_neg hj]

theorem Held.shown (hp : Held p v) : p.machine.linkage.Shows v.toScene := by
  obtain ⟨l, hmachine, hl⟩ := hp.shows
  rw [hmachine]
  exact hl

theorem Held.not_fresh (hp : Held p v) {h : Handle} {side : Side} {e : Entry α} {th : Thread α}
    (ht : p.threads[t]? = some th) (hh : th.inHand = some (h, side, e)) : h ≠ v.fresh := by
  rintro rfl
  have hx := hp.hands ht hh
  rw [hp.shown.rest_fresh] at hx
  cases hx

theorem Held.move (hp : Held p v) (ht : p.threads[t]? = some th) {w : View σ α} {l : Linkage α}
    (hm : Move t v th th' happening w.toScene) (hl : l.Shows w.toScene) (history : Array (Happening α)) :
    Held ⟨w.machine l, p.threads.setIfInBounds t th', history⟩ w := by
  -- the node that the thread has in its hand now is in no other hand
  have hother : ∀ {j : Nat} {u : Thread α} {h}, p.threads[j]? = some u → u.node? = some h →
      th'.node? ≠ some h := by
    intro j u h hu hh hh'
    obtain ⟨⟨_, side, e⟩, hhand, rfl⟩ := Option.map_eq_some_iff.1 hh
    obtain ⟨⟨_, side', e'⟩, hhand', he⟩ := Option.map_eq_some_iff.1 hh'
    exact hp.not_fresh hu hhand (he.symm.trans (hm.made hhand').1)
  refine ⟨⟨l, rfl, hl⟩, ?_, ?_⟩
  · intro j u h side e hu hh
    rw [threads_step ht] at hu
    by_cases hj : j = t
    · rw [if_pos hj] at hu
      cases hu
      exact (hm.made hh).2
    · rw [if_neg hj] at hu
      have hnode : u.node? = some h := by rw [Thread.node?, hh]; rfl
      rw [hm.rest_eq (fun he => hj (hp.single hu ht hnode he)) (hp.not_fresh hu hh)]
      exact hp.hands hu hh
  · intro i j u u' h hu hu' hh hh'
    rw [threads_step ht] at hu hu'
    by_cases hi : i = t
    · rw [if_pos hi] at hu
      cases hu
      by_cases hj : j = t
      · rw [hi, hj]
      · rw [if_neg hj] at hu'
        exact absurd hh (hother hu' hh')
    · rw [if_neg hi] at hu
      by_cases hj : j = t
      · rw [if_pos hj] at hu'
        cases hu'
        exact absurd hh' (hother hu hh)
      · rw [if_neg hj] at hu'
        exact hp.single hu hu' hh hh'

/-- A thread makes a move, or it meets a full list. A thread that is not there does nothing. -/
theorem Held.step (hp : Held p v) (ht : p.threads[t]? = some th) :
    (∃ th' happening, ∃ w : View σ α, ∃ l : Linkage α, Move t v th th' happening w.toScene ∧
      l.Shows w.toScene ∧
      p.step t = .ok ⟨w.machine l, p.threads.setIfInBounds t th', p.history ++ happening.toArray⟩) ∨
    (p.step t = .error (.fault .capacity) ∧ v.row.length + 1 = capacity) := by
  obtain ⟨machine, threads, history⟩ := p
  obtain ⟨l, hmachine, hl⟩ := hp.shows
  have hmachine : machine = v.machine l := hmachine
  have ht' : threads[t]? = some th := ht
  obtain ⟨out, w, l', hrun, hl', hout⟩ :=
    Ensures.threadStep (v := v) t (fun _ _ _ hh => hp.hands ht hh) l hl
  rcases hout with ⟨th', happening, rfl, hm⟩ | ⟨rfl, hfull⟩
  · refine .inl ⟨th', happening, w, l', hm, hl', ?_⟩
    simp only [Pool.step, ht', hmachine, hrun, ending]
  · refine .inr ⟨?_, hfull⟩
    simp only [Pool.step, ht', hmachine, hrun, ending]

end Pool

/-! ## What threads push, and what became of it -/

def Call.pushed? : Call α → Option α
  | push _ x _ => some x
  | pop _ => none

/-- A push at the back, or a pop at the front. -/
def Call.isQueue : Call α → Bool
  | push .after .. | pop .before => true
  | _ => false

def pushes (calls : List (Call α)) : List α := calls.filterMap Call.pushed?

/-- The payloads that a thread still has to link, the one in its hand first. -/
def Thread.claims (th : Thread α) : List α :=
  (th.inHand.map fun hand => hand.2.2.value).toList ++ pushes th.calls

namespace Happening

def removed? : Happening α → Option α
  | removed _ _ x => some x
  | _ => none

def linked? : Happening α → Option α
  | linked _ _ x => some x
  | _ => none

def refused? : Happening α → Option α
  | refused _ x => some x
  | _ => none

/-- The thread that linked a payload, with the payload. -/
def ticket? : Happening α → Option (Nat × α)
  | linked t _ x => some (t, x)
  | _ => none

/-- The payload of a push of this thread that came to its end, linked or refused. -/
def settled? (t : Nat) : Happening α → Option α
  | linked t' _ x | refused t' x => if t' = t then some x else none
  | removed .. => none

end Happening

namespace Pool

variable {p : Pool σ α} {v : View σ α} {t : Nat} {th th' : Thread α} {happening : Option (Happening α)}
  {s : Scene α} {programs : List (List (Call α))} {values : List α}

/-- What a history tells. -/
def told {β : Type} (f : Happening α → Option β) (p : Pool σ α) : List β := p.history.toList.filterMap f

/-- Threads that only push at the back and pop at the front, with what is in their list: the payloads
removed and those in the list are those linked, in the same order. Each push of a program was linked or
refused, in the order of the program, or is still with its thread. -/
structure Queued (programs : List (List (Call α))) (p : Pool σ α) (values : List α) : Prop where
  queue : ∀ {t : Nat} {th : Thread α}, p.threads[t]? = some th → (∀ c ∈ th.calls, c.isQueue = true) ∧
    ∀ h side e, th.inHand = some (h, side, e) → side = .after
  flow : p.removed ++ values = p.linked
  settled : ∀ t, p.told (Happening.settled? t) ++ p.threads[t]?.elim [] Thread.claims =
    programs[t]?.elim [] pushes
  conserved : (p.linked ++ p.told Happening.refused? ++ p.threads.toList.flatMap Thread.claims).Perm
    (programs.flatMap pushes)

theorem removed_eq (p : Pool σ α) : p.removed = p.told Happening.removed? := by
  refine List.filterMap_congr ?_
  intro h _
  cases h <;> rfl

theorem linked_eq (p : Pool σ α) : p.linked = p.told Happening.linked? := by
  refine List.filterMap_congr ?_
  intro h _
  cases h <;> rfl

theorem told_append {β : Type} (f : Happening α → Option β) (p : Pool σ α) (m : Machine σ α)
    (threads : Array (Thread α)) :
    told f ⟨m, threads, p.history ++ happening.toArray⟩ = p.told f ++ (happening.bind f).toList := by
  rw [told, told, Array.toList_append, List.filterMap_append]
  cases happening with
  | none => rfl
  | some h => cases hf : f h <;> simp [hf]

namespace Move

/-- Of what a thread claims, one payload at most is settled by a move. -/
theorem claims_eq (hm : Move t v th th' happening s) :
    th.claims = (happening.bind Happening.linked?).toList ++
      (happening.bind Happening.refused?).toList ++ th'.claims := by
  cases hm <;> rfl

theorem settled_eq (hm : Move t v th th' happening s) :
    (happening.bind (Happening.settled? t)).toList ++ th'.claims = th.claims := by
  cases hm with
  | link | refuse => simp [Happening.settled?, Thread.claims, pushes, Call.pushed?]
  | _ => rfl

theorem settled_other (hm : Move t v th th' happening s) {j : Nat} (hj : j ≠ t) :
    happening.bind (Happening.settled? j) = none := by
  cases hm with
  | link | refuse => simp [Happening.settled?, hj.symm]
  | _ => rfl

theorem queue (hm : Move t v th th' happening s)
    (hq : (∀ c ∈ th.calls, c.isQueue = true) ∧
      ∀ h side e, th.inHand = some (h, side, e) → side = .after) :
    (∀ c ∈ th'.calls, c.isQueue = true) ∧
      ∀ h side e, th'.inHand = some (h, side, e) → side = .after := by
  obtain ⟨hcalls, hhand⟩ := hq
  cases hm with
  | idle => exact ⟨hcalls, hhand⟩
  | link => exact ⟨hcalls, nofun⟩
  | refuse | miss | remove => exact ⟨fun c hc => hcalls c (List.mem_cons_of_mem _ hc), nofun⟩
  | @make side x n calls =>
    refine ⟨fun c hc => hcalls c (List.mem_cons_of_mem _ hc), ?_⟩
    rintro h side' e ⟨⟩
    have hpush := hcalls _ (List.mem_cons_self ..)
    cases side with
    | before => cases hpush
    | after => rfl

/-- A queue takes what it is given at its back, and gives at its front. -/
theorem flow (hm : Move t v th th' happening s) (hnodup : v.row.handles.Nodup)
    (hq : (∀ c ∈ th.calls, c.isQueue = true) ∧
      ∀ h side e, th.inHand = some (h, side, e) → side = .after) :
    (happening.bind Happening.removed?).toList ++ s.row.entries.map Entry.value =
      v.row.entries.map Entry.value ++ (happening.bind Happening.linked?).toList := by
  cases hm with
  | @link calls h side e =>
    obtain rfl : side = .after := hq.2 h side e rfl
    have hslots : (v.row.insert v.row.length ⟨h, e⟩).slots = v.row.slots ++ [⟨h, e⟩] := by
      rw [Row.slots_insert, Row.length, List.insertIdx_length_self]
    simp [Row.entries, View.tipIdx, hslots, Happening.removed?, Happening.linked?]
  | @remove side calls x hx =>
    have hpop := hq.1 _ (List.mem_cons_self ..)
    cases side with
    | after => cases hpop
    | before =>
      obtain ⟨rest, hr⟩ := List.head?_eq_some_iff.1 hx
      have hslots : (v.row.erase x.handle).slots = rest := Row.slots_erase (a := []) hr hnodup
      simp [Row.entries, hslots, hr, Happening.removed?, Happening.linked?]
  | _ => simp [Happening.removed?, Happening.linked?]

end Move

/-- The claims of all threads after a move of one of them. -/
theorem claims_step (threads : List (Thread α)) (ht : threads[t]? = some th)
    (hm : Move t v th th' happening s) :
    (threads.flatMap Thread.claims).Perm ((happening.bind Happening.linked?).toList ++
      (happening.bind Happening.refused?).toList ++ (threads.set t th').flatMap Thread.claims) := by
  obtain ⟨hlt, hget⟩ := List.getElem?_eq_some_iff.1 ht
  have hsplit : threads = threads.take t ++ th :: threads.drop (t + 1) := by
    rw [← hget, ← List.drop_eq_getElem_cons hlt, List.take_append_drop]
  rw [List.set_eq_take_append_cons_drop, if_pos hlt]
  conv => lhs; rw [hsplit]
  simp only [List.flatMap_append, List.flatMap_cons, hm.claims_eq]
  rw [← Multiset.coe_eq_coe]
  simp only [← Multiset.coe_add]
  abel

theorem Queued.move (hq : Queued programs p (v.row.entries.map Entry.value))
    (ht : p.threads[t]? = some th) (hnodup : v.row.handles.Nodup)
    (hm : Move t v th th' happening s) (m : Machine σ α) :
    Queued programs ⟨m, p.threads.setIfInBounds t th', p.history ++ happening.toArray⟩
      (s.row.entries.map Entry.value) := by
  have hflow := hm.flow hnodup (hq.queue ht)
  refine ⟨?_, ?_, ?_, ?_⟩
  · intro j u hu
    rw [threads_step ht] at hu
    by_cases hj : j = t
    · rw [if_pos hj] at hu
      cases hu
      exact hm.queue (hq.queue ht)
    · rw [if_neg hj] at hu
      exact hq.queue hu
  · have h := hq.flow
    rw [removed_eq, linked_eq] at h ⊢
    rw [told_append, told_append, ← h, List.append_assoc, List.append_assoc, hflow]
  · intro j
    have h := hq.settled j
    rw [told_append, threads_step ht]
    by_cases hj : j = t
    · rw [hj, ht] at h
      rw [if_pos hj, hj, ← h, List.append_assoc]
      exact congrArg _ hm.settled_eq
    · rw [if_neg hj, hm.settled_other hj, Option.toList_none, List.append_nil, h]
  · have h := hq.conserved
    have hlist : p.threads.toList[t]? = some th := by rwa [Array.getElem?_toList]
    have hclaims := claims_step p.threads.toList hlist hm
    rw [linked_eq] at h ⊢
    rw [told_append, told_append, Array.toList_setIfInBounds]
    refine List.Perm.trans ?_ h
    rw [← Multiset.coe_eq_coe] at hclaims ⊢
    simp only [← Multiset.coe_add] at hclaims ⊢
    rw [hclaims]
    abel

/-! ## Whole runs -/

/-- Who linked what was removed, in the order of the removals. -/
def departed (p : Pool σ α) : List (Nat × α) := (p.told Happening.ticket?).take p.removed.length

/-- A pool in which nothing is lost, doubled or put in another order, as its list shows it. -/
structure Orderly (programs : List (List (Call α))) (p : Pool σ α) : Prop
    extends Queued programs p (p.machine.linkage.contents.map Entry.value) where
  length : p.machine.linkage.length + p.removed.length = p.linked.length
  backward : p.machine.linkage.trail .before p.machine.linkage.heap.size
    (p.machine.linkage.tip? .after) = p.machine.linkage.handles.reverse
  departed : p.departed.map Prod.snd = p.removed
  /-- The payloads of one thread leave in the order in which its program pushes them. -/
  order : ∀ t, ((p.departed.filter fun ticket => ticket.1 = t).map Prod.snd).Sublist
    (programs[t]?.elim [] pushes)

theorem linked_eq_tickets (p : Pool σ α) : p.linked = (p.told Happening.ticket?).map Prod.snd := by
  rw [linked_eq, told, told, List.map_filterMap]
  refine List.filterMap_congr ?_
  intro h _
  cases h <;> rfl

/-- What a thread linked is part of what was settled of its program. -/
theorem tickets_sublist (t : Nat) (history : List (Happening α)) :
    (((history.filterMap Happening.ticket?).filter fun ticket => ticket.1 = t).map Prod.snd).Sublist
      (history.filterMap (Happening.settled? t)) := by
  induction history with
  | nil => exact .refl []
  | cons h history ih =>
    cases h with
    | removed t' side x => exact ih
    | refused t' x =>
      have hskip : (Happening.refused t' x :: history).filterMap Happening.ticket? =
          history.filterMap Happening.ticket? := rfl
      rw [hskip]
      by_cases ht : t' = t
      · simpa [Happening.settled?, ht] using ih.cons x
      · simpa [Happening.settled?, ht] using ih
    | linked t' side x =>
      by_cases ht : t' = t
      · simpa [Happening.ticket?, Happening.settled?, ht] using ih
      · simpa [Happening.ticket?, Happening.settled?, ht] using ih

theorem Queued.departed (hq : Queued programs p values) : p.departed.map Prod.snd = p.removed := by
  rw [Pool.departed, List.map_take, ← linked_eq_tickets, ← hq.flow, List.take_left]

theorem Queued.order (hq : Queued programs p values) (t : Nat) :
    ((p.departed.filter fun ticket => ticket.1 = t).map Prod.snd).Sublist
      (programs[t]?.elim [] pushes) := by
  rw [← hq.settled t]
  have htake : p.departed.Sublist (p.told Happening.ticket?) := List.take_sublist ..
  refine ((htake.filter _).map _).trans ?_
  exact (tickets_sublist t p.history.toList).trans (List.sublist_append_left ..)

theorem Held.orderly (hp : Held p v) (hq : Queued programs p (v.row.entries.map Entry.value)) :
    Orderly programs p := by
  have hl := hp.shown
  rw [← hl.contents_eq] at hq
  refine ⟨hq, ?_, ?_, hq.departed, hq.order⟩
  · rw [← hq.flow, List.length_append, List.length_map, hl.contents_eq, Row.length_entries,
      ← hl.length_eq, Nat.add_comm]
  · rw [hl.backward_eq, hl.handles_eq]

theorem start_held (refuses : Nat → Bool) (programs : List (List (Call α))) :
    ∃ v : View σ α, Held (start refuses programs) v ∧ v.row = .empty := by
  let v : View σ α :=
    ⟨⟨.empty, Nodes.hide (Heap.empty : Heap α).get? [], (Heap.empty : Heap α).size⟩, .none,
      .ofPattern refuses, #[]⟩
  have hnone : ∀ {t : Nat} {th : Thread α}, (start refuses programs : Pool σ α).threads[t]? = some th →
      th.inHand = none := by
    intro t th ht
    simp only [start, List.getElem?_toArray, List.getElem?_map, Option.map_eq_some_iff] at ht
    obtain ⟨calls, -, rfl⟩ := ht
    rfl
  refine ⟨v, ⟨⟨⟨.empty, .empty⟩, rfl, Linkage.shows_empty .empty⟩, ?_, ?_⟩, rfl⟩
  · intro t th h side e ht hh
    rw [hnone ht] at hh
    cases hh
  · intro t t' th th' h ht ht' hh hh'
    rw [Thread.node?, hnone ht] at hh
    cases hh

theorem start_queued (refuses : Nat → Bool) {programs : List (List (Call α))}
    (hqueue : ∀ calls ∈ programs, ∀ c ∈ calls, c.isQueue = true) :
    Queued programs (start refuses programs : Pool σ α) [] := by
  refine ⟨?_, rfl, ?_, ?_⟩
  · intro t th ht
    simp only [start, List.getElem?_toArray, List.getElem?_map, Option.map_eq_some_iff] at ht
    obtain ⟨calls, hcalls, rfl⟩ := ht
    exact ⟨hqueue calls (List.mem_of_getElem? hcalls), nofun⟩
  · intro t
    simp only [start, told, List.getElem?_toArray, List.getElem?_map]
    cases programs[t]? <;> rfl
  · simp [start, told, linked, List.flatMap_map, Thread.claims]

/-- A schedule leads to an orderly pool, or the list of one is full when the next thread links a node. -/
def Completes (programs : List (List (Call α))) (schedule : List Nat) (p : Pool σ α) : Prop :=
  (∃ p', run schedule p = .ok p' ∧ Orderly programs p') ∨
  (run schedule p = .error (.fault .capacity) ∧ ∃ front t back p', schedule = front ++ t :: back ∧
    run front p = .ok p' ∧ Orderly programs p' ∧ p'.machine.linkage.length + 1 = capacity)

theorem Completes.cons {p' : Pool σ α} {schedule : List Nat} (hstep : p.step t = .ok p')
    (h : Completes programs schedule p') : Completes programs (t :: schedule) p := by
  have hrun : ∀ front, run (t :: front) p = run front p' := by
    intro front
    rw [run, hstep]
  rcases h with ⟨p'', hdone, horderly⟩ | ⟨herror, front, u, back, p'', rfl, hfront, hfull⟩
  · exact .inl ⟨p'', by rw [hrun, hdone], horderly⟩
  · exact .inr ⟨by rw [hrun, herror], t :: front, u, back, p'', rfl, by rw [hrun, hfront], hfull⟩

theorem Held.completes (schedule : List Nat) (hp : Held p v)
    (hq : Queued programs p (v.row.entries.map Entry.value)) : Completes programs schedule p := by
  induction schedule generalizing p v with
  | nil => exact .inl ⟨p, rfl, hp.orderly hq⟩
  | cons t schedule ih =>
    cases ht : p.threads[t]? with
    | none =>
      have hstep : p.step t = .ok p := by simp only [Pool.step, ht]
      exact (ih hp hq).cons hstep
    | some th =>
      rcases hp.step ht with ⟨th', happening, w, l', hm, hl', hstep⟩ | ⟨hstep, hfull⟩
      · exact (ih (hp.move ht hm hl' _) (hq.move ht hp.shown.nodup hm _)).cons hstep
      · refine .inr ⟨by rw [run, hstep], [], t, schedule, p, rfl, rfl, hp.orderly hq, ?_⟩
        rw [hp.shown.length_eq]
        exact hfull

/-- Under every schedule, threads that push at the back and pop at the front of an empty list lose, double
and reorder nothing. Only a push into a list that is full, which holds `2 ^ 64 - 1` entries, stops them. -/
theorem run_orderly (refuses : Nat → Bool) (programs : List (List (Call α))) (schedule : List Nat)
    (hqueue : ∀ calls ∈ programs, ∀ c ∈ calls, c.isQueue = true) :
    (∃ p, run schedule (start refuses programs : Pool σ α) = .ok p ∧ p.Orderly programs) ∨
    (run schedule (start refuses programs : Pool σ α) = .error (.fault .capacity) ∧
      ∃ front t back p, schedule = front ++ t :: back ∧
        run front (start refuses programs : Pool σ α) = .ok p ∧ p.Orderly programs ∧
        p.machine.linkage.length + 1 = capacity) := by
  obtain ⟨v, hp, hrow⟩ := start_held (σ := σ) refuses programs
  have hq := start_queued (σ := σ) refuses hqueue
  rw [show ([] : List α) = v.row.entries.map Entry.value by rw [hrow]; rfl] at hq
  exact hp.completes schedule hq

/-- Two producers and a consumer. The payload that is made first is linked second, and the third one is
refused. -/
theorem run_orderly_refused :
    ∃ p, run [0, 1, 1, 0, 2, 0, 0, 2] (start (Allocator.refuseNext 2 1)
        [[.push .after 1 8, .push .after 2 8], [.push .after 3 8], [.pop .before, .pop .before]] :
          Pool Unit Nat) = .ok p ∧
      p.removed = [3, 1] ∧
      p.Orderly [[.push .after 1 8, .push .after 2 8], [.push .after 3 8],
        [.pop .before, .pop .before]] := by
  have hremoved : (run [0, 1, 1, 0, 2, 0, 0, 2] (start (Allocator.refuseNext 2 1)
      [[.push .after 1 8, .push .after 2 8], [.push .after 3 8], [.pop .before, .pop .before]] :
        Pool Unit Nat)).toOption.map removed = some [3, 1] := rfl
  rcases run_orderly (σ := Unit) (Allocator.refuseNext 2 1)
      [[.push .after 1 8, .push .after 2 8], [.push .after 3 8], [.pop .before, .pop .before]]
      [0, 1, 1, 0, 2, 0, 0, 2] (by decide) with ⟨p, hrun, horderly⟩ | ⟨herror, -⟩
  · rw [hrun] at hremoved
    exact ⟨p, hrun, Option.some.inj hremoved, horderly⟩
  · rw [herror] at hremoved
    cases hremoved

end Pool

end LinkedDeque
