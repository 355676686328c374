import LinkedDeque.Proofs.Mapped

/-!
# LinkedDeque.Proofs.Visits

Whole walks, read off a row:

* `View.walk`       — a body read on each entry of a run, until it stops the walk.
* `View.visitEach`, `View.join` — walks that leave the row as it is.
* `View.eraseWhere` — a walk that removes the entries a predicate accepts.
* `View.hear`, `View.sifted` — what the first part of such a walk leaves, when nobody panicked in it.

Each reading is followed by the theorem that the operation leads to it, as those of single entries are.
-/

namespace LinkedDeque

variable {σ τ α β : Type}

/-! ## Walks -/

namespace View

/-- A body read on each entry of a run, until it stops the walk. -/
def walk (body : β → Slot α → View σ α → Reading σ α (Flow × β)) :
    List (Slot α) → Nat → β → View σ α → Reading σ α (Nat × β)
  | [], visited, b, v => (.ok (visited, b), v)
  | s :: run, visited, b, v =>
    match body b s v with
    | (.ok (.go, b), v) => walk body run (visited + 1) b v
    | (.ok (.stop, b), v) => (.ok (visited + 1, b), v)
    | (.error p, v) => (.error p, v)

def logged : Reading σ α (Nat × β) → Reading σ α (Nat × β)
  | (.ok (visited, b), v) => (.ok (visited, b), v.log (.visit visited v.row.length))
  | (.error p, v) => (.error p, v)

variable {body : β → Slot α → View σ α → Reading σ α (Flow × β)} {run : List (Slot α)} {s : Slot α}
  {b b' : β} {v u : View σ α}

theorem walk_go (h : body b s v = (.ok (.go, b'), u)) (n : Nat) :
    v.walk body (s :: run) n b = u.walk body run (n + 1) b' := by
  simp [walk, h]

theorem walk_error {p : Panic} (h : body b s v = (.error p, u)) (n : Nat) :
    v.walk body (s :: run) n b = (.error p, u) := by
  simp [walk, h]

/-- A walk keeps what its body keeps. -/
theorem walk_keeps {P : View σ α → Prop} (hbody : ∀ b s v, P v → P (body b s v).2) (n : Nat) (b : β)
    (hv : P v) : P (v.walk body run n b).2 := by
  induction run generalizing n b v with
  | nil => exact hv
  | cons s run ih =>
    have hs := hbody b s v hv
    rw [walk]
    cases hr : body b s v with
    | mk out u =>
      rw [hr] at hs
      rcases out with p | ⟨_ | _, b'⟩
      · exact hs
      · exact ih _ _ hs
      · exact hs

/-- A walk panics only as its body does on an entry of the run, in a state that the body keeps. -/
theorem walk_panics {P : β → View σ α → Prop} {Q : Panic → Prop}
    (hkeep : ∀ b s v flow b' u, s ∈ run → P b v → body b s v = (.ok (flow, b'), u) → P b' u)
    (hpanic : ∀ b s v p u, s ∈ run → P b v → body b s v = (.error p, u) → Q p)
    {n : Nat} (hv : P b v) {p : Panic} (hp : (v.walk body run n b).1 = .error p) : Q p := by
  induction run generalizing n b v with
  | nil => cases hp
  | cons s run ih =>
    rw [walk] at hp
    cases hr : body b s v with
    | mk out u =>
      rw [hr] at hp
      rcases out with p' | ⟨_ | _, b'⟩
      · cases hp
        exact hpanic b s v p u (List.mem_cons_self ..) hv hr
      · have hu : P b' u := hkeep b s v .go b' u (List.mem_cons_self ..) hv hr
        refine ih ?_ ?_ hu hp
        · exact fun b s v flow b' u hs => hkeep b s v flow b' u (List.mem_cons_of_mem _ hs)
        · exact fun b s v p u hs => hpanic b s v p u (List.mem_cons_of_mem _ hs)
      · cases hp

end View

theorem Leads.of_ensures {act : Act σ α β} {v : View σ α} {r : Reading σ α β}
    (h : Ensures act v fun out w => (out, w) = r) : Leads act v r := by
  intro l hl
  obtain ⟨out, w, l', hrun, hl', rfl⟩ := h l hl
  exact ⟨l', hrun, hl'⟩

/-- A body leaves the entries behind the one that it is read on. -/
def LeavesRest (body : β → Slot α → View σ α → Reading σ α (Flow × β)) : Prop :=
  ∀ b s v a rest b' u, v.row.handles.Nodup → v.row.slots = a ++ s :: rest →
    body b s v = (.ok (.go, b'), u) → ∃ a', u.row.slots = a' ++ rest

theorem LeavesRest.of_row {body : β → Slot α → View σ α → Reading σ α (Flow × β)}
    (hrow : ∀ b s v, (body b s v).2.row = v.row) : LeavesRest body := by
  intro b s v a rest b' u _ ha hr
  have hu : u.row = v.row := by rw [← hrow b s v, hr]
  exact ⟨a ++ [s], by rw [hu, ha, List.append_assoc, List.singleton_append]⟩

theorem Leads.walk {act : β → Handle → Entry α → Act σ α (Flow × β)}
    {body : β → Slot α → View σ α → Reading σ α (Flow × β)}
    (hact : ∀ b s w, s ∈ w.row.slots → Leads (act b s.handle s.entry) w (body b s w))
    (hrest : LeavesRest body) (b : β) (v : View σ α) :
    Leads (Deque.walk act b) v (v.walk body v.row.slots 0 b) := by
  let r := v.walk body v.row.slots 0 b
  refine Leads.of_ensures (r := r) (Ensures.walk (q := fun out w => (out, w) = r)
    (fun n b rest w => w.walk body rest n b = r) ?_ (fun n b w h => h) rfl)
  rintro n b s rest w hs h ⟨a, ha⟩
  refine Ensures.of_shows ?_
  intro l hl
  refine (hact b s w hs).ensures ?_
  have hgo := hrest b s w a rest
  rw [View.walk] at h
  cases hr : body b s w with
  | mk out u =>
    rw [hr] at h
    rcases out with p | ⟨_ | _, b'⟩
    · exact h
    · exact ⟨h, hgo b' u hl.nodup ha hr⟩
    · exact h

theorem Leads.loggedWalk {act : β → Handle → Entry α → Act σ α (Flow × β)} {b : β} {v : View σ α}
    {r : Reading σ α (Nat × β)} (h : Leads (Deque.walk act b) v r) :
    Leads (Deque.loggedWalk act b) v (View.logged r) := by
  obtain ⟨out, w⟩ := r
  cases out with
  | error p => exact h.bind_error
  | ok b => exact h.bind ((Leads.length w).bind ((Leads.log _ _).bind (Leads.pure _ _)))

/-! ## Visits and joins -/

namespace View

def visitEach (visitor : Callback τ (Entry α) Flow) (v : View σ α) :
    Reading σ α (Nat × Callback τ (Entry α) Flow) :=
  logged (v.walk (fun visitor s w => w.ask visitor s.entry) v.row.slots 0 visitor)

/-- One entry appended to a join. -/
def joinEntry [AsText α] (refuses : Deque.Growth) (delimiter : String) (j : Deque.Joining) (s : Slot α)
    (v : View σ α) : Reading σ α (Flow × Deque.Joining) :=
  let j := j.element refuses delimiter (AsText.text s.payload)
  (.ok (if j.refused then .stop else .go, j), v)

def join [AsText α] (refuses : Deque.Growth) (delimiter : String) (v : View σ α) :
    Reading σ α (Option String) :=
  match logged (v.walk (joinEntry refuses delimiter) v.row.slots 0 .start) with
  | (.ok (_, j), w) =>
    (.ok (if j.refused then none else some j.buffer), w.log (.join j.appended j.buffer.utf8ByteSize))
  | (.error p, w) => (.error p, w)

/-- A view after calls on these entries, which all returned. -/
def hear (entries : List (Entry α)) (v : View σ α) : View σ α :=
  { v with trace := v.trace ++ (entries.map Event.called).toArray }

theorem hear_cons (e : Entry α) (entries : List (Entry α)) (v : View σ α) :
    v.hear (e :: entries) = (v.emit (.called e)).hear entries := by
  simp [hear, emit]

theorem ask_returns {f f' : Callback τ (Entry α) β} {e : Entry α} {answer : β}
    (h : f.call e = (.returns answer, f')) (v : View σ α) :
    v.ask f e = (.ok (answer, f'), v.emit (.called e)) := by
  simp [ask, h]

theorem ask_panics {f : Callback τ (Entry α) β} {e : Entry α} {report : String}
    (h : (f.call e).1 = .panics report) (v : View σ α) :
    v.ask f e = (.error (.callback report), v.emit (.called e)) := by
  cases hc : f.call e with
  | mk reply f' =>
    rw [hc] at h
    cases h
    simp [ask, hc]

/-- A visit goes on behind entries on which the visitor said so. -/
theorem walk_hear (visitor : Callback τ (Entry α) Flow) {front : List (Slot α)} (rest : List (Slot α))
    (n : Nat) (v : View σ α) (h : visitor.answers (entriesOf front) = List.replicate front.length .go) :
    v.walk (fun visitor s w => w.ask visitor s.entry) (front ++ rest) n visitor =
      (v.hear (entriesOf front)).walk (fun visitor s w => w.ask visitor s.entry) rest
        (n + front.length) (visitor.after (entriesOf front)) := by
  induction front generalizing visitor n v with
  | nil => simp [hear]
  | cons s front ih =>
    have hall : visitor.Answers (entriesOf (s :: front)) := by
      rw [Callback.Answers, h]
      simp
    obtain ⟨flow, visitor', hc, -⟩ := hall.cons
    rw [entriesOf_cons, Callback.answers_cons hc, List.length_cons, List.replicate_succ,
      List.cons.injEq] at h
    obtain ⟨rfl, h⟩ := h
    rw [List.cons_append, walk_go (ask_returns hc v), ih visitor' (n + 1) (v.emit (.called s.entry)) h,
      entriesOf_cons, hear_cons, Callback.after_cons hc, List.length_cons, Nat.add_right_comm,
      Nat.add_assoc]

/-- A visit ends where the visitor panics. -/
theorem visitEach_panics {visitor : Callback τ (Entry α) Flow} {front back : List (Slot α)} {s : Slot α}
    {report : String} {v : View σ α} (hr : v.row.slots = front ++ s :: back)
    (hgo : visitor.answers (entriesOf front) = List.replicate front.length .go)
    (hs : ((visitor.after (entriesOf front)).call s.entry).1 = .panics report) :
    v.visitEach visitor = (.error (.callback report), v.hear (entriesOf (front ++ [s]))) := by
  have hheard : (v.hear (entriesOf front)).emit (.called s.entry) = v.hear (entriesOf (front ++ [s])) := by
    simp [hear, emit]
  rw [visitEach, hr, walk_hear visitor (s :: back) 0 v hgo, walk_error (ask_panics hs _), ← hheard]
  rfl

theorem join_ok [AsText α] (refuses : Deque.Growth) (delimiter : String) (v : View σ α) :
    ∃ text, (v.join refuses delimiter).1 = .ok text := by
  have hok : ∀ (run : List (Slot α)) n j (w : View σ α),
      ∃ m j', (w.walk (joinEntry refuses delimiter) run n j).1 = .ok (m, j') := by
    intro run
    induction run with
    | nil => exact fun n j w => ⟨n, j, rfl⟩
    | cons s run ih =>
      intro n j w
      rw [walk, joinEntry]
      cases (j.element refuses delimiter (AsText.text s.payload)).refused with
      | true => exact ⟨_, _, rfl⟩
      | false => exact ih _ _ _
  obtain ⟨m, j, hj⟩ := hok v.row.slots 0 .start v
  rw [join]
  cases hw : v.walk (joinEntry refuses delimiter) v.row.slots 0 .start with
  | mk out w =>
    rw [hw] at hj
    cases hj
    exact ⟨_, rfl⟩

end View

namespace Leads

theorem visitEach (visitor : Callback τ (Entry α) Flow) (v : View σ α) :
    Leads (Deque.visitEach visitor) v (v.visitEach visitor) :=
  Leads.loggedWalk (Leads.walk (fun visitor s w _ => Leads.ask visitor s.entry w)
    (.of_row fun visitor s w => View.ask_row visitor s.entry w) visitor v)

theorem join [AsText α] (refuses : Deque.Growth) (delimiter : String) (v : View σ α) :
    Leads (Deque.join refuses delimiter) v (v.join refuses delimiter) := by
  have hwalk : Leads (Deque.loggedWalk (fun (j : Deque.Joining) _ e =>
      let j := j.element refuses delimiter (AsText.text e.value)
      return (if j.refused then .stop else .go, j)) .start) v
      (View.logged (v.walk (View.joinEntry refuses delimiter) v.row.slots 0 .start)) :=
    Leads.loggedWalk (Leads.walk (fun _ _ _ _ => Leads.pure _ _) (.of_row fun _ _ _ => rfl) _ v)
  rw [Deque.join, View.join]
  cases hr : View.logged (v.walk (View.joinEntry refuses delimiter) v.row.slots 0 .start) with
  | mk out w =>
    rw [hr] at hwalk
    cases out with
    | error p => exact hwalk.bind_error
    | ok b => exact hwalk.bind ((Leads.log _ _).bind (Leads.pure _ _))

end Leads

/-! ## Erasures by a predicate -/

namespace Callback

/-- The entries of a run that a predicate accepts. -/
def accepted (predicate : Callback τ (Entry α) Bool) (run : List (Slot α)) : List (Slot α) :=
  ((run.zip (predicate.answers (entriesOf run))).filter Prod.snd).map Prod.fst

/-- The entries of a run that a predicate rejects. -/
def rejected (predicate : Callback τ (Entry α) Bool) (run : List (Slot α)) : List (Slot α) :=
  ((run.zip (predicate.answers (entriesOf run))).filter fun p => !p.2).map Prod.fst

variable {predicate predicate' : Callback τ (Entry α) Bool} {s : Slot α} {run : List (Slot α)}

theorem accepted_cons {accepts : Bool} (h : predicate.call s.entry = (.returns accepts, predicate')) :
    predicate.accepted (s :: run) =
      if accepts then s :: predicate'.accepted run else predicate'.accepted run := by
  cases accepts <;> simp [accepted, answers_cons h]

theorem rejected_cons {accepts : Bool} (h : predicate.call s.entry = (.returns accepts, predicate')) :
    predicate.rejected (s :: run) =
      if accepts then predicate'.rejected run else s :: predicate'.rejected run := by
  cases accepts <;> simp [rejected, answers_cons h]

theorem accepted_sublist (predicate : Callback τ (Entry α) Bool) (run : List (Slot α)) :
    (predicate.accepted run).Sublist run := by
  have hfst : ∀ (run : List (Slot α)) (answers : List Bool),
      ((run.zip answers).map Prod.fst).Sublist run := by
    intro run
    induction run with
    | nil => simp
    | cons s run ih =>
      intro answers
      cases answers with
      | nil => simp
      | cons accepts answers => simpa using ih answers
  exact (List.filter_sublist.map Prod.fst).trans (hfst ..)

/-- What is left of a run without the entries that a predicate accepts are those that it rejects. -/
theorem filter_accepted (hall : predicate.Answers (entriesOf run)) (hnodup : (handlesOf run).Nodup) :
    run.filter (fun s => s.handle ∉ handlesOf (predicate.accepted run)) = predicate.rejected run := by
  induction run generalizing predicate with
  | nil => rfl
  | cons s run ih =>
    obtain ⟨accepts, predicate', hc, hall'⟩ := hall.cons
    rw [handlesOf, List.map_cons, List.nodup_cons] at hnodup
    have hnot : s.handle ∉ handlesOf (predicate'.accepted run) :=
      fun h => hnodup.1 (((accepted_sublist predicate' run).map Slot.handle).subset h)
    rw [rejected_cons hc, accepted_cons hc, ← ih hall' hnodup.2]
    cases accepts with
    | false =>
      rw [if_neg Bool.false_ne_true, if_neg Bool.false_ne_true, List.filter_cons_of_pos]
      simpa using hnot
    | true =>
      have hne : ∀ t ∈ run, t.handle ≠ s.handle :=
        fun t ht he => hnodup.1 (he ▸ List.mem_map_of_mem ht)
      simp only [if_true, handlesOf, List.map_cons, List.mem_cons, true_or, not_true_eq_false,
        decide_false, Bool.false_eq_true, not_false_eq_true, List.filter_cons_of_neg]
      refine List.filter_congr ?_
      intro t ht
      simp [hne t ht]

end Callback

namespace View

/-- One entry shown to a predicate, and erased if that accepts it. -/
def siftEntry : Nat × Callback τ (Entry α) Bool → Slot α → View σ α →
    Reading σ α (Flow × Nat × Callback τ (Entry α) Bool)
  | (removed, predicate), s, v =>
    match v.ask predicate s.entry with
    | (.ok (true, predicate), v) =>
      match v.erase s with
      | (.ok (), v) => (.ok (.go, removed + 1, predicate), v)
      | (.error p, v) => (.error p, v)
    | (.ok (false, predicate), v) => (.ok (.go, removed, predicate), v)
    | (.error p, v) => (.error p, v)

def eraseWhere (predicate : Callback τ (Entry α) Bool) (override : Option (Destructor σ α))
    (v : View σ α) : Reading σ α (Nat × Callback τ (Entry α) Bool) :=
  match v.withOverride override fun v => v.walk siftEntry v.row.slots 0 (0, predicate) with
  | (.ok (_, removed, predicate), w) => (.ok (removed, predicate), w.log (.eraseWhere removed w.row.length))
  | (.error p, w) => (.error p, w)

/-- What happens while entries are shown to a predicate and the payloads of those that it accepts go. -/
def siftEvents (fate : Fate) (predicate : Callback τ (Entry α) Bool) (run : List (Slot α)) :
    List (Event α) :=
  (run.zip (predicate.answers (entriesOf run))).flatMap fun (s, accepts) =>
    .called s.entry :: if accepts then [.left fate s.payload] else []

/-- A view after entries were shown to a predicate and those that it accepts were erased. -/
def sifted (predicate : Callback τ (Entry α) Bool) (run : List (Slot α)) (v : View σ α) : View σ α :=
  { v with
    row := v.row.filter fun s => s.handle ∉ handlesOf (predicate.accepted run)
    destructors := v.destructors.after ((predicate.accepted run).map Slot.payload)
    trace := v.trace ++ (siftEvents v.destructors.fate predicate run).toArray }

variable {predicate predicate' : Callback τ (Entry α) Bool} {s : Slot α} {front : List (Slot α)}
  {v : View σ α}

theorem sifted_nil (predicate : Callback τ (Entry α) Bool) (v : View σ α) : v.sifted predicate [] = v := by
  simp [sifted, siftEvents, Callback.accepted, Destructors.after, Row.filter]

theorem sifted_cons_rejects (h : predicate.call s.entry = (.returns false, predicate'))
    (front : List (Slot α)) (v : View σ α) :
    v.sifted predicate (s :: front) = (v.emit (.called s.entry)).sifted predicate' front := by
  simp [sifted, siftEvents, emit, Callback.accepted_cons h, Callback.answers_cons h]

theorem sifted_cons_accepts (h : predicate.call s.entry = (.returns true, predicate'))
    (front : List (Slot α)) (v : View σ α) :
    v.sifted predicate (s :: front) =
      (((v.emit (.called s.entry)).erase s).2).sifted predicate' front := by
  have hfate := ((v.emit (.called s.entry)).erase_snd s).2.2
  have hrow : ∀ r : Row α, r.filter (fun t => t.handle ∉ handlesOf (s :: predicate'.accepted front)) =
      (r.erase s.handle).filter (fun t => t.handle ∉ handlesOf (predicate'.accepted front)) := by
    intro r
    simp [Row.filter, Row.erase, List.filter_filter, Bool.and_comm]
  rw [sifted, sifted, hfate, erase, dispose_snd, Callback.accepted_cons h, if_pos rfl, hrow]
  simp [siftEvents, emit, Destructors.after, Callback.answers_cons h]

theorem erase_returns (h : (v.destructors.dispose s.payload).2.1 = .returns ()) :
    v.erase s = (.ok (), (v.erase s).2) :=
  dispose_returns (v := { v with row := v.row.erase s.handle }) h

theorem erase_panics {report : String}
    (h : (v.destructors.dispose s.payload).2.1 = .panics report) :
    v.erase s = (.error (.destructor report), (v.erase s).2) :=
  dispose_panics (v := { v with row := v.row.erase s.handle }) h

theorem erase_destructors (s : Slot α) (v : View σ α) :
    (v.erase s).2.destructors = (v.destructors.dispose s.payload).2.2 := by
  rw [erase, dispose_snd]

theorem siftEntry_rejects (h : predicate.call s.entry = (.returns false, predicate')) (removed : Nat)
    (v : View σ α) :
    v.siftEntry (removed, predicate) s = (.ok (.go, removed, predicate'), v.emit (.called s.entry)) := by
  simp [siftEntry, ask_returns h]

theorem siftEntry_accepts (h : predicate.call s.entry = (.returns true, predicate')) (removed : Nat)
    (hs : (v.destructors.dispose s.payload).2.1 = .returns ()) :
    v.siftEntry (removed, predicate) s =
      (.ok (.go, removed + 1, predicate'), ((v.emit (.called s.entry)).erase s).2) := by
  have hs' : ((v.emit (.called s.entry)).destructors.dispose s.payload).2.1 = .returns () := hs
  rw [siftEntry, ask_returns h]
  simp only
  rw [erase_returns hs']

/-- One entry shown to a predicate leaves some of the entries, in whatever way that ends. -/
theorem siftEntry_row (b : Nat × Callback τ (Entry α) Bool) (s : Slot α) (v : View σ α) :
    ∃ p, (v.siftEntry b s).2.row = v.row.filter p := by
  obtain ⟨removed, predicate⟩ := b
  have hall : v.row = v.row.filter fun _ => true := by
    rw [Row.filter, List.filter_true, List.filter_true]
  have hask := ask_row predicate s.entry v
  rw [siftEntry]
  cases hr : v.ask predicate s.entry with
  | mk out u =>
    rw [hr] at hask
    have hu : u.row = v.row := hask
    rcases out with _ | ⟨_ | _, predicate'⟩
    · exact ⟨_, hu.trans hall⟩
    · exact ⟨_, hu.trans hall⟩
    · have herase := (u.erase_snd s).1
      rw [hu] at herase
      simp only
      cases he : u.erase s with
      | mk out' u' =>
        rw [he] at herase
        cases out' <;> exact ⟨_, herase⟩

/-- An erasure goes on behind entries on which neither the predicate nor a destructor panicked. -/
theorem walk_sift (hall : predicate.Answers (entriesOf front))
    (hreturns : v.destructors.Returns ((predicate.accepted front).map Slot.payload))
    (rest : List (Slot α)) (n removed : Nat) :
    v.walk siftEntry (front ++ rest) n (removed, predicate) =
      (v.sifted predicate front).walk siftEntry rest (n + front.length)
        (removed + (predicate.accepted front).length, predicate.after (entriesOf front)) := by
  induction front generalizing predicate v n removed with
  | nil => simp [sifted_nil, Callback.accepted]
  | cons s front ih =>
    obtain ⟨accepts, predicate', hc, hall'⟩ := hall.cons
    rw [Callback.accepted_cons hc] at hreturns ⊢
    rw [List.cons_append, entriesOf_cons, Callback.after_cons hc, List.length_cons,
      Nat.add_comm front.length 1, ← Nat.add_assoc]
    cases accepts with
    | false =>
      rw [if_neg Bool.false_ne_true] at hreturns ⊢
      rw [walk_go (siftEntry_rejects hc removed v), sifted_cons_rejects hc]
      exact ih (v := v.emit (.called s.entry)) hall' hreturns _ _
    | true =>
      rw [if_pos rfl, List.map_cons, Destructors.returns_cons] at hreturns
      have hnext : ((v.emit (.called s.entry)).erase s).2.destructors.Returns
          ((predicate'.accepted front).map Slot.payload) := by
        rw [erase_destructors]
        exact hreturns.2
      rw [if_pos rfl, walk_go (siftEntry_accepts hc removed hreturns.1), sifted_cons_accepts hc,
        List.length_cons, Nat.add_comm (predicate'.accepted front).length 1, ← Nat.add_assoc]
      exact ih hall' hnext _ _

/-- What an erasure leaves of a row is what the predicate rejected in front, and all that is behind. -/
theorem slots_sifted {rest : List (Slot α)} (hr : v.row.slots = front ++ rest)
    (hnodup : v.row.handles.Nodup) (hall : predicate.Answers (entriesOf front)) :
    (v.sifted predicate front).row.slots = predicate.rejected front ++ rest := by
  rw [Row.handles, hr, handlesOf, List.map_append, List.nodup_append] at hnodup
  have hbehind : rest.filter (fun s => s.handle ∉ handlesOf (predicate.accepted front)) = rest := by
    refine List.filter_eq_self.2 ?_
    intro t ht
    rw [decide_eq_true_iff]
    intro hmem
    have hfront := ((Callback.accepted_sublist predicate front).map Slot.handle).subset hmem
    exact hnodup.2.2 _ hfront _ (List.mem_map_of_mem ht) rfl
  rw [sifted, Row.slots_filter, hr, List.filter_append, Callback.filter_accepted hall hnodup.1, hbehind]

variable {override : Option (Destructor σ α)} {back : List (Slot α)} {report : String}

/-- An erasure ends where the predicate panics, before anything happens to that entry. -/
theorem eraseWhere_panics (hr : v.row.slots = front ++ s :: back)
    (hall : predicate.Answers (entriesOf front))
    (hreturns : Destructors.Returns { v.destructors with override }
      ((predicate.accepted front).map Slot.payload))
    (hs : ((predicate.after (entriesOf front)).call s.entry).1 = .panics report) :
    ∃ u, v.eraseWhere predicate override = (.error (.callback report), u) ∧
      u.row = (v.sifted predicate front).row ∧ u.rest = v.rest := by
  let v' : View σ α := { v with destructors := { v.destructors with override } }
  have hwalk : v'.walk siftEntry v'.row.slots 0 (0, predicate) =
      (.error (.callback report), (v'.sifted predicate front).emit (.called s.entry)) := by
    rw [show v'.row.slots = front ++ s :: back from hr, walk_sift hall hreturns]
    refine walk_error ?_ _
    rw [siftEntry, ask_panics hs]
  rw [eraseWhere, withOverride]
  simp only [v'] at hwalk
  rw [hwalk]
  exact ⟨_, rfl, rfl, rfl⟩

/-- An erasure ends where a destructor panics, and that entry is gone as well. -/
theorem eraseWhere_destructor_panics (hr : v.row.slots = front ++ s :: back)
    (hall : predicate.Answers (entriesOf front))
    (hreturns : Destructors.Returns { v.destructors with override }
      ((predicate.accepted front).map Slot.payload))
    (hs : (predicate.after (entriesOf front)).call s.entry = (.returns true, predicate'))
    (hpanics : ((Destructors.after { v.destructors with override }
      ((predicate.accepted front).map Slot.payload)).dispose s.payload).2.1 = .panics report) :
    ∃ u, v.eraseWhere predicate override = (.error (.destructor report), u) ∧
      u.row = (v.sifted predicate front).row.erase s.handle ∧ u.rest = v.rest := by
  let v' : View σ α := { v with destructors := { v.destructors with override } }
  let w := (v'.sifted predicate front).emit (.called s.entry)
  have hwalk : v'.walk siftEntry v'.row.slots 0 (0, predicate) =
      (.error (.destructor report), (w.erase s).2) := by
    rw [show v'.row.slots = front ++ s :: back from hr, walk_sift hall hreturns]
    refine walk_error ?_ _
    have hpanics' : (w.destructors.dispose s.payload).2.1 = .panics report := hpanics
    rw [siftEntry, ask_returns hs]
    simp only
    rw [erase_panics hpanics']
  have hrow : (w.erase s).2.row = w.row.erase s.handle := (w.erase_snd s).1
  have hrest : (w.erase s).2.rest = w.rest := by rw [erase, toScene_dispose]
  rw [eraseWhere, withOverride]
  simp only [v'] at hwalk
  rw [hwalk]
  exact ⟨_, rfl, hrow, hrest⟩

end View

namespace Leads

/-- The body of an erasure by a predicate. -/
def sift (b : Nat × Callback τ (Entry α) Bool) (h : Handle) (e : Entry α) :
    Act σ α (Flow × Nat × Callback τ (Entry α) Bool) := do
  match ← Act.ask b.2 e with
  | (true, predicate) =>
    Deque.erase h
    return (.go, b.1 + 1, predicate)
  | (false, predicate) => return (.go, b.1, predicate)

theorem siftEntry (b : Nat × Callback τ (Entry α) Bool) {s : Slot α} {w : View σ α}
    (hs : s ∈ w.row.slots) : Leads (sift b s.handle s.entry) w (w.siftEntry b s) := by
  obtain ⟨removed, predicate⟩ := b
  have hask := Leads.ask predicate s.entry w
  rw [View.siftEntry]
  have hrow := View.ask_row predicate s.entry w
  cases hr : w.ask predicate s.entry with
  | mk out u =>
    rw [hr] at hask hrow
    have hs' : s ∈ u.row.slots := by rwa [show u.row = w.row from hrow]
    rcases out with p | ⟨_ | _, predicate'⟩
    · exact hask.bind_error
    · exact hask.bind (Leads.pure _ _)
    · have herase := Leads.erase hs'
      refine hask.bind ?_
      simp only
      cases he : u.erase s with
      | mk out' u' =>
        rw [he] at herase
        cases out' with
        | error p => exact herase.bind_error
        | ok _ => exact herase.bind (Leads.pure _ _)

theorem leavesRest_siftEntry :
    LeavesRest (View.siftEntry (σ := σ) (τ := τ) (α := α)) := by
  rintro ⟨removed, predicate⟩ s w a rest ⟨removed', predicate'⟩ u hnodup ha hr
  have hrow := View.ask_row predicate s.entry w
  rw [View.siftEntry] at hr
  cases hasked : w.ask predicate s.entry with
  | mk out x =>
    rw [hasked] at hr hrow
    have hx : x.row = w.row := hrow
    rcases out with p | ⟨_ | _, predicate''⟩
    · cases hr
    · cases hr
      exact ⟨a ++ [s], by rw [hx, ha, List.append_assoc, List.singleton_append]⟩
    · simp only at hr
      cases he : x.erase s with
      | mk out' y =>
        rw [he] at hr
        have hy : y.row = x.row.erase s.handle := by
          have h := (x.erase_snd s).1
          rwa [he] at h
        cases out' with
        | error p => cases hr
        | ok _ =>
          cases hr
          refine ⟨a, ?_⟩
          rw [hy, hx]
          exact Row.slots_erase ha hnodup

theorem eraseWhere (predicate : Callback τ (Entry α) Bool) (override : Option (Destructor σ α))
    (v : View σ α) :
    Leads (Deque.eraseWhere predicate override) v (v.eraseWhere predicate override) := by
  let v' : View σ α := { v with destructors := { v.destructors with override } }
  have hwalk := Leads.walk (fun b s w hs => Leads.siftEntry b hs) leavesRest_siftEntry (0, predicate) v'
  have hover := Leads.withOverride override
    (f := fun v : View σ α => v.walk View.siftEntry v.row.slots 0 (0, predicate)) hwalk
  rw [Deque.eraseWhere, View.eraseWhere]
  cases hr : v.withOverride override fun v => v.walk View.siftEntry v.row.slots 0 (0, predicate) with
  | mk out w =>
    rw [hr] at hover
    cases out with
    | error p => exact hover.bind_error
    | ok b =>
      refine hover.bind ?_
      refine (Leads.read fun _ hl => hl.verify_eq).bind ((Leads.length w).bind ?_)
      exact (Leads.log _ _).bind (Leads.pure _ _)

end Leads

end LinkedDeque
