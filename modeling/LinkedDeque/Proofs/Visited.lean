import LinkedDeque.Proofs.Sifting

/-!
# LinkedDeque.Proofs.Visited

A visit as a fold that a visitor may stop:

* `Callback.Folds`       — what such a fold comes to: the arguments that were heard, and the visitor that
  is left.
* `Callback.exists_folds` — every visitor folds every run of arguments in some way.
* `Deque.visitEach_folds` — a visit of a well-formed list is that fold over its entries, and all it leaves
  behind is the record of its calls.
-/

namespace LinkedDeque

variable {σ τ ι α : Type}

namespace Callback

/-- What a fold with a visitor comes to: it goes through all arguments, or it ends at the first one, in
the state that the earlier calls left, on which the visitor says stop or panics. -/
inductive Folds (visitor : Callback τ ι Flow) (xs : List ι) :
    List ι → Except Panic (Callback τ ι Flow) → Prop where
  | through (hgo : visitor.answers xs = List.replicate xs.length .go) :
      Folds visitor xs xs (.ok (visitor.after xs))
  | stopped {front back : List ι} {x : ι} {visitor' : Callback τ ι Flow} (hxs : xs = front ++ x :: back)
      (hgo : visitor.answers front = List.replicate front.length .go)
      (hstop : (visitor.after front).call x = (.returns .stop, visitor')) :
      Folds visitor xs (front ++ [x]) (.ok visitor')
  | panicked {front back : List ι} {x : ι} {report : String} (hxs : xs = front ++ x :: back)
      (hgo : visitor.answers front = List.replicate front.length .go)
      (hpanics : ((visitor.after front).call x).1 = .panics report) :
      Folds visitor xs (front ++ [x]) (.error (.callback report))

variable {visitor visitor' : Callback τ ι Flow} {x : ι} {xs heard : List ι}
  {out : Except Panic (Callback τ ι Flow)}

/-- A visitor that says go folds on over the arguments behind. -/
theorem Folds.cons (hx : visitor.call x = (.returns .go, visitor')) (h : visitor'.Folds xs heard out) :
    visitor.Folds (x :: xs) (x :: heard) out := by
  have hgo : ∀ front, visitor'.answers front = List.replicate front.length .go →
      visitor.answers (x :: front) = List.replicate (x :: front).length .go := by
    intro front hfront
    rw [answers_cons hx, hfront, List.length_cons, List.replicate_succ]
  cases h with
  | through hall =>
    rw [← after_cons hx]
    exact .through (hgo _ hall)
  | @stopped front back y _ hxs hfront hstop =>
    have hsplit : x :: xs = (x :: front) ++ y :: back := by rw [hxs, List.cons_append]
    rw [← after_cons hx] at hstop
    exact .stopped hsplit (hgo _ hfront) hstop
  | @panicked front back y _ hxs hfront hpanics =>
    have hsplit : x :: xs = (x :: front) ++ y :: back := by rw [hxs, List.cons_append]
    rw [← after_cons hx] at hpanics
    exact .panicked hsplit (hgo _ hfront) hpanics

theorem exists_folds (visitor : Callback τ ι Flow) (xs : List ι) :
    ∃ heard out, visitor.Folds xs heard out := by
  induction xs generalizing visitor with
  | nil => exact ⟨[], _, .through rfl⟩
  | cons x xs ih =>
    cases hx : visitor.call x with
    | mk reply visitor' =>
      rcases reply with (_ | _) | report
      · obtain ⟨heard, out, h⟩ := ih visitor'
        exact ⟨x :: heard, out, h.cons hx⟩
      · exact ⟨[x], _, .stopped (List.nil_append (x :: xs)).symm rfl hx⟩
      · have hpanics : ((visitor.after []).call x).1 = .panics report := by rw [after_nil, hx]
        exact ⟨[x], _, .panicked (List.nil_append (x :: xs)).symm rfl hpanics⟩

end Callback

theorem length_entriesOf (run : List (Slot α)) : (entriesOf run).length = run.length :=
  List.length_map _

namespace View

variable {visitor : Callback τ (Entry α) Flow} {heard : List (Entry α)}
  {out : Except Panic (Callback τ (Entry α) Flow)} {v : View σ α}

theorem split_entries {run : List (Slot α)} {front back : List (Entry α)} {e : Entry α}
    (h : entriesOf run = front ++ e :: back) :
    ∃ a s b, run = a ++ s :: b ∧ entriesOf a = front ∧ s.entry = e := by
  obtain ⟨a, rest, hrun, ha, hrest⟩ := List.map_eq_append_iff.1 h
  obtain ⟨s, b, hb, hs, -⟩ := List.map_eq_cons_iff.1 hrest
  exact ⟨a, s, b, by rw [hrun, hb], ha, hs⟩

/-- A visit hears what a fold over the entries hears, and ends as the fold does. -/
theorem visitEach_of_folds (h : visitor.Folds (entriesOf v.row.slots) heard out) :
    v.visitEach visitor = logged ((heard.length, ·) <$> out, v.hear heard) := by
  cases h with
  | through hgo =>
    rw [length_entriesOf] at hgo
    have hwalk := walk_hear visitor [] 0 v hgo
    rw [List.append_nil, Nat.zero_add] at hwalk
    rw [visitEach, hwalk, walk, length_entriesOf]
    rfl
  | @stopped front back e visitor' hxs hgo hstop =>
    obtain ⟨a, s, b, hr, rfl, rfl⟩ := split_entries hxs
    rw [length_entriesOf] at hgo
    have hheard : (v.hear (entriesOf a)).emit (.called s.entry) = v.hear (entriesOf a ++ [s.entry]) := by
      simp [hear, emit]
    rw [visitEach, hr, walk_hear visitor (s :: b) 0 v hgo, walk, ask_returns hstop, hheard]
    simp
  | @panicked front back e report hxs hgo hpanics =>
    obtain ⟨a, s, b, hr, rfl, rfl⟩ := split_entries hxs
    rw [length_entriesOf] at hgo
    rw [visitEach_panics hr hgo hpanics, entriesOf, List.map_append]
    rfl

end View

/-- A machine after calls on these entries. -/
def Machine.hear (entries : List (Entry α)) (m : Machine σ α) : Machine σ α :=
  { m with trace := m.trace ++ (entries.map Event.called).toArray }

def Machine.log (line : Log) (m : Machine σ α) : Machine σ α :=
  { m with trace := m.trace.push (.logged line) }

/-- A visit is a fold that the visitor may stop. On every well-formed list and with every visitor it comes
to an end: the visitor is called on the entries that the fold hears, each once and in order, and on no
other one; the answer is how many these are, with the visitor as those calls left it. The whole linkage
stays as it is. -/
theorem Deque.visitEach_folds {m : Machine σ α} {nodes : List Handle} (hm : m.linkage.WellFormed nodes)
    (visitor : Callback τ (Entry α) Flow) :
    (∃ heard out, visitor.Folds m.linkage.contents heard out) ∧
      ∀ heard out, visitor.Folds m.linkage.contents heard out →
        (Deque.visitEach visitor).run m =
          match out with
          | .ok visitor' =>
            .ok (heard.length, visitor') ((m.hear heard).log (.visit heard.length m.linkage.length))
          | .error p => .error p (m.hear heard) := by
  refine ⟨Callback.exists_folds visitor _, ?_⟩
  intro heard out h
  obtain ⟨hl, -⟩ := hm.shows
  have hcontents : m.linkage.contents = entriesOf m.view.row.slots := hl.contents_eq
  have hlength : m.linkage.length = m.view.row.length := hl.length_eq
  rw [hcontents] at h
  obtain ⟨l', hrun, hl'⟩ := Leads.visitEach visitor m.view m.linkage hl
  rw [View.visitEach_of_folds h] at hrun hl'
  rw [hlength]
  cases out with
  | ok visitor' =>
    obtain rfl : l' = m.linkage := hl.unique hl'
    exact hrun
  | error p =>
    obtain rfl : l' = m.linkage := hl.unique hl'
    exact hrun

/-- A visitor that adds up payloads and stops once they come to more than ten. -/
def summing : Callback Nat (Entry Nat) Flow :=
  ⟨0, fun sum e => (.returns (if 10 < sum + e.value then .stop else .go), sum + e.value)⟩

/-- The second entry is the last one that is visited. -/
theorem visitEach_folds_summing :
    trio.linkage.WellFormed [0, 1, 2] ∧
      summing.Folds trio.linkage.contents [⟨7, 0⟩, ⟨8, 2⟩] (.ok { summing with state := 15 }) ∧
      (Deque.visitEach summing).run trio =
        .ok (2, { summing with state := 15 })
          { trio with trace := #[.called ⟨7, 0⟩, .called ⟨8, 2⟩, .logged (.visit 2 3)] } := by
  have hfolds : summing.Folds trio.linkage.contents [⟨7, 0⟩, ⟨8, 2⟩] (.ok { summing with state := 15 }) :=
    .stopped (show trio.linkage.contents = [⟨7, 0⟩] ++ ⟨8, 2⟩ :: [⟨9, 0⟩] from rfl) rfl rfl
  exact ⟨trio_wellFormed, hfolds, (Deque.visitEach_folds trio_wellFormed summing).2 _ _ hfolds⟩

end LinkedDeque
