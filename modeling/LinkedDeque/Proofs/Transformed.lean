import LinkedDeque.Proofs.Visits

/-!
# LinkedDeque.Proofs.Transformed

A transformation, read off its row to the last event:

* `View.beside` — an operation on the second row, with the entries that it leaves there.
* `View.map`    — one entry after the other transformed and placed at the back of the second row.
* `Ensures.maps` — a transformation ends as it is read, and the chain it makes is that of the entries read.
-/

namespace LinkedDeque

variable {σ τ α β : Type}

/-- A transformation under way, with the entries of the second row in place of its chain. -/
structure Transforming (τ α : Type) where
  transform : Callback τ (Entry α) (Entry α)
  made : List (Slot α)
  progress : Deque.Progress

namespace View

/-- An operation read on the second row, with the entries that it leaves there. -/
def beside (made : List (Slot α)) (f : View σ α → Reading σ α β) (v : View σ α) :
    Reading σ α (β × List (Slot α)) :=
  match f (v.aside made) with
  | (.ok b, u) => (.ok (b, u.row.slots), u.resume v)
  | (.error p, u) => (.error p, u.resume v)

/-- One entry transformed, and the result placed at the back of the second row. -/
def mapEntry (m : Transforming τ α) (s : Slot α) (v : View σ α) :
    Reading σ α (Flow × Transforming τ α) :=
  match m.transform.call s.entry with
  | (.panics report, transform) =>
    (.ok (.stop, { m with transform, progress := .panicked report }), v.emit (.called s.entry))
  | (.returns result, transform) =>
    match ((v.emit (.called s.entry)).emit (.entered result.value)).beside m.made
      (·.append .after result) with
    | (.ok (true, made), w) => (.ok (.go, ⟨transform, made, .placed⟩), w)
    | (.ok (false, made), w) =>
      (.ok (.stop, ⟨transform, made, .refused⟩), w.emit (.left .dropped result.value))
    | (.error p, w) => (.error p, w)

theorem beside_row (made : List (Slot α)) (f : View σ α → Reading σ α β) (v : View σ α) :
    (v.beside made f).2.row = v.row := by
  rw [beside]
  rcases f (v.aside made) with ⟨_ | _, u⟩ <;> rfl

theorem mapEntry_row (m : Transforming τ α) (s : Slot α) (v : View σ α) :
    (v.mapEntry m s).2.row = v.row := by
  rw [mapEntry]
  cases m.transform.call s.entry with
  | mk reply transform =>
    cases reply with
    | panics report => rfl
    | returns result =>
      have hrow := beside_row m.made (·.append .after result)
        ((v.emit (.called s.entry)).emit (.entered result.value))
      simp only
      generalize View.beside m.made (·.append .after result)
        ((v.emit (.called s.entry)).emit (.entered result.value)) = r at hrow ⊢
      rcases r with ⟨_ | ⟨_ | _, made⟩, w⟩ <;> exact hrow

/-- What is answered once the walk of a transformation is over. -/
def mapEnd (visited : Nat) (m : Transforming τ α) (v : View σ α) :
    Reading σ α (Option (List (Slot α)) × Callback τ (Entry α) (Entry α)) :=
  match m.progress with
  | .panicked report => (.error (.callback report), (v.beside m.made (·.clear none)).2)
  | .refused => (.ok (none, m.transform),
    ((v.log (.visit visited v.row.length)).beside m.made (·.clear (some .drop))).2)
  | .placed => (.ok (some m.made, m.transform),
    (v.log (.visit visited v.row.length)).log (.map m.made.length))

/-- A second row made of the results of a transform on the entries of the first one, in order. -/
def map (transform : Callback τ (Entry α) (Entry α)) (v : View σ α) :
    Reading σ α (Option (List (Slot α)) × Callback τ (Entry α) (Entry α)) :=
  match v.walk mapEntry v.row.slots 0 ⟨transform, [], .placed⟩ with
  | (.ok (visited, m), w) => w.mapEnd visited m
  | (.error p, w) => (.error p, w)

end View

/-- A transformation under way and its reading: the chain made so far is that of the entries read. -/
structure ReadAs (v : View σ α) (m : Deque.Mapping τ α) (m' : Transforming τ α) : Prop where
  transform : m.transform = m'.transform
  progress : m.progress = m'.progress
  made : Made v m.made m'.made

/-- The chain of a list that was made is that of the entries read, and there is none where none was read. -/
inductive Makes (v : View σ α) : Option Chain → Option (List (Slot α)) → Prop where
  | list {chain : Chain} {made : List (Slot α)} (h : Made v chain made) : Makes v (some chain) (some made)
  | nothing : Makes v none none

/-! ## Operations on the second row -/

namespace Made

variable {v u : View σ α} {chain : Chain} {made : List (Slot α)} {e : Entry α}

/-- An operation on the chain of the second row ends as it is read there. -/
theorem besides (hm : Made v chain made) {act : Act σ α β} {f : View σ α → Reading σ α β} {b : β}
    (hact : Leads act (v.aside made) (f (v.aside made))) (hf : f (v.aside made) = (.ok b, u))
    (hu : Beside v u) :
    Ensures (Act.onChain chain act) v fun out w => ∃ chain', out = .ok (b, chain') ∧
      v.beside made f = (.ok (b, u.row.slots), w) ∧ w.row = v.row ∧ Made w chain' u.row.slots := by
  rw [hf] at hact
  refine (Leads.onChain hm hact hu).mono ?_
  rintro _ _ ⟨chain', rfl, rfl, hm'⟩
  refine ⟨chain', rfl, ?_, rfl, hm'⟩
  rw [View.beside, hf]

theorem append_besides (hm : Made v chain made) (hv : v.Sound) (hcap : made.length + 1 < capacity) :
    Ensures (Act.onChain chain (Deque.append .after e)) v fun out w => ∃ placed chain' made',
      out = .ok (placed, chain') ∧ v.beside made (·.append .after e) = (.ok (placed, made'), w) ∧
      w.row = v.row ∧ Made w chain' made' ∧ made'.length ≤ made.length + 1 := by
  have hact := Leads.append .after e (v.aside made)
  cases href : v.allocator.attempt with
  | mk refused allocator =>
    cases refused with
    | true =>
      refine (hm.besides hact (aside_refused made e href) (hm.refused_beside hv)).mono ?_
      rintro out w ⟨chain', hout, hread, hrow, hm'⟩
      refine ⟨false, chain', _, hout, hread, hrow, hm', ?_⟩
      rw [show (refusedIn made e allocator v).row.slots = made from View.slots_aside made v]
      exact Nat.le_succ _
    | false =>
      refine (hm.besides hact (aside_placed made e hcap href) (hm.placed_beside hv)).mono ?_
      rintro out w ⟨chain', hout, hread, hrow, hm'⟩
      refine ⟨true, chain', _, hout, hread, hrow, hm', ?_⟩
      rw [slots_placed, List.length_append]
      exact Nat.le_refl _

theorem clear_besides {fate : Fate} {override : Option (Destructor σ α)} {act : Act σ α Unit}
    (hm : Made v chain made) (hv : v.Sound)
    (hact : ∀ u : View σ α, Leads act u (u.clear override))
    (hd : ∀ x, Destructors.dispose ⟨none, override⟩ x = (fate, .returns (), ⟨none, override⟩)) :
    Ensures (Act.onChain chain act) v fun out w =>
      (∃ b, out = .ok b) ∧ w = (v.beside made (·.clear override)).2 := by
  have hbeside : Beside v (cleared fate made v) := hm.cleared_beside hv
  refine (hm.besides (hact _) (aside_clear v made hd) ?_).mono ?_
  · split
    · exact ⟨hbeside.keeps, hbeside.apart, rfl⟩
    · exact hbeside
  · rintro _ w ⟨chain', rfl, hread, -, -⟩
    refine ⟨⟨_, rfl⟩, ?_⟩
    rw [hread]

end Made

/-! ## The transformation -/

namespace Ensures

open Deque

variable {v w : View σ α} {transform : Callback τ (Entry α) (Entry α)} {m : Deque.Mapping τ α}
  {m' : Transforming τ α} {s : Slot α}

theorem mapEntry_reads (hm : ReadAs w m m') (hroom : m'.made.length + 1 < capacity) :
    Ensures (Deque.mapEntry m s.entry) w fun out u => ∃ flow next next',
      out = .ok (flow, next) ∧ w.mapEntry m' s = (.ok (flow, next'), u) ∧ u.row = w.row ∧
      ReadAs u next next' ∧ next'.made.length ≤ m'.made.length + 1 := by
  obtain ⟨transform, chain, progress⟩ := m
  obtain ⟨_, made, _⟩ := m'
  obtain ⟨rfl, rfl, hm⟩ := hm
  refine after (Leads.emit _ _) ?_
  rw [View.mapEntry]
  cases hcall : transform.call s.entry with
  | mk reply transform' =>
    cases reply with
    | panics report =>
      refine (Leads.pure _ _).ensures ⟨.stop, _, _, rfl, rfl, rfl, ⟨rfl, rfl, ?_⟩, Nat.le_succ _⟩
      exact ⟨hm.spans, hm.cursor⟩
    | returns result =>
      refine after (Leads.emit _ _) (of_shows fun l hl => ?_)
      let u := (w.emit (.called s.entry)).emit (.entered result.value)
      have hu : Made u chain made := ⟨hm.spans, hm.cursor⟩
      refine (hu.append_besides hl.sound hroom).bind ?_ ?_
      · rintro _ w' ⟨placed, chain', made', he, hread, hrow, hm', hlen⟩
        cases he
        simp only [u] at hread
        simp only [hread]
        cases placed with
        | true => exact (Leads.pure _ _).ensures ⟨.go, _, _, rfl, rfl, hrow, ⟨rfl, rfl, hm'⟩, hlen⟩
        | false =>
          refine after (Leads.emit _ _) ((Leads.pure _ _).ensures ?_)
          exact ⟨.stop, _, _, rfl, rfl, hrow, ⟨rfl, rfl, ⟨hm'.spans, hm'.cursor⟩⟩, hlen⟩
      · rintro p w' ⟨placed, chain', made', he, -⟩
        cases he

/-- The walk of a transformation ends as it is read; it never panics itself. -/
theorem mapWalk_reads (transform : Callback τ (Entry α) (Entry α)) (hcap : v.row.length < capacity) :
    Ensures (Deque.walk (fun m _ e => Deque.mapEntry m e) ⟨transform, .empty, .placed⟩) v fun out w =>
      ∃ n m m', out = .ok (n, m) ∧
        v.walk View.mapEntry v.row.slots 0 ⟨transform, [], .placed⟩ = (.ok (n, m'), w) ∧
        ReadAs w m m' := by
  let r := v.walk View.mapEntry v.row.slots 0 ⟨transform, [], .placed⟩
  -- the walk still to come is read as the whole one was, and the second row has room for it
  let inv := fun (n : Nat) (m : Deque.Mapping τ α) (rest : List (Slot α)) (w : View σ α) =>
    ∃ m', ReadAs w m m' ∧ w.walk View.mapEntry rest n m' = r ∧
      m'.made.length + rest.length ≤ v.row.length
  refine walk inv ?_ ?_ ?_
  · rintro n m s rest w hs ⟨m', hm, hr, hlen⟩ ⟨a, ha⟩
    rw [List.length_cons] at hlen
    refine (mapEntry_reads hm (s := s) (by omega)).mono ?_
    rintro _ u ⟨flow, next, next', rfl, hread, hrow, hnext, hle⟩
    rw [View.walk, hread] at hr
    cases flow with
    | go =>
      refine ⟨⟨next', hnext, hr, by omega⟩, a ++ [s], ?_⟩
      rw [hrow, List.append_assoc]
      exact ha
    | stop => exact ⟨_, next, next', rfl, hr.symm, hnext⟩
  · rintro n m w ⟨m', hm, hr, -⟩
    exact ⟨n, m, m', rfl, hr.symm, hm⟩
  · refine ⟨⟨transform, [], .placed⟩, ⟨rfl, rfl, .empty v⟩, rfl, ?_⟩
    rw [List.length_nil, Nat.zero_add]
    exact Nat.le_refl _

/-- A transformation ends as it is read, with the chain of the entries read. -/
theorem maps (transform : Callback τ (Entry α) (Entry α)) (v : View σ α) :
    Ensures (Deque.map transform) v fun out w =>
      (∃ chain made f, out = .ok (chain, f) ∧ v.map transform = (.ok (made, f), w) ∧ Makes w chain made) ∨
        ∃ p, out = .error p ∧ v.map transform = (.error p, w) := by
  refine of_shows fun l hl => (mapWalk_reads transform hl.length_lt).bind ?_ ?_
  · rintro ⟨visited, transform', chain, progress⟩ w ⟨_, _, m', he, hwalk, hm⟩
    cases he
    obtain ⟨_, made, _⟩ := m'
    obtain ⟨rfl, rfl, hm⟩ := hm
    rw [View.map, hwalk]
    refine of_shows fun l' hl' => ?_
    cases progress with
    | placed =>
      refine after (Leads.length _) (after (Leads.log _ _) (after (Leads.log _ _) ?_))
      have hlen : chain.ends.length = made.length := hm.spans.length
      refine (Leads.pure _ _).ensures (.inl ⟨_, _, _, rfl, ?_, .list ⟨hm.spans, hm.cursor⟩⟩)
      rw [hlen]
      rfl
    | refused =>
      refine after (Leads.length _) (after (Leads.log _ _) ?_)
      let u := w.log (.visit visited w.row.length)
      have hu : Made u chain made := ⟨hm.spans, hm.cursor⟩
      have h := hu.clear_besides (Linkage.Shows.sound (v := u) hl')
        (fun u => Leads.destroyWith .drop u) fun _ => rfl
      refine after_discard h ?_
      rintro _ rfl
      exact (Leads.pure _ _).ensures (.inl ⟨_, _, _, rfl, rfl, .nothing⟩)
    | panicked report =>
      have h := hm.clear_besides hl'.sound (fun u => Leads.clear none u) fun _ => rfl
      refine after_discard h ?_
      rintro _ rfl
      exact (Leads.throw _ _).ensures (.inr ⟨_, rfl, rfl⟩)
  · rintro p w ⟨_, _, _, he, -⟩
    cases he

end Ensures

end LinkedDeque
