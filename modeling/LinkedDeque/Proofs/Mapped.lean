import LinkedDeque.Deque.Map
import LinkedDeque.Proofs.Calls
import LinkedDeque.Proofs.Clearing

/-!
# LinkedDeque.Proofs.Mapped

A second row in the same heap, which a transformation makes beside the row it walks over:

* `View.aside`  — the view in which the second row is in hand.
* `View.resume` — the first view again, after an operation on the second row.
* `Made`        — a chain is that of a row of strays.
* `Ensures.map` — the course of a transformation: its results are the strays, and they end up in a list of
  their own, or are gone.
-/

namespace LinkedDeque

variable {σ τ α β : Type}

/-! ## Two rows in one heap -/

namespace View

def look (v : View σ α) : Nodes α := v.rest.lay none v.row.slots

def aside (made : List (Slot α)) (v : View σ α) : View σ α :=
  ⟨⟨⟨made, []⟩, v.look.hide made, v.fresh⟩, .none, v.allocator, v.trace⟩

def resume (u v : View σ α) : View σ α :=
  { v with
    rest := u.look.hide v.row.slots
    fresh := u.fresh
    allocator := u.allocator
    trace := u.trace }

/-- The row in hand and the destructors are as they were. -/
structure Spares (v w : View σ α) : Prop where
  row : w.row = v.row
  destructors : w.destructors = v.destructors

theorem Spares.trans {v w u : View σ α} (hw : Spares v w) (hu : Spares w u) : Spares v u :=
  ⟨hu.row.trans hw.row, hu.destructors.trans hw.destructors⟩

theorem look_of_not_mem {v : View σ α} {h : Handle} (hh : h ∉ v.row.handles) :
    v.look h = v.rest h :=
  Nodes.lay_of_not_mem hh

theorem slots_aside (made : List (Slot α)) (v : View σ α) : (v.aside made).row.slots = made :=
  List.append_nil _

theorem look_aside {v : View σ α} {made : List (Slot α)} {h : Handle} (hh : h ∉ handlesOf made) :
    (v.aside made).look h = v.look h := by
  rw [look, slots_aside, Nodes.lay_of_not_mem hh]
  exact Nodes.hide_of_not_mem hh

/-- The nodes of the row in hand are not among the others. -/
def Apart (v : View σ α) : Prop := ∀ h ∈ v.row.handles, v.rest h = none

theorem apart_resume (u v : View σ α) : (u.resume v).Apart := fun _ hh => Nodes.hide_of_mem hh

/-- What lies beside the row after an operation on the second one, where that did nothing. -/
theorem rest_resume {v u : View σ α} {h : Handle} (hv : v.Apart)
    (hlook : h ∉ v.row.handles → u.look h = v.look h) : (u.resume v).rest h = v.rest h := by
  show u.look.hide v.row.slots h = v.rest h
  by_cases hh : h ∈ v.row.handles
  · rw [Nodes.hide_of_mem hh, hv h hh]
  · rw [Nodes.hide_of_not_mem hh, hlook hh, look_of_not_mem hh]

end View

theorem Linkage.Shows.look_eq {l : Linkage α} {v : View σ α} (hl : l.Shows v.toScene) (h : Handle) :
    l.heap.get? h = v.look h := by
  by_cases hh : h ∈ v.row.handles
  · exact (Nodes.lay_eq_of_linked hl.spans.linked hh).symm
  · rw [View.look_of_not_mem hh, hl.outside h hh]

/-- A chain beside a row is that of a run of nodes, and its cursor is exhausted. -/
structure Made (v : View σ α) (chain : Chain) (made : List (Slot α)) : Prop where
  spans : Spans v.rest chain.ends .after made
  cursor : chain.cursor = none

namespace Made

variable {v u : View σ α} {chain : Chain} {made : List (Slot α)}

theorem empty (v : View σ α) : Made v .empty [] :=
  ⟨⟨List.nodup_nil, trivial, rfl, rfl, rfl⟩, rfl⟩

theorem not_mem (hm : Made v chain made) (hv : v.Sound) {h : Handle} (hh : h ∈ handlesOf made) :
    h ∉ v.row.handles := by
  intro hrow
  obtain ⟨n, hn⟩ := hm.spans.linked.live hh
  rw [hv.apart h hrow] at hn
  cases hn

theorem shows_aside {l : Linkage α} (hm : Made v chain made) (hl : l.Shows v.toScene) :
    Linkage.Shows ⟨l.heap, chain⟩ (v.aside made).toScene := by
  have hrow : (v.aside made).row.slots = made := View.slots_aside made v
  refine ⟨?_, hm.cursor, ?_, ?_, hl.size⟩
  · rw [hrow]
    refine hm.spans.congr ?_
    intro k hk
    exact (hl.look_eq k).trans (View.look_of_not_mem (hm.not_mem hl.sound hk))
  · intro k hk
    rw [Row.handles, hrow] at hk
    exact (hl.look_eq k).trans (Nodes.hide_of_not_mem hk).symm
  · intro k hk
    rw [Row.handles, hrow] at hk
    exact Nodes.hide_of_mem hk

end Made

/-- What an operation on the second row leaves is beside the first one, as it was. -/
structure Beside (v u : View σ α) : Prop where
  keeps : ∀ h ∈ v.row.handles, u.look h = v.look h
  apart : ∀ h ∈ u.row.handles, h ∉ v.row.handles
  cursor : u.row.cursor = none

theorem Leads.onChain {act : Act σ α β} {v u : View σ α} {chain : Chain} {made : List (Slot α)} {b : β}
    (hm : Made v chain made) (h : Leads act (v.aside made) (.ok b, u)) (hu : Beside v u) :
    Ensures (Act.onChain chain act) v fun out w =>
      ∃ chain', out = .ok (b, chain') ∧ w = u.resume v ∧ Made w chain' u.row.slots := by
  obtain ⟨hkeep, hdisjoint, hcursor⟩ := hu
  intro l hl
  obtain ⟨l', hrun, hl'⟩ := h _ (hm.shows_aside hl)
  refine ⟨_, _, ⟨l'.heap, l.chain⟩, ?_, ?_, l'.chain, rfl, rfl, ?_, ?_⟩
  · have hrun' : act ⟨⟨l.heap, chain⟩, .none, v.allocator, v.trace⟩ = .ok b (u.machine l') := hrun
    simp only [Act.onChain, EStateM.run, View.machine, hrun', ending]
    rfl
  · refine ⟨?_, hl.cursor, ?_, ?_, hl'.size⟩
    · refine hl.spans.congr ?_
      intro k hk
      exact (hl'.look_eq k).trans ((hkeep k hk).trans (hl.look_eq k).symm)
    · intro k hk
      exact (hl'.look_eq k).trans (Nodes.hide_of_not_mem hk).symm
    · intro k hk
      exact Nodes.hide_of_mem hk
  · refine hl'.spans.congr ?_
    intro k hk
    exact (Nodes.hide_of_not_mem (hdisjoint k hk)).trans (hl'.look_eq k).symm
  · exact hl'.cursor.trans hcursor

/-! ## The second row grows, and ends -/

def gone (fate : Fate) (run : List (Slot α)) (events : Array (Event α)) : Array (Event α) :=
  run.foldl (fun events s => events.push (.left fate s.payload)) events

theorem gone_eq (fate : Fate) (run : List (Slot α)) (events : Array (Event α)) :
    gone fate run events = events ++ (run.map fun s => .left fate s.payload).toArray := by
  induction run generalizing events with
  | nil => simp [gone]
  | cons s run ih =>
    have hrest := ih (events.push (.left fate s.payload))
    rw [gone] at hrest
    rw [gone, List.foldl_cons, hrest]
    simp

namespace View

theorem drain_eq {fate : Fate} (run : List (Slot α)) (v : View σ α)
    (hd : ∀ x, v.destructors.dispose x = (fate, .returns (), v.destructors)) :
    v.drain run = (.ok (), { v with rest := v.rest.hide run, trace := gone fate run v.trace }) := by
  induction run generalizing v with
  | nil => rfl
  | cons s run ih =>
    let u : View σ α := { v with
      rest := v.rest.set s.handle none
      trace := v.trace.push (.left fate s.payload) }
    have hdispose : ({ v with rest := v.rest.set s.handle none } : View σ α).dispose s.payload =
        (.ok (), u) := by
      rw [View.dispose]
      simp only [hd]
      rfl
    rw [View.drain, hdispose]
    simp only
    rw [ih u hd, ← Nodes.set_hide]
    rfl

end View

namespace Course

variable {permits : Fate → Prop} {v w : View σ α} {came hand : List α} {strays : List (Slot α)}

theorem discard {fate : Fate} (hf : permits fate) (c : Course permits v w came hand strays) :
    Course permits v { w with rest := w.rest.hide strays, trace := gone fate strays w.trace } came
      hand [] := by
  induction strays generalizing w with
  | nil => exact c
  | cons s strays ih =>
    have c' := ih (c.release.give hf)
    rw [← Nodes.set_hide]
    exact c'

end Course

namespace Made

variable {v : View σ α} {chain : Chain} {made : List (Slot α)}

theorem look_aside (hm : Made v chain made) (hv : v.Sound) : (v.aside made).look = v.look := by
  funext h
  have hrow : (v.aside made).row.slots = made := View.slots_aside made v
  by_cases hh : h ∈ handlesOf made
  · rw [View.look, hrow, Nodes.lay_eq_of_linked hm.spans.linked hh, View.look_of_not_mem (hm.not_mem hv hh)]
  · exact View.look_aside hh

theorem hide_look (hv : v.Sound) : v.look.hide v.row.slots = v.rest := by
  funext h
  exact View.rest_resume (u := v) hv.apart fun _ => rfl

/-- What the end of the second row leaves, but for the line of the log. -/
def cleared (fate : Fate) (made : List (Slot α)) (v : View σ α) : View σ α :=
  { (v.aside made).abandon with
    rest := (v.aside made).abandon.rest.hide made
    trace := gone fate made v.trace }

section Clear

variable {fate : Fate} {override : Option (Destructor σ α)}

theorem aside_clear (v : View σ α) (made : List (Slot α))
    (hd : ∀ x, Destructors.dispose ⟨none, override⟩ x = (fate, .returns (), ⟨none, override⟩)) :
    (v.aside made).clear override = (.ok (), if 0 < (v.aside made).row.length then
      (cleared fate made v).log (.destroy (v.aside made).row.length) else cleared fate made v) := by
  rw [View.clear, View.withOverride, View.slots_aside, View.drain_eq made _ hd]
  rfl

theorem look_cleared (hm : Made v chain made) (hv : v.Sound) :
    (cleared fate made v).look = v.look.hide made := by
  show (v.aside made).look.hide _ = v.look.hide made
  rw [hm.look_aside hv]

theorem cleared_beside (hm : Made v chain made) (hv : v.Sound) : Beside v (cleared fate made v) := by
  refine ⟨?_, fun _ hh => absurd hh List.not_mem_nil, rfl⟩
  intro h hh
  rw [hm.look_cleared hv, Nodes.hide_of_not_mem fun hmem => hm.not_mem hv hmem hh]

/-- The second row destroyed by a destructor that never panics: its nodes are gone. -/
theorem clear {act : Act σ α Unit} {permits : Fate → Prop} {v₀ : View σ α} {came hand : List α}
    (hm : Made v chain made) (hv : v.Sound) (c : Course permits v₀ v came hand made)
    (hact : ∀ u : View σ α, Leads act u (u.clear override))
    (hd : ∀ x, Destructors.dispose ⟨none, override⟩ x = (fate, .returns (), ⟨none, override⟩))
    (hf : permits fate) :
    Ensures (Act.onChain chain act) v fun out w =>
      (∃ b, out = .ok b) ∧ View.Spares v w ∧ Course permits v₀ w came hand [] := by
  let u := cleared fate made v
  have hbeside : Beside v u := hm.cleared_beside hv
  have hrest : u.look.hide v.row.slots = v.rest.hide made := by
    funext h
    by_cases hh : h ∈ handlesOf made
    · rw [Nodes.hide_of_mem hh, hm.look_cleared hv]
      by_cases hr : h ∈ v.row.handles
      · exact Nodes.hide_of_mem hr
      · rw [Nodes.hide_of_not_mem hr, Nodes.hide_of_mem hh]
    · rw [Nodes.hide_of_not_mem hh]
      exact View.rest_resume hv.apart fun _ => by rw [hm.look_cleared hv, Nodes.hide_of_not_mem hh]
  have c' : Course permits v₀ (u.resume v) came hand [] := by
    rw [View.resume, hrest]
    exact c.discard hf
  have h := hact (v.aside made)
  rw [aside_clear v made hd] at h
  split at h
  · refine (Leads.onChain hm h ⟨hbeside.keeps, hbeside.apart, rfl⟩).mono ?_
    rintro _ _ ⟨chain', rfl, rfl, -⟩
    exact ⟨⟨_, rfl⟩, ⟨rfl, rfl⟩, c'.logged _⟩
  · refine (Leads.onChain hm h hbeside).mono ?_
    rintro _ _ ⟨chain', rfl, rfl, -⟩
    exact ⟨⟨_, rfl⟩, ⟨rfl, rfl⟩, c'⟩

end Clear

section Append

variable {permits : Fate → Prop} {v₀ : View σ α} {came hand : List α} {e : Entry α}
  {allocator : Allocator}

/-- What a refused entry leaves of the second row. -/
def refusedIn (made : List (Slot α)) (e : Entry α) (allocator : Allocator) (v : View σ α) : View σ α :=
  { v.aside made with allocator }.log (.refused e.byteLen)

theorem aside_refused (made : List (Slot α)) (e : Entry α)
    (href : v.allocator.attempt = (true, allocator)) :
    (v.aside made).append .after e = (.ok false, refusedIn made e allocator v) := by
  have href' : (v.aside made).allocator.attempt = (true, allocator) := href
  simp only [View.append, View.place, View.allocate, href', if_true]
  rfl

theorem look_refused (hm : Made v chain made) (hv : v.Sound) :
    (refusedIn made e allocator v).look = v.look := hm.look_aside hv

theorem refused_beside (hm : Made v chain made) (hv : v.Sound) :
    Beside v (refusedIn made e allocator v) := by
  refine ⟨fun h _ => by rw [hm.look_refused hv], ?_, rfl⟩
  intro h hh
  have hslots : (refusedIn made e allocator v).row.slots = made := View.slots_aside made v
  rw [Row.handles, hslots] at hh
  exact hm.not_mem hv hh

theorem append_refused (hm : Made v chain made) (hv : v.Sound)
    (c : Course permits v₀ v came hand made) (href : v.allocator.attempt = (true, allocator)) :
    Ensures (Act.onChain chain (Deque.append .after e)) v fun out w =>
      View.Spares v w ∧ w.allocator = allocator ∧ ∃ chain', out = .ok (false, chain') ∧
        Made w chain' made ∧ Course permits v₀ w came hand made := by
  let u := refusedIn made e allocator v
  have hrow : u.row.slots = made := View.slots_aside made v
  have happend := Leads.append .after e (v.aside made)
  rw [aside_refused made e href] at happend
  have hrest : u.look.hide v.row.slots = v.rest := by rw [hm.look_refused hv, hide_look hv]
  have c' : Course permits v₀ (u.resume v) came hand made := by
    rw [View.resume, hrest]
    exact (c.settle allocator v.destructors).logged (.refused e.byteLen)
  refine (Leads.onChain hm happend (hm.refused_beside hv)).mono ?_
  rintro _ _ ⟨chain', rfl, rfl, hm'⟩
  rw [show (refusedIn made e allocator v).row.slots = made from hrow] at hm'
  exact ⟨⟨rfl, rfl⟩, rfl, chain', rfl, hm', c'⟩

/-- The new node is in the second row only. -/
theorem not_mem_append (hm : Made v chain made) (hv : v.Sound) {h : Handle}
    (hh : h ∈ handlesOf (made ++ [⟨v.fresh, e⟩])) : h ∉ v.row.handles := by
  intro hrow
  rw [handlesOf, List.map_append, List.mem_append] at hh
  rcases hh with hh | hh
  · exact hm.not_mem hv hh hrow
  · have he : h = v.fresh := List.mem_singleton.1 hh
    exact Nat.lt_irrefl _ (he ▸ hv.row_lt h hrow)

/-- What an entry placed at its back leaves of the second row. -/
def placedIn (made : List (Slot α)) (e : Entry α) (allocator : Allocator) (v : View σ α) : View σ α :=
  let r := (v.aside made).row.insert made.length ⟨v.fresh, e⟩
  { v.aside made with row := r, fresh := v.fresh + 1, allocator }.log (.push .after e.byteLen r.length)

theorem aside_placed (made : List (Slot α)) (e : Entry α) (hcap : made.length + 1 < capacity)
    (href : v.allocator.attempt = (false, allocator)) :
    (v.aside made).append .after e = (.ok true, placedIn made e allocator v) := by
  have hlen : (v.aside made).row.length = made.length := by rw [Row.length, View.slots_aside]
  have htip : (v.aside made).tipIdx .after = made.length := hlen
  have href' : (v.aside made).allocator.attempt = (false, allocator) := href
  simp only [View.append, View.place, View.allocate, href', htip, hlen, hcap, if_true,
    Bool.false_eq_true, if_false]
  rfl

theorem slots_placed (made : List (Slot α)) (e : Entry α) (allocator : Allocator) (v : View σ α) :
    (placedIn made e allocator v).row.slots = made ++ [⟨v.fresh, e⟩] := by
  show ((v.aside made).row.insert made.length ⟨v.fresh, e⟩).slots = _
  rw [Row.slots_insert, View.slots_aside, List.insertIdx_length_self]

theorem look_placed {h : Handle} (hh : h ∉ handlesOf (made ++ [⟨v.fresh, e⟩])) :
    (placedIn made e allocator v).look h = v.look h := by
  have hslots := slots_placed made e allocator v
  rw [← hslots] at hh
  refine (Nodes.lay_of_not_mem hh).trans (Nodes.hide_of_not_mem fun hmade => hh ?_)
  rw [hslots, handlesOf, List.map_append]
  exact List.mem_append_left _ hmade

theorem placed_beside (hm : Made v chain made) (hv : v.Sound) : Beside v (placedIn made e allocator v) := by
  have hlen : (v.aside made).row.length = made.length := by rw [Row.length, View.slots_aside]
  refine ⟨?_, ?_, Row.cursor_insert (Nat.le_of_eq hlen.symm)⟩
  · exact fun h hh => look_placed fun hmem => hm.not_mem_append hv hmem hh
  · intro h hh
    rw [Row.handles, slots_placed] at hh
    exact hm.not_mem_append hv hh

theorem append_placed (hm : Made v chain made) (hv : v.Sound) (hcap : made.length + 1 < capacity)
    (c : Course permits v₀ v came (e.value :: hand) made)
    (href : v.allocator.attempt = (false, allocator)) :
    Ensures (Act.onChain chain (Deque.append .after e)) v fun out w =>
      View.Spares v w ∧ w.allocator = allocator ∧ ∃ chain', out = .ok (true, chain') ∧
        Made w chain' (made ++ [⟨v.fresh, e⟩]) ∧
        Course permits v₀ w came hand (made ++ [⟨v.fresh, e⟩]) := by
  let u := placedIn made e allocator v
  have happend := Leads.append .after e (v.aside made)
  rw [aside_placed made e hcap href] at happend
  refine (Leads.onChain hm happend (hm.placed_beside hv)).mono ?_
  rintro _ _ ⟨chain', rfl, rfl, hm'⟩
  rw [slots_placed] at hm'
  have hbeside : ∀ h, h ∉ handlesOf (made ++ [⟨v.fresh, e⟩]) → u.look.hide v.row.slots h = v.rest h :=
    fun h hh => View.rest_resume hv.apart fun _ => look_placed hh
  have c' := Course.make (w := { v with allocator }) hbeside
    (fun _ ht => hm'.spans.linked.holds ht) (c.settle allocator v.destructors)
  exact ⟨⟨rfl, rfl⟩, rfl, chain', rfl, hm', c'.logged _⟩

/-- A new entry at the back of the second row, or none when its node is refused. -/
theorem append (hm : Made v chain made) (hv : v.Sound) (hcap : made.length + 1 < capacity)
    (c : Course permits v₀ v came (e.value :: hand) made) :
    Ensures (Act.onChain chain (Deque.append .after e)) v fun out w =>
      View.Spares v w ∧ w.allocator = v.allocator.attempt.2 ∧
      ∃ chain', out = .ok (!v.allocator.attempt.1, chain') ∧
        if v.allocator.attempt.1 then
          Made w chain' made ∧ Course permits v₀ w came (e.value :: hand) made
        else
          Made w chain' (made ++ [⟨v.fresh, e⟩]) ∧
            Course permits v₀ w came hand (made ++ [⟨v.fresh, e⟩]) := by
  cases href : v.allocator.attempt with
  | mk refused allocator =>
    cases refused with
    | true =>
      refine (hm.append_refused hv c href).mono ?_
      rintro _ _ ⟨hspares, halloc, chain', rfl, h⟩
      exact ⟨hspares, halloc, chain', rfl, h⟩
    | false =>
      refine (hm.append_placed hv hcap c href).mono ?_
      rintro _ _ ⟨hspares, halloc, chain', rfl, h⟩
      exact ⟨hspares, halloc, chain', rfl, h⟩

end Append

end Made

/-! ## Transformations -/

/-- The payloads that a transform makes of entries, until it panics. -/
def Callback.results (f : Callback τ (Entry α) (Entry α)) (entries : List (Entry α)) : List α :=
  (f.answers entries).map Entry.value

/-- Where a transformation may send its results when it ends in this way. -/
def Deque.Progress.permits : Deque.Progress → Fate → Prop
  | placed, _ => False
  | refused, fate => fate = .dropped ∨ fate = .destroyed .override true
  | panicked _, fate => fate = .forgotten

abbrev entriesOf (run : List (Slot α)) : List (Entry α) := run.map Slot.entry

theorem entriesOf_cons (s : Slot α) (run : List (Slot α)) :
    entriesOf (s :: run) = s.entry :: entriesOf run := rfl

/-- What a transformation has done on the entries in front: all of them were transformed, and a node was
made for each result. -/
structure Passed (transform : Callback τ (Entry α) (Entry α)) (allocator : Allocator)
    (front : List (Slot α)) : Prop where
  answers : transform.Answers (entriesOf front)
  grants : allocator.Grants front.length

/-- How far a transformation came that stands before the entries to come: the results of the entries in
front are strays. -/
structure Mapping (transform : Callback τ (Entry α) (Entry α)) (v : View σ α)
    (m : Deque.Mapping τ α) (rest : List (Slot α)) (w : View σ α) : Prop where
  placed : m.progress = .placed
  spares : View.Spares v w
  made : ∃ front made, v.row.slots = front ++ rest ∧ Passed transform v.allocator front ∧
    m.transform = transform.after (entriesOf front) ∧
    entriesOf made = transform.answers (entriesOf front) ∧
    w.allocator = v.allocator.skip front.length ∧ Made w m.made made ∧
    Course m.progress.permits v w (transform.results (entriesOf front)) [] made

namespace Ensures

open Deque

variable {v w : View σ α} {transform : Callback τ (Entry α) (Entry α)} {m : Deque.Mapping τ α}
  {s : Slot α} {rest : List (Slot α)}

/-- Where a transformation stopped. -/
def Stopped (transform : Callback τ (Entry α) (Entry α)) (v : View σ α) (came : List α) :
    Deque.Progress → Prop
  | .placed => Passed transform v.allocator v.row.slots ∧ came = transform.results v.row.entries
  | .refused => ∃ front s back, v.row.slots = front ++ s :: back ∧
    Passed transform v.allocator front ∧ transform.Answers (entriesOf (front ++ [s])) ∧
    v.allocator.refuses (v.allocator.attempts + front.length) = true ∧
    came = transform.results (entriesOf (front ++ [s]))
  | .panicked report => ∃ front s back, v.row.slots = front ++ s :: back ∧
    Passed transform v.allocator front ∧
    ((transform.after (entriesOf front)).call s.entry).1 = .panics report ∧
    came = transform.results v.row.entries

theorem Stopped.came_prefix {came : List α} {progress : Deque.Progress}
    (h : Stopped transform v came progress) : came <+: transform.results v.row.entries := by
  cases progress with
  | placed => exact h.2 ▸ List.prefix_rfl
  | panicked report =>
    obtain ⟨front, s, back, -, -, -, rfl⟩ := h
    exact List.prefix_rfl
  | refused =>
    obtain ⟨front, s, back, hr, -, hall, -, rfl⟩ := h
    have hentries : v.row.entries = entriesOf (front ++ [s]) ++ entriesOf back := by
      rw [Row.entries, hr]
      simp
    rw [Callback.results, Callback.results, hentries, Callback.answers_append hall, List.map_append]
    exact List.prefix_append ..

/-- What a transformation comes to before it is known what becomes of its results. -/
abbrev Transformed (transform : Callback τ (Entry α) (Entry α)) (v : View σ α) :
    Except Panic (Nat × Deque.Mapping τ α) → View σ α → Prop
  | .ok (_, m), w => View.Spares v w ∧ ∃ made came, Made w m.made made ∧
    Course m.progress.permits v w came [] made ∧ Stopped transform v came m.progress ∧
    (m.progress = .placed → entriesOf made = transform.answers v.row.entries ∧
      m.transform = transform.after v.row.entries ∧ w.allocator = v.allocator.skip v.row.length)
  | .error _, _ => False

theorem mapEntry (n : Nat) (hcap : v.row.length < capacity) (hs : ∃ a, w.row.slots = a ++ s :: rest)
    (h : Mapping transform v m (s :: rest) w) :
    Ensures (mapEntry m s.entry) w
      (Stepped (fun _ => Mapping transform v) (Transformed transform v) n rest) := by
  obtain ⟨a, ha⟩ := hs
  obtain ⟨_, chain, progress⟩ := m
  obtain ⟨rfl, hspares, front, made, hr, hpassed, rfl, hmade, halloc, hm, c⟩ := h
  have hfront : made.length = front.length := by
    have hlen : (transform.answers (entriesOf front)).length = (entriesOf front).length :=
      hpassed.answers
    rw [← hmade] at hlen
    simpa using hlen
  have hentries : v.row.entries = entriesOf front ++ s.entry :: entriesOf rest := by
    rw [Row.entries, hr]
    simp
  refine after (Leads.emit _ _) ?_
  cases hcall : (transform.after (entriesOf front)).call s.entry with
  | mk reply transform' =>
    cases reply with
    | panics report =>
      have hpanics : ((transform.after (entriesOf front)).call s.entry).1 = .panics report := by
        rw [hcall]
      have hall : transform.results v.row.entries = transform.results (entriesOf front) := by
        rw [Callback.results, hentries, Callback.answers_stop hpassed.answers hpanics]
        rfl
      refine (Leads.pure _ _).ensures ⟨⟨hspares.row, hspares.destructors⟩, made, _,
        ⟨hm.spans, hm.cursor⟩, (c.called _).mono fun _ h => h.elim, ?_, fun h => by cases h⟩
      exact ⟨front, s, rest, hr, hpassed, hpanics, hall.symm⟩
    | returns result =>
      refine after (Leads.emit _ _) (of_shows fun l hl => ?_)
      let u := (w.emit (.called s.entry)).emit (.entered result.value)
      have hroom : made.length + 1 < capacity := by
        rw [Row.length, hr] at hcap
        simp at hcap
        omega
      have hu : Made u chain made := ⟨hm.spans, hm.cursor⟩
      have hattempt : u.allocator.attempt = (v.allocator.refuses
          (v.allocator.attempts + front.length), v.allocator.skip (front.length + 1)) := by
        rw [show u.allocator = w.allocator from rfl, halloc, Allocator.attempt_skip]
      have hanswers : transform.answers (entriesOf (front ++ [s])) =
          transform.answers (entriesOf front) ++ [result] := by
        simpa using Callback.answers_concat hpassed.answers hcall
      have hall : transform.Answers (entriesOf (front ++ [s])) := by
        simpa using hpassed.answers.concat hcall
      have hresults : transform.results (entriesOf front) ++ [result.value] =
          transform.results (entriesOf (front ++ [s])) := by
        rw [Callback.results, Callback.results, hanswers, List.map_append, List.map_singleton]
      have happend := hu.append hl.sound hroom ((c.called s.entry).receive result.value)
      rw [hattempt, hresults] at happend
      refine happend.bind ?_ ?_
      · rintro ⟨placed, chain'⟩ w' ⟨hspares', halloc', _, he, h⟩
        cases he
        have hsame : View.Spares v w' := ⟨hspares'.row.trans hspares.row,
          hspares'.destructors.trans hspares.destructors⟩
        cases href : v.allocator.refuses (v.allocator.attempts + front.length) with
        | false =>
          rw [href, if_neg Bool.false_ne_true] at h
          have hlen : (front ++ [s]).length = front.length + 1 := by simp
          refine (Leads.pure _ _).ensures ⟨⟨rfl, hsame, front ++ [s], _, ?_, ⟨hall, ?_⟩, ?_, ?_, ?_,
            h.1, h.2⟩, a ++ [s], ?_⟩
          · simpa using hr
          · rw [hlen]
            exact hpassed.grants.succ href
          · simpa using (Callback.after_concat hcall).symm
          · rw [hanswers, ← hmade]
            simp
          · rw [hlen]
            exact halloc'
          · rw [hspares'.row, List.append_assoc]
            exact ha
        | true =>
          rw [href, if_pos rfl] at h
          refine after (Leads.emit _ _) ((Leads.pure _ _).ensures ?_)
          refine ⟨⟨hsame.row, hsame.destructors⟩, made, _, ⟨h.1.spans, h.1.cursor⟩,
            Course.give (.inl rfl) (h.2.mono fun _ hf => hf.elim), ?_, fun h => by cases h⟩
          exact ⟨front, s, rest, hr, hpassed, hall, href, rfl⟩
      · rintro p w' ⟨-, -, _, he, -⟩
        cases he

/-- How a transformation ends, and what became of its results. -/
def Mapped (transform : Callback τ (Entry α) (Entry α)) (v : View σ α) :
    Except Panic (Option Chain × Callback τ (Entry α) (Entry α)) → View σ α → Prop
  | .ok (some chain, transform'), w => View.Spares v w ∧
    Passed transform v.allocator v.row.slots ∧ transform' = transform.after v.row.entries ∧
    w.allocator = v.allocator.skip v.row.length ∧
    ∃ made, entriesOf made = transform.answers v.row.entries ∧ Made w chain made ∧
      Course (fun _ => False) v w (transform.results v.row.entries) [] made
  | .ok (none, _), w => View.Spares v w ∧ ∃ came, Stopped transform v came .refused ∧
    Course (fun fate => fate = .dropped ∨ fate = .destroyed .override true) v w came [] []
  | .error p, w => View.Spares v w ∧ ∃ report came, p = .callback report ∧
    Stopped transform v came (.panicked report) ∧
    Course (fun fate => fate = .forgotten) v w came [] []

theorem map (transform : Callback τ (Entry α) (Entry α)) (v : View σ α) :
    Ensures (Deque.map transform) v (Mapped transform v) := by
  refine of_shows ?_
  intro l hl
  have hstart : Mapping transform v ⟨transform, .empty, .placed⟩ v.row.slots v :=
    ⟨rfl, ⟨rfl, rfl⟩, [], [], rfl, ⟨.nil _, Allocator.grants_zero _⟩, rfl, rfl, rfl, .empty v, .start⟩
  have hdone : ∀ n (m : Deque.Mapping τ α) w, Mapping transform v m [] w →
      Transformed transform v (.ok (n, m)) w := by
    rintro n ⟨_, chain, _⟩ w ⟨rfl, hspares, front, made, hr, hpassed, rfl, hmade, halloc, hm, c⟩
    rw [List.append_nil] at hr
    subst hr
    exact ⟨hspares, made, _, hm, c, ⟨hpassed, rfl⟩, fun _ => ⟨hmade, rfl, halloc⟩⟩
  have hwalk : Ensures (Deque.walk (fun m _ e => Deque.mapEntry m e) ⟨transform, .empty, .placed⟩) v
      (Transformed transform v) :=
    walk (fun _ => Mapping transform v) (fun n m s rest w _ h hs => mapEntry n hl.length_lt hs h)
      hdone hstart
  refine hwalk.bind ?_ fun _ _ h => h.elim
  rintro ⟨visited, transform', chain, progress⟩ w ⟨hspares, made, came, hm, c, hstopped, hplaced⟩
  refine of_shows ?_
  intro l' hl'
  cases progress with
  | placed =>
    obtain ⟨hentries, rfl, halloc⟩ := hplaced rfl
    obtain ⟨hpassed, rfl⟩ := hstopped
    refine after (Leads.length _) (after (Leads.log _ _) (after (Leads.log _ _) ?_))
    exact (Leads.pure _ _).ensures ⟨⟨hspares.row, hspares.destructors⟩, hpassed, rfl, halloc, made,
      hentries, ⟨hm.spans, hm.cursor⟩, (c.logged _).logged _⟩
  | panicked report =>
    have c' : Course (fun fate => fate = .forgotten) v w came [] made := c
    have h := hm.clear hl'.sound c' (fun u => Leads.clear none u) (fun _ => rfl) rfl
    exact after_discard h fun u hu => (Leads.throw _ u).ensures
      ⟨hspares.trans hu.1, report, came, rfl, hstopped, hu.2⟩
  | refused =>
    have c' : Course (fun fate => fate = .dropped ∨ fate = .destroyed .override true) v w came []
      made := c
    refine after (Leads.length _) (after (Leads.log _ _) ?_)
    let u := w.log (.visit visited w.row.length)
    have hm' : Made u chain made := ⟨hm.spans, hm.cursor⟩
    have hu : u.Sound := Linkage.Shows.sound (v := u) hl'
    have hspares' : View.Spares v u := ⟨hspares.row, hspares.destructors⟩
    have h := hm'.clear hu (c'.logged _) (fun u => Leads.destroyWith .drop u) (fun _ => rfl) (.inr rfl)
    exact after_discard h fun u hu => (Leads.pure _ u).ensures
      ⟨hspares'.trans hu.1, came, hstopped, hu.2⟩

end Ensures

end LinkedDeque
