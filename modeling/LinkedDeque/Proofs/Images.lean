import LinkedDeque.Proofs.Readings
import LinkedDeque.Proofs.Sifting
import LinkedDeque.Proofs.Transformed

/-!
# LinkedDeque.Proofs.Images

A transformation on which the transform does not panic, from end to end:

* `View.placements` — what happens while entries are transformed and their results placed.
* `View.Grown`      — what such a walk has done to a view: it made nodes, and kept all others.
* `View.map_places`, `View.map_refused`    — what the whole transformation comes to, in the terms of a row.
* `Deque.map_images`, `Deque.map_gives_up` — the same on every well-formed list.
* `World.use_images` — a transformation of a list of a world makes a list of the results, or it leaves
  nothing behind.
-/

namespace LinkedDeque

variable {σ τ α : Type}

/-- Entries in new nodes, made one after the other. -/
def slotsFrom (fresh : Handle) (entries : List (Entry α)) : List (Slot α) :=
  (entries.zipIdx fresh).map fun p => ⟨p.2, p.1⟩

section Slots

variable (fresh : Handle) (entries : List (Entry α))

theorem slotsFrom_cons (e : Entry α) :
    slotsFrom fresh (e :: entries) = ⟨fresh, e⟩ :: slotsFrom (fresh + 1) entries := rfl

theorem handlesOf_slotsFrom : handlesOf (slotsFrom fresh entries) = List.range' fresh entries.length := by
  rw [handlesOf, slotsFrom, List.map_map]
  exact List.zipIdx_map_snd fresh entries

theorem entriesOf_slotsFrom : entriesOf (slotsFrom fresh entries) = entries := by
  rw [entriesOf, slotsFrom, List.map_map]
  exact List.zipIdx_map_fst fresh entries

end Slots

namespace View

/-- What happens while entries are transformed and their results placed, behind those placed before. -/
def placements (transform : Callback τ (Entry α) (Entry α)) (placed : Nat) (entries : List (Entry α)) :
    List (Event α) :=
  ((entries.zip (transform.answers entries)).zipIdx placed).flatMap fun ((e, result), i) =>
    [.called e, .entered result.value, .logged (.push .after result.byteLen (i + 1))]

/-- A second row was made to grow: so many nodes were asked for and so many given out, and all nodes
but those of the second row are as they were. -/
structure Grown (v w : View σ α) (asked given : Nat) (made : List (Slot α)) (events : List (Event α)) :
    Prop extends Spares v w where
  allocator : w.allocator = v.allocator.skip asked
  fresh : w.fresh = v.fresh + given
  trace : w.trace = v.trace ++ events.toArray
  rest : ∀ h, h ∉ handlesOf made → w.rest h = v.rest h

namespace Grown

variable {v w u : View σ α} {asked asked' given given' : Nat} {made made' : List (Slot α)}
  {events events' : List (Event α)}

theorem refl (v : View σ α) (made : List (Slot α)) : Grown v v 0 0 made [] :=
  ⟨⟨rfl, rfl⟩, rfl, rfl, by simp, fun _ _ => rfl⟩

theorem trans (hw : Grown v w asked given made events) (hu : Grown w u asked' given' made' events')
    (hmade : ∀ h ∈ handlesOf made, h ∈ handlesOf made') :
    Grown v u (asked + asked') (given + given') made' (events ++ events') := by
  refine ⟨hw.toSpares.trans hu.toSpares, ?_, ?_, ?_, fun h hh => ?_⟩
  · rw [hu.allocator, hw.allocator, Allocator.skip, Allocator.skip, Allocator.skip, Nat.add_assoc]
  · rw [hu.fresh, hw.fresh, Nat.add_assoc]
  · rw [hu.trace, hw.trace]
    simp
  · exact (hu.rest h hh).trans (hw.rest h fun hm => hh (hmade h hm))

theorem emit (hw : Grown v w asked given made events) (e : Event α) :
    Grown v (w.emit e) asked given made (events ++ [e]) :=
  ⟨⟨hw.row, hw.destructors⟩, hw.allocator, hw.fresh, by simp [View.emit, hw.trace], hw.rest⟩

end Grown

/-! ## The second row -/

variable {v w : View σ α} {transform transform' : Callback τ (Entry α) (Entry α)} {made : List (Slot α)}
  {s : Slot α} {r : Entry α} {front back : List (Slot α)}

theorem append_places (made : List (Slot α)) (e : Entry α) (hv : v.Apart)
    (hcap : made.length + 1 < capacity) (hgrants : v.allocator.refuses v.allocator.attempts = false) :
    ∃ w, v.beside made (·.append .after e) = (.ok (true, made ++ [⟨v.fresh, e⟩]), w) ∧ w.Apart ∧
      Grown v w 1 1 (made ++ [⟨v.fresh, e⟩]) [.logged (.push .after e.byteLen (made.length + 1))] := by
  have hattempt : v.allocator.attempt = (false, v.allocator.skip 1) := by
    rw [Allocator.attempt, hgrants]
    rfl
  have hslots := Made.slots_placed made e (v.allocator.skip 1) v
  refine ⟨(Made.placedIn made e (v.allocator.skip 1) v).resume v, ?_, apart_resume _ _, ⟨rfl, rfl⟩, rfl,
    rfl, ?_, fun h hh => rest_resume hv fun _ => Made.look_placed hh⟩
  · rw [beside, Made.aside_placed made e hcap hattempt]
    simp only [hslots]
  · have hlen : (Made.placedIn made e (v.allocator.skip 1) v).row.length = made.length + 1 := by
      rw [Row.length, hslots, List.length_append, List.length_singleton]
    rw [← hlen]
    simp [resume, Made.placedIn, log, emit, aside]

theorem append_gives_up (made : List (Slot α)) (e : Entry α) (hv : v.Apart)
    (hrefuses : v.allocator.refuses v.allocator.attempts = true) :
    ∃ w, v.beside made (·.append .after e) = (.ok (false, made), w) ∧ w.Apart ∧
      Grown v w 1 0 made [.logged (.refused e.byteLen)] := by
  have hattempt : v.allocator.attempt = (true, v.allocator.skip 1) := by
    rw [Allocator.attempt, hrefuses]
    rfl
  have hslots : (Made.refusedIn made e (v.allocator.skip 1) v).row.slots = made := slots_aside made v
  refine ⟨(Made.refusedIn made e (v.allocator.skip 1) v).resume v, ?_, apart_resume _ _, ⟨rfl, rfl⟩, rfl,
    rfl, ?_, fun h hh => rest_resume hv fun _ => look_aside hh⟩
  · rw [beside, Made.aside_refused made e hattempt]
    simp only [hslots]
  · simp [resume, Made.refusedIn, log, emit, aside]

/-- The second row dropped: its nodes are gone, and its payloads went to the destructor in order. -/
theorem clear_beside (hv : v.Apart) (made : List (Slot α)) :
    let w := (v.beside made (·.clear (some .drop))).2
    (∀ h ∈ handlesOf made, h ∉ v.row.handles → w.rest h = none) ∧
      Grown v w 0 0 made ((made.map fun s => .left (.destroyed .override true) s.payload) ++
        if 0 < made.length then [.logged (.destroy made.length)] else []) := by
  intro w
  let fate := Fate.destroyed .override true
  have hclear : (v.aside made).clear (some .drop) = (.ok (), if 0 < (v.aside made).row.length then
      (Made.cleared fate made v).log (.destroy (v.aside made).row.length) else Made.cleared fate made v) :=
    Made.aside_clear v made fun _ => rfl
  have hlen : (v.aside made).row.length = made.length := by rw [Row.length, slots_aside]
  have hlook : (Made.cleared fate made v).look = (v.aside made).abandon.rest.hide made := rfl
  have hw : w = (if 0 < made.length then (Made.cleared fate made v).log (.destroy made.length)
      else Made.cleared fate made v).resume v := by
    simp only [w, beside]
    rw [hclear, hlen]
  have hrest : ∀ h, w.rest h = ((Made.cleared fate made v).resume v).rest h := by
    intro h
    rw [hw]
    split <;> rfl
  refine ⟨fun h hh hrow => ?_, ?_⟩
  · rw [hrest]
    show (Made.cleared fate made v).look.hide v.row.slots h = none
    rw [Nodes.hide_of_not_mem hrow, hlook, Nodes.hide_of_mem hh]
  · refine ⟨?_, ?_, ?_, ?_, fun h hh => ?_⟩
    · rw [hw]
      split <;> exact ⟨rfl, rfl⟩
    · rw [hw]
      split <;> rfl
    · rw [hw]
      split <;> rfl
    · rw [hw]
      split <;> simp [resume, Made.cleared, log, emit, gone_eq, fate]
    · rw [hrest]
      refine rest_resume hv fun _ => ?_
      rw [hlook, Nodes.hide_of_not_mem hh]
      exact look_aside hh

/-! ## The transformation -/

theorem mapEntry_places (made : List (Slot α)) (hv : v.Apart)
    (hcall : transform.call s.entry = (.returns r, transform'))
    (hcap : made.length + 1 < capacity) (hgrants : v.allocator.refuses v.allocator.attempts = false) :
    ∃ w, v.mapEntry ⟨transform, made, .placed⟩ s =
        (.ok (.go, ⟨transform', made ++ [⟨v.fresh, r⟩], .placed⟩), w) ∧ w.Apart ∧
      Grown v w 1 1 (made ++ [⟨v.fresh, r⟩])
        [.called s.entry, .entered r.value, .logged (.push .after r.byteLen (made.length + 1))] := by
  obtain ⟨w, hread, hw, hgrown⟩ := append_places made r
    (v := (v.emit (.called s.entry)).emit (.entered r.value)) hv hcap hgrants
  have hread' : View.beside made (·.append .after r) ((v.emit (.called s.entry)).emit (.entered r.value)) =
    (.ok (true, made ++ [⟨v.fresh, r⟩]), w) := hread
  refine ⟨w, ?_, hw, (((Grown.refl v made).emit _).emit _).trans hgrown fun h hh => ?_⟩
  · simp only [mapEntry, hcall, hread']
  · rw [handlesOf, List.map_append]
    exact List.mem_append_left _ hh

theorem mapEntry_gives_up (made : List (Slot α)) (hv : v.Apart)
    (hcall : transform.call s.entry = (.returns r, transform'))
    (hrefuses : v.allocator.refuses v.allocator.attempts = true) :
    ∃ w, v.mapEntry ⟨transform, made, .placed⟩ s = (.ok (.stop, ⟨transform', made, .refused⟩), w) ∧
      w.Apart ∧ Grown v w 1 0 made [.called s.entry, .entered r.value, .logged (.refused r.byteLen),
        .left .dropped r.value] := by
  obtain ⟨w, hread, hw, hgrown⟩ := append_gives_up made r
    (v := (v.emit (.called s.entry)).emit (.entered r.value)) hv hrefuses
  have hread' : View.beside made (·.append .after r) ((v.emit (.called s.entry)).emit (.entered r.value)) =
    (.ok (false, made), w) := hread
  refine ⟨w.emit (.left .dropped r.value), ?_, hw, ?_⟩
  · simp only [mapEntry, hcall, hread']
  · exact ((((Grown.refl v made).emit _).emit _).trans hgrown fun _ hh => hh).emit _

/-- A transformation goes on behind entries whose results were placed. -/
theorem walk_places (made front back : List (Slot α)) (n : Nat) (hv : v.Apart)
    (hall : transform.Answers (entriesOf front)) (hgrants : v.allocator.Grants front.length)
    (hcap : made.length + front.length < capacity) :
    ∃ w, v.walk mapEntry (front ++ back) n ⟨transform, made, .placed⟩ =
        w.walk mapEntry back (n + front.length) ⟨transform.after (entriesOf front),
          made ++ slotsFrom v.fresh (transform.answers (entriesOf front)), .placed⟩ ∧ w.Apart ∧
      Grown v w front.length front.length
        (made ++ slotsFrom v.fresh (transform.answers (entriesOf front)))
        (placements transform made.length (entriesOf front)) := by
  -- each step leaves the transform in another state, and one node more behind those placed before
  induction front generalizing transform made v n with
  | nil =>
    refine ⟨v, ?_, hv, ?_⟩
    · simp [slotsFrom]
    · simpa [slotsFrom, placements] using Grown.refl v made
  | cons s front ih =>
    obtain ⟨r, transform', hcall, hall'⟩ := hall.cons
    obtain ⟨hfirst, hrest⟩ := hgrants.behind
    rw [List.length_cons] at hcap
    obtain ⟨u, hread, hu, hstep⟩ := mapEntry_places made hv hcall (by omega) hfirst
    rw [← hstep.allocator] at hrest
    obtain ⟨w, hwalk, hw, hgrown⟩ := ih (made ++ [⟨v.fresh, r⟩]) (n + 1) hu hall' hrest
      (by simp; omega)
    have hslots : made ++ [⟨v.fresh, r⟩] ++ slotsFrom u.fresh (transform'.answers (entriesOf front)) =
        made ++ slotsFrom v.fresh (transform.answers (entriesOf (s :: front))) := by
      rw [entriesOf_cons, Callback.answers_cons hcall, slotsFrom_cons, hstep.fresh, List.append_assoc]
      rfl
    rw [hslots] at hwalk hgrown
    refine ⟨w, ?_, hw, ?_⟩
    · rw [List.cons_append, walk_go hread, hwalk, entriesOf_cons, Callback.after_cons hcall,
        List.length_cons, Nat.add_right_comm, Nat.add_assoc]
    · have hevents : placements transform made.length (entriesOf (s :: front)) =
          [.called s.entry, .entered r.value, .logged (.push .after r.byteLen (made.length + 1))] ++
            placements transform' (made.length + 1) (entriesOf front) := by
        rw [entriesOf_cons, placements, Callback.answers_cons hcall]
        rfl
      rw [List.length_append, List.length_singleton] at hgrown
      rw [hevents, List.length_cons, Nat.add_comm front.length 1]
      refine hstep.trans hgrown fun h hh => ?_
      rw [← hslots, handlesOf, List.map_append]
      exact List.mem_append_left _ hh

/-- What happens in a transformation all of whose nodes are granted. -/
def imageEvents (transform : Callback τ (Entry α) (Entry α)) (entries : List (Entry α)) :
    List (Event α) :=
  placements transform 0 entries ++
    [.logged (.visit entries.length entries.length), .logged (.map entries.length)]

/-- What happens in a transformation whose node for the result `r` of an entry `e` is refused, behind
the results of the entries in front: the refused result is dropped first, and then those are, in order. -/
def refusalEvents (transform : Callback τ (Entry α) (Entry α)) (front : List (Entry α)) (e r : Entry α)
    (len : Nat) : List (Event α) :=
  placements transform 0 front ++
    [.called e, .entered r.value, .logged (.refused r.byteLen), .left .dropped r.value,
      .logged (.visit (front.length + 1) len)] ++
    ((transform.answers front).map fun r => .left (.destroyed .override true) r.value) ++
    if 0 < front.length then [.logged (.destroy front.length)] else []

theorem length_slotsFrom {run : List (Slot α)} (hall : transform.Answers (entriesOf run)) (fresh : Handle) :
    (slotsFrom fresh (transform.answers (entriesOf run))).length = run.length := by
  have hanswers : (transform.answers (entriesOf run)).length = (entriesOf run).length := hall
  simp only [slotsFrom, List.length_map, List.length_zipIdx, hanswers]

/-- A transformation all of whose nodes are granted makes a second row of the results. -/
theorem map_places (hv : v.Apart) (hall : transform.Answers v.row.entries)
    (hgrants : v.allocator.Grants v.row.entries.length) (hcap : v.row.length < capacity) :
    let made := slotsFrom v.fresh (transform.answers v.row.entries)
    ∃ w, v.map transform = (.ok (some made, transform.after v.row.entries), w) ∧
      Grown v w v.row.entries.length v.row.entries.length made (imageEvents transform v.row.entries) := by
  intro made
  rw [Row.length_entries] at hgrants ⊢
  obtain ⟨w, hwalk, -, hgrown⟩ := walk_places [] v.row.slots [] 0 hv hall hgrants
    (by rwa [List.length_nil, Nat.zero_add])
  rw [List.append_nil, List.nil_append, Nat.zero_add] at hwalk
  have hlen : made.length = v.row.length := length_slotsFrom hall v.fresh
  have hrow : w.row.length = v.row.length := by rw [hgrown.row]
  refine ⟨(w.log (.visit v.row.length v.row.length)).log (.map v.row.length), ?_, ?_⟩
  · simp only [map, hwalk, walk, mapEnd]
    rw [hrow, show (slotsFrom v.fresh (transform.answers (entriesOf v.row.slots))).length = _ from hlen]
    rfl
  · have h := (hgrown.emit (.logged (.visit v.row.length v.row.length))).emit (.logged (.map v.row.length))
    rw [List.append_assoc] at h
    rw [imageEvents, Row.length_entries]
    exact h

/-- A transformation ends with the first node that is refused, and what it made is gone. -/
theorem map_refused (hv : v.Sound) (hr : v.row.slots = front ++ s :: back)
    (hall : transform.Answers (entriesOf front))
    (hcall : (transform.after (entriesOf front)).call s.entry = (.returns r, transform'))
    (hgrants : v.allocator.Grants front.length)
    (hrefuses : v.allocator.refuses (v.allocator.attempts + front.length) = true)
    (hcap : front.length < capacity) :
    ∃ w, v.map transform = (.ok (none, transform'), w) ∧ Grown v w (front.length + 1) front.length []
      (refusalEvents transform (entriesOf front) s.entry r v.row.length) := by
  let made := slotsFrom v.fresh (transform.answers (entriesOf front))
  have hlen : made.length = front.length := length_slotsFrom hall v.fresh
  obtain ⟨u, hwalk, hu, hplaced⟩ := walk_places [] front (s :: back) 0 hv.apart hall hgrants
    (by rwa [List.length_nil, Nat.zero_add])
  rw [List.nil_append] at hwalk hplaced
  have hrefuses' : u.allocator.refuses u.allocator.attempts = true := by
    rw [hplaced.allocator]
    exact hrefuses
  obtain ⟨x, hread, hx, hstopped⟩ := mapEntry_gives_up made hu hcall hrefuses'
  let y := x.log (.visit (front.length + 1) x.row.length)
  obtain ⟨hgone, hcleared⟩ := clear_beside (v := y) hx made
  have hrow : x.row = v.row := hstopped.row.trans hplaced.row
  have hgrown := ((hplaced.trans hstopped fun _ hh => hh).emit
    (.logged (.visit (front.length + 1) x.row.length))).trans hcleared fun _ hh => hh
  refine ⟨(y.beside made (·.clear (some .drop))).2, ?_, hgrown.toSpares, hgrown.allocator,
    hgrown.fresh, ?_, fun h _ => ?_⟩
  · rw [map, hr, hwalk, walk, hread]
    simp only [mapEnd, Nat.zero_add]
    rfl
  · have hpayloads : (made.map fun s => Event.left (.destroyed .override true) s.payload) =
        (transform.answers (entriesOf front)).map fun r => .left (.destroyed .override true) r.value := by
      have hentries : entriesOf made = transform.answers (entriesOf front) := entriesOf_slotsFrom _ _
      rw [← hentries, List.map_map]
      rfl
    rw [hgrown.trace, hpayloads, hlen, hrow, refusalEvents, List.length_map]
    simp
  · -- the nodes that were made are gone, and there were none under their handles before
    by_cases hh : h ∈ handlesOf made
    · have hfresh : v.fresh ≤ h := by
        rw [handlesOf_slotsFrom, List.mem_range'_1] at hh
        exact hh.1
      have hnot : h ∉ y.row.handles := by
        rw [show y.row = v.row from hrow]
        exact fun hmem => absurd (hv.row_lt h hmem) (Nat.not_lt.2 hfresh)
      rw [hv.unused h hfresh]
      exact hgone h hh hnot
    · exact hgrown.rest h hh

end View

/-! ## On a well-formed list -/

/-- So many nodes were made beside a list. All nodes that there were are as they were, and so is the
list. -/
structure Linkage.Spared (l : Linkage α) (nodes : List Handle) (heap' : Heap α) (given : Nat) : Prop where
  kept : ∀ h < l.heap.size, heap'.get? h = l.heap.get? h
  size : heap'.size = l.heap.size + given
  wellFormed : Linkage.WellFormed ⟨heap', l.chain⟩ nodes
  contents : Linkage.contents ⟨heap', l.chain⟩ = l.contents

/-- A list has these entries in nodes that were made one after the other, and its cursor is nowhere. -/
structure Linkage.Lists (l : Linkage α) (fresh : Handle) (entries : List (Entry α)) : Prop where
  wellFormed : l.WellFormed (List.range' fresh entries.length)
  contents : l.contents = entries
  cursor : l.chain.cursor = none

namespace View.Grown

variable {v w : View σ α} {l l' : Linkage α} {asked given : Nat} {made : List (Slot α)}
  {events : List (Event α)}

theorem get?_eq (hgrown : Grown v w asked given made events) (hl : l.Shows v.toScene)
    (hl' : l'.Shows w.toScene) {h : Handle} (hh : h ∉ handlesOf made) : l'.heap.get? h = l.heap.get? h := by
  by_cases hrow : h ∈ v.row.handles
  · have hlinked := hl'.spans.linked
    rw [hgrown.row] at hlinked
    exact hl.spans.linked.agree hlinked hrow
  · have hrow' : h ∉ w.row.handles := by rwa [hgrown.row]
    rw [hl.outside h hrow, hl'.outside h hrow', hgrown.rest h hh]

/-- The list beside which a second row was made to grow, in new nodes only. -/
theorem spared (hgrown : Grown v w asked given made events) (hl : l.Shows v.toScene)
    (hl' : l'.Shows w.toScene) (hmade : ∀ h ∈ handlesOf made, v.fresh ≤ h) :
    l'.chain = l.chain ∧ l.Spared l.handles l'.heap given := by
  have hchain : l'.chain = l.chain := hl.chain_eq hl' hgrown.row
  have hhandles : l'.handles = l.handles := by rw [hl'.handles_eq, hl.handles_eq, hgrown.row]
  refine ⟨hchain, fun h hh => ?_, ?_, ?_, ?_⟩
  · rw [hl.size] at hh
    exact hgrown.get?_eq hl hl' fun hm => Nat.not_lt.2 (hmade h hm) hh
  · rw [hl'.size, hl.size, hgrown.fresh]
  · rw [← hchain, ← hhandles]
    exact hl'.wellFormed
  · rw [← hchain, hl.contents_eq, ← hgrown.row]
    exact hl'.contents_eq

theorem machine_eq (hgrown : Grown v w asked given made events) (l : Linkage α) :
    w.machine l = ⟨l, v.destructors, v.allocator.skip asked, v.trace ++ events.toArray⟩ := by
  rw [machine, hgrown.destructors, hgrown.allocator, hgrown.trace]

end View.Grown

theorem Made.lists {v : View σ α} {l : Linkage α} {chain : Chain} {made : List (Slot α)}
    (hm : Made v chain made) (hl : l.Shows v.toScene) :
    Linkage.WellFormed ⟨l.heap, chain⟩ (handlesOf made) ∧
      Linkage.contents ⟨l.heap, chain⟩ = entriesOf made ∧ chain.cursor = none := by
  have hshows := hm.shows_aside hl
  have hslots : (v.aside made).row.slots = made := View.slots_aside made v
  have hwf := hshows.wellFormed
  have hcontents := hshows.contents_eq
  rw [hshows.handles_eq, Row.handles, hslots] at hwf
  rw [Row.entries, hslots] at hcontents
  exact ⟨hwf, hcontents, hm.cursor⟩

namespace Deque

variable {m : Machine σ α} {nodes : List Handle} {transform transform' : Callback τ (Entry α) (Entry α)}

/-- A transformation that is read to end ends so. -/
theorem run_map_ok {l : Linkage α} {v w : View σ α} {made : Option (List (Slot α))}
    (hl : l.Shows v.toScene) (hread : v.map transform = (.ok (made, transform'), w)) :
    ∃ l' chain, (Deque.map transform).run (v.machine l) = .ok (chain, transform') (w.machine l') ∧
      l'.Shows w.toScene ∧ Makes w chain made := by
  obtain ⟨out, u, l', hrun, hl', hmaps⟩ := Ensures.maps transform v l hl
  rcases hmaps with ⟨chain, made', f, rfl, hread', hmakes⟩ | ⟨p, rfl, hread'⟩
  · obtain ⟨hout, rfl⟩ := Prod.mk.inj (hread.symm.trans hread')
    cases hout
    exact ⟨l', chain, hrun, hl', hmakes⟩
  · rw [hread] at hread'
    cases hread'

/-- All of whose nodes are granted, a transformation answers a list of the results. -/
theorem map_images (hm : m.linkage.WellFormed nodes) (hall : transform.Answers m.linkage.contents)
    (hgrants : m.allocator.Grants m.linkage.contents.length) :
    ∃ heap' chain, (Deque.map transform).run m =
        .ok (some chain, transform.after m.linkage.contents) ⟨⟨heap', m.linkage.chain⟩, m.destructors,
          m.allocator.skip m.linkage.contents.length,
          m.trace ++ (View.imageEvents transform m.linkage.contents).toArray⟩ ∧
      m.linkage.Spared nodes heap' m.linkage.contents.length ∧
      Linkage.Lists ⟨heap', chain⟩ m.linkage.heap.size (transform.answers m.linkage.contents) := by
  obtain ⟨hl, rfl⟩ := hm.shows
  have hcontents : m.linkage.contents = m.view.row.entries := hl.contents_eq
  rw [hcontents] at hall hgrants ⊢
  obtain ⟨w, hread, hgrown⟩ := View.map_places (v := m.view) hl.apart hall hgrants hl.length_lt
  obtain ⟨⟨heap', own⟩, _, hrun, hl', @⟨chain, _, hmade⟩⟩ := run_map_ok hl hread
  obtain ⟨rfl, hspared⟩ := hgrown.spared hl hl' fun h hh => by
    rw [handlesOf_slotsFrom, List.mem_range'_1] at hh
    exact hh.1
  rw [hgrown.machine_eq] at hrun
  have hlists := hmade.lists hl'
  rw [handlesOf_slotsFrom, entriesOf_slotsFrom] at hlists
  exact ⟨heap', chain, hrun, hspared, hl.size ▸ hlists.1, hlists.2.1, hlists.2.2⟩

/-- A transformation that is refused a node answers no list, and no node is left of it. -/
theorem map_gives_up {front back : List (Entry α)} {e r : Entry α} (hm : m.linkage.WellFormed nodes)
    (hr : m.linkage.contents = front ++ e :: back) (hall : transform.Answers front)
    (hcall : (transform.after front).call e = (.returns r, transform'))
    (hgrants : m.allocator.Grants front.length)
    (hrefuses : m.allocator.refuses (m.allocator.attempts + front.length) = true) :
    ∃ heap', (Deque.map transform).run m =
        .ok (none, transform') ⟨⟨heap', m.linkage.chain⟩, m.destructors,
          m.allocator.skip (front.length + 1),
          m.trace ++ (View.refusalEvents transform front e r m.linkage.contents.length).toArray⟩ ∧
      m.linkage.Spared nodes heap' front.length ∧ ∀ h, heap'.get? h = m.linkage.heap.get? h := by
  obtain ⟨hl, rfl⟩ := hm.shows
  have hcontents : m.linkage.contents = entriesOf m.view.row.slots := hl.contents_eq
  have hlength : m.linkage.contents.length = m.view.row.length := by
    rw [hcontents]
    exact Row.length_entries _
  rw [hlength]
  rw [hcontents] at hr
  obtain ⟨a, b, hsplit, rfl, hb⟩ := List.map_eq_append_iff.1 hr
  obtain ⟨s, c, rfl, rfl, rfl⟩ := List.map_eq_cons_iff.1 hb
  rw [List.length_map] at hgrants hrefuses ⊢
  have hcap : a.length < capacity := by
    have hlt : m.view.row.length < capacity := hl.length_lt
    rw [Row.length, hsplit, List.length_append] at hlt
    omega
  obtain ⟨w, hread, hgrown⟩ := View.map_refused hl.sound hsplit hall hcall hgrants hrefuses hcap
  obtain ⟨⟨heap', own⟩, _, hrun, hl', ⟨⟩⟩ := run_map_ok hl hread
  obtain ⟨rfl, hspared⟩ := hgrown.spared hl hl' fun h hh => absurd hh List.not_mem_nil
  rw [hgrown.machine_eq] at hrun
  exact ⟨heap', hrun, hspared, fun h => hgrown.get?_eq hl hl' List.not_mem_nil⟩

end Deque

/-! ## In a world -/

namespace World

variable [AsBytes α] [AsText α] {w : World σ α} {k : Nat} {d : Deque σ α} {nodes : List Handle}
  {transform transform' : Callback σ (Entry α) (Entry α)}

/-- A transformation that leaves its list as it is changes the lists of a world only by the one it makes. -/
theorem use_of_map {made : Option Chain} {heap' : Heap α} {allocator : Allocator} {events : List (Event α)}
    (hk : w.list? k = some d) (hrun : (Deque.map transform).run ((w.view d).machine (w.linkage d)) =
      .ok (made, transform') ⟨⟨heap', d.chain⟩, .ofDefault d.default, allocator, #[] ++ events.toArray⟩) :
    w.use k (.map transform) = match made with
      | none => (⟨.ok .allocError, events.toArray⟩, ⟨heap', allocator, w.lists⟩)
      | some chain => (⟨.ok (.list w.lists.size), events.toArray⟩,
        ⟨heap', allocator, w.lists.push (some ⟨chain, none⟩)⟩) := by
  let u : View σ α := { w.view d with allocator, trace := events.toArray }
  have hlists : w.lists.setIfInBounds k (some ⟨d.chain, d.default⟩) = w.lists := setIfInBounds_self hk
  rw [Array.empty_append] at hrun
  cases made with
  | none =>
    have hact : (Op.map transform : Op σ α).act.run ((w.view d).machine (w.linkage d)) =
        ending (.ok (.allocError, none)) (u.machine ⟨heap', d.chain⟩) := by
      rw [Op.act, EStateM.run_bind, hrun]
      rfl
    rw [use_run hk hact]
    simp [settle, madeBy, answer, Op.endsList, u, view, Destructors.ofDefault, hlists]
  | some chain =>
    have hact : (Op.map transform : Op σ α).act.run ((w.view d).machine (w.linkage d)) =
        ending (.ok (.done, some chain)) (u.machine ⟨heap', d.chain⟩) := by
      rw [Op.act, EStateM.run_bind, hrun]
      rfl
    rw [use_run hk hact]
    simp [settle, madeBy, answer, Op.endsList, u, view, Destructors.ofDefault, hlists]

/-- A transformation of a well-formed list, with a transform that does not panic. When all nodes are
granted, the transform is called once on every entry in order, and the results are the entries of a new
list, which has no destructor. When the node for a result is the first to be refused, no call and no
attempt follows, and all results are dropped, the refused one first; no node is left of them. The list
itself, its destructor and all nodes that there were are in both cases as they were. -/
theorem use_images (hk : w.list? k = some d) (hwf : (w.linkage d).WellFormed nodes)
    (transform : Callback σ (Entry α) (Entry α)) :
    (transform.Answers (w.linkage d).contents → w.allocator.Grants (w.linkage d).contents.length →
      ∃ heap' chain, w.use k (.map transform) =
          (⟨.ok (.list w.lists.size), (View.imageEvents transform (w.linkage d).contents).toArray⟩,
            ⟨heap', w.allocator.skip (w.linkage d).contents.length, w.lists.push (some ⟨chain, none⟩)⟩) ∧
        (w.linkage d).Spared nodes heap' (w.linkage d).contents.length ∧
        Linkage.Lists ⟨heap', chain⟩ w.heap.size (transform.answers (w.linkage d).contents)) ∧
    ∀ front e r back transform', (w.linkage d).contents = front ++ e :: back → transform.Answers front →
      (transform.after front).call e = (.returns r, transform') → w.allocator.Grants front.length →
      w.allocator.refuses (w.allocator.attempts + front.length) = true →
      ∃ heap', w.use k (.map transform) =
          (⟨.ok .allocError,
              (View.refusalEvents transform front e r (w.linkage d).contents.length).toArray⟩,
            ⟨heap', w.allocator.skip (front.length + 1), w.lists⟩) ∧
        (w.linkage d).Spared nodes heap' front.length ∧ ∀ h, heap'.get? h = w.heap.get? h := by
  have hm : ((w.view d).machine (w.linkage d)).linkage.WellFormed nodes := hwf
  constructor
  · intro hall hgrants
    obtain ⟨heap', chain, hrun, hspared, hlists⟩ := Deque.map_images hm hall hgrants
    exact ⟨heap', chain, use_of_map hk hrun, hspared, hlists⟩
  · intro front e r back transform' hr hall hcall hgrants hrefuses
    obtain ⟨heap', hrun, hspared, hgone⟩ := Deque.map_gives_up hm hr hall hcall hgrants hrefuses
    exact ⟨heap', use_of_map hk hrun, hspared, hgone⟩

/-- A list of two entries whose destructor is the plain drop, the cursor on the second one. -/
def pair : Deque Bool Payload := ⟨⟨.full ⟨⟨2, by decide, by decide⟩, 0, 1⟩, some 1⟩, some .drop⟩

/-- A world with that list only, under a pattern of refused allocations. -/
def ofPair (refuses : Nat → Bool) : World Bool Payload :=
  ⟨⟨#[some ⟨⟨.int 7, 8⟩, none, some 1⟩, some ⟨⟨.int 9, 0⟩, some 0, none⟩]⟩,
    .ofPattern refuses, #[some pair]⟩

theorem ofPair_wellFormed (refuses : Nat → Bool) :
    ((ofPair refuses).linkage pair).WellFormed [0, 1] := by
  refine ⟨by decide, ⟨rfl, rfl, rfl⟩, ?_, ?_⟩
  · intro i hi
    have hlt : i < 2 := hi
    interval_cases i <;> exact ⟨_, rfl, rfl, rfl⟩
  · intro c hc
    cases hc
    decide

/-- A transform that tells the first entry from those behind it. -/
def marking : Callback Bool (Entry Payload) (Entry Payload) :=
  ⟨false, fun called e => (.returns ⟨.int (if called then 1 else 0), e.byteLen⟩, true)⟩

/-- Both nodes granted, and the second one refused. -/
theorem use_images_pair :
    marking.Answers [⟨.int 7, 8⟩, ⟨.int 9, 0⟩] ∧ (ofPair fun _ => false).allocator.Grants 2 ∧
      (ofPair (· == 1)).allocator.Grants 1 ∧ (ofPair (· == 1)).allocator.refuses 1 = true ∧
    (∃ heap' chain, (ofPair fun _ => false).use 0 (.map marking) =
        (⟨.ok (.list 1), #[.called ⟨.int 7, 8⟩, .entered (.int 0), .logged (.push .after 8 1),
            .called ⟨.int 9, 0⟩, .entered (.int 1), .logged (.push .after 0 2), .logged (.visit 2 2),
            .logged (.map 2)]⟩,
          ⟨heap', .skip 2 (.ofPattern fun _ => false), #[some pair, some ⟨chain, none⟩]⟩) ∧
      Linkage.Lists ⟨heap', chain⟩ 2 [⟨.int 0, 8⟩, ⟨.int 1, 0⟩]) ∧
    ∃ heap', (ofPair (· == 1)).use 0 (.map marking) =
        (⟨.ok .allocError, #[.called ⟨.int 7, 8⟩, .entered (.int 0), .logged (.push .after 8 1),
            .called ⟨.int 9, 0⟩, .entered (.int 1), .logged (.refused 0), .left .dropped (.int 1),
            .logged (.visit 2 2), .left (.destroyed .override true) (.int 0), .logged (.destroy 1)]⟩,
          ⟨heap', .skip 2 (.ofPattern (· == 1)), #[some pair]⟩) ∧
      ∀ h, heap'.get? h = (ofPair (· == 1)).heap.get? h := by
  have hall : marking.Answers [⟨.int 7, 8⟩, ⟨.int 9, 0⟩] := rfl
  have hgrants : (ofPair fun _ => false).allocator.Grants 2 := fun _ _ => rfl
  have hfirst : (ofPair (· == 1)).allocator.Grants 1 := by
    intro i hi
    interval_cases i
    rfl
  have hrefuses : (ofPair (· == 1)).allocator.refuses 1 = true := rfl
  obtain ⟨heap', chain, huse, -, hlists⟩ :=
    (use_images (w := ofPair fun _ => false) (k := 0) rfl (ofPair_wellFormed _) marking).1 hall hgrants
  obtain ⟨heap₁, huse₁, -, hgone⟩ :=
    (use_images (w := ofPair (· == 1)) (k := 0) rfl (ofPair_wellFormed _) marking).2 [⟨.int 7, 8⟩]
      ⟨.int 9, 0⟩ ⟨.int 1, 0⟩ [] _ rfl rfl rfl hfirst hrefuses
  exact ⟨hall, hgrants, hfirst, hrefuses, ⟨heap', chain, huse, hlists⟩, heap₁, huse₁, hgone⟩

end World

end LinkedDeque
