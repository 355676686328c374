import LinkedDeque.Deque.Join
import LinkedDeque.Proofs.Course

/-!
# LinkedDeque.Proofs.Walks

Walks over a whole row:

* `Ensures`      — on every machine that shows a view, an operation ends in a way that satisfies a
  condition, and the machine it leaves shows the view it leaves.
* `Ensures.walk` — a walk ends as its body does, when the body keeps an invariant and leaves the entries
  that the walk still comes to.

A visit, a join and an erasure by a predicate are walks, each with the course of its body.
-/

namespace LinkedDeque

variable {σ τ α β γ ο : Type}

/-- On every machine that shows a view, an operation ends as a condition says. -/
def Ensures (act : Act σ α β) (v : View σ α) (q : Except Panic β → View σ α → Prop) : Prop :=
  ∀ l : Linkage α, l.Shows v.toScene →
    ∃ out w l', act.run (v.machine l) = ending out (View.machine w l') ∧ l'.Shows w.toScene ∧ q out w

theorem Leads.ensures {act : Act σ α β} {v : View σ α} {r : Reading σ α β}
    {q : Except Panic β → View σ α → Prop} (h : Leads act v r) (hq : q r.1 r.2) : Ensures act v q := by
  intro l hl
  obtain ⟨l', hrun, hl'⟩ := h l hl
  exact ⟨r.1, r.2, l', hrun, hl', hq⟩

namespace Ensures

variable {v w : View σ α} {q : Except Panic β → View σ α → Prop}

theorem of_shows {act : Act σ α β} (h : ∀ l : Linkage α, l.Shows v.toScene → Ensures act v q) :
    Ensures act v q :=
  fun l hl => h l hl l hl

theorem mono {act : Act σ α β} {q' : Except Panic β → View σ α → Prop} (h : Ensures act v q)
    (hq : ∀ out w, q out w → q' out w) : Ensures act v q' := by
  intro l hl
  obtain ⟨out, w, l', hrun, hl', h'⟩ := h l hl
  exact ⟨out, w, l', hrun, hl', hq out w h'⟩

theorem bind {act : Act σ α β} {f : β → Act σ α γ} {q' : Except Panic γ → View σ α → Prop}
    (h : Ensures act v q) (hf : ∀ b w, q (.ok b) w → Ensures (f b) w q')
    (hp : ∀ p w, q (.error p) w → q' (.error p) w) : Ensures (act >>= f) v q' := by
  intro l hl
  obtain ⟨out, w, l₁, hrun, hl₁, h'⟩ := h l hl
  cases out with
  | error p =>
    refine ⟨.error p, w, l₁, ?_, hl₁, hp p w h'⟩
    rw [EStateM.run_bind, hrun]
    rfl
  | ok b =>
    obtain ⟨out', w', l₂, hrun', hl₂, h''⟩ := hf b w h' l₁ hl₁
    refine ⟨out', w', l₂, ?_, hl₂, h''⟩
    rw [EStateM.run_bind, hrun]
    exact hrun'

theorem after_discard {act : Act σ α β} {f : Unit → Act σ α γ} {q : View σ α → Prop}
    {q' : Except Panic γ → View σ α → Prop}
    (h : Ensures act v fun out w => (∃ b, out = .ok b) ∧ q w)
    (hf : ∀ w, q w → Ensures (f ()) w q') : Ensures (discard act >>= f) v q' := by
  have he : discard act >>= f = act >>= fun _ => f () := by
    rw [Functor.discard, LawfulFunctor.map_const, Function.comp, map_eq_pure_bind, bind_assoc]
    simp only [pure_bind, Function.const]
  rw [he]
  refine h.bind (fun b w hq => hf w hq.2) ?_
  rintro p w ⟨⟨b, hb⟩, -⟩
  cases hb

theorem after {act : Act σ α β} {f : β → Act σ α γ} {b : β} {q' : Except Panic γ → View σ α → Prop}
    (h : Leads act v (.ok b, w)) (hf : Ensures (f b) w q') : Ensures (act >>= f) v q' := by
  refine (h.ensures (q := fun out w' => out = .ok b ∧ w' = w) ⟨rfl, rfl⟩).bind ?_ ?_
  · rintro _ _ ⟨hb, rfl⟩
    cases hb
    exact hf
  · rintro p _ ⟨hb, -⟩
    cases hb

theorem withOverride (d : Option (Destructor σ α)) {act : Act σ α β}
    (h : Ensures act { v with destructors := { v.destructors with override := d } } q) :
    Ensures (Act.withOverride d act) v fun out w =>
      ∃ u, q out u ∧ w = { u with destructors := { u.destructors with override := none } } := by
  intro l hl
  obtain ⟨out, w, l', hrun, hl', h'⟩ := h l hl
  refine ⟨out, { w with destructors := { w.destructors with override := none } }, l', ?_, hl', w, h',
    rfl⟩
  cases out <;> simp_all [Act.withOverride, EStateM.run, View.machine, ending]

end Ensures

/-! ## Walks -/

/-- How a body has to end on an entry, after a number of visits: an invariant holds of the entries to
come, or the walk is over as it should be. -/
def Stepped (inv : Nat → β → List (Slot α) → View σ α → Prop)
    (q : Except Panic (Nat × β) → View σ α → Prop) (visited : Nat) (rest : List (Slot α)) :
    Except Panic (Flow × β) → View σ α → Prop
  | .ok (.go, b), w => inv (visited + 1) b rest w ∧ ∃ a, w.row.slots = a ++ rest
  | .ok (.stop, b), w => q (.ok (visited + 1, b)) w
  | .error p, w => q (.error p) w

namespace Ensures

open Deque

variable {v w : View σ α} (inv : Nat → β → List (Slot α) → View σ α → Prop)
  {q : Except Panic (Nat × β) → View σ α → Prop}
  {body : β → Handle → Entry α → Act σ α (Flow × β)}

theorem walkFrom
    (hbody : ∀ n b s rest w, s ∈ w.row.slots → inv n b (s :: rest) w →
      (∃ a, w.row.slots = a ++ s :: rest) →
      Ensures (body b s.handle s.entry) w (Stepped inv q n rest))
    (hdone : ∀ n b w, inv n b [] w → q (.ok (n, b)) w)
    {rest : List (Slot α)} {fuel : Nat} (hfuel : rest.length ≤ fuel) {b : β} {visited : Nat}
    (hr : ∃ a, v.row.slots = a ++ rest) (hinv : inv visited b rest v) :
    Ensures (walkFrom body fuel (ahead rest none) visited b) v q := by
  induction rest generalizing fuel b visited v with
  | nil =>
    have hvisit : Leads (Act.read (·.visit none)) v (.ok none, v) := Leads.read fun _ _ => rfl
    unfold Deque.walkFrom
    exact after hvisit ((Leads.pure _ _).ensures (hdone visited b v hinv))
  | cons s rest ih =>
    obtain ⟨a, ha⟩ := hr
    have hmem : s ∈ v.row.slots := by
      rw [ha]
      exact List.mem_append_right _ (List.mem_cons_self ..)
    have hvisit : Leads (Act.read (·.visit (some s.handle))) v
        (.ok (some (s.handle, ahead rest none)), v) := Leads.read fun _ hl => hl.visit_eq ha
    obtain ⟨fuel, rfl⟩ : ∃ f, fuel = f + 1 := ⟨fuel - 1, by simp at hfuel; omega⟩
    unfold Deque.walkFrom
    refine after hvisit (after (Leads.entry hmem) ?_)
    refine (hbody visited b s rest v hmem hinv ⟨a, ha⟩).bind ?_ fun p w h => h
    rintro ⟨flow, b'⟩ w h
    cases flow with
    | stop => exact (Leads.pure _ _).ensures h
    | go => exact ih (by simpa using hfuel) h.2 h.1

/-- A walk from the front. -/
theorem walk
    (hbody : ∀ n b s rest w, s ∈ w.row.slots → inv n b (s :: rest) w →
      (∃ a, w.row.slots = a ++ s :: rest) →
      Ensures (body b s.handle s.entry) w (Stepped inv q n rest))
    (hdone : ∀ n b w, inv n b [] w → q (.ok (n, b)) w) {b : β} (hinv : inv 0 b v.row.slots v) :
    Ensures (walk body b) v q := by
  refine of_shows ?_
  intro l hl
  have hlen : v.row.slots.length ≤ v.fresh := by
    rw [← hl.size]
    exact hl.length_le
  refine after (Leads.bound v) (after (Leads.front v) ?_)
  exact walkFrom inv hbody hdone hlen ⟨[], rfl⟩ hinv

theorem loggedWalk {b : β} (h : Ensures (Deque.walk body b) v q)
    (hlog : ∀ n b w line, q (.ok (n, b)) w → q (.ok (n, b)) (w.log line)) :
    Ensures (Deque.loggedWalk body b) v q := by
  refine h.bind ?_ fun p w hq => hq
  rintro ⟨visited, b⟩ w hq
  exact after (Leads.length w) (after (Leads.log _ w) ((Leads.pure _ _).ensures (hlog _ _ _ _ hq)))

end Ensures

/-! ## The courses of walks -/

def Destructors.fate (ds : Destructors σ α) : Fate :=
  match ds.override, ds.default with
  | some d, _ => .destroyed .override d.isDrop
  | .none, some d => .destroyed .default d.isDrop
  | .none, .none => .forgotten

theorem Destructor.isDrop_run (d : Destructor σ α) (x : α) : (d.run x).2.isDrop = d.isDrop := by
  cases d <;> rfl

/-- A destructor that is called sends the payload where the destructors say, and so does it the next
time. -/
theorem Destructors.fate_dispose (ds : Destructors σ α) (x : α) :
    (ds.dispose x).1 = ds.fate ∧ (ds.dispose x).2.2.fate = ds.fate := by
  obtain ⟨default, override⟩ := ds
  cases override with
  | some d => exact ⟨rfl, by simp only [dispose, fate, Destructor.isDrop_run]⟩
  | none =>
    cases default with
    | some d => exact ⟨rfl, by simp only [dispose, fate, Destructor.isDrop_run]⟩
    | none => exact ⟨rfl, rfl⟩

theorem View.dispose_snd (x : α) (v : View σ α) :
    (v.dispose x).2 = { v.emit (.left v.destructors.fate x) with
      destructors := (v.destructors.dispose x).2.2 } := by
  rw [← (v.destructors.fate_dispose x).1, View.dispose]
  cases hd : v.destructors.dispose x with
  | mk fate rest =>
    obtain ⟨reply, destructors⟩ := rest
    cases reply <;> rfl

theorem View.toScene_dispose (x : α) (v : View σ α) : (v.dispose x).2.toScene = v.toScene := by
  rw [View.dispose_snd]
  rfl

theorem View.fate_dispose (x : α) (v : View σ α) :
    (v.dispose x).2.destructors.fate = v.destructors.fate := by
  rw [View.dispose_snd]
  exact (v.destructors.fate_dispose x).2

theorem View.dispose_returns {x : α} {v : View σ α} (h : (v.destructors.dispose x).2.1 = .returns ()) :
    v.dispose x = (.ok (), (v.dispose x).2) := by
  rw [View.dispose]
  cases hd : v.destructors.dispose x with
  | mk fate r =>
    obtain ⟨reply, ds⟩ := r
    rw [hd] at h
    cases h
    rfl

theorem View.dispose_panics {x : α} {v : View σ α} {report : String}
    (h : (v.destructors.dispose x).2.1 = .panics report) :
    v.dispose x = (.error (.destructor report), (v.dispose x).2) := by
  rw [View.dispose]
  cases hd : v.destructors.dispose x with
  | mk fate r =>
    obtain ⟨reply, ds⟩ := r
    rw [hd] at h
    cases h
    rfl

/-- A payload is destroyed, unless its destructor panics. -/
theorem View.dispose_error {x : α} {v : View σ α} {p : Panic} (h : (v.dispose x).1 = .error p) :
    ∃ report, p = .destructor report ∧ (v.destructors.dispose x).2.1 = .panics report := by
  cases hd : (v.destructors.dispose x).2.1 with
  | returns _ =>
    rw [View.dispose_returns hd] at h
    cases h
  | panics report =>
    rw [View.dispose_panics hd] at h
    cases h
    exact ⟨report, rfl, rfl⟩

theorem View.leftIn_dispose (x : α) (v : View σ α) :
    leftIn (v.dispose x).2.trace = leftIn v.trace ++ [(v.destructors.fate, x)] := by
  rw [View.dispose_snd, View.emit, leftIn_push]
  rfl

theorem View.erase_snd (s : Slot α) (v : View σ α) :
    (v.erase s).2.row = v.row.erase s.handle ∧ (v.erase s).2.fresh = v.fresh ∧
      (v.erase s).2.destructors.fate = v.destructors.fate := by
  rw [View.erase, View.toScene_dispose, View.fate_dispose]
  exact ⟨rfl, rfl, rfl⟩

theorem View.ask_snd (f : Callback τ (Entry α) ο) (e : Entry α) (v : View σ α) :
    (v.ask f e).2 = v.emit (.called e) := by
  rw [View.ask]
  cases hcall : f.call e with
  | mk reply f' => cases reply <;> rfl

theorem View.ask_row (f : Callback τ (Entry α) ο) (e : Entry α) (v : View σ α) :
    (v.ask f e).2.row = v.row := by
  rw [View.ask_snd]
  rfl

namespace Course

variable {permits : Fate → Prop} {v w : View σ α} {came hand : List α} {strays : List (Slot α)} {x : α}

theorem dispose (hf : permits w.destructors.fate) (c : Course permits v w came (x :: hand) strays) :
    Course permits v (w.dispose x).2 came hand strays := by
  rw [View.dispose_snd]
  exact (c.give hf).settle w.allocator _

theorem erase {s : Slot α} (hs : s ∈ w.row.slots) (hfresh : w.fresh = v.fresh)
    (hf : permits w.destructors.fate) (c : Course permits v w came hand strays) :
    Course permits v (w.erase s).2 came hand strays :=
  Course.dispose (w := { w with row := w.row.erase s.handle }) hf (c.take hs hfresh)

end Course

namespace Ensures

open Deque

variable {v : View σ α}

theorem visitEach (visitor : Callback τ (Entry α) Flow) (v : View σ α) (permits : Fate → Prop) :
    Ensures (Deque.visitEach visitor) v fun _ w => Course permits v w [] [] [] := by
  refine loggedWalk (walk (fun _ _ _ w => Course permits v w [] [] []) ?_ ?_ .start)
    fun _ _ _ line c => c.logged line
  · rintro n visitor s rest w hs c ⟨a, ha⟩
    refine (Leads.ask visitor s.entry w).ensures ?_
    have hc : Course permits v (w.ask visitor s.entry).2 [] [] [] := by
      rw [View.ask_snd]
      exact c.called _
    have hrow : (w.ask visitor s.entry).2.row.slots = a ++ [s] ++ rest := by
      rw [View.ask_snd, List.append_assoc]
      exact ha
    cases hr : w.ask visitor s.entry with
    | mk out w' =>
      rw [hr] at hc hrow
      rcases out with p | ⟨_ | _, visitor'⟩
      · exact hc
      · exact ⟨hc, _, hrow⟩
      · exact hc
  · exact fun _ _ _ c => c

theorem join [AsText α] (refuses : Growth) (delimiter : String) (v : View σ α)
    (permits : Fate → Prop) :
    Ensures (Deque.join refuses delimiter) v fun _ w => Course permits v w [] [] [] := by
  have hwalk : Ensures (Deque.loggedWalk (fun (j : Joining) _ e =>
      let j := j.element refuses delimiter (AsText.text e.value)
      return (if j.refused then .stop else .go, j)) .start) v
      fun _ w => Course permits v w [] [] [] := by
    refine loggedWalk (walk (fun _ _ _ w => Course permits v w [] [] []) ?_ ?_ .start)
      fun _ _ _ line c => c.logged line
    · rintro n j s rest w hs c ⟨a, ha⟩
      refine (Leads.pure _ w).ensures ?_
      split
      · exact c
      · exact ⟨c, a ++ [s], by rw [List.append_assoc]; exact ha⟩
    · exact fun _ _ _ c => c
  refine hwalk.bind ?_ fun _ _ c => c
  rintro ⟨n, j⟩ w c
  exact after (Leads.log _ w) ((Leads.pure _ _).ensures (c.logged _))

theorem eraseWhere (predicate : Callback τ (Entry α) Bool) (override : Option (Destructor σ α))
    {permits : Fate → Prop} (hf : permits { v.destructors with override }.fate) :
    Ensures (Deque.eraseWhere predicate override) v fun _ w => Course permits v w [] [] [] := by
  refine of_shows ?_
  intro l hl
  have hv := hl.sound
  let inv := fun (_ : Nat) (_ : Nat × Callback τ (Entry α) Bool) (_ : List (Slot α)) (w : View σ α) =>
    Course permits v w [] [] [] ∧ w.fresh = v.fresh ∧
      w.destructors.fate = { v.destructors with override }.fate
  refine (withOverride override (walk inv (q := fun _ w => Course permits v w [] [] []) ?_ ?_
    ⟨Course.start.settle v.allocator _, rfl, rfl⟩)).bind ?_ ?_
  · rintro n ⟨removed, predicate⟩ s rest w hs ⟨c, hfresh, hfate⟩ ⟨a, ha⟩
    have hasked := View.ask_snd predicate s.entry w
    refine ((Leads.ask predicate s.entry w).ensures
      (q := fun _ u => u = w.emit (.called s.entry)) hasked).bind ?_ ?_
    · rintro ⟨answer, predicate⟩ _ rfl
      have c' := c.called s.entry
      cases answer with
      | false =>
        exact (Leads.pure _ _).ensures ⟨⟨c', hfresh, hfate⟩, a ++ [s], by
          rw [List.append_assoc]
          exact ha⟩
      | true =>
        let u := w.emit (.called s.entry)
        have hf' : permits u.destructors.fate := hfate ▸ hf
        obtain ⟨hrow, hfresh', hfate'⟩ := View.erase_snd s u
        have hslots : (u.erase s).2.row.slots = a ++ rest := by
          rw [hrow]
          exact Row.slots_erase ha (c.accounts hv).row_nodup
        refine ((Leads.erase (v := u) hs).ensures (q := fun _ u => inv 0 (0, predicate) rest u ∧
          u.row.slots = a ++ rest) ⟨⟨c'.erase hs hfresh hf', hfresh'.trans hfresh,
            hfate'.trans hfate⟩, hslots⟩).bind ?_ fun _ _ h => h.1.1
        rintro _ u ⟨hu, hrow⟩
        exact (Leads.pure _ _).ensures ⟨hu, a, hrow⟩
    · rintro p _ rfl
      exact c.called _
  · exact fun _ _ _ h => h.1
  · rintro ⟨n, removed, predicate⟩ _ ⟨u, c, rfl⟩
    have c' := c.settle u.allocator { u.destructors with override := none }
    refine after (Leads.read fun _ hl => hl.verify_eq) ?_
    exact after (Leads.length _) (after (Leads.log _ _) ((Leads.pure _ _).ensures (c'.logged _)))
  · rintro p _ ⟨u, c, rfl⟩
    exact c.settle u.allocator _

end Ensures

end LinkedDeque
