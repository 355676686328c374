import LinkedDeque.Payload
import LinkedDeque.Proofs.Sifting

/-!
# LinkedDeque.Proofs.Joined

A join from end to end, under every pattern of refusals:

* `Growth.Admits`, `Growth.Stops` — what becomes of the appends of one element, from those before it.
* `Joining.upTo`    — a join under way of which nothing was refused.
* `View.walk_joins` — the walk so far.
* `Deque.join_joins` — on every well-formed list: the whole text, or the place where the join stopped.

The buffer, the counter and the number of appends are settled by the texts so far. So the walk is read off
those, and what may still be refused is asked of the next element only.
-/

namespace LinkedDeque

variable {σ α : Type}

namespace Deque

/-! ## One element -/

/-- What is in the buffer when an element comes: the texts before it, and a delimiter behind them. -/
def lead (delimiter : String) (front : List String) : String :=
  if front = [] then "" else delimiter.intercalate front ++ delimiter

namespace Growth

/-- Behind these texts, an element is appended with the delimiter before it. -/
structure Admits (refuses : Growth) (delimiter : String) (front : List String) (text : String) : Prop where
  parted : front ≠ [] →
    refuses (2 * front.length - 1) (delimiter.intercalate front) delimiter = false
  appended : refuses (2 * front.length) (lead delimiter front) text = false

/-- Every append is granted. -/
def Accepts (refuses : Growth) (delimiter : String) (texts : List String) : Prop :=
  ∀ front text back, texts = front ++ text :: back → refuses.Admits delimiter front text

/-- Behind these texts, an append of an element is refused; there are so many bytes in the buffer. -/
inductive Stops (refuses : Growth) (delimiter : String) (front : List String) (text : String) : Nat → Prop
  | first (hnil : front = []) (h : refuses 0 "" text = true) : Stops refuses delimiter front text 0
  | parting (hne : front ≠ [])
      (h : refuses (2 * front.length - 1) (delimiter.intercalate front) delimiter = true) :
    Stops refuses delimiter front text (delimiter.intercalate front).utf8ByteSize
  | text (hne : front ≠ [])
      (hd : refuses (2 * front.length - 1) (delimiter.intercalate front) delimiter = false)
      (h : refuses (2 * front.length) (delimiter.intercalate front ++ delimiter) text = true) :
    Stops refuses delimiter front text
      ((delimiter.intercalate front).utf8ByteSize + delimiter.utf8ByteSize)

variable {refuses : Growth} {delimiter text : String} {front : List String}

theorem Accepts.concat (h : refuses.Accepts delimiter front) (ht : refuses.Admits delimiter front text) :
    refuses.Accepts delimiter (front ++ [text]) := by
  intro a t b hab
  rcases List.eq_nil_or_concat b with rfl | ⟨b, t', rfl⟩
  · obtain ⟨rfl, ht'⟩ := List.append_inj' hab rfl
    rwa [← (List.cons.inj ht').1]
  · rw [List.concat_eq_append, ← List.cons_append, ← List.append_assoc] at hab
    exact h a t b (List.append_inj' hab rfl).1

/-- An element is appended, or one of its appends is refused. -/
theorem admits_or_stops (refuses : Growth) (delimiter : String) (front : List String) (text : String) :
    refuses.Admits delimiter front text ∨ ∃ bytes, refuses.Stops delimiter front text bytes := by
  by_cases hnil : front = []
  · cases h : refuses 0 "" text with
    | true => exact .inr ⟨_, .first hnil h⟩
    | false =>
      refine .inl ⟨fun hne => absurd hnil hne, ?_⟩
      rw [lead, if_pos hnil, hnil]
      exact h
  · cases hd : refuses (2 * front.length - 1) (delimiter.intercalate front) delimiter with
    | true => exact .inr ⟨_, .parting hnil hd⟩
    | false =>
      cases h : refuses (2 * front.length) (delimiter.intercalate front ++ delimiter) text with
      | true => exact .inr ⟨_, .text hnil hd h⟩
      | false =>
        refine .inl ⟨fun _ => hd, ?_⟩
        rw [lead, if_neg hnil]
        exact h

/-- Either every append is granted, or there is a first one that is refused. -/
theorem accepts_or_stops (refuses : Growth) (delimiter : String) (texts : List String) :
    refuses.Accepts delimiter texts ∨ ∃ front text back bytes, texts = front ++ text :: back ∧
      refuses.Accepts delimiter front ∧ refuses.Stops delimiter front text bytes := by
  induction texts using List.reverseRecOn with
  | nil =>
    refine .inl ?_
    intro a t b hab
    exact absurd hab.symm (by simp)
  | append_singleton front text ih =>
    rcases ih with haccepts | ⟨a, t, b, bytes, rfl, haccepts, hstops⟩
    · rcases admits_or_stops refuses delimiter front text with hadmits | ⟨bytes, hstops⟩
      · exact .inl (haccepts.concat hadmits)
      · exact .inr ⟨front, text, [], bytes, rfl, haccepts, hstops⟩
    · exact .inr ⟨a, t, b ++ [text], bytes, by simp, haccepts, hstops⟩

end Growth

namespace Joining

variable {refuses : Growth} {delimiter text : String} {front : List String} {bytes : Nat}

/-- A join of which these texts are done. -/
def upTo (delimiter : String) (front : List String) : Joining :=
  ⟨delimiter.intercalate front, front.length, 2 * front.length - 1, false⟩

theorem append_granted {j : Joining} (hj : j.refused = false)
    (h : refuses j.attempts j.buffer text = false) :
    j.append refuses text = ⟨j.buffer ++ text, j.appended, j.attempts + 1, false⟩ := by
  simp [append, hj, h]

theorem append_refused {j : Joining} (hj : j.refused = false)
    (h : refuses j.attempts j.buffer text = true) :
    j.append refuses text = ⟨j.buffer, j.appended, j.attempts + 1, true⟩ := by
  simp [append, hj, h]

/-- Nothing is appended after a refusal, and nothing tried. -/
theorem append_after {j : Joining} (hj : j.refused = true) : j.append refuses text = j := by
  rw [append, if_pos hj]

theorem intercalate_concat (delimiter : String) (front : List String) (text : String) :
    delimiter.intercalate (front ++ [text]) = lead delimiter front ++ text := by
  by_cases hnil : front = []
  · rw [hnil, lead, if_pos rfl, List.nil_append, String.intercalate_singleton, String.empty_append]
  · rw [lead, if_neg hnil, String.intercalate_append_of_ne_nil hnil (List.cons_ne_nil _ _),
      String.intercalate_singleton]

/-- The delimiter before an element is granted, or there is none. -/
theorem lead_granted (h : front ≠ [] →
      refuses (2 * front.length - 1) (delimiter.intercalate front) delimiter = false) :
    (if 0 < (upTo delimiter front).appended then (upTo delimiter front).append refuses delimiter
      else upTo delimiter front) = ⟨lead delimiter front, front.length, 2 * front.length, false⟩ := by
  by_cases hnil : front = []
  · rw [hnil]
    rfl
  · have hpos : 0 < front.length := List.length_pos_of_ne_nil hnil
    have hnext : 2 * front.length - 1 + 1 = 2 * front.length := by omega
    rw [if_pos (show 0 < (upTo delimiter front).appended from hpos), append_granted rfl (h hnil), lead,
      if_neg hnil, ← hnext]
    rfl

theorem element_admitted (h : refuses.Admits delimiter front text) :
    (upTo delimiter front).element refuses delimiter text = upTo delimiter (front ++ [text]) := by
  rw [element, lead_granted h.parted, append_granted rfl h.appended, upTo, intercalate_concat,
    List.length_append, List.length_singleton]
  rfl

/-- An element one of whose appends is refused is counted, and leaves the buffer as it was then. -/
theorem element_stops (h : refuses.Stops delimiter front text bytes) :
    ∃ buffer attempts, (upTo delimiter front).element refuses delimiter text =
      ⟨buffer, front.length + 1, attempts, true⟩ ∧ buffer.utf8ByteSize = bytes := by
  cases h with
  | first hnil h =>
    refine ⟨"", 1, ?_, rfl⟩
    have hfirst := append_refused (j := ⟨"", 0, 0, false⟩) rfl h
    rw [hnil, element, lead_granted (fun hne => absurd rfl hne), show lead delimiter [] = "" from rfl]
    exact congrArg (fun j : Joining => { j with appended := j.appended + 1 }) hfirst
  | parting hne h =>
    refine ⟨delimiter.intercalate front, 2 * front.length - 1 + 1, ?_, rfl⟩
    have hpos : 0 < (upTo delimiter front).appended := List.length_pos_of_ne_nil hne
    have hparting := append_refused (j := upTo delimiter front) rfl h
    rw [element, if_pos hpos, hparting, append_after rfl]
    rfl
  | text hne hd h =>
    have hlead : lead delimiter front = delimiter.intercalate front ++ delimiter := if_neg hne
    refine ⟨lead delimiter front, 2 * front.length + 1, ?_, ?_⟩
    · rw [← hlead] at h
      rw [element, lead_granted fun _ => hd, append_refused rfl h]
    · rw [hlead, String.utf8ByteSize_append]

end Joining

end Deque

/-! ## Whole walks -/

/-- The texts of a list of entries. -/
def textsOf [AsText α] (entries : List (Entry α)) : List String := entries.map fun e => AsText.text e.value

namespace View

open Deque

variable [AsText α] {refuses : Growth} {delimiter : String} {front back : List (Slot α)} {s : Slot α}
  {v : View σ α}

/-- A view after a join that reached so many entries and left so many bytes. -/
def joined (visited bytes : Nat) (v : View σ α) : View σ α :=
  (v.log (.visit visited v.row.length)).log (.join visited bytes)

/-- A join goes on behind entries that were appended. -/
theorem walk_joins (done front rest : List (Slot α)) (n : Nat)
    (h : refuses.Accepts delimiter (textsOf (entriesOf (done ++ front)))) :
    v.walk (joinEntry refuses delimiter) (front ++ rest) n (.upTo delimiter (textsOf (entriesOf done))) =
      v.walk (joinEntry refuses delimiter) rest (n + front.length)
        (.upTo delimiter (textsOf (entriesOf (done ++ front)))) := by
  induction front generalizing done n with
  | nil => rw [List.append_nil]; rfl
  | cons s front ih =>
    have htexts : ∀ run : List (Slot α), textsOf (entriesOf (done ++ s :: run)) =
        textsOf (entriesOf done) ++ AsText.text s.payload :: textsOf (entriesOf run) := by
      intro run
      simp [textsOf, entriesOf, Slot.payload]
    have hadmits := h _ _ _ (htexts front)
    have hnext : done ++ s :: front = (done ++ [s]) ++ front := by simp
    have hgo : joinEntry refuses delimiter (.upTo delimiter (textsOf (entriesOf done))) s v =
        (.ok (.go, .upTo delimiter (textsOf (entriesOf (done ++ [s])))), v) := by
      rw [joinEntry, Joining.element_admitted hadmits, htexts []]
      rfl
    rw [List.cons_append, walk_go hgo, hnext, ih (done ++ [s]) (n + 1) (by rw [← hnext]; exact h),
      List.length_cons, Nat.add_right_comm, Nat.add_assoc]

theorem join_accepts (h : refuses.Accepts delimiter (textsOf v.row.entries)) :
    v.join refuses delimiter = (.ok (some (delimiter.intercalate (textsOf v.row.entries))),
      v.joined v.row.length (delimiter.intercalate (textsOf v.row.entries)).utf8ByteSize) := by
  have hwalk := walk_joins (v := v) [] v.row.slots [] 0 h
  rw [List.append_nil, Nat.zero_add, walk] at hwalk
  have hlength : (textsOf (entriesOf v.row.slots)).length = v.row.length := by
    rw [textsOf, List.length_map, entriesOf, List.length_map]
    rfl
  rw [join, show Joining.start = .upTo delimiter (textsOf (entriesOf ([] : List (Slot α)))) from rfl, hwalk]
  simp only [logged, Joining.upTo, List.nil_append, hlength]
  rfl

theorem join_stops (hr : v.row.slots = front ++ s :: back)
    (h : refuses.Accepts delimiter (textsOf (entriesOf front))) {bytes : Nat}
    (hs : refuses.Stops delimiter (textsOf (entriesOf front)) (AsText.text s.payload) bytes) :
    v.join refuses delimiter = (.ok none, v.joined (front.length + 1) bytes) := by
  have hwalk := walk_joins (v := v) [] front (s :: back) 0 h
  obtain ⟨buffer, attempts, helement, rfl⟩ := Joining.element_stops hs
  have hlength : (textsOf (entriesOf front)).length = front.length := by
    rw [textsOf, List.length_map, entriesOf, List.length_map]
  rw [Nat.zero_add, List.nil_append, walk, joinEntry, helement, hlength] at hwalk
  rw [join, show Joining.start = .upTo delimiter (textsOf (entriesOf ([] : List (Slot α)))) from rfl, hr,
    hwalk]
  rfl

end View

/-! ## Machines -/

namespace Machine

open Deque

variable [AsText α]

/-- A machine after a join that reached so many entries and left so many bytes. Nothing else changed. -/
def joined (visited bytes : Nat) (m : Machine σ α) : Machine σ α :=
  let visit : Log := .visit visited m.linkage.length
  { m with trace := (m.trace.push (.logged visit)).push (.logged (.join visited bytes)) }

/-- A join answers the whole text, or it stops where the first append is refused. -/
structure Joins (m : Machine σ α) (refuses : Growth) (delimiter : String) : Prop where
  whole : refuses.Accepts delimiter (textsOf m.linkage.contents) →
    let text := delimiter.intercalate (textsOf m.linkage.contents)
    (Deque.join refuses delimiter).run m = .ok (some text) (m.joined m.linkage.length text.utf8ByteSize)
  refused : ∀ front text back bytes, textsOf m.linkage.contents = front ++ text :: back →
    refuses.Accepts delimiter front → refuses.Stops delimiter front text bytes →
    (Deque.join refuses delimiter).run m = .ok none (m.joined (front.length + 1) bytes)
  covered : refuses.Accepts delimiter (textsOf m.linkage.contents) ∨
    ∃ front text back bytes, textsOf m.linkage.contents = front ++ text :: back ∧
      refuses.Accepts delimiter front ∧ refuses.Stops delimiter front text bytes

end Machine

namespace Deque

variable [AsText α] {m : Machine σ α} {nodes : List Handle}

/-- A join that is read to end so ends so, and leaves the list as it is. -/
theorem run_join {l : Linkage α} {v : View σ α} {refuses : Growth} {delimiter : String}
    {text : Option String} {visited bytes : Nat} (hl : l.Shows v.toScene)
    (hread : v.join refuses delimiter = (.ok text, v.joined visited bytes)) :
    (Deque.join refuses delimiter).run (v.machine l) =
      .ok text ((v.machine l).joined visited bytes) := by
  obtain ⟨l', hrun, hl'⟩ := Leads.join refuses delimiter v l hl
  rw [hread] at hrun hl'
  rw [hl.unique hl'] at hrun
  refine hrun.trans ?_
  rw [Machine.joined, show (v.machine l).linkage.length = v.row.length from hl.length_eq]
  rfl

/-- On every well-formed list, under every pattern of refusals, a join answers the texts with the delimiter
between them; or it stops at the first append that is refused, and answers that. It leaves the list as it
is. -/
theorem join_joins (hm : m.linkage.WellFormed nodes) (refuses : Growth) (delimiter : String) :
    m.Joins refuses delimiter := by
  obtain ⟨hl, -⟩ := hm.shows
  have hcontents : m.linkage.contents = m.view.row.entries := hl.contents_eq
  have hlength : m.linkage.length = m.view.row.length := hl.length_eq
  refine ⟨fun haccepts => ?_, ?_, Growth.accepts_or_stops refuses delimiter _⟩
  · rw [hcontents] at haccepts ⊢
    rw [hlength]
    exact run_join hl (View.join_accepts haccepts)
  · intro front text back bytes htexts haccepts hstops
    rw [hcontents, textsOf, Row.entries, List.map_map] at htexts
    obtain ⟨a, b, hslots, rfl, hb⟩ := List.map_eq_append_iff.1 htexts
    obtain ⟨s, b, rfl, rfl, -⟩ := List.map_eq_cons_iff.1 hb
    rw [List.length_map]
    have htextsOf : textsOf (entriesOf a) =
        a.map ((fun e : Entry α => AsText.text e.value) ∘ Slot.entry) := by
      rw [textsOf, entriesOf, List.map_map]
    rw [← htextsOf] at haccepts hstops
    exact run_join hl (View.join_stops hslots haccepts hstops)

/-- A list of three texts, the second of which is empty, on a chain like that of `trio`. -/
def words : Machine Unit Payload :=
  ⟨⟨⟨#[some ⟨⟨.text "a", 2⟩, none, some 1⟩, some ⟨⟨.text "", 1⟩, some 0, some 2⟩,
      some ⟨⟨.text "b", 2⟩, some 1, none⟩]⟩, trio.linkage.chain⟩, .none, .generous, #[]⟩

theorem words_wellFormed : words.linkage.WellFormed [0, 1, 2] := by
  refine ⟨by decide, ⟨rfl, rfl, rfl⟩, ?_, ?_⟩
  · intro i hi
    have hlt : i < 3 := hi
    interval_cases i <;> exact ⟨_, rfl, rfl, rfl⟩
  · intro c hc
    cases hc
    decide

/-- Without a refusal the empty text stands between its delimiters. When the delimiter before the last text
is refused, all three were reached, and what is left is the join of the first two. -/
theorem join_joins_words : words.linkage.WellFormed [0, 1, 2] ∧
    (Deque.join (fun _ _ _ => false) ", ").run words = .ok (some "a, , b") (words.joined 3 6) ∧
    (Deque.join (fun attempt _ _ => attempt == 3) ", ").run words = .ok none (words.joined 3 3) := by
  have hgranted : Growth.Accepts (fun _ _ _ => false) ", " (textsOf words.linkage.contents) :=
    fun _ _ _ _ => ⟨fun _ => rfl, rfl⟩
  have hfront : Growth.Accepts (fun attempt _ _ => attempt == 3) ", " ["a", ""] := by
    intro front text back htexts
    have hlen : front.length ≤ 1 := by
      have h := congrArg List.length htexts
      simp at h
      omega
    refine ⟨fun _ => ?_, ?_⟩
    · simp
      omega
    · simp
      omega
  exact ⟨words_wellFormed, (join_joins words_wellFormed _ _).whole hgranted,
    (join_joins words_wellFormed _ _).refused ["a", ""] "b" [] 3 rfl hfront
      (.parting (by decide) (by decide))⟩

end Deque

end LinkedDeque
