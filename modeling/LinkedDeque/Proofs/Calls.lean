import LinkedDeque.Allocator
import LinkedDeque.Destructors

/-!
# LinkedDeque.Proofs.Calls

Calls in a row:

* `Callback.answers` — what a callback answers to them, until it panics.
* `Callback.after`   — the callback that they leave.
* `Callback.Answers` — the callback answers them all.
* `Destructors.after`, `Destructors.Returns` — the same for payloads that are destroyed.
* `Allocator.skip`, `Allocator.Grants`       — the same for nodes that are made.
-/

namespace LinkedDeque

variable {σ τ α ι ο : Type}

namespace Callback

/-- What a callback answers to calls in a row, until it panics. -/
def answers (f : Callback τ ι ο) : List ι → List ο
  | [] => []
  | x :: rest =>
    match f.call x with
    | (.returns y, f) => y :: f.answers rest
    | (.panics _, _) => []

/-- A callback as calls in a row leave it. -/
def after (f : Callback τ ι ο) (xs : List ι) : Callback τ ι ο :=
  xs.foldl (fun f x => (f.call x).2) f

/-- The callback panics on none of these calls in a row. -/
def Answers (f : Callback τ ι ο) (xs : List ι) : Prop := (f.answers xs).length = xs.length

variable {f f' : Callback τ ι ο} {x : ι} {y : ο} {xs : List ι} {report : String}

@[simp] theorem answers_nil (f : Callback τ ι ο) : f.answers [] = [] := rfl

@[simp] theorem after_nil (f : Callback τ ι ο) : f.after [] = f := rfl

theorem Answers.nil (f : Callback τ ι ο) : f.Answers [] := rfl

theorem answers_cons (h : f.call x = (.returns y, f')) (xs : List ι) :
    f.answers (x :: xs) = y :: f'.answers xs := by
  simp [answers, h]

theorem answers_cons_panics (h : (f.call x).1 = .panics report) (xs : List ι) :
    f.answers (x :: xs) = [] := by
  cases hc : f.call x with
  | mk reply f' =>
    rw [hc] at h
    cases h
    simp [answers, hc]

theorem after_cons (h : f.call x = (.returns y, f')) (xs : List ι) :
    f.after (x :: xs) = f'.after xs := by
  simp [after, h]

/-- A callback that answers calls in a row answers the first one. -/
theorem Answers.cons (h : f.Answers (x :: xs)) :
    ∃ y f', f.call x = (.returns y, f') ∧ f'.Answers xs := by
  cases hc : f.call x with
  | mk reply f' =>
    cases reply with
    | panics report => simp [Answers, answers, hc] at h
    | returns y =>
      refine ⟨y, f', rfl, ?_⟩
      simpa [Answers, answers, hc] using h

theorem answers_append (h : f.Answers xs) (zs : List ι) :
    f.answers (xs ++ zs) = f.answers xs ++ (f.after xs).answers zs := by
  induction xs generalizing f with
  | nil => rfl
  | cons x xs ih =>
    obtain ⟨y, f', hc, h'⟩ := h.cons
    rw [List.cons_append, answers_cons hc, answers_cons hc, after_cons hc, ih h', List.cons_append]

theorem after_append (f : Callback τ ι ο) (xs zs : List ι) :
    f.after (xs ++ zs) = (f.after xs).after zs := List.foldl_append ..

/-- Nothing is answered from a call on that panics. -/
theorem answers_stop (h : f.Answers xs) (hx : ((f.after xs).call x).1 = .panics report) (zs : List ι) :
    f.answers (xs ++ x :: zs) = f.answers xs := by
  rw [answers_append h, answers_cons_panics hx, List.append_nil]

theorem answers_concat (h : f.Answers xs) (hx : (f.after xs).call x = (.returns y, f')) :
    f.answers (xs ++ [x]) = f.answers xs ++ [y] := by
  rw [answers_append h, answers_cons hx, answers_nil]

theorem Answers.concat (h : f.Answers xs) (hx : (f.after xs).call x = (.returns y, f')) :
    f.Answers (xs ++ [x]) := by
  have hlen : (f.answers xs).length = xs.length := h
  simp [Answers, answers_concat h hx, hlen]

theorem after_concat {reply : Reply ο} (hx : (f.after xs).call x = (reply, f')) :
    f.after (xs ++ [x]) = f' := by
  have hlast : (f.after xs).after [x] = ((f.after xs).call x).2 := rfl
  rw [after_append, hlast, hx]

end Callback

namespace Destructors

/-- Destructors as payloads destroyed in a row leave them. -/
def after (ds : Destructors σ α) (xs : List α) : Destructors σ α :=
  xs.foldl (fun ds x => (ds.dispose x).2.2) ds

/-- No destructor panics on these payloads in a row. -/
def Returns (ds : Destructors σ α) (xs : List α) : Prop :=
  ∀ r ∈ ds.disposeEach xs, r.2 = .returns ()

instance (ds : Destructors σ α) (xs : List α) : Decidable (ds.Returns xs) :=
  inferInstanceAs (Decidable (∀ r ∈ ds.disposeEach xs, r.2 = .returns ()))

theorem returns_cons {ds : Destructors σ α} {x : α} {xs : List α} :
    ds.Returns (x :: xs) ↔ (ds.dispose x).2.1 = .returns () ∧ (ds.dispose x).2.2.Returns xs := by
  simp [Returns, disposeEach]

end Destructors

namespace Allocator

/-- An allocator after a number of attempts. -/
def skip (n : Nat) (a : Allocator) : Allocator := { a with attempts := a.attempts + n }

/-- A number of attempts of which none is refused. -/
def Grants (n : Nat) (a : Allocator) : Prop := ∀ i < n, a.refuses (a.attempts + i) = false

theorem grants_zero (a : Allocator) : a.Grants 0 := fun _ h => absurd h (Nat.not_lt_zero _)

theorem attempt_skip (n : Nat) (a : Allocator) :
    (a.skip n).attempt = (a.refuses (a.attempts + n), a.skip (n + 1)) := rfl

theorem Grants.succ {n : Nat} {a : Allocator} (h : a.Grants n) (hn : a.refuses (a.attempts + n) = false) :
    a.Grants (n + 1) := by
  intro i hi
  rcases Nat.lt_succ_iff_lt_or_eq.1 hi with hlt | rfl
  · exact h i hlt
  · exact hn

theorem Grants.behind {n : Nat} {a : Allocator} (h : a.Grants (n + 1)) :
    a.refuses a.attempts = false ∧ (a.skip 1).Grants n := by
  refine ⟨h 0 (Nat.succ_pos n), fun i hi => ?_⟩
  have hnext := h (i + 1) (by omega)
  rwa [Nat.add_comm i 1, ← Nat.add_assoc] at hnext

end Allocator

end LinkedDeque
