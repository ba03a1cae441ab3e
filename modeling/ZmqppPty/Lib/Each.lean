import Mathlib.Tactic

/-!
# A loop of calls that an exception leaves

`each f as s` calls `f` for the elements of `as` in order; the first call that throws ends the
loop, and the state is the one it leaves.

* `each_append`      a loop over two lists, one after the other;
* `each_state`       what every call keeps, thrown or not, the loop keeps;
* `each_proj`        a loop on a larger state does on a part of it what its calls do there.
-/

namespace Lib
variable {σ α ε : Type*} {f : σ → α → σ × Except ε Unit}

def each (f : σ → α → σ × Except ε Unit) : List α → σ → σ × Except ε Unit
  | [], s => (s, .ok ())
  | a :: as, s =>
    match f s a with
    | (t, .ok ()) => each f as t
    | (t, .error e) => (t, .error e)

theorem each_nil (s : σ) : each f [] s = (s, .ok ()) := rfl

theorem each_cons_ok {a : α} {as : List α} {s : σ} (h : (f s a).2 = .ok ()) :
    each f (a :: as) s = each f as (f s a).1 := by
  show (match f s a with
    | (t, .ok ()) => each f as t
    | (t, .error e) => (t, .error e)) = _
  rw [show f s a = ((f s a).1, .ok ()) from Prod.ext rfl h]

theorem each_cons_error {a : α} {as : List α} {s : σ} {e : ε} (h : (f s a).2 = .error e) :
    each f (a :: as) s = f s a := by
  show (match f s a with
    | (t, .ok ()) => each f as t
    | (t, .error e) => (t, .error e)) = _
  rw [show f s a = ((f s a).1, .error e) from Prod.ext rfl h]

theorem each_append (as bs : List α) (s : σ) :
    each f (as ++ bs) s =
      match each f as s with
      | (t, .ok ()) => each f bs t
      | (t, .error e) => (t, .error e) := by
  induction as generalizing s with
  | nil => rfl
  | cons a as ih =>
    rw [List.cons_append]
    cases h : (f s a).2 with
    | ok u => rw [each_cons_ok h, each_cons_ok h, ih]
    | error e =>
      rw [each_cons_error h, each_cons_error h, show f s a = ((f s a).1, .error e) from
        Prod.ext rfl h]

/-- the last call of a loop whose calls so far have returned -/
theorem each_concat {as : List α} {a : α} {s : σ} (h : (each f as s).2 = .ok ()) :
    each f (as ++ [a]) s = f (each f as s).1 a := by
  rw [each_append, show each f as s = ((each f as s).1, .ok ()) from Prod.ext rfl h]
  show each f [a] _ = _
  cases h' : (f (each f as s).1 a).2 with
  | ok u => rw [each_cons_ok h']; exact Prod.ext rfl h'.symm
  | error e => rw [each_cons_error h']

theorem each_state (P : σ → Prop) {as : List α} (hf : ∀ s, ∀ a ∈ as, P s → P (f s a).1) {s : σ}
    (h : P s) : P (each f as s).1 := by
  induction as generalizing s with
  | nil => exact h
  | cons a as ih =>
    have hrest : ∀ s, ∀ b ∈ as, P s → P (f s b).1 := fun s b hb =>
      hf s b (List.mem_cons_of_mem a hb)
    have h1 := hf s a List.mem_cons_self h
    cases h' : (f s a).2 with
    | ok u => rw [each_cons_ok h']; exact ih hrest h1
    | error e => rw [each_cons_error h']; exact h1

theorem each_proj {τ : Type*} (π : σ → τ) {g : τ → α → τ × Except ε Unit}
    (hf : ∀ s a, π (f s a).1 = (g (π s) a).1 ∧ (f s a).2 = (g (π s) a).2) (as : List α) (s : σ) :
    π (each f as s).1 = (each g as (π s)).1 ∧ (each f as s).2 = (each g as (π s)).2 := by
  induction as generalizing s with
  | nil => exact ⟨rfl, rfl⟩
  | cons a as ih =>
    obtain ⟨h1, h2⟩ := hf s a
    cases h : (f s a).2 with
    | ok u =>
      rw [each_cons_ok h, each_cons_ok (h2.symm.trans h), ← h1]
      exact ih _
    | error e =>
      rw [each_cons_error h, each_cons_error (h2.symm.trans h)]
      exact ⟨h1, h2⟩

end Lib
