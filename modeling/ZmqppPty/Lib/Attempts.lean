import Mathlib.Tactic

/-!
# Calls that may be refused

A list of calls is made in order until one of them is refused; whether one is refused depends on
those made before it.

* `attempts`            the calls that have been made, the refused one included, and its reason;
* `attempts_append`     what follows a list is made if none of the list is refused;
* `Granted`             none of them is refused;
* `attempts_none_iff`   all of them, iff none is refused.
-/

namespace Lib

variable {α ε : Type*} (refuse : List α → Option ε)

/-- `made` has been made already; `refuse` tells of the last call of a list -/
def attempts : List α → List α → List α × Option ε
  | made, [] => (made, none)
  | made, c :: calls =>
    match refuse (made ++ [c]) with
    | some e => (made ++ [c], some e)
    | none => attempts (made ++ [c]) calls

/-- none of the calls is refused -/
def Granted (made calls : List α) : Prop :=
  ∀ pre, pre ≠ [] → pre <+: calls → refuse (made ++ pre) = none

variable {refuse}

theorem attempts_cons_refused {made calls : List α} {c : α} {e : ε}
    (h : refuse (made ++ [c]) = some e) :
    attempts refuse made (c :: calls) = (made ++ [c], some e) := by
  rw [attempts, h]

theorem attempts_cons_granted {made calls : List α} {c : α} (h : refuse (made ++ [c]) = none) :
    attempts refuse made (c :: calls) = attempts refuse (made ++ [c]) calls := by
  rw [attempts, h]

theorem attempts_append (made a b : List α) :
    attempts refuse made (a ++ b) =
      if (attempts refuse made a).2 = none then attempts refuse (attempts refuse made a).1 b
      else attempts refuse made a := by
  induction a generalizing made with
  | nil => rfl
  | cons c a ih =>
    rw [List.cons_append]
    cases h : refuse (made ++ [c]) with
    | some e =>
      rw [attempts_cons_refused h, attempts_cons_refused h]
      rfl
    | none => rw [attempts_cons_granted h, attempts_cons_granted h, ih]

theorem attempts_all {made calls : List α} (h : (attempts refuse made calls).2 = none) :
    (attempts refuse made calls).1 = made ++ calls := by
  induction calls generalizing made with
  | nil => exact (List.append_nil made).symm
  | cons c calls ih =>
    cases hc : refuse (made ++ [c]) with
    | some e =>
      rw [attempts_cons_refused hc] at h
      cases h
    | none =>
      rw [attempts_cons_granted hc] at h ⊢
      rw [ih h, List.append_assoc]
      rfl

theorem granted_cons {made calls : List α} {c : α} :
    Granted refuse made (c :: calls) ↔
      refuse (made ++ [c]) = none ∧ Granted refuse (made ++ [c]) calls := by
  constructor
  · intro h
    refine ⟨h [c] (List.cons_ne_nil c []) ⟨calls, rfl⟩, fun pre hne hpre => ?_⟩
    have := h (c :: pre) (List.cons_ne_nil c pre) (List.cons_prefix_cons.mpr ⟨rfl, hpre⟩)
    rwa [List.append_assoc]
  · rintro ⟨hc, hrest⟩ pre hne hpre
    obtain ⟨d, rest, rfl⟩ := List.exists_cons_of_ne_nil hne
    obtain ⟨rfl, htail⟩ := List.cons_prefix_cons.mp hpre
    by_cases hnil : rest = []
    · rwa [hnil]
    · have := hrest rest hnil htail
      rwa [List.append_assoc] at this

/-- **All calls are made iff none is refused.** -/
theorem attempts_none_iff {made calls : List α} :
    (attempts refuse made calls).2 = none ↔ Granted refuse made calls := by
  induction calls generalizing made with
  | nil =>
    refine iff_of_true rfl fun pre hne hpre => ?_
    exact absurd (List.prefix_nil.mp hpre) hne
  | cons c calls ih =>
    rw [granted_cons]
    cases h : refuse (made ++ [c]) with
    | some e =>
      rw [attempts_cons_refused h]
      exact iff_of_false (Option.some_ne_none e) fun hboth => Option.some_ne_none e hboth.1
    | none =>
      rw [attempts_cons_granted h, ih]
      exact ⟨fun hg => ⟨rfl, hg⟩, fun hboth => hboth.2⟩

end Lib
