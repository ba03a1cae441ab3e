import Mathlib.Tactic
import Mathlib.Data.List.GetD
import Mathlib.Data.Nat.Digits.Defs
import Mathlib.Data.Nat.Digits.Lemmas

/-!
# Digits in pairs

Two digits in base `b` are one in base `b ^ 2`.  The least significant digit is the first.

* `pair`               a pair of neighbours as one digit;
* `ofDigits_pairs`     a number in both bases;
* `mod_eq_pairs_iff`   the only digits in base `b ^ 2` that spell the end of a number are its pairs.
-/

namespace Lib
namespace Digits

open Nat (ofDigits)

/-- the digits `2 * i` and `2 * i + 1` -/
def pair (b : ℕ) (ds : List ℕ) (i : ℕ) : ℕ := ds.getD (2 * i) 0 + b * ds.getD (2 * i + 1) 0

theorem ofDigits_pairs (b : ℕ) (ds : List ℕ) {k : ℕ} (hk : 2 * k ≤ ds.length) :
    ofDigits b (ds.take (2 * k)) = ofDigits (b ^ 2) ((List.range k).map (pair b ds)) := by
  induction k with
  | zero => simp
  | succ k ih =>
    have htake : ds.take (2 * (k + 1))
        = ds.take (2 * k) ++ [ds.getD (2 * k) 0, ds.getD (2 * k + 1) 0] := by
      have h0 : 2 * k < ds.length := by omega
      have h1 : 2 * k + 1 < ds.length := by omega
      show ds.take (2 * k + 1 + 1) = _
      rw [List.take_succ_eq_append_getElem h1, List.take_succ_eq_append_getElem h0,
        List.append_assoc, List.getD_eq_getElem _ _ h0, List.getD_eq_getElem _ _ h1]
      rfl
    rw [htake, Nat.ofDigits_append, ih (by omega), List.range_succ, List.map_append,
      Nat.ofDigits_append, List.length_take_of_le (by omega), List.length_map, List.length_range,
      pow_mul]
    simp [pair, Nat.ofDigits_cons]

theorem pair_lt {b : ℕ} {ds : List ℕ} (hb : 0 < b) (h : ∀ d ∈ ds, d < b) (i : ℕ) :
    pair b ds i < b ^ 2 := by
  have hd : ∀ j, ds.getD j 0 < b := by
    intro j
    by_cases hj : j < ds.length
    · rw [List.getD_eq_getElem _ _ hj]
      exact h _ (List.getElem_mem hj)
    · rw [List.getD_eq_default _ _ (not_lt.mp hj)]
      exact hb
  have h0 := hd (2 * i)
  have h1 := hd (2 * i + 1)
  unfold pair
  nlinarith

/-- **The digits of the end of a number are its pairs of digits.** -/
theorem mod_eq_pairs_iff {b : ℕ} {ds es : List ℕ} (hb : 1 < b) (hds : ∀ d ∈ ds, d < b)
    (hes : ∀ e ∈ es, e < b ^ 2) (hlen : 2 * es.length ≤ ds.length) :
    ofDigits (b ^ 2) es = ofDigits b ds % (b ^ 2) ^ es.length
      ↔ ∀ i, i < es.length → es.getD i 0 = pair b ds i := by
  have hpos : 0 < b := Nat.zero_lt_of_lt hb
  have hmod : ofDigits b ds % (b ^ 2) ^ es.length
      = ofDigits (b ^ 2) ((List.range es.length).map (pair b ds)) := by
    rw [← pow_mul, Nat.ofDigits_mod_pow_eq_ofDigits_take _ hpos ds hds, ofDigits_pairs b ds hlen]
  rw [hmod]
  constructor
  · intro h i hi
    have heq : es = (List.range es.length).map (pair b ds) := by
      refine Nat.ofDigits_inj_of_len_eq (Nat.one_lt_pow (by decide) hb) ?_ hes ?_ h
      · rw [List.length_map, List.length_range]
      · intro e he
        obtain ⟨j, -, rfl⟩ := List.mem_map.mp he
        exact pair_lt hpos hds j
    have hat := congrArg (fun l : List ℕ => l[i]?) heq
    rw [List.getElem?_map, List.getElem?_range hi] at hat
    rw [List.getD_eq_getElem?_getD, hat]
    rfl
  · intro h
    congr 1
    apply List.ext_getElem
    · rw [List.length_map, List.length_range]
    · intro i hi _
      rw [List.getElem_map, List.getElem_range, ← h i hi, List.getD_eq_getElem _ _ hi]

end Digits
end Lib
