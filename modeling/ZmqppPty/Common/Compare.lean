import ZmqppPty.Base
import ZmqppPty.Lib.Buffer

/-!
# Comparison of byte arrays (u8ncmp in common.c)

* `u8ncmp`              counts up from `-num_comp` as long as the arrays agree;
* `AgreeTo`             the arrays agree so far and no further;
* `u8ncmp_eq`           the result is how far they agree, less `num_comp`;
* `orders_bytes_iff`    the arrays for which its sign is that of the lexicographic comparison.
-/

namespace Zmqpp
namespace Common

open Lib.Buffer

/-- the `while` loop; `turns` is what is left up to `thres` -/
def u8ncmpLoop (u1 u2 : Bytes) : ℕ → ℕ → ℤ → Option ℤ
  | 0, _, cnt => some cnt
  | turns + 1, i, cnt =>
    match read u2 i, read u1 i with
    | some c2, some c1 => if c2 ≠ c1 then some cnt else u8ncmpLoop u1 u2 turns (i + 1) (cnt + 1)
    | _, _ => none

def u8ncmp (u1 u2 : Bytes) (u1Len u2Len numComp : ℕ) : Option ℤ :=
  let cnt : ℤ := -asInt numComp
  let thres : ℤ := if u2Len > u1Len then asInt u1Len else asInt u2Len
  u8ncmpLoop u1 u2 thres.toNat 0 cnt

/-- the sign is that of the comparison of at most `numComp` bytes of each array -/
def OrdersBytes (u1 u2 : Bytes) (numComp : ℕ) : Prop :=
  ∃ cnt, u8ncmp u1 u2 u1.length u2.length numComp = some cnt ∧
    (cnt < 0 ↔ u1.take numComp < u2.take numComp) ∧
    (cnt = 0 ↔ u1.take numComp = u2.take numComp) ∧
    (0 < cnt ↔ u2.take numComp < u1.take numComp)

/-- the arrays agree in exactly the first `k` of `thres` bytes -/
structure AgreeTo (u1 u2 : Bytes) (thres k : ℕ) : Prop where
  le : k ≤ thres
  take : u1.take k = u2.take k
  differ : k = thres ∨ u1[k]? ≠ u2[k]?

/-- `(int)` of the shorter length -/
def thresOf (u1 u2 : Bytes) : ℕ := (asInt (min u1.length u2.length : ℕ)).toNat

/-! ## the loop -/

theorem take_succ_of_get {u1 u2 : Bytes} {i : ℕ} (htake : u1.take i = u2.take i)
    (hget : u1[i]? = u2[i]?) : u1.take (i + 1) = u2.take (i + 1) := by
  rw [List.take_add_one, List.take_add_one, htake, hget]

theorem u8ncmpLoop_eq {u1 u2 : Bytes} {turns i : ℕ} (h1 : i + turns ≤ u1.length)
    (h2 : i + turns ≤ u2.length) (htake : u1.take i = u2.take i) (cnt : ℤ) :
    ∃ k : ℕ, u8ncmpLoop u1 u2 turns i cnt = some (cnt + k - i) ∧ AgreeTo u1 u2 (i + turns) k := by
  induction turns generalizing i cnt with
  | zero =>
    refine ⟨i, ?_, Nat.le_refl _, htake, Or.inl rfl⟩
    rw [Int.add_sub_cancel]
    rfl
  | succ turns ih =>
    have hi1 : i < u1.length := by omega
    have hi2 : i < u2.length := by omega
    have hread1 : read u1 i = some u1[i] := by rw [read_natCast, List.getElem?_eq_getElem hi1]
    have hread2 : read u2 i = some u2[i] := by rw [read_natCast, List.getElem?_eq_getElem hi2]
    rw [u8ncmpLoop, hread1, hread2]
    dsimp only
    by_cases hne : u2[i] ≠ u1[i]
    · rw [if_pos hne]
      refine ⟨i, by rw [Int.add_sub_cancel], Nat.le_add_right i _, htake, Or.inr ?_⟩
      rw [List.getElem?_eq_getElem hi1, List.getElem?_eq_getElem hi2]
      exact fun heq => hne (Option.some.inj heq).symm
    · have hget : u1[i]? = u2[i]? := by
        rw [List.getElem?_eq_getElem hi1, List.getElem?_eq_getElem hi2, not_not.mp hne]
      rw [if_neg hne]
      obtain ⟨k, hloop, hagree⟩ :=
        @ih (i + 1) (by omega) (by omega) (take_succ_of_get htake hget) (cnt + 1)
      refine ⟨k, ?_, ?_⟩
      · rw [hloop]
        congr 1
        push_cast
        ring
      · rw [Nat.add_right_comm] at hagree
        exact hagree

theorem thresOf_le (u1 u2 : Bytes) : thresOf u1 u2 ≤ min u1.length u2.length :=
  Int.toNat_le.mpr (asInt_le _ (Int.natCast_nonneg _))

/-- **How far the arrays agree, less `num_comp`.** -/
theorem u8ncmp_eq (u1 u2 : Bytes) {numComp : ℕ} (hint : (numComp : ℤ) ≤ intMax) :
    ∃ k : ℕ, u8ncmp u1 u2 u1.length u2.length numComp = some ((k : ℤ) - numComp) ∧
      AgreeTo u1 u2 (thresOf u1 u2) k := by
  have hle := thresOf_le u1 u2
  obtain ⟨k, hloop, hagree⟩ := @u8ncmpLoop_eq u1 u2 (thresOf u1 u2) 0 (by omega) (by omega) rfl
    (-asInt numComp)
  rw [Nat.zero_add] at hagree
  refine ⟨k, ?_, hagree⟩
  have hthres : (if u2.length > u1.length then asInt u1.length else asInt u2.length).toNat
      = thresOf u1 u2 := by
    unfold thresOf
    split
    · rename_i hlt
      rw [min_eq_left (Nat.le_of_lt hlt)]
    · rename_i hge
      rw [min_eq_right (Nat.le_of_not_lt hge)]
  have hcnt : -(numComp : ℤ) + k - (0 : ℕ) = k - numComp := by
    push_cast
    ring
  rw [asInt_of_le (Int.natCast_nonneg _) hint, hcnt] at hloop
  unfold u8ncmp
  dsimp only
  rw [hthres, asInt_of_le (Int.natCast_nonneg _) hint]
  exact hloop

/-! ## the order -/

theorem take_eq_of_le {u1 u2 : Bytes} {k n : ℕ} (h : u1.take n = u2.take n) (hk : k ≤ n) :
    u1.take k = u2.take k := by
  have htake := congrArg (List.take k) h
  rw [List.take_take, List.take_take, min_eq_left hk] at htake
  exact htake

/-- there is one such number -/
theorem AgreeTo.unique {u1 u2 : Bytes} {thres k n : ℕ} (hk : AgreeTo u1 u2 thres k)
    (hn : AgreeTo u1 u2 thres n) : k ≤ n := by
  by_contra hlt
  have hget := congrArg (fun l : Bytes => l[n]?) hk.take
  rw [List.getElem?_take_of_lt (not_le.mp hlt), List.getElem?_take_of_lt (not_le.mp hlt)] at hget
  rcases hn.differ with heq | hne
  · have := hk.le
    omega
  · exact hne hget

/-- **The sign is right iff the first array is the smaller one, or the arrays agree in exactly
`num_comp` bytes.** -/
theorem orders_bytes_iff (u1 u2 : Bytes) (numComp : ℕ) (hint : (numComp : ℤ) ≤ intMax) :
    OrdersBytes u1 u2 numComp
      ↔ u1.take numComp < u2.take numComp ∨ AgreeTo u1 u2 (thresOf u1 u2) numComp := by
  obtain ⟨k, hcmp, hagree⟩ := u8ncmp_eq u1 u2 hint
  have hless : u1.take numComp < u2.take numComp → k < numComp := by
    intro hlt
    by_contra hge
    rw [take_eq_of_le hagree.take (not_lt.mp hge)] at hlt
    exact List.lt_irrefl _ hlt
  constructor
  · rintro ⟨cnt, hcnt, -, hzero, hpos⟩
    obtain rfl := Option.some.inj (hcmp.symm.trans hcnt)
    by_contra hno
    obtain ⟨hlt, hno⟩ := not_or.mp hno
    by_cases hgt : u2.take numComp < u1.take numComp
    · have := hpos.mpr hgt
      rw [take_eq_of_le hagree.take (by omega)] at hgt
      exact List.lt_irrefl _ hgt
    · have heq := List.le_antisymm (List.not_lt.mp hgt) (List.not_lt.mp hlt)
      have := hzero.mpr heq
      obtain rfl : k = numComp := by omega
      exact hno hagree
  · rintro (hlt | hexact)
    · have hk := hless hlt
      have hasymm := List.lt_asymm hlt
      have hne : u1.take numComp ≠ u2.take numComp := by
        intro heq
        rw [heq] at hlt
        exact List.lt_irrefl _ hlt
      refine ⟨_, hcmp, iff_of_true (by omega) hlt, iff_of_false (by omega) hne,
        iff_of_false (by omega) hasymm⟩
    · obtain rfl : k = numComp := le_antisymm (hagree.unique hexact) (hexact.unique hagree)
      rw [Int.sub_self] at hcmp
      have hirrefl : ¬ u2.take k < u2.take k := List.lt_irrefl _
      rw [← hagree.take] at hirrefl
      refine ⟨0, hcmp, iff_of_false (by decide) ?_, iff_of_true rfl hagree.take,
        iff_of_false (by decide) ?_⟩
      · rw [← hagree.take]
        exact hirrefl
      · rw [← hagree.take]
        exact hirrefl

theorem orders_bytes_three : OrdersBytes [1, 2, 3] [1, 4] 2 :=
  (orders_bytes_iff [1, 2, 3] [1, 4] 2 (by decide)).mpr (Or.inl (by decide))

/-- the greater array first, and equal arrays of which more is to be compared than they have -/
theorem greater_is_negative :
    u8ncmp [2] [1] 1 1 1 = some (-1) ∧ ¬ OrdersBytes [2] [1] 1 ∧
      u8ncmp [7] [7] 1 1 2 = some (-1) ∧ ¬ OrdersBytes [7] [7] 2 := by
  have h1 : u8ncmp [2] [1] 1 1 1 = some (-1) := by decide
  have h2 : u8ncmp [7] [7] 1 1 2 = some (-1) := by decide
  refine ⟨h1, ?_, h2, ?_⟩
  · rintro ⟨cnt, hcnt, hneg, -⟩
    obtain rfl := Option.some.inj (h1.symm.trans hcnt)
    revert hneg
    decide
  · rintro ⟨cnt, hcnt, -, hzero, -⟩
    obtain rfl := Option.some.inj (h2.symm.trans hcnt)
    revert hzero
    decide

end Common
end Zmqpp
