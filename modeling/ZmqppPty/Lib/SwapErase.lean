import Mathlib.Tactic

/-!
# Erasing from a vector by swapping with the last element

`swapErase l i` is what `std::swap(v[i], v.back()); v.pop_back();` leaves of the vector `l`.

* `swapErase_eq`      in terms of the parts before and after position `i`;
* `swapErase_perm`    up to order only the element at `i` is gone;
* `swapErase_get`     the element at each remaining position: at `i` stands the former last one.
-/

namespace Lib
variable {α : Type*}

/-- `std::swap(v[i], v.back())` -/
def swapBack (l : List α) (i : ℕ) : List α :=
  match l[i]?, l.getLast? with
  | some a, some b => (l.set i b).set (l.length - 1) a
  | _, _ => l

/-- swap with the last element, then `pop_back` -/
def swapErase (l : List α) (i : ℕ) : List α := (swapBack l i).dropLast

theorem swapErase_last (l : List α) (a : α) : swapErase (l ++ [a]) l.length = l := by
  simp [swapErase, swapBack]

theorem swapErase_eq (l r : List α) (a b : α) :
    swapErase (l ++ a :: (r ++ [b])) l.length = l ++ b :: r := by
  have hlast : (l ++ a :: (r ++ [b])).getLast? = some b := by
    rw [← List.cons_append, ← List.append_assoc, List.getLast?_concat]
  have hlen : (l ++ a :: (r ++ [b])).length - 1 = (l ++ b :: r).length := by simp
  have hset : (l ++ a :: (r ++ [b])).set l.length b = (l ++ b :: r) ++ [b] := by simp
  unfold swapErase swapBack
  rw [hlast]
  simp only [List.getElem?_append_right (Nat.le_refl _), Nat.sub_self, List.getElem?_cons_zero]
  have hset' : ((l ++ b :: r) ++ [b]).set (l ++ b :: r).length a = (l ++ b :: r) ++ [a] := by simp
  rw [hlen, hset, hset']
  exact List.dropLast_concat

/-- a position of a list splits it into the part before, the element, and the part after -/
theorem exists_split {l : List α} {i : ℕ} {a : α} (h : l[i]? = some a) :
    ∃ x y, l = x ++ a :: y ∧ x.length = i := by
  obtain ⟨hi, rfl⟩ := List.getElem?_eq_some_iff.mp h
  refine ⟨l.take i, l.drop (i + 1), ?_, List.length_take_of_le (Nat.le_of_lt hi)⟩
  rw [← List.drop_eq_getElem_cons hi, List.take_append_drop]

theorem swapErase_perm {l : List α} {i : ℕ} {a : α} (h : l[i]? = some a) :
    l.Perm (a :: swapErase l i) := by
  obtain ⟨x, y, rfl, rfl⟩ := exists_split h
  rcases List.eq_nil_or_concat y with rfl | ⟨y', b, rfl⟩
  · rw [swapErase_last]
    exact List.perm_append_singleton a x
  · rw [List.concat_eq_append, swapErase_eq]
    have h1 : (x ++ a :: (y' ++ [b])).Perm (a :: (x ++ (y' ++ [b]))) := List.perm_middle
    have h2 : (x ++ (y' ++ [b])).Perm (x ++ b :: y') :=
      (List.perm_append_singleton b y').append_left x
    exact h1.trans (h2.cons a)

theorem swapErase_length {l : List α} {i : ℕ} {a : α} (h : l[i]? = some a) :
    (swapErase l i).length = l.length - 1 := by
  have := (swapErase_perm h).length_eq
  rw [List.length_cons] at this
  omega

/-- what stands at position `j` afterwards: the former last element at `i`, nothing new elsewhere -/
theorem swapErase_get {l : List α} {i : ℕ} {a : α} (h : l[i]? = some a) {j : ℕ} {c : α}
    (hj : (swapErase l i)[j]? = some c) :
    j < l.length - 1 ∧ l[if j = i then l.length - 1 else j]? = some c := by
  have hlt : j < l.length - 1 := by
    rw [← swapErase_length h]
    exact (List.getElem?_eq_some_iff.mp hj).1
  refine ⟨hlt, ?_⟩
  obtain ⟨x, y, rfl, rfl⟩ := exists_split h
  rcases List.eq_nil_or_concat y with rfl | ⟨y', b, rfl⟩
  · rw [swapErase_last] at hj
    have hx : j < x.length := (List.getElem?_eq_some_iff.mp hj).1
    rw [if_neg (by omega), List.getElem?_append_left hx]
    exact hj
  · rw [List.concat_eq_append, swapErase_eq] at hj
    rw [List.concat_eq_append]
    by_cases e : j = x.length
    · subst e
      rw [if_pos rfl]
      have hb : b = c := by simpa using hj
      have hlast : (x ++ a :: (y' ++ [b])).getLast? = some b := by
        rw [← List.cons_append, ← List.append_assoc, List.getLast?_concat]
      rw [← List.getLast?_eq_getElem?, hlast, hb]
    · rw [if_neg e]
      by_cases hx : j < x.length
      · rw [List.getElem?_append_left hx] at hj ⊢
        exact hj
      · have hk : j - x.length ≠ 0 := by omega
        obtain ⟨k, hk'⟩ := Nat.exists_eq_succ_of_ne_zero hk
        rw [List.getElem?_append_right (by omega), hk', List.getElem?_cons_succ] at hj ⊢
        rw [List.getElem?_append_left (List.getElem?_eq_some_iff.mp hj).1]
        exact hj

/-- the converse of `swapErase_get` for a position other than the erased and the last one -/
theorem swapErase_get_of_ne {l : List α} {i : ℕ} {a : α} (h : l[i]? = some a) {j : ℕ}
    (hi : j ≠ i) (hj : j < l.length - 1) : (swapErase l i)[j]? = l[j]? := by
  have hlt : j < (swapErase l i).length := by rw [swapErase_length h]; exact hj
  have hsome := List.getElem?_eq_getElem hlt
  have := (swapErase_get h hsome).2
  rw [if_neg hi] at this
  rw [hsome, this]

end Lib
