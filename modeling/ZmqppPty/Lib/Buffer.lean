import Mathlib.Tactic

/-!
# Arrays with bounds

An array of C is a list, an access out of its bounds has no result.

* `read`, `write`     one element, at an index that may be any integer;
* `get_unwritten`     a buffer behind what has been written into it;
* `forRange`          a loop that counts up from zero, its body may fail;
* `forRange_inv`      the rule for loops: an invariant that each turn moves on by one;
* `forRange_reaches`  a loop that ends has made every turn;
* `forRange_copy`     a loop that copies one element after the other (`forRange_fill`: that writes
                      the values of a function);
* `asInt`, `asSize`   the casts of a size to `int` and of an integer to `size_t`.
-/

namespace Lib
namespace Buffer

/-! ## elements -/

section
variable {α : Type*}

def read (a : List α) (i : ℤ) : Option α := if 0 ≤ i then a[i.toNat]? else none

def write (a : List α) (i : ℤ) (v : α) : Option (List α) :=
  if 0 ≤ i ∧ i < a.length then some (a.set i.toNat v) else none

theorem read_natCast (a : List α) (i : ℕ) : read a i = a[i]? := by
  unfold read
  rw [if_pos (Int.natCast_nonneg i), Int.toNat_natCast]

theorem write_natCast {a : List α} {i : ℕ} (h : i < a.length) (v : α) :
    write a i v = some (a.set i v) := by
  unfold write
  rw [if_pos ⟨Int.natCast_nonneg i, Int.ofNat_lt.mpr h⟩, Int.toNat_natCast]

/-- an access at the end of a front of the array -/
theorem write_append (a b : List α) (x v : α) :
    write (a ++ x :: b) a.length v = some (a ++ v :: b) := by
  rw [write_natCast (by simp), List.set_append_right _ _ (Nat.le_refl _), Nat.sub_self]
  rfl

/-- a write that succeeds is within the bounds, and keeps them -/
theorem write_inside {a b : List α} {i : ℤ} {v : α} (h : write a i v = some b) :
    i < a.length ∧ b.length = a.length := by
  unfold write at h
  split at h
  · rename_i hi
    rw [← Option.some.inj h, List.length_set]
    exact ⟨hi.2, rfl⟩
  · cases h

/-- what stands behind the front that has been written -/
theorem get_unwritten {front : List α} {size : ℕ} (h : front.length < size) (v : α) :
    (front ++ (List.replicate size v).drop front.length)[front.length]? = some v := by
  have hlt : front.length + 0 < (List.replicate size v).length := by
    rw [List.length_replicate]
    exact h
  rw [List.getElem?_append_right le_rfl, Nat.sub_self, List.getElem?_drop,
    List.getElem?_eq_getElem hlt, List.getElem_replicate]

end

/-! ## loops -/

section
variable {σ : Type*}

/-- `for (i = 0; i < n; i++)` -/
def forRange (body : ℕ → σ → Option σ) : ℕ → σ → Option σ
  | 0, s => some s
  | n + 1, s => (forRange body n s).bind (body n)

variable {body : ℕ → σ → Option σ}

/-- **The rule for loops.** -/
theorem forRange_inv {n : ℕ} (P : ℕ → σ → Prop) {s : σ} (h0 : P 0 s)
    (hstep : ∀ i s, i < n → P i s → ∃ t, body i s = some t ∧ P (i + 1) t) :
    ∃ t, forRange body n s = some t ∧ P n t := by
  induction n with
  | zero => exact ⟨s, rfl, h0⟩
  | succ n ih =>
    obtain ⟨u, hu, hPu⟩ := ih fun i s hi => hstep i s (Nat.lt_succ_of_lt hi)
    obtain ⟨t, ht, hPt⟩ := hstep n u (Nat.lt_succ_self n) hPu
    refine ⟨t, ?_, hPt⟩
    rw [forRange, hu]
    exact ht

/-- every turn of a loop that ends has been made, and the state before it keeps what they keep -/
theorem forRange_reaches {n : ℕ} {s u : σ} (P : σ → Prop) (h0 : P s)
    (hstep : ∀ i s t, P s → body i s = some t → P t) (h : forRange body n s = some u) {k : ℕ}
    (hk : k < n) : ∃ t t', P t ∧ body k t = some t' := by
  have hturn : ∀ n u, forRange body n s = some u → P u ∧
      ∀ k, k < n → ∃ t t', P t ∧ body k t = some t' := by
    intro n
    induction n with
    | zero =>
      intro u h
      exact ⟨Option.some.inj h ▸ h0, fun k hk => absurd hk (Nat.not_lt_zero k)⟩
    | succ n ih =>
      intro u h
      obtain ⟨t, ht, hu⟩ := Option.bind_eq_some_iff.mp h
      obtain ⟨hPt, hbefore⟩ := ih t ht
      refine ⟨hstep n t u hPt hu, fun k hk => ?_⟩
      rcases Nat.lt_succ_iff_lt_or_eq.mp hk with hk | rfl
      · exact hbefore k hk
      · exact ⟨t, u, hPt, hu⟩
  exact (hturn n u h).2 k hk

/-- a loop over explicit states -/
theorem forRange_eq {n : ℕ} (f : ℕ → σ) (hstep : ∀ i, i < n → body i (f i) = some (f (i + 1))) :
    forRange body n (f 0) = some (f n) := by
  obtain ⟨t, ht, rfl⟩ := @forRange_inv σ body n (fun i s => s = f i) (f 0) rfl (by
    rintro i s hi rfl
    exact ⟨f (i + 1), hstep i hi, rfl⟩)
  exact ht

end

/-- **One element after the other is copied.** -/
theorem forRange_copy {α : Type*} {body : ℕ → List α → Option (List α)} {input out : List α} {n : ℕ}
    (hin : n ≤ input.length) (hout : n ≤ out.length)
    (hbody : ∀ i s v, input[i]? = some v → body i s = write s i v) :
    forRange body n out = some (input.take n ++ out.drop n) := by
  refine @forRange_eq _ body n (fun i => input.take i ++ out.drop i) ?_
  intro i hi
  have hdrop : out.drop i = out[i] :: out.drop (i + 1) := List.drop_eq_getElem_cons (by omega)
  have hlen : (input.take i).length = i := List.length_take_of_le (by omega)
  have hwrite := write_append (input.take i) (out.drop (i + 1)) out[i] input[i]
  rw [hlen] at hwrite
  rw [hbody i _ _ (List.getElem?_eq_getElem (by omega)), hdrop, hwrite,
    List.take_succ_eq_append_getElem (by omega), List.append_assoc]
  rfl

/-- **One element after the other is written.** -/
theorem forRange_fill {α : Type*} {body : ℕ → List α → Option (List α)} (f : ℕ → α) {n : ℕ}
    {out : List α} (hn : n ≤ out.length)
    (hbody : ∀ i s, i < n → body i s = write s i (f i)) :
    forRange body n out = some ((List.range n).map f ++ out.drop n) := by
  have hlen : ((List.range n).map f).length = n := by
    rw [List.length_map, List.length_range]
  have hcopy := @forRange_copy α body ((List.range n).map f) out n hlen.ge hn (by
    intro i s v hv
    obtain ⟨hi, hget⟩ := List.getElem?_eq_some_iff.mp hv
    rw [List.getElem_map, List.getElem_range] at hget
    rw [hbody i s (hlen ▸ hi), hget])
  rw [List.take_of_length_le hlen.le] at hcopy
  exact hcopy

/-! ## sizes and integers -/

/-- `(int)` of a size: the value modulo `2 ^ 32` that an `int` can hold -/
def asInt (n : ℤ) : ℤ := n.bmod (2 ^ 32)

/-- `INT_MAX` -/
def intMax : ℤ := 2 ^ 31 - 1

theorem asInt_of_le {n : ℤ} (h0 : 0 ≤ n) (h : n ≤ intMax) : asInt n = n := by
  unfold intMax at h
  exact Int.bmod_eq_of_le (by omega) (by omega)

theorem asInt_toNat {n : ℕ} (h : (n : ℤ) ≤ intMax) : (asInt n).toNat = n := by
  rw [asInt_of_le (Int.natCast_nonneg n) h, Int.toNat_natCast]

theorem asInt_sub {n k : ℤ} (h0 : 0 ≤ k) (h : k ≤ asInt n) : asInt (n - k) = asInt n - k := by
  unfold asInt Int.bmod at *
  dsimp only at *
  split at h <;> split <;> omega

/-- the cast keeps a size even or odd -/
theorem asInt_mod_two (n : ℤ) : asInt n % 2 = n % 2 := by
  unfold asInt Int.bmod
  dsimp only
  split <;> omega

/-- `(size_t)` of an integer -/
def asSize (n : ℤ) : ℕ := (n % 2 ^ 64).toNat

theorem asSize_of_lt {n : ℕ} (h : n < 2 ^ 64) : asSize n = n := by
  unfold asSize
  omega

theorem asInt_le (n : ℤ) (h0 : 0 ≤ n) : asInt n ≤ n := by
  unfold asInt Int.bmod
  dsimp only
  split <;> omega

end Buffer
end Lib
