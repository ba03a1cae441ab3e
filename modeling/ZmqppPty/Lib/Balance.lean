import ZmqppPty.Lib.Machine

/-!
# Accounts of numbered resources

Resources are numbered in the order in which they are given out, and the events of the machine are
the numbers of those it gets rid of.

* `Accounts`             what a state owns, what a step loses, and the balance of one step;
* `Accounts.exec`        the balance of a run, with everything lost on the way;
* `Accounts.once_iff`    each resource is got rid of exactly once, those counted that are owned in
                         the end, iff no step loses one.
-/

namespace Lib

/-- the number of times `b` is given out between two values of the next number -/
def givenOut (lo hi b : ℕ) : ℕ := if lo ≤ b ∧ b < hi then 1 else 0

theorem givenOut_self (n b : ℕ) : givenOut n n b = 0 := if_neg (by omega)

theorem givenOut_succ (n b : ℕ) : givenOut n (n + 1) b = [n].count b := by
  unfold givenOut
  rw [List.count_singleton]
  by_cases h : n = b
  · subst h; simp
  · rw [if_neg (by omega), if_neg (by simpa using h)]

theorem givenOut_add {n m k : ℕ} (h1 : n ≤ m) (h2 : m ≤ k) (b : ℕ) :
    givenOut n m b + givenOut m k b = givenOut n k b := by
  unfold givenOut
  split <;> split <;> split <;> omega

structure Accounts {σ ℓ : Type*} (M : Machine σ ℓ ℕ) where
  owned : σ → List ℕ
  next : σ → ℕ
  lost : σ → ℓ → List ℕ
  grows : ∀ s l t e, M.step s l = some (t, e) → next s ≤ next t
  /-- what was owned or has been given out since is got rid of, owned or lost -/
  step : ∀ s l t e, M.step s l = some (t, e) → ∀ b,
    e.count b + (owned t).count b + (lost s l).count b
      = (owned s).count b + givenOut (next s) (next t) b

namespace Accounts
variable {σ ℓ : Type*} {M : Machine σ ℓ ℕ} (A : Accounts M)

def LosesNone (s : σ) (l : ℓ) : Prop := A.lost s l = []

theorem exec {s t : σ} {ls : List ℓ} {e : List ℕ} (h : M.exec s ls = some (t, e)) :
    ∃ lost, (lost = [] ↔ M.Along A.LosesNone s ls) ∧ A.next s ≤ A.next t ∧ ∀ b,
      e.count b + (A.owned t).count b + lost.count b
        = (A.owned s).count b + givenOut (A.next s) (A.next t) b := by
  induction ls generalizing s e with
  | nil =>
    rw [Machine.exec_nil, Option.some.injEq, Prod.mk.injEq] at h
    obtain ⟨rfl, rfl⟩ := h
    refine ⟨[], iff_of_true rfl trivial, Nat.le_refl _, fun b => ?_⟩
    rw [givenOut_self, List.count_nil]
    omega
  | cons l ls ih =>
    obtain ⟨u, e1, e2, hs, hr, rfl⟩ := Machine.exec_cons h
    obtain ⟨lost, hiff, hle, hcount⟩ := ih hr
    have hgrows := A.grows s l u e1 hs
    refine ⟨A.lost s l ++ lost, ?_, hgrows.trans hle, fun b => ?_⟩
    · rw [List.append_eq_nil_iff, hiff]
      constructor
      · intro h
        exact h.2.cons hs h.1
      · intro h
        exact ⟨h.1, h.2 u e1 hs⟩
    · have h1 := hcount b
      have h2 := A.step s l u e1 hs b
      have h3 := givenOut_add hgrows hle b
      simp only [List.count_append]
      omega

/-- **Nothing is lost iff everything is got rid of exactly once.** -/
theorem once_iff {s t : σ} {ls : List ℓ} {e : List ℕ} (howned : A.owned s = [])
    (hnext : A.next s = 0) (h : M.exec s ls = some (t, e)) :
    (∀ b < A.next t, (e ++ A.owned t).count b = 1) ↔ M.Along A.LosesNone s ls := by
  obtain ⟨lost, hiff, -, hcount⟩ := A.exec h
  rw [howned, hnext] at hcount
  have hgiven : ∀ b, givenOut 0 (A.next t) b = if b < A.next t then 1 else 0 := by
    intro b
    unfold givenOut
    simp only [Nat.zero_le, true_and]
  rw [← hiff]
  constructor
  · intro hone
    by_contra hne
    obtain ⟨b, hb⟩ := List.exists_mem_of_ne_nil lost hne
    have hpos : 0 < lost.count b := List.count_pos_iff.mpr hb
    have hc := hcount b
    rw [hgiven, List.count_nil] at hc
    by_cases hlt : b < A.next t
    · have h1 := hone b hlt
      rw [List.count_append] at h1
      rw [if_pos hlt] at hc
      omega
    · rw [if_neg hlt] at hc
      omega
  · rintro rfl b hlt
    have hc := hcount b
    rw [hgiven, if_pos hlt, List.count_nil] at hc
    rw [List.count_append]
    omega

end Accounts
end Lib
