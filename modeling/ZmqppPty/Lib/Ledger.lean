import Mathlib.Tactic

/-!
# Ledgers of numbered resources

Resources are numbered as they come up.  `born` and `died` mark the events of a resource in a trace.

* `Marks`     the events tell the resources apart;
* `Ledger`    each number below `next` has come up once, and the live ones are those that have not
              gone; none goes twice;
* `birth`, `death`, `others`   what one event does to it.
-/

namespace Lib
variable {ε : Type*} [DecidableEq ε]

structure Marks (born died : ℕ → ε) : Prop where
  born_inj : Function.Injective born
  died_inj : Function.Injective died
  ne : ∀ h k, born h ≠ died k

structure Ledger (born died : ℕ → ε) (tr : List ε) (next : ℕ) (live : ℕ → Prop) : Prop where
  born_count : ∀ h, tr.count (born h) = if h < next then 1 else 0
  died_count : ∀ h, tr.count (died h) ≤ 1
  died_old : ∀ h, died h ∈ tr → h < next
  live_iff : ∀ h, live h ↔ h < next ∧ died h ∉ tr

theorem count_concat (tr : List ε) (e a : ε) :
    (tr ++ [e]).count a = tr.count a + if e = a then 1 else 0 := by
  simp [List.count_append, List.count_singleton]

namespace Ledger

variable {born died : ℕ → ε} {tr : List ε} {next : ℕ} {live : ℕ → Prop}

theorem init : Ledger born died [] 0 (fun _ => False) where
  born_count h := by simp
  died_count h := by simp
  died_old h hm := by cases hm
  live_iff h := by simp

theorem lt_of_live (l : Ledger born died tr next live) {h : ℕ} (hl : live h) : h < next :=
  ((l.live_iff h).mp hl).1

theorem not_live_next (l : Ledger born died tr next live) : ¬ live next :=
  fun h => Nat.lt_irrefl _ (l.lt_of_live h)

theorem mem_born_iff (l : Ledger born died tr next live) (h : ℕ) : born h ∈ tr ↔ h < next := by
  rw [← List.count_pos_iff, l.born_count]
  split <;> simp_all

/-- the live ones, said by the trace -/
theorem by_trace (l : Ledger born died tr next live) :
    Ledger born died tr next (fun h => born h ∈ tr ∧ died h ∉ tr) where
  born_count := l.born_count
  died_count := l.died_count
  died_old := l.died_old
  live_iff h := by rw [l.mem_born_iff]

theorem birth (l : Ledger born died tr next live) (m : Marks born died) :
    Ledger born died (tr ++ [born next]) (next + 1) (fun h => live h ∨ h = next) where
  born_count h := by
    rw [count_concat, l.born_count]
    simp only [m.born_inj.eq_iff]
    split <;> split <;> split <;> omega
  died_count h := by
    rw [count_concat, if_neg (m.ne next h)]
    exact l.died_count h
  died_old h hm := by
    rcases List.mem_append.mp hm with hm | hm
    · exact Nat.lt_succ_of_lt (l.died_old h hm)
    · exact absurd (List.mem_singleton.mp hm).symm (m.ne next h)
  live_iff h := by
    have hdied : died h ∈ tr ++ [born next] ↔ died h ∈ tr := by
      rw [List.mem_append, List.mem_singleton, or_iff_left (m.ne next h).symm]
    rw [l.live_iff, hdied]
    constructor
    · rintro (⟨hlt, hnot⟩ | rfl)
      · exact ⟨Nat.lt_succ_of_lt hlt, hnot⟩
      · exact ⟨Nat.lt_succ_self _, fun hm => Nat.lt_irrefl _ (l.died_old _ hm)⟩
    · rintro ⟨hlt, hnot⟩
      rcases Nat.lt_succ_iff_lt_or_eq.mp hlt with hlt | heq
      · exact .inl ⟨hlt, hnot⟩
      · exact .inr heq

theorem death (l : Ledger born died tr next live) (m : Marks born died) {c : ℕ} (hc : live c) :
    Ledger born died (tr ++ [died c]) next (fun h => live h ∧ h ≠ c) where
  born_count h := by
    rw [count_concat, l.born_count, if_neg (m.ne h c).symm]
    rfl
  died_count h := by
    rw [count_concat]
    split
    · rename_i heq
      cases m.died_inj heq
      rw [List.count_eq_zero_of_not_mem ((l.live_iff _).mp hc).2]
    · exact l.died_count h
  died_old h hm := by
    rcases List.mem_append.mp hm with hm | hm
    · exact l.died_old h hm
    · rw [m.died_inj (List.mem_singleton.mp hm)]
      exact l.lt_of_live hc
  live_iff h := by
    rw [l.live_iff, List.mem_append, List.mem_singleton, m.died_inj.eq_iff, not_or, and_assoc]

theorem other (l : Ledger born died tr next live) {e : ε} (hb : ∀ h, e ≠ born h)
    (hd : ∀ h, e ≠ died h) : Ledger born died (tr ++ [e]) next live where
  born_count h := by
    rw [count_concat, if_neg (hb h)]
    exact l.born_count h
  died_count h := by
    rw [count_concat, if_neg (hd h)]
    exact l.died_count h
  died_old h hm := by
    rcases List.mem_append.mp hm with hm | hm
    · exact l.died_old h hm
    · exact absurd (List.mem_singleton.mp hm).symm (hd h)
  live_iff h := by
    rw [l.live_iff, List.mem_append, List.mem_singleton, or_iff_left (hd h).symm]

theorem others (l : Ledger born died tr next live) {es : List ε}
    (h : ∀ e ∈ es, (∀ k, e ≠ born k) ∧ ∀ k, e ≠ died k) :
    Ledger born died (tr ++ es) next live := by
  induction es generalizing tr with
  | nil => rwa [List.append_nil]
  | cons e es ih =>
    obtain ⟨hb, hd⟩ := h e List.mem_cons_self
    rw [List.append_cons]
    exact ih (l.other hb hd) fun e' he' => h e' (List.mem_cons_of_mem _ he')

end Ledger
end Lib
