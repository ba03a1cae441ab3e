import Mathlib.Tactic

/-!
# Records one after the other

* `chunk`               the first items of an input, if it has as many;
* `readAll`             records read until the input is used up;
* `Delimits`            a reader of one record that stops where the record ends;
* `readAll_flatMap`     it reads back a sequence of records, each once and in order.
-/

namespace Lib
namespace Records
variable {α β : Type*}

/-- the first `n` items and what follows them -/
def chunk (n : ℕ) (input : List α) : Option (List α × List α) :=
  if n ≤ input.length then some (input.take n, input.drop n) else none

theorem chunk_append {n : ℕ} {l : List α} (h : l.length = n) (rest : List α) :
    chunk n (l ++ rest) = some (l, rest) := by
  subst h
  have hle : l.length ≤ (l ++ rest).length := by
    rw [List.length_append]
    exact Nat.le_add_right _ _
  unfold chunk
  rw [if_pos hle, List.take_left, List.drop_left]

/-- `none` if a record cannot be read, or if there are more than `fuel` -/
def readAll (read : List α → Option (β × List α)) : ℕ → List α → Option (List β)
  | _, [] => some []
  | 0, _ :: _ => none
  | fuel + 1, a :: input =>
    match read (a :: input) with
    | none => none
    | some (b, rest) => (readAll read fuel rest).map (b :: ·)

/-- a record of the kind `valid` is read back whatever follows it -/
structure Delimits (read : List α → Option (β × List α)) (write : β → List α) (valid : β → Prop) :
    Prop where
  reads : ∀ b, valid b → ∀ rest, read (write b ++ rest) = some (b, rest)
  nonempty : ∀ b, valid b → write b ≠ []

variable {read : List α → Option (β × List α)} {write : β → List α} {valid : β → Prop}

theorem Delimits.length_le (h : Delimits read write valid) {bs : List β}
    (hvalid : ∀ b ∈ bs, valid b) : bs.length ≤ (bs.flatMap write).length := by
  induction bs with
  | nil => exact Nat.le_refl _
  | cons b bs ih =>
    have hpos : 0 < (write b).length :=
      List.length_pos_of_ne_nil (h.nonempty b (hvalid b List.mem_cons_self))
    have hle := ih fun c hc => hvalid c (List.mem_cons_of_mem b hc)
    rw [List.flatMap_cons, List.length_append, List.length_cons]
    omega

/-- **A sequence of records is read back.** -/
theorem readAll_flatMap (h : Delimits read write valid) {bs : List β} (hvalid : ∀ b ∈ bs, valid b)
    {fuel : ℕ} (hfuel : bs.length ≤ fuel) : readAll read fuel (bs.flatMap write) = some bs := by
  induction bs generalizing fuel with
  | nil => cases fuel <;> rfl
  | cons b bs ih =>
    have hb := hvalid b List.mem_cons_self
    obtain ⟨fuel, rfl⟩ : ∃ n, fuel = n + 1 := Nat.exists_eq_add_of_le' (Nat.le_of_add_left_le hfuel)
    obtain ⟨a, l, hal⟩ := List.exists_cons_of_ne_nil (h.nonempty b hb)
    have hread := h.reads b hb (bs.flatMap write)
    rw [List.flatMap_cons]
    rw [hal, List.cons_append] at hread ⊢
    unfold readAll
    rw [hread]
    dsimp only
    rw [ih (fun c hc => hvalid c (List.mem_cons_of_mem b hc)) (Nat.le_of_succ_le_succ hfuel)]
    rfl

end Records
end Lib
