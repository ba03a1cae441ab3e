import Mathlib.Tactic
import Mathlib.Data.List.TakeWhile

/-!
# Lines

A text is a list of characters, one of which ends a line.

* `unlines`                  the text of a list of lines;
* `complete`, `incomplete`   the lines of a text that are ended, and what comes after the last one;
* `firstLine`                the first line and the text after it;
* `runs`                     the maximal runs of lines that are not empty;
* `afterRun`                 the lines after the first empty one.
-/

namespace Lib
namespace Lines

section
variable {α : Type*} (sep : α)

def unlines (lines : List (List α)) : List α := lines.flatMap fun l => l ++ [sep]

variable {sep}

theorem unlines_cons (l : List α) (lines : List (List α)) :
    unlines sep (l :: lines) = l ++ sep :: unlines sep lines := by
  show (l ++ [sep]) ++ unlines sep lines = _
  rw [List.append_assoc]
  rfl

theorem length_le_unlines (sep : α) (lines : List (List α)) :
    lines.length ≤ (unlines sep lines).length := by
  induction lines with
  | nil => exact Nat.le_refl _
  | cons l lines ih =>
    rw [unlines_cons, List.length_cons, List.length_append, List.length_cons]
    omega

theorem unlines_eq_nil {lines : List (List α)} : unlines sep lines = [] ↔ lines = [] := by
  cases lines with
  | nil => exact iff_of_true rfl rfl
  | cons l lines =>
    rw [unlines_cons]
    exact iff_of_false (by simp) (List.cons_ne_nil l lines)

end

/-- what is between the separators -/
theorem flatten_splitOn {α : Type*} [BEq α] [LawfulBEq α] [DecidableEq α] (sep : α)
    (text : List α) : (text.splitOn sep).flatten = text.filter fun a => a ≠ sep := by
  induction text with
  | nil => rfl
  | cons a text ih =>
    obtain ⟨l, lines, hsplit⟩ := List.exists_cons_of_ne_nil (List.splitOn_ne_nil sep text)
    rw [hsplit, List.flatten_cons] at ih
    rw [List.splitOn_cons_eq_if_modifyHead, hsplit, List.filter_cons]
    by_cases ha : a = sep
    · rw [if_pos (beq_iff_eq.mpr ha), if_neg (by simp [ha]), List.flatten_cons, List.flatten_cons]
      exact ih
    · rw [if_neg (by simp [ha]), if_pos (decide_eq_true ha)]
      exact congrArg (List.cons a) ih

/-- the lines of a text with a separator after it -/
theorem unlines_splitOn {α : Type*} [BEq α] [LawfulBEq α] (sep : α) (text : List α) :
    unlines sep (text.splitOn sep) = text ++ [sep] := by
  induction text with
  | nil => rfl
  | cons a text ih =>
    obtain ⟨l, lines, hsplit⟩ := List.exists_cons_of_ne_nil (List.splitOn_ne_nil sep text)
    rw [hsplit, unlines_cons] at ih
    rw [List.splitOn_cons_eq_if_modifyHead, hsplit]
    by_cases ha : a = sep
    · rw [if_pos (beq_iff_eq.mpr ha), unlines_cons, unlines_cons, ih, ha]
      rfl
    · rw [if_neg (by simp [ha])]
      show unlines sep ((a :: l) :: lines) = _
      rw [unlines_cons]
      exact congrArg (List.cons a) ih

/-! ## reading lines -/

section
variable {α : Type*} [DecidableEq α] (sep : α)

def complete (text : List α) : List (List α) := (text.splitOn sep).dropLast

def incomplete (text : List α) : List α := (text.splitOn sep).getLastD []

def firstLine (text : List α) : Option (List α × List α) :=
  match text.dropWhile fun a => a ≠ sep with
  | [] => none
  | _ :: rest => some (text.takeWhile (fun a => a ≠ sep), rest)

variable {sep}

/-- what stands before the first `sep`, and what begins with it -/
theorem span_ne {l : List α} (h : sep ∉ l) (rest : List α) :
    (l ++ sep :: rest).takeWhile (fun a => a ≠ sep) = l ∧
      (l ++ sep :: rest).dropWhile (fun a => a ≠ sep) = sep :: rest := by
  have hall : ∀ a ∈ l, decide (a ≠ sep) = true := by
    intro a ha
    exact decide_eq_true fun heq => h (heq ▸ ha)
  rw [List.dropWhile_append_of_pos hall, List.takeWhile_append_of_pos hall]
  simp

theorem firstLine_append {l : List α} (h : sep ∉ l) (rest : List α) :
    firstLine sep (l ++ sep :: rest) = some (l, rest) := by
  obtain ⟨htake, hdrop⟩ := span_ne h rest
  unfold firstLine
  rw [htake, hdrop]

theorem firstLine_eq_none {text : List α} (h : sep ∉ text) : firstLine sep text = none := by
  have hnil : text.dropWhile (fun a => a ≠ sep) = [] := by
    apply List.dropWhile_eq_nil_iff.mpr
    intro a ha
    exact decide_eq_true fun heq => h (heq ▸ ha)
  unfold firstLine
  rw [hnil]

theorem eq_of_firstLine {text l rest : List α} (h : firstLine sep text = some (l, rest)) :
    text = l ++ sep :: rest ∧ sep ∉ l := by
  by_cases hmem : sep ∈ text
  · obtain ⟨l', rest', rfl, hl'⟩ := List.eq_append_cons_of_mem hmem
    rw [firstLine_append hl'] at h
    obtain ⟨rfl, rfl⟩ := Prod.mk.inj (Option.some.inj h)
    exact ⟨rfl, hl'⟩
  · rw [firstLine_eq_none hmem] at h
    cases h

theorem not_mem_of_firstLine {text : List α} (h : firstLine sep text = none) : sep ∉ text := by
  intro hmem
  obtain ⟨l, rest, rfl, hl⟩ := List.eq_append_cons_of_mem hmem
  rw [firstLine_append hl] at h
  cases h

/-- a line that is found among the first elements of a text -/
theorem firstLine_take {text l rest : List α} {n : ℕ}
    (h : firstLine sep (text.take n) = some (l, rest)) :
    text = l ++ sep :: (rest ++ text.drop n) ∧ sep ∉ l ∧ l.length < n := by
  obtain ⟨htake, hl⟩ := eq_of_firstLine h
  refine ⟨?_, hl, ?_⟩
  · have hsplit := List.take_append_drop n text
    rw [htake, List.append_assoc] at hsplit
    exact hsplit.symm
  · have hle := List.length_take_le n text
    rw [htake, List.length_append, List.length_cons] at hle
    omega

theorem not_mem_of_firstLine_take {text : List α} {n : ℕ} (hn : text.length ≤ n)
    (h : firstLine sep (text.take n) = none) : sep ∉ text := by
  have htake := not_mem_of_firstLine h
  rwa [List.take_of_length_le hn] at htake

theorem incomplete_of_not_mem {text : List α} (h : sep ∉ text) : incomplete sep text = text := by
  unfold incomplete
  rw [List.splitOn_eq_singleton h]
  rfl

theorem incomplete_append (a b : List α) :
    incomplete sep (a ++ sep :: b) = incomplete sep b := by
  unfold incomplete
  rw [List.splitOn_append_cons_self, List.getLastD_eq_getLast?, List.getLastD_eq_getLast?,
    List.getLast?_append_of_ne_nil _ (List.splitOn_ne_nil sep b)]

theorem complete_append {l : List α} (h : sep ∉ l) (rest : List α) :
    complete sep (l ++ sep :: rest) = l :: complete sep rest := by
  unfold complete
  rw [List.splitOn_append_cons_self_of_not_mem h, List.dropLast_cons_of_ne_nil]
  exact List.splitOn_ne_nil sep rest

theorem splitOn_unlines {lines : List (List α)} (h : ∀ l ∈ lines, sep ∉ l) :
    (unlines sep lines).splitOn sep = lines ++ [[]] := by
  induction lines with
  | nil => rfl
  | cons l lines ih =>
    rw [unlines_cons, List.splitOn_append_cons_self_of_not_mem (h l List.mem_cons_self),
      ih fun l' hl' => h l' (List.mem_cons_of_mem l hl')]
    rfl

theorem complete_unlines {lines : List (List α)} (h : ∀ l ∈ lines, sep ∉ l) :
    complete sep (unlines sep lines) = lines := by
  induction lines with
  | nil => rfl
  | cons l lines ih =>
    rw [unlines_cons, complete_append (h l List.mem_cons_self),
      ih fun l' hl' => h l' (List.mem_cons_of_mem l hl')]

end

/-! ## runs of lines -/

section
variable {β : Type*}

def afterRun (lines : List (List β)) : List (List β) := (lines.dropWhile fun l => l ≠ []).tail

theorem afterRun_cons (l : List β) (lines : List (List β)) :
    afterRun (l :: lines) = if l = [] then lines else afterRun lines := by
  unfold afterRun
  rw [List.dropWhile_cons]
  by_cases hl : l = []
  · simp [hl]
  · simp [hl]

variable [DecidableEq β]

def runs (lines : List (List β)) : List (List (List β)) :=
  (lines.splitOn []).filter fun run => run ≠ []

theorem runs_nil : runs ([] : List (List β)) = [] := rfl

/-- a run that an empty line ends -/
theorem runs_append {run : List (List β)} (h : [] ∉ run) (rest : List (List β)) :
    runs (run ++ [] :: rest) = (if run = [] then [] else [run]) ++ runs rest := by
  unfold runs
  rw [List.splitOn_append_cons_self_of_not_mem h, List.filter_cons]
  by_cases hr : run = []
  · simp [hr]
  · simp [hr]

/-- a run that nothing ends -/
theorem runs_of_not_mem {run : List (List β)} (h : [] ∉ run) :
    runs run = if run = [] then [] else [run] := by
  unfold runs
  rw [List.splitOn_eq_singleton h, List.filter_cons]
  by_cases hr : run = []
  · simp [hr]
  · simp [hr]

/-- the lines of the runs -/
theorem flatten_runs (lines : List (List β)) :
    (runs lines).flatten = lines.filter fun l => l ≠ [] := by
  unfold runs
  rw [List.flatten_filter_ne_nil, flatten_splitOn]

/-- an empty line at the end -/
theorem runs_append_nil (lines : List (List β)) : runs (lines ++ [[]]) = runs lines := by
  unfold runs
  rw [List.splitOn_append_cons_self, List.filter_append]
  exact List.append_nil _

theorem runs_eq_nil {lines : List (List β)} : runs lines = [] ↔ ∀ l ∈ lines, l = [] := by
  induction lines with
  | nil => simp [runs_nil]
  | cons l lines ih =>
    by_cases hl : l = []
    · subst hl
      have hcons : runs ([] ++ [] :: lines) = (if ([] : List (List β)) = [] then [] else [[]])
        ++ runs lines := runs_append List.not_mem_nil lines
      rw [List.nil_append, if_pos rfl, List.nil_append] at hcons
      rw [hcons, ih]
      simp
    · -- the first run begins with this line
      obtain ⟨run, rest, hsplit⟩ := List.exists_cons_of_ne_nil (List.splitOn_ne_nil [] lines)
      have hbeq : (l == []) = false := beq_eq_false_iff_ne.mpr hl
      have hrun : runs (l :: lines) = (l :: run) :: rest.filter fun run => run ≠ [] := by
        unfold runs
        rw [List.splitOn_cons_eq_if_modifyHead, hbeq, hsplit]
        simp
      rw [hrun]
      exact iff_of_false (List.cons_ne_nil _ _) fun hall => hl (hall l List.mem_cons_self)

/-- **The first run, and what is left after it.** -/
theorem runs_eq (lines : List (List β)) :
    runs lines = (if lines.takeWhile (fun l => l ≠ []) = [] then []
      else [lines.takeWhile fun l => l ≠ []]) ++ runs (afterRun lines) := by
  have hmem : [] ∉ lines.takeWhile fun l => l ≠ [] := by
    intro hmem
    have := List.mem_takeWhile_imp hmem
    simp at this
  have hsplit : lines.takeWhile (fun l => l ≠ []) ++ lines.dropWhile (fun l => l ≠ []) = lines :=
    List.takeWhile_append_dropWhile
  cases hdrop : lines.dropWhile fun l => l ≠ [] with
  | nil =>
    rw [hdrop, List.append_nil] at hsplit
    have hafter : afterRun lines = [] := by
      unfold afterRun
      rw [hdrop]
      rfl
    rw [hafter, runs_nil, List.append_nil, ← runs_of_not_mem hmem, hsplit]
  | cons l rest =>
    have hl : l = [] := by
      have hhead := List.head?_dropWhile_not (fun l : List β => decide (l ≠ [])) lines
      rw [hdrop] at hhead
      simpa using hhead
    subst hl
    have hafter : afterRun lines = rest := by
      unfold afterRun
      rw [hdrop]
      rfl
    rw [hdrop] at hsplit
    rw [hafter, ← runs_append hmem, hsplit]

end

end Lines
end Lib
