import Mathlib.Tactic

/-!
# The heap

A heap is a list of blocks, a pointer the position of its block.  A block that has been freed is
never used again, and what is behind a pointer is only there as long as its block is.

* `block`              what a pointer points at, if it may be used;
* `malloc`, `free`, `realloc`   allocation always succeeds; whether a block is moved is up to the
                       `Allocator`;
* `store`              `memcpy` into a block, which has no result if it leaves the block;
* `realloc_some`, `store_some`, `free_some`   what each of them leaves.
-/

namespace Lib

/-- `none` is a cell that has not been written -/
abbrev Cells (α : Type*) := List (Option α)

structure Heap (α : Type*) where
  blocks : List (Option (Cells α)) := []

/-- whether `realloc` leaves the block where it is -/
class Allocator (α : Type*) where
  inPlace : Heap α → ℕ → ℕ → Bool

namespace Heap

section
variable {α : Type*}

def block (h : Heap α) (p : ℕ) : Option (Cells α) := h.blocks[p]?.join

def setBlock (h : Heap α) (p : ℕ) (b : Option (Cells α)) : Heap α := ⟨h.blocks.set p b⟩

def addBlock (h : Heap α) (b : Cells α) : Heap α × ℕ := (⟨h.blocks ++ [some b]⟩, h.blocks.length)

def malloc (h : Heap α) (n : ℕ) : Heap α × ℕ := h.addBlock (List.replicate n none)

def free (h : Heap α) (p : ℕ) : Option (Heap α) := (h.block p).map fun _ => h.setBlock p none

/-- the first `n` cells, or all and some more -/
def resize (b : Cells α) (n : ℕ) : Cells α := b.take n ++ List.replicate (n - b.length) none

def realloc [Allocator α] (h : Heap α) (p n : ℕ) : Option (Heap α × ℕ) :=
  (h.block p).map fun b =>
    if Allocator.inPlace h p n then (h.setBlock p (some (resize b n)), p)
    else (h.setBlock p none).addBlock (resize b n)

/-- the cells with some of them written -/
def overwrite (b : Cells α) (offset : ℕ) (data : List α) : Cells α :=
  b.take offset ++ data.map some ++ b.drop (offset + data.length)

/-- `memcpy(p + offset, data, n)` -/
def store (h : Heap α) (p offset : ℕ) (data : List α) : Option (Heap α) :=
  match h.block p with
  | none => none
  | some b =>
    if offset + data.length ≤ b.length then some (h.setBlock p (some (overwrite b offset data)))
    else none

/-! ## what is left -/

theorem block_setBlock {h : Heap α} {p : ℕ} {b : Cells α} (hp : h.block p = some b)
    (b' : Option (Cells α)) : (h.setBlock p b').block p = b' := by
  have hlt : p < h.blocks.length := by
    by_contra hge
    unfold block at hp
    rw [List.getElem?_eq_none (not_lt.mp hge)] at hp
    cases hp
  show (h.blocks.set p b')[p]?.join = b'
  rw [List.getElem?_set_self hlt]
  rfl

theorem block_addBlock (h : Heap α) (b : Cells α) :
    (h.addBlock b).1.block (h.addBlock b).2 = some b := by
  show (h.blocks ++ [some b])[h.blocks.length]?.join = some b
  rw [List.getElem?_concat_length]
  rfl

theorem length_resize (b : Cells α) (n : ℕ) : (resize b n).length = n := by
  unfold resize
  rw [List.length_append, List.length_take, List.length_replicate]
  omega

theorem length_overwrite {b : Cells α} {offset : ℕ} {data : List α}
    (hin : offset + data.length ≤ b.length) : (overwrite b offset data).length = b.length := by
  unfold overwrite
  rw [List.length_append, List.length_append, List.length_take, List.length_map, List.length_drop]
  omega

/-- written at the end of a front of the block -/
theorem overwrite_append (a b : Cells α) (data : List α) :
    overwrite (a ++ b) a.length data = a ++ data.map some ++ b.drop data.length := by
  unfold overwrite
  rw [List.take_left, List.drop_length_add_append]

theorem realloc_some [Allocator α] {h : Heap α} {p : ℕ} {b : Cells α} (hp : h.block p = some b)
    (n : ℕ) : ∃ h' p', h.realloc p n = some (h', p') ∧ h'.block p' = some (resize b n) := by
  unfold realloc
  rw [hp, Option.map_some]
  split
  · exact ⟨_, _, rfl, block_setBlock hp _⟩
  · exact ⟨_, _, rfl, block_addBlock _ _⟩

theorem store_some {h : Heap α} {p offset : ℕ} {b : Cells α} {data : List α}
    (hp : h.block p = some b) (hin : offset + data.length ≤ b.length) :
    ∃ h', h.store p offset data = some h' ∧ h'.block p = some (overwrite b offset data) := by
  unfold store
  rw [hp]
  exact ⟨_, if_pos hin, block_setBlock hp _⟩

theorem free_some {h : Heap α} {p : ℕ} {b : Cells α} (hp : h.block p = some b) :
    ∃ h', h.free p = some h' ∧ h'.block p = none := by
  unfold free
  rw [hp]
  exact ⟨_, rfl, block_setBlock hp none⟩

/-- what has been freed is not there any more -/
theorem block_of_free {h h' : Heap α} {p : ℕ} (hfree : h.free p = some h') : h'.block p = none := by
  unfold free at hfree
  obtain ⟨b, hp, rfl⟩ := Option.map_eq_some_iff.mp hfree
  exact block_setBlock hp none

end

end Heap
end Lib
