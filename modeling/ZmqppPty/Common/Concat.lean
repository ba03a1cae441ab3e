import ZmqppPty.Lib.Heap
import ZmqppPty.Message.Stream

/-!
# Concatenation of strings (ccmsg and concat in common.c)

Both take a list of C strings and return a pointer to a new block.  An access outside a block, or
to one that has been freed, has no result.

* `textOf`               the C string at the beginning of a block;
* `ccmsg`                measures the strings, then appends one after the other;
* `concatBuild`, `concat`   grows a block while it copies, shrinks it, and frees it;
* `ccmsg_text`           `ccmsg` returns the concatenation;
* `concatBuild_eq`       `concat` copies within its block, always to the beginning of it;
* `concat_never_agrees`  what it returns has been freed.
-/

namespace Zmqpp
namespace Common

open Lib (Heap Cells Allocator)

/-! ## strings in memory -/

/-- up to the first NUL, unless a cell before it has not been written -/
def textOf : Cells UInt8 → Option Bytes
  | [] => none
  | none :: _ => none
  | some c :: b => if c = 0 then some [] else (textOf b).map (c :: ·)

/-- the C string at a pointer -/
def textAt (h : Heap UInt8) (p : ℕ) : Option Bytes := (h.block p).bind textOf

/-- `size_t` -/
def sizeT (n : ℕ) : ℕ := n % 2 ^ 64

/-! ## `ccmsg` -/

/-- `strcat(result, s)` -/
def strcat (h : Heap UInt8) (result : ℕ) (s : CString) : Option (Heap UInt8) :=
  match textAt h result with
  | none => none
  | some text => h.store result text.length s.memory

def strcatAll (result : ℕ) : List CString → Heap UInt8 → Option (Heap UInt8)
  | [], h => some h
  | s :: args, h =>
    match strcat h result s with
    | none => none
    | some h => strcatAll result args h

/-- how much space we need -/
def totalOf (total : ℕ) : List CString → ℕ
  | [] => total
  | s :: args => totalOf (sizeT (total + strlen s.memory)) args

def ccmsg (h : Heap UInt8) (args : List CString) : Option (Heap UInt8 × ℕ) :=
  let (h, result) := h.malloc (totalOf 1 args)
  match h.store result 0 [0] with
  | none => none
  | some h => (strcatAll result args h).map fun h => (h, result)

/-! ## `concat` -/

structure Concat where
  heap : Heap UInt8
  result : ℕ
  allocated : ℕ
  /-- `wp - result` -/
  wp : ℕ

section
variable [Allocator UInt8]

/-- resize the allocated memory if necessary -/
def Concat.grow (st : Concat) (len : ℕ) : Option Concat :=
  if st.wp + len + 1 > st.allocated then
    let allocated := sizeT ((st.allocated + len) * 2)
    (st.heap.realloc st.result allocated).map fun (heap, newp) =>
      { st with heap := heap, result := newp, allocated := allocated }
  else some st

/-- `wp = memcpy(wp, s, len)`: `memcpy` returns its first argument -/
def Concat.copy (st : Concat) (s : CString) (len : ℕ) : Option Concat :=
  (st.heap.store st.result st.wp (s.memory.take len)).map fun heap => { st with heap := heap }

def concatLoop : List CString → Concat → Option Concat
  | [], st => some st
  | s :: args, st =>
    let len := strlen s.memory
    match st.grow len with
    | none => none
    | some st =>
      match st.copy s len with
      | none => none
      | some st => concatLoop args st

/-- up to `free`: the string is terminated and the block resized to it -/
def concatBuild (h : Heap UInt8) (args : List CString) : Option (Heap UInt8 × ℕ) :=
  let (heap, result) := h.malloc 100
  match concatLoop args ⟨heap, result, 100, 0⟩ with
  | none => none
  | some st =>
    match st.heap.store st.result st.wp [0] with
    | none => none
    | some heap => heap.realloc st.result (st.wp + 1)

/-- the pointer is returned after `free(result)` -/
def concat (h : Heap UInt8) (args : List CString) : Option (Heap UInt8 × ℕ) :=
  match concatBuild h args with
  | none => none
  | some (heap, result) => (heap.free result).map fun heap => (heap, result)

/-- the concatenation of all arguments in order -/
def joined (args : List CString) : Bytes := args.flatMap fun s => s.val

/-- both return a live block, with the concatenation in it -/
def ConcatAgrees (h : Heap UInt8) (args : List CString) : Prop :=
  ∃ h1 p1 h2 p2, concat h args = some (h1, p1) ∧ ccmsg h args = some (h2, p2) ∧
    textAt h1 p1 = some (joined args) ∧ textAt h2 p2 = some (joined args)

end

/-! ## what `ccmsg` returns -/

theorem textOf_append {t : Bytes} (ht : (0 : UInt8) ∉ t) (rest : Cells UInt8) :
    textOf ((t ++ [0]).map some ++ rest) = some t := by
  induction t with
  | nil => rfl
  | cons c t ih =>
    have hc : c ≠ 0 := (List.ne_of_not_mem_cons ht).symm
    show (if c = 0 then some [] else (textOf ((t ++ [0]).map some ++ rest)).map (c :: ·)) = _
    rw [if_neg hc, ih (List.not_mem_of_not_mem_cons ht)]
    rfl

theorem totalOf_eq {args : List CString} {total : ℕ}
    (h : total + (joined args).length < 2 ^ 64) :
    totalOf total args = total + (joined args).length := by
  induction args generalizing total with
  | nil => rfl
  | cons s args ih =>
    have hjoined : (joined (s :: args)).length = s.val.length + (joined args).length :=
      List.length_append
    rw [hjoined] at h ⊢
    have hsize : sizeT (total + strlen s.memory) = total + s.val.length := by
      rw [Message.strlen_memory]
      exact Nat.mod_eq_of_lt (by omega)
    rw [totalOf, hsize, ih (by omega), Nat.add_assoc]

/-- the strings are appended to the text, as long as there is room -/
theorem strcatAll_eq {args : List CString} {h : Heap UInt8} {result : ℕ} {t : Bytes}
    {rest : Cells UInt8} (ht : (0 : UInt8) ∉ t)
    (hblock : h.block result = some ((t ++ [0]).map some ++ rest))
    (hroom : (joined args).length ≤ rest.length) :
    ∃ h', strcatAll result args h = some h' ∧ textAt h' result = some (t ++ joined args) := by
  induction args generalizing h t rest with
  | nil =>
    refine ⟨h, rfl, ?_⟩
    unfold textAt
    rw [hblock]
    show textOf _ = some (t ++ [])
    rw [textOf_append ht, List.append_nil]
  | cons s args ih =>
    have hjoined : joined (s :: args) = s.val ++ joined args := rfl
    rw [hjoined, List.length_append] at hroom
    have htext : textAt h result = some t := by
      unfold textAt
      rw [hblock]
      exact textOf_append ht rest
    have hin : t.length + s.memory.length ≤ ((t ++ [0]).map some ++ rest).length := by
      show t.length + (s.val ++ [0]).length ≤ _
      simp only [List.length_append, List.length_map, List.length_singleton]
      omega
    obtain ⟨h', hstore, hblock'⟩ := Lib.Heap.store_some hblock hin
    have hover : Lib.Heap.overwrite ((t ++ [0]).map some ++ rest) t.length s.memory
        = ((t ++ s.val) ++ [0]).map some ++ rest.drop s.val.length := by
      have hfront := Lib.Heap.overwrite_append (t.map some) (some 0 :: rest) s.memory
      have hmemory : s.memory = s.val ++ [0] := rfl
      rw [List.length_map, hmemory] at hfront
      rw [hmemory]
      simpa using hfront
    rw [hover] at hblock'
    have hnul : (0 : UInt8) ∉ t ++ s.val := by
      intro hmem
      exact (List.mem_append.mp hmem).elim ht s.property
    obtain ⟨h'', hrest, htext''⟩ := ih hnul hblock' (by rw [List.length_drop]; omega)
    refine ⟨h'', ?_, ?_⟩
    · rw [strcatAll, strcat, htext]
      dsimp only
      rw [hstore]
      exact hrest
    · rw [htext'', hjoined, List.append_assoc]

/-- **`ccmsg` returns the concatenation** in a block of its own. -/
theorem ccmsg_text (h : Heap UInt8) {args : List CString}
    (hsize : 1 + (joined args).length < 2 ^ 64) :
    ∃ h' p, ccmsg h args = some (h', p) ∧ textAt h' p = some (joined args) := by
  have htotal := totalOf_eq hsize
  have hblock := Lib.Heap.block_addBlock h (List.replicate (1 + (joined args).length) none)
  obtain ⟨h1, hstore, hblock1⟩ := @Lib.Heap.store_some _ _ _ 0 _ [(0 : UInt8)] hblock
    (by rw [List.length_replicate]; exact Nat.le_add_right 1 _)
  have hover : Lib.Heap.overwrite (List.replicate (1 + (joined args).length) none) 0 [(0 : UInt8)]
      = (([] : Bytes) ++ [0]).map some ++ List.replicate (joined args).length none := by
    rw [Nat.add_comm, List.replicate_succ]
    rfl
  rw [hover] at hblock1
  obtain ⟨h', hall, htext⟩ :=
    @strcatAll_eq args h1 _ [] _ List.not_mem_nil hblock1 (List.length_replicate).ge
  refine ⟨h', _, ?_, htext⟩
  unfold ccmsg Lib.Heap.malloc
  rw [htotal]
  dsimp only
  rw [hstore]
  dsimp only
  rw [hall]
  rfl

/-! ## what `concat` returns -/

/-- the block is there and as long as it is said to be, and nothing of it is used -/
structure Concat.Fresh (st : Concat) : Prop where
  wp : st.wp = 0
  block : ∃ b, st.heap.block st.result = some b ∧ b.length = st.allocated
  pos : 0 < st.allocated

theorem Concat.Fresh.copy {st : Concat} (h : st.Fresh) (s : CString)
    (hroom : s.val.length < st.allocated) :
    ∃ st', st.copy s (strlen s.memory) = some st' ∧ st'.Fresh := by
  obtain ⟨b, hb, hlength⟩ := h.block
  have hin : st.wp + s.val.length ≤ b.length := by
    rw [h.wp, hlength]
    omega
  obtain ⟨heap, hstore, hblock⟩ := Lib.Heap.store_some hb hin
  unfold Concat.copy
  rw [Message.take_strlen, hstore]
  exact ⟨_, rfl, h.wp, ⟨_, hblock, (Lib.Heap.length_overwrite hin).trans hlength⟩, h.pos⟩

section
variable [Allocator UInt8]

theorem Concat.Fresh.grow {st : Concat} (h : st.Fresh) {len : ℕ} (hlen : 4 * len < 2 ^ 64) :
    ∃ st', st.grow len = some st' ∧ st'.Fresh ∧ len < st'.allocated := by
  obtain ⟨b, hb, hlength⟩ := h.block
  have hpos := h.pos
  unfold Concat.grow
  rw [h.wp]
  by_cases hroom : 0 + len + 1 > st.allocated
  · have hsize : sizeT ((st.allocated + len) * 2) = (st.allocated + len) * 2 :=
      Nat.mod_eq_of_lt (by omega)
    obtain ⟨heap, newp, hrealloc, hnew⟩ := Lib.Heap.realloc_some hb ((st.allocated + len) * 2)
    rw [if_pos hroom]
    dsimp only
    rw [hsize, hrealloc]
    refine ⟨_, rfl, ⟨rfl, ⟨_, hnew, Lib.Heap.length_resize _ _⟩, ?_⟩, ?_⟩
    · show 0 < (st.allocated + len) * 2
      omega
    · show len < (st.allocated + len) * 2
      omega
  · rw [if_neg hroom]
    exact ⟨st, rfl, h, by omega⟩

/-- every copy goes to the beginning of the block, and the block is long enough for it -/
theorem concatLoop_fresh {args : List CString} {st : Concat} (h : st.Fresh)
    (hlen : ∀ s ∈ args, 4 * s.val.length < 2 ^ 64) :
    ∃ st', concatLoop args st = some st' ∧ st'.Fresh := by
  induction args generalizing st with
  | nil => exact ⟨st, rfl, h⟩
  | cons s args ih =>
    obtain ⟨st1, hgrow, h1, hroom⟩ := h.grow (hlen s List.mem_cons_self)
    obtain ⟨st2, hcopy, h2⟩ := h1.copy s hroom
    obtain ⟨st3, hloop, h3⟩ := ih h2 fun s' hs' => hlen s' (List.mem_cons_of_mem s hs')
    refine ⟨st3, ?_, h3⟩
    rw [← Message.strlen_memory] at hgrow
    rw [concatLoop, hgrow]
    dsimp only
    rw [hcopy]
    exact hloop

/-- **The terminator is written over the first character**, and the block is cut behind it. -/
theorem concatBuild_eq (h : Heap UInt8) {args : List CString}
    (hlen : ∀ s ∈ args, 4 * s.val.length < 2 ^ 64) :
    ∃ h' p, concatBuild h args = some (h', p) ∧ h'.block p = some [some 0] := by
  have hmalloc := Lib.Heap.block_addBlock h (List.replicate 100 (none : Option UInt8))
  have hfresh : Concat.Fresh ⟨(h.malloc 100).1, (h.malloc 100).2, 100, 0⟩ :=
    ⟨rfl, ⟨_, hmalloc, List.length_replicate⟩, Nat.succ_pos 99⟩
  obtain ⟨st, hloop, hst⟩ := concatLoop_fresh hfresh hlen
  obtain ⟨b, hb, hlength⟩ := hst.block
  have hpos := hst.pos
  have hin : 0 + [(0 : UInt8)].length ≤ b.length := by
    rw [hlength]
    exact hpos
  obtain ⟨h1, hstore, hblock⟩ := Lib.Heap.store_some hb hin
  obtain ⟨h2, p, hrealloc, hblock2⟩ := Lib.Heap.realloc_some hblock 1
  refine ⟨h2, p, ?_, ?_⟩
  · unfold concatBuild
    dsimp only
    rw [hloop]
    dsimp only
    rw [hst.wp, hstore]
    exact hrealloc
  · rw [hblock2]
    simp [Lib.Heap.resize, Lib.Heap.overwrite]

/-- the pointer that is returned has been freed -/
theorem concat_freed {h h' : Heap UInt8} {args : List CString} {p : ℕ}
    (hconcat : concat h args = some (h', p)) : h'.block p = none := by
  unfold concat at hconcat
  split at hconcat
  · cases hconcat
  · obtain ⟨heap, hfree, heq⟩ := Option.map_eq_some_iff.mp hconcat
    obtain ⟨rfl, rfl⟩ := Prod.mk.inj heq
    exact Lib.Heap.block_of_free hfree

/-- **What `concat` returns is never live.**  It does return, all its copies lie in its block, and
`ccmsg` returns the concatenation, unless a size overflows. -/
theorem concat_never_agrees (h : Heap UInt8) (args : List CString) :
    ¬ ConcatAgrees h args ∧
      ((∀ s ∈ args, 4 * s.val.length < 2 ^ 64) →
        ∃ h' p, concat h args = some (h', p) ∧ h'.block p = none) ∧
      (1 + (joined args).length < 2 ^ 64 →
        ∃ h' p, ccmsg h args = some (h', p) ∧ textAt h' p = some (joined args)) := by
  refine ⟨?_, ?_, ccmsg_text h⟩
  · rintro ⟨h1, p1, h2, p2, hconcat, -, htext, -⟩
    unfold textAt at htext
    rw [concat_freed hconcat] at htext
    cases htext
  · intro hlen
    obtain ⟨h1, p, hbuild, hblock⟩ := concatBuild_eq h hlen
    obtain ⟨h2, hfree, hdead⟩ := Lib.Heap.free_some hblock
    refine ⟨h2, p, ?_, hdead⟩
    unfold concat
    rw [hbuild]
    dsimp only
    rw [hfree]
    rfl

end

/-- an allocator that always moves a block -/
abbrev alwaysMoves : Allocator UInt8 := ⟨fun _ _ _ => false⟩

/-- "ab" and "c" -/
def twoStrings : List CString := [⟨ascii "ab", by decide⟩, ⟨ascii "c", by decide⟩]

theorem concat_never_agrees_two :
    ∃ h' p, @concat alwaysMoves {} twoStrings = some (h', p) ∧ h'.block p = none :=
  (@concat_never_agrees alwaysMoves {} twoStrings).2.1 (by decide)

/-- **The block that is returned for "ab" and "c" has been freed**, and before that it held the
empty string. -/
theorem two_strings_lost :
    (∃ h' p, @concatBuild alwaysMoves {} twoStrings = some (h', p) ∧ textAt h' p = some []) ∧
      (∃ h' p, @concat alwaysMoves {} twoStrings = some (h', p) ∧ textAt h' p = none) ∧
      (∃ h' p, ccmsg {} twoStrings = some (h', p) ∧ textAt h' p = some (ascii "abc")) ∧
      ¬ @ConcatAgrees alwaysMoves {} twoStrings := by
  refine ⟨⟨_, _, rfl, rfl⟩, ⟨_, _, rfl, rfl⟩, ⟨_, _, rfl, rfl⟩, ?_⟩
  rintro ⟨h1, p1, h2, p2, hconcat, -, htext, -⟩
  have hfreed : textAt h1 p1 = none := by
    obtain ⟨rfl, rfl⟩ := Prod.mk.inj (Option.some.inj hconcat.symm)
    rfl
  rw [hfreed] at htext
  cases htext

end Common
end Zmqpp
