import ZmqppPty.Lib.Balance
import ZmqppPty.Lib.SwapErase
import ZmqppPty.Message.Basic

/-!
# Blocks handed over to messages and their release

`messages` runs the operations on any number of messages and emits the blocks whose release
function is called.  Blocks are numbered by `next` as they are handed over, so `b < next` says
that `b` was handed over.

* `MessageOp.lost`      the block that an operation drops without releasing it: that of a part erased
                        before the last one, which the move assignment of its successor overwrites;
* `Accounted`           every block is released, owned, lost or freshly handed over;
* `step_balance`        a step accounts for every block;
* `accounts`            so that the library's balance of a run applies;
* `released_once_iff`   every block is released exactly once iff no step of the run lost one.
-/

namespace Zmqpp

inductive MessageOp where
  | construct
  | move (m : ℕ) (part : Bytes)
  | addNocopy (m : ℕ) (part : Bytes)
  | addRaw (m : ℕ) (part : Bytes)
  | pushFront (m : ℕ) (part : Bytes)
  | popFront (m : ℕ)
  | popBack (m : ℕ)
  | remove (m i : ℕ)
  | moveCtor (source : ℕ)
  | moveAssign (target source : ℕ)
  | swap (a b : ℕ)

structure Messages where
  all : List Message := []
  next : Block := 0

namespace Messages

/-- replace message `i`, which released `r` on the way -/
def put (s : Messages) (i : ℕ) (m : Message × List Block) : Option (Messages × List Block) :=
  some ({ s with all := s.all.set i m.1 }, m.2)

def handOver (s : Messages) (i : ℕ) (m : Message × List Block) : Option (Messages × List Block) :=
  some ({ all := s.all.set i m.1, next := s.next + 1 }, m.2)

section
variable [VectorGrowth]

/-- One operation.  No step where C++ leaves the operation undefined: a message that does not
exist, an erased part out of range.  A message assigned to itself by move loses its parts, as
`std::vector` does in libstdc++. -/
def step (s : Messages) : MessageOp → Option (Messages × List Block)
  | .construct => some ({ s with all := s.all ++ [{}] }, [])
  | .move i part => s.all[i]?.bind fun m => s.handOver i (m.move part s.next)
  | .addNocopy i part => s.all[i]?.bind fun m => s.handOver i (m.addNocopy part (some s.next))
  | .addRaw i part => s.all[i]?.bind fun m => s.put i (m.addRaw part)
  | .pushFront i part => s.all[i]?.bind fun m => s.put i (m.pushFront part)
  | .popFront i => s.all[i]?.bind fun m => if 0 < m.count then s.put i m.popFront else none
  | .popBack i => s.all[i]?.bind fun m => if 0 < m.count then s.put i m.popBack else none
  | .remove i part =>
    s.all[i]?.bind fun m => if part < m.count then s.put i (m.remove part) else none
  | .moveCtor j => s.all[j]?.bind fun m =>
    some ({ s with all := s.all.set j m.moveCtor.2 ++ [m.moveCtor.1] }, [])
  | .moveAssign i j =>
    s.all[i]?.bind fun a => s.all[j]?.bind fun b =>
      if i = j then s.put i ({}, a.destroy)
      else some ({ s with all := (s.all.set j (a.moveAssign b).2.1).set i (a.moveAssign b).1 },
        (a.moveAssign b).2.2)
  | .swap i j =>
    s.all[i]?.bind fun a => s.all[j]?.bind fun b =>
      some ({ s with all := (s.all.set i (a.swap b).1).set j (a.swap b).2.1 }, (a.swap b).2.2)

/-- the machine whose events are the blocks released -/
def machine : Lib.Machine Messages MessageOp Block := ⟨step⟩

end

/-- the destruction of all messages -/
def destroyAll (s : Messages) : List Block := s.all.flatMap Message.destroy

/-- the blocks the messages own -/
def owned (s : Messages) : List Block := s.all.flatMap Message.blocks

end Messages

/-- the block of part `i` if the part is not the last one -/
def Message.overwritten (m : Message) (i : ℕ) : List Block :=
  if i + 1 < m.count then (m.parts.elems[i]?.map Frame.destroy).getD [] else []

/-- the blocks an operation drops without releasing them -/
def MessageOp.lost (s : Messages) : MessageOp → List Block
  | .popFront i => (s.all[i]?.map fun m => m.overwritten 0).getD []
  | .remove i part => (s.all[i]?.map fun m => m.overwritten part).getD []
  | _ => []

/-- an erased part is the last of its message or holds no block that was handed over -/
def ErasesNoBlock (s : Messages) (op : MessageOp) : Prop := op.lost s = []

/-- every block handed over is released exactly once, counting the destruction of all messages -/
def ReleasedOnce (s : Messages) (released : List Block) : Prop :=
  ∀ b < s.next, (released ++ s.destroyAll).count b = 1

/-! ## one operation -/

namespace Message

theorem remove_balance (m : Message) (i : ℕ) (hi : i < m.count) (b : Block) :
    (m.remove i).2.count b + (m.remove i).1.blocks.count b + (m.overwritten i).count b
      = m.blocks.count b := by
  have hget : m.parts.elems[i]? = some m.parts.elems[i] := List.getElem?_eq_getElem hi
  obtain ⟨x, y, hxy, hlen⟩ := Lib.exists_split hget
  generalize m.parts.elems[i] = f at hget hxy
  have hrel : (m.remove i).2 = if y = [] then f.destroy else [] := by
    rw [← hlen]
    exact m.parts.erase_released x f y hxy
  have hblocks : (m.remove i).1.blocks = x.flatMap Frame.destroy ++ y.flatMap Frame.destroy := by
    unfold blocks
    rw [remove_elems, hxy, ← hlen, List.eraseIdx_append_of_length_le (Nat.le_refl _), Nat.sub_self,
      List.eraseIdx_cons_zero, List.flatMap_append]
  have hold : m.blocks
      = x.flatMap Frame.destroy ++ (f.destroy ++ y.flatMap Frame.destroy) := by
    unfold blocks
    rw [hxy, List.flatMap_append, List.flatMap_cons]
  have hcount : m.count = i + (y.length + 1) := by
    show m.parts.elems.length = _
    rw [hxy, List.length_append, hlen, List.length_cons]
  have hover : m.overwritten i = if y = [] then [] else f.destroy := by
    unfold overwritten
    rw [hget, hcount]
    cases y with
    | nil => rw [if_neg (by simp), if_pos rfl]
    | cons a y => rw [if_pos (by simp), if_neg (by simp)]; rfl
  rw [hrel, hblocks, hover, hold]
  split <;> simp only [List.count_append, List.count_nil] <;> omega

theorem popBack_balance (m : Message) (hm : 0 < m.count) (b : Block) :
    m.popBack.2.count b + m.popBack.1.blocks.count b = m.blocks.count b := by
  rcases List.eq_nil_or_concat m.parts.elems with h | ⟨x, f, h⟩
  · have : m.count = 0 := by show m.parts.elems.length = 0; rw [h]; rfl
    omega
  · rw [List.concat_eq_append] at h
    have hrel : m.popBack.2 = f.destroy := by
      show (m.parts.elems.getLast?.map Frame.destroy).getD [] = _
      rw [h, List.getLast?_concat]
      rfl
    unfold blocks
    rw [hrel, popBack_elems, h, List.dropLast_concat, List.flatMap_append, List.flatMap_singleton,
      List.count_append]
    omega

end Message

namespace Messages

theorem count_owned_set {l : List Message} {i : ℕ} {m : Message} (h : l[i]? = some m) (m' : Message)
    (b : Block) :
    ((l.set i m').flatMap Message.blocks).count b + m.blocks.count b
      = (l.flatMap Message.blocks).count b + m'.blocks.count b := by
  obtain ⟨x, y, rfl, rfl⟩ := Lib.exists_split h
  rw [List.set_append_right _ _ (Nat.le_refl _), Nat.sub_self, List.set_cons_zero]
  simp only [List.flatMap_append, List.flatMap_cons, List.count_append]
  omega

/-- what message `i` gained or lost is what the state gained or lost -/
theorem put_balance {s t : Messages} {i : ℕ} {m : Message} {r : Message × List Block}
    {e : List Block} (hm : s.all[i]? = some m) (h : s.put i r = some (t, e)) (b : Block) :
    t.next = s.next ∧ e = r.2 ∧
      t.owned.count b + m.blocks.count b = s.owned.count b + r.1.blocks.count b := by
  simp only [put, Option.some.injEq, Prod.mk.injEq] at h
  obtain ⟨rfl, rfl⟩ := h
  exact ⟨rfl, rfl, count_owned_set hm r.1 b⟩

theorem handOver_balance {s t : Messages} {i : ℕ} {m : Message} {r : Message × List Block}
    {e : List Block} (hm : s.all[i]? = some m) (h : s.handOver i r = some (t, e)) (b : Block) :
    t.next = s.next + 1 ∧ e = r.2 ∧
      t.owned.count b + m.blocks.count b = s.owned.count b + r.1.blocks.count b := by
  simp only [handOver, Option.some.injEq, Prod.mk.injEq] at h
  obtain ⟨rfl, rfl⟩ := h
  exact ⟨rfl, rfl, count_owned_set hm r.1 b⟩

/-- what `s` owned and what has been handed over since is released, owned by `t`, or lost -/
def Accounted (s t : Messages) (released lost : List Block) : Prop :=
  s.next ≤ t.next ∧ ∀ b, released.count b + t.owned.count b + lost.count b
    = s.owned.count b + Lib.givenOut s.next t.next b

theorem put_accounted {s t : Messages} {i : ℕ} {m : Message} {r : Message × List Block}
    {e lost : List Block} (hm : s.all[i]? = some m) (h : s.put i r = some (t, e))
    (hr : ∀ b, r.2.count b + r.1.blocks.count b + lost.count b = m.blocks.count b) :
    Accounted s t e lost := by
  have hb := put_balance hm h
  refine ⟨(hb 0).1.ge, ?_⟩
  intro b
  obtain ⟨hn, he, hc⟩ := hb b
  have hm := hr b
  rw [hn, he, Lib.givenOut_self]
  omega

/-- the block handed over is the next one -/
theorem handOver_accounted {s t : Messages} {i : ℕ} {m : Message} {r : Message × List Block}
    {e : List Block} (hm : s.all[i]? = some m) (h : s.handOver i r = some (t, e))
    (hr : r.2 = [] ∧ r.1.blocks = m.blocks ++ [s.next]) : Accounted s t e [] := by
  have hb := handOver_balance hm h
  refine ⟨by rw [(hb 0).1]; exact Nat.le_succ _, ?_⟩
  intro b
  obtain ⟨hn, he, hc⟩ := hb b
  rw [hr.2, List.count_append] at hc
  rw [hn, he, hr.1, Lib.givenOut_succ, List.count_nil]
  omega

theorem construct_accounted (s : Messages) :
    Accounted s { s with all := s.all ++ [({} : Message)] } [] [] := by
  refine ⟨Nat.le_refl _, ?_⟩
  intro b
  have howned : (s.all ++ [({} : Message)]).flatMap Message.blocks = s.owned := by
    rw [List.flatMap_append]
    exact List.append_nil _
  show 0 + ((s.all ++ [({} : Message)]).flatMap Message.blocks).count b + 0 = _
  rw [howned, Lib.givenOut_self]
  omega

theorem moveCtor_accounted {s : Messages} {j : ℕ} {m : Message} (hm : s.all[j]? = some m) :
    Accounted s { s with all := s.all.set j m.moveCtor.2 ++ [m.moveCtor.1] } [] [] := by
  refine ⟨Nat.le_refl _, ?_⟩
  intro b
  have hc := count_owned_set hm m.moveCtor.2 b
  have hnil : m.moveCtor.2.blocks.count b = 0 := rfl
  show 0 + ((s.all.set j m.moveCtor.2 ++ [m.moveCtor.1]).flatMap Message.blocks).count b + 0 = _
  rw [List.flatMap_append, List.flatMap_singleton, List.count_append, Lib.givenOut_self]
  show _ + (_ + m.blocks.count b) + _ = (s.all.flatMap Message.blocks).count b + 0
  omega

theorem moveAssign_accounted {s : Messages} {i j : ℕ} {a c : Message} (ha : s.all[i]? = some a)
    (hc : s.all[j]? = some c) (hij : i ≠ j) :
    Accounted s { s with all := (s.all.set j (a.moveAssign c).2.1).set i (a.moveAssign c).1 }
      (a.moveAssign c).2.2 [] := by
  refine ⟨Nat.le_refl _, ?_⟩
  intro b
  have h1 := count_owned_set hc (a.moveAssign c).2.1 b
  have ha' : (s.all.set j (a.moveAssign c).2.1)[i]? = some a := by
    rw [List.getElem?_set_ne (Ne.symm hij)]
    exact ha
  have h2 := count_owned_set ha' (a.moveAssign c).1 b
  show a.blocks.count b + (((s.all.set j _).set i _).flatMap Message.blocks).count b + 0
    = (s.all.flatMap Message.blocks).count b + _
  rw [Lib.givenOut_self]
  change _ = _ + 0 at h1
  change _ = _ + c.blocks.count b at h2
  omega

theorem swap_accounted {s : Messages} {i j : ℕ} {a c : Message} (ha : s.all[i]? = some a)
    (hc : s.all[j]? = some c) :
    Accounted s { s with all := (s.all.set i c).set j a } [] [] := by
  refine ⟨Nat.le_refl _, ?_⟩
  intro b
  have h1 := count_owned_set ha c b
  show 0 + (((s.all.set i c).set j a).flatMap Message.blocks).count b + 0
    = (s.all.flatMap Message.blocks).count b + _
  rw [Lib.givenOut_self]
  by_cases hij : i = j
  · subst hij
    rw [ha, Option.some.injEq] at hc
    subst hc
    have ha' : (s.all.set i a)[i]? = some a := by
      rw [List.getElem?_set_self (List.getElem?_eq_some_iff.mp ha).1]
    have h2 := count_owned_set ha' a b
    omega
  · have hc' : (s.all.set i c)[j]? = some c := by
      rw [List.getElem?_set_ne hij]
      exact hc
    have h2 := count_owned_set hc' a b
    omega

section
variable [VectorGrowth]

/-- **One operation accounts for every block.** -/
theorem step_balance {s t : Messages} {op : MessageOp} {e : List Block}
    (h : s.step op = some (t, e)) : Accounted s t e (op.lost s) := by
  cases op with
  | construct =>
    simp only [step, Option.some.injEq, Prod.mk.injEq] at h
    obtain ⟨rfl, rfl⟩ := h
    exact construct_accounted s
  | move i part =>
    obtain ⟨m, hm, h⟩ := Option.bind_eq_some_iff.mp h
    exact handOver_accounted hm h ⟨m.parts.pushBack_released _, Message.move_blocks _ _ _⟩
  | addNocopy i part =>
    obtain ⟨m, hm, h⟩ := Option.bind_eq_some_iff.mp h
    exact handOver_accounted hm h ⟨m.parts.pushBack_released _, Message.addNocopy_blocks _ _ _⟩
  | addRaw i part =>
    obtain ⟨m, hm, h⟩ := Option.bind_eq_some_iff.mp h
    have hr : (m.addRaw part).2 = [] := m.parts.pushBack_released _
    apply put_accounted hm h
    intro b
    rw [hr, Message.addRaw_blocks]
    exact Nat.zero_add _
  | pushFront i part =>
    obtain ⟨m, hm, h⟩ := Option.bind_eq_some_iff.mp h
    have hr : (m.pushFront part).2 = [] := m.parts.emplaceFront_released _
    apply put_accounted hm h
    intro b
    rw [hr, Message.pushFront_blocks]
    exact Nat.zero_add _
  | popFront i =>
    obtain ⟨m, hm, h⟩ := Option.bind_eq_some_iff.mp h
    split at h
    · rename_i hpos
      have hl : (MessageOp.popFront i).lost s = m.overwritten 0 := by
        show (s.all[i]?.map _).getD [] = _
        rw [hm]
        rfl
      rw [hl]
      exact put_accounted hm h fun b => m.remove_balance 0 hpos b
    · cases h
  | popBack i =>
    obtain ⟨m, hm, h⟩ := Option.bind_eq_some_iff.mp h
    split at h
    · rename_i hpos
      exact put_accounted hm h fun b => m.popBack_balance hpos b
    · cases h
  | remove i part =>
    obtain ⟨m, hm, h⟩ := Option.bind_eq_some_iff.mp h
    split at h
    · rename_i hpos
      have hl : (MessageOp.remove i part).lost s = m.overwritten part := by
        show (s.all[i]?.map _).getD [] = _
        rw [hm]
        rfl
      rw [hl]
      exact put_accounted hm h fun b => m.remove_balance part hpos b
    · cases h
  | moveCtor j =>
    obtain ⟨m, hm, h⟩ := Option.bind_eq_some_iff.mp h
    simp only [Option.some.injEq, Prod.mk.injEq] at h
    obtain ⟨rfl, rfl⟩ := h
    exact moveCtor_accounted hm
  | moveAssign i j =>
    obtain ⟨a, ha, h⟩ := Option.bind_eq_some_iff.mp h
    obtain ⟨c, hc, h⟩ := Option.bind_eq_some_iff.mp h
    split at h
    · -- an assignment to itself only clears the parts
      exact put_accounted ha h fun b => rfl
    · rename_i hij
      simp only [Option.some.injEq, Prod.mk.injEq] at h
      obtain ⟨rfl, rfl⟩ := h
      exact moveAssign_accounted ha hc hij
  | swap i j =>
    obtain ⟨a, ha, h⟩ := Option.bind_eq_some_iff.mp h
    obtain ⟨c, hc, h⟩ := Option.bind_eq_some_iff.mp h
    simp only [Option.some.injEq, Prod.mk.injEq, Message.swap_eq] at h
    obtain ⟨rfl, rfl⟩ := h
    exact swap_accounted ha hc

/-- so that they are accounts of numbered resources -/
def accounts : Lib.Accounts machine where
  owned := owned
  next := next
  lost s op := op.lost s
  grows _ _ _ _ h := (step_balance h).1
  step _ _ _ _ h := (step_balance h).2

/-- **Every block handed over is released exactly once iff the run never erases a part that owns
a block and is not the last of its message.** -/
theorem released_once_iff (ops : List MessageOp) (t : Messages) (released : List Block)
    (h : machine.exec {} ops = some (t, released)) :
    ReleasedOnce t released ↔ machine.Along ErasesNoBlock {} ops :=
  accounts.once_iff rfl rfl h

end

/-- the growth of libstdc++ -/
abbrev doubling : VectorGrowth := ⟨fun n => max 1 (2 * n)⟩

/-- two blocks moved into one message, the second taken off again -/
theorem released_once_popBack :
    ReleasedOnce ⟨[{ parts := ⟨[Frame.ofData [1] (some 0)], 2⟩ }], 2⟩ [1] :=
  letI := doubling
  (released_once_iff [.construct, .move 0 [1], .move 0 [2], .popBack 0] _ _ rfl).mpr
    (.cons rfl rfl (.cons rfl rfl (.cons rfl rfl (.cons rfl rfl trivial))))

/-- **`popFront` on two moved parts never releases the first**: after the destruction of the
message only block `1` has been released. -/
theorem popFront_drops_block :
    ∃ t, (@machine doubling).exec {} [.construct, .move 0 [1], .move 0 [2], .popFront 0]
        = some (t, []) ∧
      t.next = 2 ∧ t.destroyAll = [1] ∧ ¬ ReleasedOnce t [] := by
  refine ⟨⟨[{ parts := ⟨[Frame.ofData [2] (some 1)], 2⟩ }], 2⟩, rfl, rfl, rfl, ?_⟩
  intro h
  exact absurd (h 0 (by decide)) (by decide)

end Messages
end Zmqpp
