import ZmqppPty.Lib.Machine
import ZmqppPty.Message.Stream

/-!
# The read cursor

`cursors` runs the operations of the stream and queue interfaces on any number of messages; its
events are the reads that failed.

* `copyFrom`, `copy`       the two copies of message.cpp, by resizing and assigning frame by frame;
* `remaining`              `parts() - read_cursor()` in 64 bits;
* `RemainingExact`         the cursor is not past the last part, so that `remaining` counts the
                           parts not read;
* `KeepsCursor`            the condition on one operation: an erased part leaves room for the
                           cursor, and so does a copy over the message;
* `step_inRange`           an operation keeps the cursors in range iff it meets it;
* `remaining_exact_iff`    so does a run.
-/

namespace Zmqpp

/-! ## copies -/

/-- `zmq_msg_copy`: both messages refer to one content, which is released with the last of them -/
def zmqMsgCopy (_dest src : ZmqMsg) : ZmqMsg := src

def Frame.copy (f : Frame) : Frame :=
  let other := { Frame.ofSize f.size with sent := f.sent }
  { other with msg := zmqMsgCopy other.msg f.msg }

theorem Frame.copy_eq (f : Frame) : f.copy = f := rfl

/-- the loop of `copy`: every frame is move-assigned a copy -/
def assignCopies : List Frame → List Frame → List Frame
  | f :: fs, g :: gs => (f.moveAssign g.copy).1 :: assignCopies fs gs
  | fs, _ => fs

theorem assignCopies_eq {fs gs : List Frame} (h : fs.length = gs.length) :
    assignCopies fs gs = gs := by
  induction fs generalizing gs with
  | nil => exact (List.length_eq_zero_iff.mp h.symm).symm
  | cons f fs ih =>
    cases gs with
    | nil => cases h
    | cons g gs =>
      show g.copy :: assignCopies fs gs = g :: gs
      rw [ih (Nat.succ.inj h), Frame.copy_eq]

section
variable [VectorGrowth]

/-- `resize(n)` -/
def FrameVec.resize (v : FrameVec) (n : ℕ) : FrameVec :=
  if n ≤ v.elems.length then { v with elems := v.elems.take n }
  else
    { elems := v.elems ++ List.replicate (n - v.elems.length) {}
      capacity :=
        if n ≤ v.capacity then v.capacity else max n (VectorGrowth.capacityFor v.elems.length) }

theorem FrameVec.resize_length (v : FrameVec) (n : ℕ) : (v.resize n).elems.length = n := by
  unfold resize
  split
  · rename_i hn
    exact (List.length_take ..).trans (Nat.min_eq_left hn)
  · rw [List.length_append, List.length_replicate]
    omega

namespace Message

/-- `copy(source)` -/
def copyFrom (m source : Message) : Message :=
  let ps := m.parts.resize source.count
  { m with parts := { ps with elems := assignCopies ps.elems source.parts.elems } }

/-- `copy()` -/
def copy (m : Message) : Message := copyFrom {} m

theorem copyFrom_elems (m source : Message) :
    (m.copyFrom source).parts.elems = source.parts.elems :=
  assignCopies_eq (m.parts.resize_length source.count)

end Message
end

/-! ## the cursor -/

namespace Message

def resetReadCursor (m : Message) : Message := { m with readCursor := 0 }

/-- `next()`: the message and the new cursor -/
def next (m : Message) : Message × ℕ := ({ m with readCursor := m.readCursor + 1 }, m.readCursor + 1)

/-- `remaining()`, where `size_t` has 64 bits -/
def remaining (m : Message) : UInt64 := UInt64.ofNat m.count - UInt64.ofNat m.readCursor

/-- the parts from the cursor on -/
def unread (m : Message) : List Bytes := m.payloads.drop m.readCursor

def InRange (m : Message) : Prop := m.readCursor ≤ m.count

def RemainingExact (m : Message) : Prop :=
  m.readCursor ≤ m.count ∧ (m.count < 2 ^ 64 → m.remaining.toNat = m.unread.length)

theorem remaining_of_inRange {m : Message} (h : m.InRange) (hsize : m.count < 2 ^ 64) :
    m.remaining.toNat = m.unread.length := by
  have hcount : (UInt64.ofNat m.count).toNat = m.count := Nat.mod_eq_of_lt hsize
  have hcursor : (UInt64.ofNat m.readCursor).toNat = m.readCursor :=
    Nat.mod_eq_of_lt (lt_of_le_of_lt h hsize)
  have hle : UInt64.ofNat m.readCursor ≤ UInt64.ofNat m.count := by
    rw [UInt64.le_iff_toNat_le, hcount, hcursor]
    exact h
  unfold remaining unread
  rw [UInt64.toNat_sub_of_le _ _ hle, hcount, hcursor, List.length_drop, payloads_length]

theorem remainingExact_iff (m : Message) : m.RemainingExact ↔ m.InRange := by
  constructor
  · intro h
    exact h.1
  · intro h
    exact ⟨h, remaining_of_inRange h⟩

variable {host : Order}

theorem size_error {m : Message} {part : ℕ} (h : m.count ≤ part) :
    m.size part = .error outsideRange ∧ m.get part = .error outsideRange := by
  have hnone : m.parts.elems[part]? = none := List.getElem?_eq_none h
  unfold size get
  rw [hnone]
  exact ⟨rfl, rfl⟩

theorem getValue_error {m : Message} {part : ℕ} (type : ValueType) (h : m.count ≤ part) :
    m.getValue host type part = .error (.threw outsideRange) := by
  obtain ⟨hsize, hget⟩ := size_error h
  have hdata : ∀ n, m.dataOfSize n part = .error (.threw outsideRange) := by
    intro n
    unfold dataOfSize
    rw [hsize]
  cases type <;> unfold getValue <;> simp only [hdata, hget] <;> rfl

end Message

/-! ## runs -/

inductive CursorOp where
  | construct
  | streamOut (m : ℕ) (v : Value)
  | streamIn (m : ℕ) (type : ValueType)
  | next (m : ℕ)
  | resetReadCursor (m : ℕ)
  | pushFront (m : ℕ) (v : Value)
  | popFront (m : ℕ)
  | popBack (m : ℕ)
  | remove (m part : ℕ)
  | copy (target source : ℕ)
  | moveCtor (source : ℕ)
  | moveAssign (target source : ℕ)
deriving DecidableEq

namespace Cursors

/-- the failure of a read, if it failed -/
def failures : Except Failure Value → List Failure
  | .ok _ => []
  | .error f => [f]

/-- replace message `i` by what a successful operation makes of it -/
def put (s : List Message) (i : ℕ) (m : Message) : Option (List Message × List Failure) :=
  some (s.set i m, [])

section
variable [VectorGrowth] (host : Order)

/-- One operation.  No step where C++ leaves the operation undefined: a message that does not
exist, an erased part out of range. -/
def step (s : List Message) : CursorOp → Option (List Message × List Failure)
  | .construct => some (s ++ [{}], [])
  | .streamOut i v => s[i]?.bind fun m => put s i (m.streamOut host v).1
  | .streamIn i type => s[i]?.bind fun m =>
    some (s.set i (m.streamIn host type).1, failures (m.streamIn host type).2)
  | .next i => s[i]?.bind fun m => put s i m.next.1
  | .resetReadCursor i => s[i]?.bind fun m => put s i m.resetReadCursor
  | .pushFront i v => s[i]?.bind fun m => put s i (m.pushFrontValue host v).1
  | .popFront i => s[i]?.bind fun m => if 0 < m.count then put s i m.popFront.1 else none
  | .popBack i => s[i]?.bind fun m => if 0 < m.count then put s i m.popBack.1 else none
  | .remove i part =>
    s[i]?.bind fun m => if part < m.count then put s i (m.remove part).1 else none
  | .copy i j => s[i]?.bind fun m => s[j]?.bind fun source => put s i (m.copyFrom source)
  | .moveCtor j => s[j]?.bind fun m => some (s.set j m.moveCtor.2 ++ [m.moveCtor.1], [])
  | .moveAssign i j =>
    s[i]?.bind fun a => s[j]?.bind fun b =>
      -- a message assigned to itself loses its parts, as `std::vector` does in libstdc++
      if i = j then put s i {}
      else some ((s.set j (a.moveAssign b).2.1).set i (a.moveAssign b).1, [])

def machine : Lib.Machine (List Message) CursorOp Failure := ⟨step host⟩

end

/-- an operation that erases parts or replaces them leaves as many as the cursor has passed -/
def KeepsCursor (s : List Message) : CursorOp → Prop
  | .popFront i => ∀ m, s[i]? = some m → m.readCursor < m.count
  | .popBack i => ∀ m, s[i]? = some m → m.readCursor < m.count
  | .remove i _ => ∀ m, s[i]? = some m → m.readCursor < m.count
  | .copy i j => ∀ m source, s[i]? = some m → s[j]? = some source → m.readCursor ≤ source.count
  | _ => True

def AllInRange (s : List Message) : Prop := ∀ m ∈ s, m.InRange

theorem allInRange_concat {s : List Message} (hs : AllInRange s) {m : Message} (hm : m.InRange) :
    AllInRange (s ++ [m]) := by
  intro x hx
  rcases List.mem_append.mp hx with hx | hx
  · exact hs x hx
  · rw [List.mem_singleton.mp hx]
    exact hm

theorem allInRange_set {s : List Message} (hs : AllInRange s) {i : ℕ} {m : Message}
    (hm : s[i]? = some m) (m' : Message) : AllInRange (s.set i m') ↔ m'.InRange := by
  have hi : i < s.length := (List.getElem?_eq_some_iff.mp hm).1
  constructor
  · intro h
    exact h m' (List.mem_set hi m')
  · intro h x hx
    rcases List.mem_or_eq_of_mem_set hx with hx | rfl
    · exact hs x hx
    · exact h

theorem put_inRange {s t : List Message} (hs : AllInRange s) {i : ℕ} {m m' : Message}
    {e : List Failure} (hm : s[i]? = some m) (h : put s i m' = some (t, e)) :
    AllInRange t ↔ m'.InRange := by
  simp only [put, Option.some.injEq, Prod.mk.injEq] at h
  rw [← h.1]
  exact allInRange_set hs hm m'

theorem forall_found {s : List Message} {i : ℕ} {m : Message} (hm : s[i]? = some m)
    {p : Message → Prop} : (∀ m', s[i]? = some m' → p m') ↔ p m := by
  constructor
  · intro h
    exact h m hm
  · intro h m' hm'
    rw [Option.some.inj (hm'.symm.trans hm)]
    exact h

/-- one part fewer -/
theorem erased_inRange {m m' : Message} (hpos : 0 < m.count) (hcount : m'.count = m.count - 1)
    (hcursor : m'.readCursor = m.readCursor) : m'.InRange ↔ m.readCursor < m.count := by
  unfold Message.InRange
  rw [hcount, hcursor]
  omega

theorem remove_count {m : Message} {part : ℕ} (h : part < m.count) :
    (m.remove part).1.count = m.count - 1 := by
  show (m.remove part).1.parts.elems.length = _
  rw [Message.remove_elems, List.length_eraseIdx_of_lt h]
  rfl

theorem popBack_count (m : Message) : m.popBack.1.count = m.count - 1 := by
  show m.popBack.1.parts.elems.length = _
  rw [Message.popBack_elems, List.length_dropLast]
  rfl

section
variable [VectorGrowth] {host : Order}

theorem streamOut_inRange {m : Message} (h : m.InRange) (v : Value) :
    (m.streamOut host v).1.InRange := by
  have hcount : (m.streamOut host v).1.count = m.count + 1 := by
    rw [← Message.payloads_length, ← Message.payloads_length, Message.streamOut_eq,
      Message.addRaw_payloads, List.length_append]
    rfl
  have hcursor : (m.streamOut host v).1.readCursor = m.readCursor := by
    rw [Message.streamOut_eq]
    rfl
  unfold Message.InRange at *
  omega

theorem pushFront_inRange {m : Message} (h : m.InRange) (v : Value) :
    (m.pushFrontValue host v).1.InRange := by
  have hcount : (m.pushFrontValue host v).1.count = m.count + 1 := by
    rw [← Message.payloads_length, ← Message.payloads_length, Message.pushFrontValue_eq,
      Message.pushFront_payloads, List.length_cons]
  have hcursor : (m.pushFrontValue host v).1.readCursor = m.readCursor := by
    rw [Message.pushFrontValue_eq]
    rfl
  unfold Message.InRange at *
  omega

omit [VectorGrowth] in
/-- a read that succeeds has found a part at the cursor -/
theorem streamIn_inRange {m : Message} {type : ValueType}
    (h : failures (m.streamIn host type).2 = []) : (m.streamIn host type).1.InRange := by
  show m.readCursor + 1 ≤ m.count
  by_contra hlt
  have herr : (m.streamIn host type).2 = .error (.threw Message.outsideRange) :=
    Message.getValue_error type (by omega)
  rw [herr] at h
  cases h

theorem copyFrom_inRange (m source : Message) :
    (m.copyFrom source).InRange ↔ m.readCursor ≤ source.count := by
  unfold Message.InRange Message.count
  rw [Message.copyFrom_elems]
  rfl

/-- **One operation** other than `next` that does not fail keeps all cursors in range iff it meets
the condition. -/
theorem step_inRange {s t : List Message} {op : CursorOp} (hs : AllInRange s)
    (hnext : ∀ i, op ≠ .next i) (h : step host s op = some (t, [])) :
    AllInRange t ↔ KeepsCursor s op := by
  have hempty : Message.InRange {} := Nat.le_refl 0
  cases op with
  | construct =>
    simp only [step, Option.some.injEq, Prod.mk.injEq] at h
    rw [← h.1]
    exact iff_of_true (allInRange_concat hs hempty) trivial
  | streamOut i v =>
    obtain ⟨m, hm, h⟩ := Option.bind_eq_some_iff.mp h
    rw [put_inRange hs hm h]
    exact iff_of_true (streamOut_inRange (hs m (List.mem_of_getElem? hm)) v) trivial
  | streamIn i type =>
    obtain ⟨m, hm, h⟩ := Option.bind_eq_some_iff.mp h
    simp only [Option.some.injEq, Prod.mk.injEq] at h
    rw [← h.1, allInRange_set hs hm]
    exact iff_of_true (streamIn_inRange h.2) trivial
  | next i => exact absurd rfl (hnext i)
  | resetReadCursor i =>
    obtain ⟨m, hm, h⟩ := Option.bind_eq_some_iff.mp h
    rw [put_inRange hs hm h]
    exact iff_of_true (Nat.zero_le m.count) trivial
  | pushFront i v =>
    obtain ⟨m, hm, h⟩ := Option.bind_eq_some_iff.mp h
    rw [put_inRange hs hm h]
    exact iff_of_true (pushFront_inRange (hs m (List.mem_of_getElem? hm)) v) trivial
  | popFront i =>
    obtain ⟨m, hm, h⟩ := Option.bind_eq_some_iff.mp h
    split at h
    · rename_i hpos
      have hcount : m.popFront.1.count = m.count - 1 := remove_count hpos
      rw [put_inRange hs hm h, erased_inRange hpos hcount rfl]
      exact (forall_found hm (p := fun m => m.readCursor < m.count)).symm
    · cases h
  | popBack i =>
    obtain ⟨m, hm, h⟩ := Option.bind_eq_some_iff.mp h
    split at h
    · rename_i hpos
      rw [put_inRange hs hm h, erased_inRange hpos (popBack_count m) rfl]
      exact (forall_found hm (p := fun m => m.readCursor < m.count)).symm
    · cases h
  | remove i part =>
    obtain ⟨m, hm, h⟩ := Option.bind_eq_some_iff.mp h
    split at h
    · rename_i hpart
      rw [put_inRange hs hm h, erased_inRange (by omega) (remove_count hpart) rfl]
      exact (forall_found hm (p := fun m => m.readCursor < m.count)).symm
    · cases h
  | copy i j =>
    obtain ⟨m, hm, h⟩ := Option.bind_eq_some_iff.mp h
    obtain ⟨source, hsource, h⟩ := Option.bind_eq_some_iff.mp h
    rw [put_inRange hs hm h, copyFrom_inRange]
    constructor
    · intro hle m' source' hm' hsource'
      rw [Option.some.inj (hm'.symm.trans hm), Option.some.inj (hsource'.symm.trans hsource)]
      exact hle
    · intro hle
      exact hle m source hm hsource
  | moveCtor j =>
    obtain ⟨m, hm, h⟩ := Option.bind_eq_some_iff.mp h
    simp only [Option.some.injEq, Prod.mk.injEq] at h
    rw [← h.1]
    refine iff_of_true ?_ trivial
    exact allInRange_concat ((allInRange_set hs hm _).mpr hempty) (hs m (List.mem_of_getElem? hm))
  | moveAssign i j =>
    obtain ⟨a, ha, h⟩ := Option.bind_eq_some_iff.mp h
    obtain ⟨b, hb, h⟩ := Option.bind_eq_some_iff.mp h
    refine iff_of_true ?_ trivial
    split at h
    · exact (put_inRange hs ha h).mpr hempty
    · rename_i hij
      simp only [Option.some.injEq, Prod.mk.injEq] at h
      have ha' : (s.set j (a.moveAssign b).2.1)[i]? = some a := by
        rw [List.getElem?_set_ne (Ne.symm hij)]
        exact ha
      rw [← h.1]
      exact (allInRange_set ((allInRange_set hs hb _).mpr hempty) ha' _).mpr
        (hs b (List.mem_of_getElem? hb))

/-- in a run without failures no step has failed -/
theorem along_of_quiet {s t : List Message} {ops : List CursorOp}
    (hnext : ∀ i, CursorOp.next i ∉ ops) (h : (machine host).exec s ops = some (t, [])) :
    (machine host).Along (fun s op => (∀ i, op ≠ .next i) ∧
      ∀ t e, (machine host).step s op = some (t, e) → e = []) s ops := by
  induction ops generalizing s with
  | nil => trivial
  | cons op ops ih =>
    obtain ⟨u, e, e', hstep, hrest, he⟩ := Lib.Machine.exec_cons h
    obtain ⟨rfl, rfl⟩ := List.append_eq_nil_iff.mp he.symm
    refine Lib.Machine.Along.cons hstep ⟨?_, ?_⟩ (ih (fun i hi => hnext i ?_) hrest)
    · intro i hi
      exact hnext i (hi ▸ List.mem_cons_self)
    · intro t' e' hstep'
      exact (Prod.mk.inj (Option.some.inj (hstep'.symm.trans hstep))).2
    · exact List.mem_cons_of_mem _ hi

/-- **`remaining` counts the parts not read, in every state of a run, iff no operation of the run
erases parts under the cursor or copies fewer over them.** -/
theorem remaining_exact_iff (ops : List CursorOp) (hnext : ∀ i, CursorOp.next i ∉ ops)
    (t : List Message) (h : (machine host).exec [] ops = some (t, [])) :
    (machine host).Throughout (fun s _ => ∀ m ∈ s, m.RemainingExact) [] ops ↔
      (machine host).Along KeepsCursor [] ops := by
  have hgood : ∀ s : List Message, (∀ m ∈ s, m.RemainingExact) ↔ AllInRange s := by
    intro s
    unfold AllInRange
    simp only [Message.remainingExact_iff]
  simp only [hgood]
  exact Lib.Machine.throughout_iff_along (fun _ _ => True) (fun s _ => AllInRange s)
    (fun s tr op t e _ _ _ => trivial)
    (fun s tr op t e _ hs hok hstep => step_inRange hs hok.1 (hok.2 t e hstep ▸ hstep))
    [] trivial (fun m hm => nomatch hm) (along_of_quiet hnext h) h

end

/-- one part is read and the other popped -/
theorem remaining_exact_popBack :
    (@machine ⟨fun n => n + 1⟩ .littleEndian).Throughout (fun s _ => ∀ m ∈ s, m.RemainingExact) []
      [.construct, .streamOut 0 (.bool true), .streamOut 0 (.bool false), .streamIn 0 .bool,
        .popBack 0] :=
  letI : VectorGrowth := ⟨fun n => n + 1⟩
  (remaining_exact_iff _ (by simp) _ rfl).mpr
    (.cons rfl trivial (.cons rfl trivial (.cons rfl trivial (.cons rfl trivial (.cons rfl
      (fun m hm => by cases hm; decide) trivial)))))

/-- **A part that has been read is popped**: nothing is left, and `remaining` is `2 ^ 64 - 1`. -/
theorem remaining_wraps :
    ∃ m : Message, (@machine ⟨fun n => n + 1⟩ .littleEndian).exec []
        [.construct, .streamOut 0 (.bool true), .streamIn 0 .bool, .popBack 0] = some ([m], []) ∧
      m.readCursor = 1 ∧ m.count = 0 ∧ m.remaining.toNat = 2 ^ 64 - 1 ∧ ¬ m.RemainingExact := by
  refine ⟨⟨⟨[], 1⟩, 1⟩, rfl, rfl, rfl, by decide, ?_⟩
  intro h
  exact absurd h.1 (by decide)

end Cursors
end Zmqpp
