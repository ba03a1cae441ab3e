import ZmqppPty.Base

/-!
# Frames and the vector of frames of a message (frame.cpp)

A `zmq_msg_t` is its bytes together with the block of user memory it owns, if any.  Only blocks
that were handed over with a release function are tracked (`Block`); every function that may
close a `zmq_msg_t` returns the blocks whose release function it calls.

* `ZmqMsg`, `zmqMsgMove`, `zmqMsgClose`   the libzmq structure and its ownership rules;
* `Frame.moveCtor`, `Frame.moveAssign`    the two moves of `frame`.  The assignment calls
                                          `zmq_msg_init` on the target, so what the target
                                          held is dropped without being closed;
* `FrameVec`                              `std::vector<frame>`: `pushBack`, `emplaceFront`,
                                          `erase`, `popBack` with the element moves the
                                          standard prescribes, reallocation included;
* `pushBack_elems`, `emplaceFront_elems`, `erase_elems`   what they do to the elements;
* `erase_released`                        `erase` releases a block only at the last position.
-/

namespace Zmqpp

/-- a block handed over with a release function, numbered in the order of handing over -/
abbrev Block := ℕ

structure ZmqMsg where
  data : Bytes := []
  block : Option Block := none
deriving DecidableEq, Repr

/-- `zmq_msg_init` writes an empty message over whatever the structure held -/
def zmqMsgInit : ZmqMsg := {}

def zmqMsgInitSize (size : ℕ) : ZmqMsg := { data := List.replicate size 0 }

/-- `zmq_msg_init_data`; the block is `none` when no release function is given -/
def zmqMsgInitData (part : Bytes) (block : Option Block) : ZmqMsg := ⟨part, block⟩

/-- the blocks released by `zmq_msg_close` -/
def zmqMsgClose (msg : ZmqMsg) : List Block := msg.block.toList

/-- `zmq_msg_move`: the target is closed and gets the source, the source becomes empty -/
def zmqMsgMove (dest src : ZmqMsg) : ZmqMsg × ZmqMsg × List Block :=
  (src, zmqMsgInit, zmqMsgClose dest)

/-! ## frame -/

structure Frame where
  msg : ZmqMsg := {}
  sent : Bool := false
deriving DecidableEq, Repr

namespace Frame

def size (f : Frame) : ℕ := f.msg.data.length

/-- `frame(size_t)` -/
def ofSize (size : ℕ) : Frame := ⟨zmqMsgInitSize size, false⟩

/-- `frame(void const*, size_t)`: a buffer of the part's size, filled by `memcpy` -/
def copyOf (part : Bytes) : Frame := ⟨{ zmqMsgInitSize part.length with data := part }, false⟩

/-- `frame(void*, size_t, zmq_free_fn*, void*)` -/
def ofData (part : Bytes) (block : Option Block) : Frame := ⟨zmqMsgInitData part block, false⟩

/-- `~frame` -/
def destroy (f : Frame) : List Block := zmqMsgClose f.msg

/-- `frame(frame&&)`: the new frame, the moved-from one, the blocks released -/
def moveCtor (other : Frame) : Frame × Frame × List Block :=
  let moved := zmqMsgMove zmqMsgInit other.msg
  (⟨moved.1, other.sent⟩, ⟨moved.2.1, false⟩, moved.2.2)

/-- `operator=(frame&&)`.  The target is initialised, not closed, before the move: its own `msg`
does not occur on the right. -/
def moveAssign (this other : Frame) : Frame × Frame × List Block :=
  let moved := zmqMsgMove zmqMsgInit other.msg
  (⟨moved.1, other.sent⟩, ⟨moved.2.1, this.sent⟩, moved.2.2)

theorem moveCtor_eq (f : Frame) : f.moveCtor = (f, {}, []) := rfl

theorem destroy_empty (sent : Bool) : (Frame.mk {} sent).destroy = [] := rfl

end Frame

/-! ## std::vector<frame> -/

/-- how much a full vector grows is left to the implementation -/
class VectorGrowth where
  capacityFor : ℕ → ℕ

structure FrameVec where
  elems : List Frame := []
  capacity : ℕ := 0
deriving DecidableEq, Repr

/-- every element is move-constructed in the new storage, then the old one is destroyed -/
def relocate : List Frame → List Frame × List Block
  | [] => ([], [])
  | f :: fs =>
    let (g, old, r) := f.moveCtor
    let (gs, rs) := relocate fs
    (g :: gs, r ++ old.destroy ++ rs)

/-- The elements from `x` on move up by one.  They move from the right: the last one is
move-constructed in the new slot, the others are move-assigned.  Returns `x` as it was left. -/
def shiftUp (x : Frame) : List Frame → List Frame × Frame × List Block
  | [] =>
    let (g, x', r) := x.moveCtor
    ([g], x', r)
  | a :: rest =>
    let (rest', a', r) := shiftUp a rest
    let (h, x', r') := a'.moveAssign x
    (h :: rest', x', r ++ r')

/-- The elements after `x` move down by one, each move-assigned to its predecessor; the last one,
moved from by then unless it is `x` itself, is destroyed. -/
def shiftDown (x : Frame) : List Frame → List Frame × List Block
  | [] => ([], x.destroy)
  | b :: rest =>
    let (x', b', r) := x.moveAssign b
    let (rest', r') := shiftDown b' rest
    (x' :: rest', r ++ r')

/-- `erase(begin() + i)` on the elements; nothing is erased past the end -/
def eraseAt : ℕ → List Frame → List Frame × List Block
  | _, [] => ([], [])
  | 0, a :: rest => shiftDown a rest
  | i + 1, a :: rest =>
    let (rest', r) := eraseAt i rest
    (a :: rest', r)

namespace FrameVec

/-- the vector's destructor -/
def destroy (v : FrameVec) : List Block := v.elems.flatMap Frame.destroy

section
variable [VectorGrowth]

/-- `push_back(frame&&)` of a temporary, which is destroyed afterwards -/
def pushBack (v : FrameVec) (f : Frame) : FrameVec × List Block :=
  let (g, tmp, r) := f.moveCtor
  if v.elems.length = v.capacity then
    let (es, rs) := relocate v.elems
    (⟨es ++ [g], VectorGrowth.capacityFor v.elems.length⟩, r ++ rs ++ tmp.destroy)
  else
    (⟨v.elems ++ [g], v.capacity⟩, r ++ tmp.destroy)

/-- `emplace(begin(), part, size)` -/
def emplaceFront (v : FrameVec) (part : Bytes) : FrameVec × List Block :=
  if v.elems.length = v.capacity then
    let (es, rs) := relocate v.elems
    (⟨Frame.copyOf part :: es, VectorGrowth.capacityFor v.elems.length⟩, rs)
  else
    match v.elems with
    | [] => (⟨[Frame.copyOf part], v.capacity⟩, [])
    | a :: rest =>
      let (es, tmp, r) := shiftUp (Frame.copyOf part) (a :: rest)
      (⟨es, v.capacity⟩, r ++ tmp.destroy)

end

/-- `erase(begin() + i)` -/
def erase (v : FrameVec) (i : ℕ) : FrameVec × List Block :=
  let (es, r) := eraseAt i v.elems
  (⟨es, v.capacity⟩, r)

/-- `pop_back()` -/
def popBack (v : FrameVec) : FrameVec × List Block :=
  (⟨v.elems.dropLast, v.capacity⟩, (v.elems.getLast?.map Frame.destroy).getD [])

end FrameVec

/-! ## what the element moves amount to -/

theorem relocate_eq (es : List Frame) : relocate es = (es, []) := by
  induction es with
  | nil => rfl
  | cons f fs ih =>
    show ((f :: (relocate fs).1), [] ++ [] ++ (relocate fs).2) = _
    rw [ih]
    rfl

theorem shiftUp_eq (x : Frame) (es : List Frame) :
    ∃ s, shiftUp x es = (x :: es, ⟨{}, s⟩, []) := by
  induction es generalizing x with
  | nil => exact ⟨false, rfl⟩
  | cons a rest ih =>
    obtain ⟨s, hs⟩ := ih a
    refine ⟨s, ?_⟩
    unfold shiftUp
    rw [hs]
    rfl

/-- with a successor the erased frame is overwritten: nothing is released -/
theorem shiftDown_cons (x b : Frame) (rest : List Frame) :
    shiftDown x (b :: rest) = (b :: rest, []) := by
  induction rest generalizing x b with
  | nil => rfl
  | cons c rest ih =>
    have h := ih ⟨{}, x.sent⟩ c
    show (b :: (shiftDown ⟨{}, x.sent⟩ (c :: rest)).1,
      [] ++ (shiftDown ⟨{}, x.sent⟩ (c :: rest)).2) = _
    rw [h]
    rfl

theorem eraseAt_elems (i : ℕ) (es : List Frame) : (eraseAt i es).1 = es.eraseIdx i := by
  induction es generalizing i with
  | nil => cases i <;> rfl
  | cons a rest ih =>
    cases i with
    | zero =>
      show (shiftDown a rest).1 = rest
      cases rest with
      | nil => rfl
      | cons b rest => rw [shiftDown_cons]
    | succ i =>
      show a :: (eraseAt i rest).1 = a :: rest.eraseIdx i
      rw [ih]

theorem eraseAt_last (es : List Frame) (x : Frame) :
    (eraseAt es.length (es ++ [x])).2 = x.destroy := by
  induction es with
  | nil => rfl
  | cons a rest ih => exact ih

theorem eraseAt_inner (es : List Frame) (x b : Frame) (rest : List Frame) :
    (eraseAt es.length (es ++ x :: b :: rest)).2 = [] := by
  induction es with
  | nil =>
    show (shiftDown x (b :: rest)).2 = []
    rw [shiftDown_cons]
  | cons a es ih => exact ih

namespace FrameVec
section
variable [VectorGrowth]

theorem pushBack_elems (v : FrameVec) (f : Frame) : (v.pushBack f).1.elems = v.elems ++ [f] := by
  unfold pushBack
  rw [Frame.moveCtor_eq, relocate_eq]
  dsimp only
  split <;> rfl

theorem pushBack_released (v : FrameVec) (f : Frame) : (v.pushBack f).2 = [] := by
  unfold pushBack
  rw [Frame.moveCtor_eq, relocate_eq]
  dsimp only
  split <;> rfl

theorem emplaceFront_eq (v : FrameVec) (part : Bytes) :
    (v.emplaceFront part).1.elems = Frame.copyOf part :: v.elems ∧ (v.emplaceFront part).2 = [] := by
  unfold emplaceFront
  rw [relocate_eq]
  split
  · exact ⟨rfl, rfl⟩
  · cases hv : v.elems with
    | nil => exact ⟨rfl, rfl⟩
    | cons a rest =>
      obtain ⟨s, hs⟩ := shiftUp_eq (Frame.copyOf part) (a :: rest)
      simp only [hs, true_and]
      exact Frame.destroy_empty s

theorem emplaceFront_elems (v : FrameVec) (part : Bytes) :
    (v.emplaceFront part).1.elems = Frame.copyOf part :: v.elems := (emplaceFront_eq v part).1

theorem emplaceFront_released (v : FrameVec) (part : Bytes) : (v.emplaceFront part).2 = [] :=
  (emplaceFront_eq v part).2

end

theorem erase_elems (v : FrameVec) (i : ℕ) : (v.erase i).1.elems = v.elems.eraseIdx i :=
  eraseAt_elems i v.elems

/-- **`erase` releases the erased frame only at the last position**: everywhere else the frame
is overwritten by the move assignment of its successor. -/
theorem erase_released (v : FrameVec) (x : List Frame) (f : Frame) (y : List Frame)
    (h : v.elems = x ++ f :: y) :
    (v.erase x.length).2 = if y = [] then f.destroy else [] := by
  show (eraseAt x.length v.elems).2 = _
  rw [h]
  cases y with
  | nil => exact eraseAt_last x f
  | cons b rest => exact eraseAt_inner x f b rest

end FrameVec
end Zmqpp
