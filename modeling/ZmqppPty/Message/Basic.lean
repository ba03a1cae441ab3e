import ZmqppPty.Message.Frame

/-!
# Messages (message.cpp)

A message is a vector of frames and a read cursor.  Every operation returns the message it leaves
and the blocks it releases.

* `addRaw`, `move`, `addNocopy`, `pushFront`, `rawNewMsg`   add a part;
* `popFront`, `popBack`, `remove`                           erase one;
* `moveCtor`, `moveAssign`, `swap`, `destroy`               pass the whole vector on;
* `size`, `get`, `isSent`, `markSent`                       read and mark single parts.
-/

namespace Zmqpp

structure Message where
  parts : FrameVec := {}
  readCursor : ℕ := 0
deriving DecidableEq, Repr

namespace Message

/-- `parts()` -/
def count (m : Message) : ℕ := m.parts.elems.length

def outsideRange : Exn :=
  .exception "attempting to request a message part outside the valid range"

def size (m : Message) (part : ℕ) : Except Exn ℕ :=
  match m.parts.elems[part]? with
  | none => .error outsideRange
  | some f => .ok f.size

/-- `std::string get(size_t)` -/
def get (m : Message) (part : ℕ) : Except Exn Bytes :=
  match m.parts.elems[part]? with
  | none => .error outsideRange
  | some f => .ok f.msg.data

/-- the contents of the parts -/
def payloads (m : Message) : List Bytes := m.parts.elems.map fun f => f.msg.data

/-- `~message` -/
def destroy (m : Message) : List Block := m.parts.destroy

section
variable [VectorGrowth]

/-- `raw_new_msg()` -/
def rawNewMsg (m : Message) : Message × List Block :=
  let (ps, r) := m.parts.pushBack {}
  ({ m with parts := ps }, r)

/-- `add_raw`: the bytes are copied -/
def addRaw (m : Message) (part : Bytes) : Message × List Block :=
  let (ps, r) := m.parts.pushBack (Frame.copyOf part)
  ({ m with parts := ps }, r)

/-- `add_nocopy` with a free function, or without one -/
def addNocopy (m : Message) (part : Bytes) (block : Option Block) : Message × List Block :=
  let (ps, r) := m.parts.pushBack (Frame.ofData part block)
  ({ m with parts := ps }, r)

/-- `move(part, size, release)`: the release function is kept in a `callback_releaser`, and
`release_callback` calls it when libzmq frees the frame -/
def move (m : Message) (part : Bytes) (block : Block) : Message × List Block :=
  let (ps, r) := m.parts.pushBack (Frame.ofData part (some block))
  ({ m with parts := ps }, r)

def pushFront (m : Message) (part : Bytes) : Message × List Block :=
  let (ps, r) := m.parts.emplaceFront part
  ({ m with parts := ps }, r)

end

def remove (m : Message) (part : ℕ) : Message × List Block :=
  let (ps, r) := m.parts.erase part
  ({ m with parts := ps }, r)

def popFront (m : Message) : Message × List Block := m.remove 0

def popBack (m : Message) : Message × List Block :=
  let (ps, r) := m.parts.popBack
  ({ m with parts := ps }, r)

/-- `message(message&&)`: the new message and the source; the vectors are swapped -/
def moveCtor (source : Message) : Message × Message :=
  (⟨source.parts, source.readCursor⟩, ⟨{}, 0⟩)

/-- `operator=(message&&)` from another message: the vector's move assignment destroys the
target's frames and leaves the source empty -/
def moveAssign (this source : Message) : Message × Message × List Block :=
  (⟨source.parts, source.readCursor⟩, ⟨{}, 0⟩, this.parts.destroy)

/-- `std::swap` on messages: one move construction and two move assignments -/
def swap (a b : Message) : Message × Message × List Block :=
  let (tmp, a) := moveCtor a
  let (a, b, r) := moveAssign a b
  let (b, tmp, r') := moveAssign b tmp
  (a, b, r ++ r' ++ tmp.destroy)

def isSent (m : Message) (part : ℕ) : Bool := (m.parts.elems[part]?.map Frame.sent).getD false

/-- the frames with one of them replaced -/
def setFrame (m : Message) (part : ℕ) (f : Frame) : Message :=
  { m with parts := { m.parts with elems := m.parts.elems.set part f } }

/-- what is left of `m` when a part is taken over by the socket and marked by `sent` -/
def markSent (m : Message) (part : ℕ) : Message := m.setFrame part ⟨zmqMsgInit, true⟩

/-! ## the blocks a message owns -/

/-- the blocks owned by the frames, first part first -/
def blocks (m : Message) : List Block := m.parts.elems.flatMap Frame.destroy

theorem destroy_eq (m : Message) : m.destroy = m.blocks := rfl

theorem payloads_length (m : Message) : m.payloads.length = m.count := List.length_map _

theorem payloads_eq_nil (m : Message) : m.payloads = [] ↔ m.count = 0 := by
  rw [← payloads_length, List.length_eq_zero_iff]

/-- `get` and `size` read the payloads -/
theorem get_of_payloads {m : Message} {part : ℕ} {b : Bytes} (h : m.payloads[part]? = some b) :
    m.get part = .ok b ∧ m.size part = .ok b.length := by
  unfold payloads at h
  rw [List.getElem?_map, Option.map_eq_some_iff] at h
  obtain ⟨f, hf, rfl⟩ := h
  unfold get size
  rw [hf]
  exact ⟨rfl, rfl⟩

section
variable [VectorGrowth]

theorem addRaw_elems (m : Message) (part : Bytes) :
    (m.addRaw part).1.parts.elems = m.parts.elems ++ [Frame.copyOf part] :=
  m.parts.pushBack_elems _

theorem addNocopy_elems (m : Message) (part : Bytes) (b : Option Block) :
    (m.addNocopy part b).1.parts.elems = m.parts.elems ++ [Frame.ofData part b] :=
  m.parts.pushBack_elems _

theorem pushFront_elems (m : Message) (part : Bytes) :
    (m.pushFront part).1.parts.elems = Frame.copyOf part :: m.parts.elems :=
  m.parts.emplaceFront_elems _

theorem addRaw_payloads (m : Message) (part : Bytes) :
    (m.addRaw part).1.payloads = m.payloads ++ [part] := by
  unfold payloads
  rw [addRaw_elems, List.map_append]
  rfl

theorem pushFront_payloads (m : Message) (part : Bytes) :
    (m.pushFront part).1.payloads = part :: m.payloads := by
  unfold payloads
  rw [pushFront_elems]
  rfl

theorem addRaw_blocks (m : Message) (part : Bytes) : (m.addRaw part).1.blocks = m.blocks := by
  unfold blocks
  rw [addRaw_elems, List.flatMap_append]
  exact List.append_nil _

theorem addNocopy_blocks (m : Message) (part : Bytes) (b : Option Block) :
    (m.addNocopy part b).1.blocks = m.blocks ++ b.toList := by
  unfold blocks
  rw [addNocopy_elems, List.flatMap_append, List.flatMap_singleton]
  rfl

theorem move_blocks (m : Message) (part : Bytes) (b : Block) :
    (m.move part b).1.blocks = m.blocks ++ [b] := addNocopy_blocks m part (some b)

theorem pushFront_blocks (m : Message) (part : Bytes) : (m.pushFront part).1.blocks = m.blocks := by
  unfold blocks
  rw [pushFront_elems]
  rfl

end

theorem remove_elems (m : Message) (i : ℕ) :
    (m.remove i).1.parts.elems = m.parts.elems.eraseIdx i := m.parts.erase_elems i

theorem popBack_elems (m : Message) : m.popBack.1.parts.elems = m.parts.elems.dropLast := rfl

theorem swap_eq (a b : Message) : swap a b = (b, a, []) := rfl

end Message
end Zmqpp
