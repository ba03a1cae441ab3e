import ZmqppPty.Message.FailedRead

/-!
# Messages as deques

What a message is for: a row of parts with values in them, read from the front or by position.
Byte orders, frames and the vector that grows are representation.

* `add`, `extract`       the two variadic functions of message.hpp;
* `MessageCall`, `Answer`  the calls on a pool of messages, and what the caller gets to see of them;
* `Seen.machine`         these calls on messages, over the machine of the cursors;
* `Deque`, `Coding`      a row of parts of any type, with a way to write values to them and to read
                         them; `Deque.machine` has the same calls;
* `wire`                 parts of bytes, numbers in network order; `messages_are_deques`: on every
                         host the messages are these deques;
* `typed`                parts that are the values written; `typed_reads`: whoever reads them at
                         their types gets them back, whatever else is done with the messages;
* `extract_reads_stream` `extract` is `operator>>` from the first part on, with assertions.
-/

namespace Zmqpp

open Lib (bytesOf numberOf)

namespace Message

variable (host : Order)

section
variable [VectorGrowth]

/-- `add(part, args...)`, and the constructor from these -/
def add (m : Message) : List Value → Message × List Block
  | [] => (m, [])
  | part :: args =>
    let (m, r) := m.streamOut host part
    let (m, r') := add m args
    (m, r ++ r')

theorem add_eq (m : Message) (vs : List Value) : (m.add host vs).1 = m.written host vs := by
  induction vs generalizing m with
  | nil => rfl
  | cons v vs ih => exact ih (m.streamOut host v).1

end

/-- `extract<part>(nextpart, args...)`.  A read that fails leaves the values before it assigned, but
then the assertion has failed. -/
def extractFrom (m : Message) : ℕ → List ValueType → Except Failure (List Value)
  | _, [] => .ok []
  | part, nextpart :: args =>
    if part < m.count then do
      let v ← m.getValue host nextpart part
      let vs ← extractFrom m (part + 1) args
      return v :: vs
    else .error .assertFailed

def extract (m : Message) (args : List ValueType) : Except Failure (List Value) :=
  m.extractFrom host 0 args

end Message

/-! ## the calls -/

inductive MessageCall where
  | cursor (op : CursorOp)
  | construct (args : List Value)
  | add (m : ℕ) (args : List Value)
  | get (m : ℕ) (type : ValueType) (part : ℕ)
  | extract (m : ℕ) (args : List ValueType)
  | size (m part : ℕ)
  | parts (m : ℕ)
  | remaining (m : ℕ)
deriving DecidableEq

inductive Answer where
  | value (result : Except Failure Value)
  | values (result : Except Failure (List Value))
  | size (result : Except Exn ℕ)
  | number (n : ℕ)
  | remaining (n : UInt64)
deriving DecidableEq

namespace Seen
section
variable [VectorGrowth] (host : Order)

/-- what the caller sees of an operation of the stream and queue interfaces -/
def answers (s : List Message) : CursorOp → List Answer
  | .streamIn i type => s[i]?.toList.map fun m => .value (m.streamIn host type).2
  | .next i => s[i]?.toList.map fun m => .number m.next.2
  | _ => []

def step (s : List Message) : MessageCall → Option (List Message × List Answer)
  | .cursor op => (Cursors.step host s op).map fun r => (r.1, answers host s op)
  | .construct args => some (s ++ [(({} : Message).add host args).1], [])
  | .add i args => s[i]?.bind fun m => some (s.set i (m.add host args).1, [])
  | .get i type part => s[i]?.bind fun m => some (s, [.value (m.getValue host type part)])
  | .extract i args => s[i]?.bind fun m => some (s, [.values (m.extract host args)])
  | .size i part => s[i]?.bind fun m => some (s, [.size (m.size part)])
  | .parts i => s[i]?.bind fun m => some (s, [.number m.count])
  | .remaining i => s[i]?.bind fun m => some (s, [.remaining m.remaining])

def machine : Lib.Machine (List Message) MessageCall Answer := ⟨step host⟩

end
end Seen

/-! ## deques -/

structure Deque (α : Type) where
  parts : List α := []
  readCursor : ℕ := 0
deriving DecidableEq

/-- how values are written to parts and read from them.  `read` is `none` where a reading is not
meant to take place. -/
structure Coding (α : Type) where
  write : Value → α
  read : ValueType → α → Option (Except Failure Value)
  size : α → ℕ

namespace Deque
variable {α β : Type}

def map (f : α → β) (d : Deque α) : Deque β := ⟨d.parts.map f, d.readCursor⟩

variable (c : Coding α)

def get (d : Deque α) (type : ValueType) (part : ℕ) : Option (Except Failure Value) :=
  match d.parts[part]? with
  | none => some (.error (.threw Message.outsideRange))
  | some a => c.read type a

/-- the parts from the front on, one for each type; an assertion fails where there is none -/
def extract : List α → List ValueType → Option (Except Failure (List Value))
  | _, [] => some (.ok [])
  | [], _ :: _ => some (.error .assertFailed)
  | a :: as, type :: types => (c.read type a).bind fun
    | .error f => some (.error f)
    | .ok v => (extract as types).map fun r => r.map (v :: ·)

def size (d : Deque α) (part : ℕ) : Except Exn ℕ :=
  match d.parts[part]? with
  | none => .error Message.outsideRange
  | some a => .ok (c.size a)

def append (d : Deque α) (args : List Value) : Deque α :=
  { d with parts := d.parts ++ args.map c.write }

/-- replace deque `i` -/
def put (s : List (Deque α)) (i : ℕ) (d : Deque α) : Option (List (Deque α) × List Answer) :=
  some (s.set i d, [])

def step (s : List (Deque α)) : MessageCall → Option (List (Deque α) × List Answer)
  | .cursor .construct => some (s ++ [{}], [])
  | .cursor (.streamOut i v) => s[i]?.bind fun d => put s i (d.append c [v])
  | .cursor (.streamIn i type) => s[i]?.bind fun d => (d.get c type d.readCursor).map fun r =>
    (s.set i { d with readCursor := d.readCursor + 1 }, [.value r])
  | .cursor (.next i) => s[i]?.bind fun d =>
    some (s.set i { d with readCursor := d.readCursor + 1 }, [.number (d.readCursor + 1)])
  | .cursor (.resetReadCursor i) => s[i]?.bind fun d => put s i { d with readCursor := 0 }
  | .cursor (.pushFront i v) => s[i]?.bind fun d => put s i { d with parts := c.write v :: d.parts }
  | .cursor (.popFront i) => s[i]?.bind fun d =>
    if 0 < d.parts.length then put s i { d with parts := d.parts.tail } else none
  | .cursor (.popBack i) => s[i]?.bind fun d =>
    if 0 < d.parts.length then put s i { d with parts := d.parts.dropLast } else none
  | .cursor (.remove i part) => s[i]?.bind fun d =>
    if part < d.parts.length then put s i { d with parts := d.parts.eraseIdx part } else none
  | .cursor (.copy i j) => s[i]?.bind fun d => s[j]?.bind fun source =>
    put s i { d with parts := source.parts }
  | .cursor (.moveCtor j) => s[j]?.bind fun d => some (s.set j {} ++ [d], [])
  | .cursor (.moveAssign i j) => s[i]?.bind fun _ => s[j]?.bind fun d =>
    if i = j then put s i {} else some ((s.set j {}).set i d, [])
  | .construct args => some (s ++ [({} : Deque α).append c args], [])
  | .add i args => s[i]?.bind fun d => put s i (d.append c args)
  | .get i type part => s[i]?.bind fun d => (d.get c type part).map fun r => (s, [.value r])
  | .extract i args => s[i]?.bind fun d => (extract c d.parts args).map fun r => (s, [.values r])
  | .size i part => s[i]?.bind fun d => some (s, [.size (d.size c part)])
  | .parts i => s[i]?.bind fun d => some (s, [.number d.parts.length])
  | .remaining i => s[i]?.bind fun d =>
    some (s, [.remaining (UInt64.ofNat d.parts.length - UInt64.ofNat d.readCursor)])

def machine : Lib.Machine (List (Deque α)) MessageCall Answer := ⟨step c⟩

end Deque

/-! ## bytes -/

/-- the number that the bytes of a part in network order are read as -/
def ValueType.ofNumber : ValueType → ℕ → Value
  | .int8, n => .int8 (UInt8.ofNat n).toInt8
  | .int16, n => .int16 (UInt16.ofNat n).toInt16
  | .int32, n => .int32 (UInt32.ofNat n).toInt32
  | .int64, n => .int64 (UInt64.ofNat n).toInt64
  | .signal, n => .signal (UInt64.ofNat n).toInt64
  | .uint8, n => .uint8 (UInt8.ofNat n)
  | .uint16, n => .uint16 (UInt16.ofNat n)
  | .uint32, n => .uint32 (UInt32.ofNat n)
  | .uint64, n => .uint64 (UInt64.ofNat n)
  | .float, n => .float (UInt32.ofNat n)
  | .double, n => .double (UInt64.ofNat n)
  | .bool, n => .bool (n != 0)
  | .string, _ => .string []

/-- the size of the values of a type; a string may have any -/
def ValueType.width : ValueType → Option ℕ
  | .int8 | .uint8 | .bool => some 1
  | .int16 | .uint16 => some 2
  | .int32 | .uint32 | .float => some 4
  | .int64 | .signal | .uint64 | .double => some 8
  | .string => none

/-- the value that the bytes stand for, on any host -/
def ValueType.decode (type : ValueType) (data : Bytes) : Except Failure Value :=
  match type.width with
  | none => .ok (.string data)
  | some n => if data.length = n then .ok (type.ofNumber (numberOf data)) else .error .assertFailed

def wire : Coding Bytes where
  write := Value.wireFormat
  read type data := some (type.decode data)
  size := List.length

def Message.deque (m : Message) : Deque Bytes := ⟨m.payloads, m.readCursor⟩

/-! ### what is read is the number in network order -/

section
variable (host : Order) {data : Bytes}

theorem bytesOf_data {n : ℕ} (h : data.length = n) : bytesOf n (numberOf data) = data := by
  rw [← h]
  exact Lib.bytesOf_numberOf data

theorem numberOf_data_lt {n : ℕ} (h : data.length = n) : numberOf data < 256 ^ n := by
  rw [← h]
  exact Lib.numberOf_lt data

theorem ntohs_data (h : data.length = 2) :
    host.ntohs (host.loadUInt16 data) = UInt16.ofNat (numberOf data) := by
  have hnat : (UInt16.ofNat (numberOf data)).toNat = numberOf data :=
    UInt16.toNat_ofNat_of_lt (numberOf_data_lt h)
  have hload := host.ntohs_load (UInt16.ofNat (numberOf data))
  rw [hnat, bytesOf_data h] at hload
  exact hload

theorem ntohl_data (h : data.length = 4) :
    host.ntohl (host.loadUInt32 data) = UInt32.ofNat (numberOf data) := by
  have hnat : (UInt32.ofNat (numberOf data)).toNat = numberOf data :=
    UInt32.toNat_ofNat_of_lt (numberOf_data_lt h)
  have hload := host.ntohl_load (UInt32.ofNat (numberOf data))
  rw [hnat, bytesOf_data h] at hload
  exact hload

theorem ntohll_data (h : data.length = 8) :
    host.ntohll (host.loadUInt64 data) = UInt64.ofNat (numberOf data) := by
  have hnat : (UInt64.ofNat (numberOf data)).toNat = numberOf data :=
    UInt64.toNat_ofNat_of_lt (numberOf_data_lt h)
  have hload := host.ntohll_load (UInt64.ofNat (numberOf data))
  rw [hnat, bytesOf_data h] at hload
  exact hload

theorem byte_data (h : data.length = 1) : data.getD 0 0 = UInt8.ofNat (numberOf data) := by
  obtain ⟨b, rfl⟩ := List.length_eq_one_iff.mp h
  show b = UInt8.ofNat (256 * 0 + b.toNat)
  rw [Nat.mul_zero, Nat.zero_add, UInt8.ofNat_toNat]

theorem bool_data (h : data.length = 1) : (data.getD 0 0 != 0) = (numberOf data != 0) := by
  obtain ⟨b, rfl⟩ := List.length_eq_one_iff.mp h
  have hnumber : numberOf [b] = b.toNat := (Nat.zero_add _).trans rfl
  rw [hnumber]
  show (b != 0) = (b.toNat != 0)
  by_cases hb : b = 0
  · rw [hb]
    rfl
  · have hne : b.toNat ≠ 0 := fun h0 => hb (UInt8.toNat_inj.mp h0)
    rw [bne_iff_ne.mpr hb, bne_iff_ne.mpr hne]

variable {m : Message} {part : ℕ}

theorem dataOfSize_eq (h : m.payloads[part]? = some data) (n : ℕ) :
    m.dataOfSize n part = if data.length = n then .ok data else .error .assertFailed := by
  obtain ⟨hget, hsize⟩ := Message.get_of_payloads h
  unfold Message.dataOfSize
  rw [hsize, hget]
  dsimp only
  by_cases hn : data.length = n
  · rw [if_pos hn.symm, if_pos hn]
    rfl
  · rw [if_neg (Ne.symm hn), if_neg hn]

/-- a number is read from a part of its width -/
theorem decode_number {type : ValueType} {n : ℕ} (h : m.payloads[part]? = some data)
    (hwidth : type.width = some n) {f : Bytes → Value}
    (hf : data.length = n → f data = type.ofNumber (numberOf data)) :
    (m.dataOfSize n part >>= fun data => pure (f data)) = type.decode data := by
  unfold ValueType.decode
  rw [hwidth, dataOfSize_eq h n]
  dsimp only
  by_cases hn : data.length = n
  · rw [if_pos hn, if_pos hn, ← hf hn]
    rfl
  · rw [if_neg hn, if_neg hn]
    rfl

/-- **`get` decodes the part**, on either host. -/
theorem getValue_decode (h : m.payloads[part]? = some data) (type : ValueType) :
    m.getValue host type part = type.decode data := by
  cases type with
  | int8 =>
    exact decode_number h rfl fun hn => congrArg (fun x => Value.int8 x.toInt8) (byte_data hn)
  | int16 =>
    exact decode_number h rfl fun hn =>
      congrArg (fun x => Value.int16 x.toInt16) (ntohs_data host hn)
  | int32 =>
    refine decode_number h rfl fun hn => ?_
    rw [host.htonl_eq_ntohl, ntohl_data host hn]
    rfl
  | int64 =>
    exact decode_number h rfl fun hn =>
      congrArg (fun x => Value.int64 x.toInt64) (ntohll_data host hn)
  | signal =>
    exact decode_number h rfl fun hn =>
      congrArg (fun x => Value.signal x.toInt64) (ntohll_data host hn)
  | uint8 => exact decode_number h rfl fun hn => congrArg Value.uint8 (byte_data hn)
  | uint16 => exact decode_number h rfl fun hn => congrArg Value.uint16 (ntohs_data host hn)
  | uint32 => exact decode_number h rfl fun hn => congrArg Value.uint32 (ntohl_data host hn)
  | uint64 => exact decode_number h rfl fun hn => congrArg Value.uint64 (ntohll_data host hn)
  | float => exact decode_number h rfl fun hn => congrArg Value.float (ntohl_data host hn)
  | double => exact decode_number h rfl fun hn => congrArg Value.double (ntohll_data host hn)
  | bool => exact decode_number h rfl fun hn => congrArg Value.bool (bool_data hn)
  | string =>
    show ((m.get part).mapError Failure.threw >>= _) = _
    rw [(Message.get_of_payloads h).1]
    rfl

end

/-! ## messages are deques -/

namespace Message

variable (host : Order)

theorem deque_get (m : Message) (type : ValueType) (part : ℕ) :
    m.deque.get wire type part = some (m.getValue host type part) := by
  have hparts : m.deque.parts = m.payloads := rfl
  unfold Deque.get
  rw [hparts]
  cases h : m.payloads[part]? with
  | none =>
    have hout : m.count ≤ part := by
      rw [← payloads_length]
      exact List.getElem?_eq_none_iff.mp h
    rw [getValue_error type hout]
  | some data =>
    rw [getValue_decode host h]
    rfl

theorem deque_size (m : Message) (part : ℕ) : m.deque.size wire part = m.size part := by
  have hparts : m.deque.parts = m.payloads := rfl
  unfold Deque.size size
  rw [hparts, payloads, List.getElem?_map]
  cases m.parts.elems[part]? with
  | none => rfl
  | some f => rfl

/-- `extract` takes its values from the parts that follow -/
theorem deque_extract (m : Message) (part : ℕ) (types : List ValueType) :
    Deque.extract wire (m.payloads.drop part) types = some (m.extractFrom host part types) := by
  induction types generalizing part with
  | nil =>
    cases m.payloads.drop part <;> rfl
  | cons type types ih =>
    unfold extractFrom
    by_cases hpart : part < m.count
    · have hlen : part < m.payloads.length := by rwa [payloads_length]
      have hdata : m.payloads[part]? = some m.payloads[part] := List.getElem?_eq_getElem hlen
      rw [if_pos hpart, List.drop_eq_getElem_cons hlen, getValue_decode host hdata]
      show (some (type.decode m.payloads[part])).bind _ = _
      rw [Option.bind_some]
      cases type.decode m.payloads[part] with
      | error f => rfl
      | ok v =>
        dsimp only
        rw [ih]
        show some _ = some _
        cases m.extractFrom host (part + 1) types <;> rfl
    · have hnil : m.payloads.drop part = [] := by
        apply List.drop_eq_nil_of_le
        rw [payloads_length]
        omega
      rw [if_neg hpart, hnil]
      rfl

section
variable [VectorGrowth]

theorem deque_written (m : Message) (vs : List Value) :
    (m.written host vs).deque = m.deque.append wire vs := by
  unfold deque Deque.append
  rw [written_payloads, written_readCursor]
  rfl

theorem deque_pushFront (m : Message) (v : Value) :
    (m.pushFrontValue host v).1.deque = { m.deque with parts := v.wireFormat :: m.payloads } := by
  rw [pushFrontValue_eq]
  unfold deque
  rw [pushFront_payloads]
  rfl

theorem deque_copyFrom (m source : Message) :
    (m.copyFrom source).deque = { m.deque with parts := source.payloads } := by
  have hparts : (m.copyFrom source).payloads = source.payloads :=
    congrArg (List.map fun f : Frame => f.msg.data) (copyFrom_elems m source)
  unfold deque
  rw [hparts]
  rfl

end

theorem deque_remove (m : Message) (part : ℕ) :
    (m.remove part).1.deque = { m.deque with parts := m.payloads.eraseIdx part } := by
  have hparts : (m.remove part).1.payloads = m.payloads.eraseIdx part := by
    unfold payloads
    rw [remove_elems, List.eraseIdx_map]
  unfold deque
  rw [hparts]
  rfl

theorem deque_popBack (m : Message) :
    m.popBack.1.deque = { m.deque with parts := m.payloads.dropLast } := by
  have hparts : m.popBack.1.payloads = m.payloads.dropLast := by
    unfold payloads
    rw [popBack_elems, List.map_dropLast]
  unfold deque
  rw [hparts]
  rfl

end Message

/-! ### step by step -/

/-- what a step does with the message it finds, seen as a deque -/
theorem bind_found {γ δ : Type} (s : List Message) (i : ℕ) {k : Message → Option γ}
    {k' : Deque Bytes → Option δ} {g : γ → δ} (h : ∀ m, (k m).map g = k' m.deque) :
    (s[i]?.bind k).map g = (s.map Message.deque)[i]?.bind k' := by
  rw [List.getElem?_map]
  cases s[i]? with
  | none => rfl
  | some m => exact h m

namespace Seen

/-- the pool after a step and the answers, the messages seen as deques -/
def deques (r : List Message × List Answer) : List (Deque Bytes) × List Answer :=
  (r.1.map Message.deque, r.2)

theorem deques_set (s : List Message) (i : ℕ) {m : Message} {d : Deque Bytes} (h : m.deque = d)
    (e : List Answer) :
    some (deques (s.set i m, e)) = some ((s.map Message.deque).set i d, e) := by
  unfold deques
  rw [List.map_set, h]

theorem deques_concat (s : List Message) {m : Message} {d : Deque Bytes} (h : m.deque = d)
    (e : List Answer) :
    some (deques (s ++ [m], e)) = some (s.map Message.deque ++ [d], e) := by
  unfold deques
  rw [List.map_append, List.map_singleton, h]

/-- an operation of the cursors that finds message `i` and answers nothing -/
theorem deques_bind (s : List Message) (i : ℕ)
    {k : Message → Option (List Message × List Failure)}
    {k' : Deque Bytes → Option (List (Deque Bytes) × List Answer)}
    (h : ∀ m, ((k m).map fun r => (r.1, [])).map deques = k' m.deque) :
    ((s[i]?.bind k).map fun r => (r.1, [])).map deques = (s.map Message.deque)[i]?.bind k' := by
  rw [Option.map_map]
  exact bind_found s i fun m => (Option.map_map ..).symm.trans (h m)

variable [VectorGrowth] (host : Order)

theorem deques_cursor (s : List Message) (op : CursorOp) :
    (step host s (.cursor op)).map deques = Deque.step wire (s.map Message.deque) (.cursor op) := by
  cases op with
  | construct => exact deques_concat s rfl []
  | streamOut i v =>
    apply deques_bind
    intro m
    exact deques_set s i (m.deque_written host [v]) []
  | streamIn i type =>
    show ((s[i]?.bind _).map _).map deques = (s.map Message.deque)[i]?.bind _
    rw [List.getElem?_map]
    cases h : s[i]? with
    | none => rfl
    | some m =>
      show some (deques (s.set i (m.streamIn host type).1, answers host s (.streamIn i type)))
        = (m.deque.get wire type m.readCursor).map _
      have hanswers : answers host s (.streamIn i type)
          = [.value (m.getValue host type m.readCursor)] := by
        show List.map _ s[i]?.toList = _
        rw [h]
        rfl
      rw [hanswers, m.deque_get host]
      exact deques_set s i rfl _
  | next i =>
    show ((s[i]?.bind _).map _).map deques = (s.map Message.deque)[i]?.bind _
    rw [List.getElem?_map]
    cases h : s[i]? with
    | none => rfl
    | some m =>
      have hanswers : answers host s (.next i) = [.number (m.readCursor + 1)] := by
        show List.map _ s[i]?.toList = _
        rw [h]
        rfl
      show some (deques (s.set i m.next.1, answers host s (.next i))) = _
      rw [hanswers]
      exact deques_set s i rfl _
  | resetReadCursor i =>
    apply deques_bind
    intro m
    exact deques_set s i rfl []
  | pushFront i v =>
    apply deques_bind
    intro m
    exact deques_set s i (m.deque_pushFront host v) []
  | popFront i =>
    apply deques_bind
    intro m
    show Option.map _ (Option.map _ (if 0 < m.count then _ else none))
      = if 0 < m.payloads.length then _ else none
    rw [Message.payloads_length]
    split
    · refine deques_set s i ((m.deque_remove 0).trans ?_) []
      rw [List.eraseIdx_zero]
      rfl
    · rfl
  | popBack i =>
    apply deques_bind
    intro m
    show Option.map _ (Option.map _ (if 0 < m.count then _ else none))
      = if 0 < m.payloads.length then _ else none
    rw [Message.payloads_length]
    split
    · exact deques_set s i m.deque_popBack []
    · rfl
  | remove i part =>
    apply deques_bind
    intro m
    show Option.map _ (Option.map _ (if part < m.count then _ else none))
      = if part < m.payloads.length then _ else none
    rw [Message.payloads_length]
    split
    · exact deques_set s i (m.deque_remove part) []
    · rfl
  | copy i j =>
    apply deques_bind
    intro m
    apply deques_bind
    intro source
    exact deques_set s i (m.deque_copyFrom source) []
  | moveCtor j =>
    apply deques_bind
    intro m
    show some (deques (s.set j m.moveCtor.2 ++ [m.moveCtor.1], [])) = _
    rw [deques_concat _ rfl, List.map_set]
    rfl
  | moveAssign i j =>
    apply deques_bind
    intro a
    apply deques_bind
    intro b
    split
    · exact deques_set s i rfl []
    · show some (deques ((s.set j (a.moveAssign b).2.1).set i (a.moveAssign b).1, [])) = _
      rw [deques_set _ i rfl, List.map_set]
      rfl

/-- **One call** on messages is the call on the deques that they are. -/
theorem deques_step (s : List Message) (op : MessageCall) :
    (step host s op).map deques = Deque.step wire (s.map Message.deque) op := by
  cases op with
  | cursor op => exact deques_cursor host s op
  | construct args =>
    refine deques_concat s ?_ []
    rw [Message.add_eq]
    exact Message.deque_written host {} args
  | add i args =>
    apply bind_found
    intro m
    refine deques_set s i ?_ []
    rw [Message.add_eq]
    exact m.deque_written host args
  | get i type part =>
    apply bind_found
    intro m
    rw [m.deque_get host]
    rfl
  | extract i args =>
    apply bind_found
    intro m
    have hextract : Deque.extract wire m.deque.parts args = some (m.extract host args) :=
      m.deque_extract host 0 args
    rw [hextract]
    rfl
  | size i part =>
    apply bind_found
    intro m
    rw [m.deque_size]
    rfl
  | parts i =>
    apply bind_found
    intro m
    show some (deques (s, [.number m.count])) = some (_, [.number m.payloads.length])
    rw [Message.payloads_length]
    rfl
  | remaining i =>
    apply bind_found
    intro m
    show some (deques (s, [.remaining (UInt64.ofNat m.count - UInt64.ofNat m.readCursor)]))
      = some (_, [.remaining (UInt64.ofNat m.payloads.length - UInt64.ofNat m.readCursor)])
    rw [Message.payloads_length]
    rfl

/-- **Messages are deques of parts of bytes.**  Whatever is called on them, on whatever host and
however the vectors grow, succeeds, is undefined, answers and leaves the contents and cursors as it
does on the deques, which know numbers in network order only. -/
theorem messages_are_deques (s : List Message) (ops : List MessageCall) :
    ((machine host).exec s ops).map deques
      = (Deque.machine wire).exec (s.map Message.deque) ops :=
  Lib.Machine.exec_map (List.map Message.deque) (deques_step host) s ops

end Seen

/-! ## extract -/

/-- a part is refused for its size only -/
theorem decode_error {type : ValueType} {data : Bytes} {f : Failure}
    (h : type.decode data = .error f) : f = .assertFailed := by
  unfold ValueType.decode at h
  cases hw : type.width with
  | none =>
    rw [hw] at h
    cases h
  | some n =>
    rw [hw] at h
    dsimp only at h
    split at h
    · cases h
    · exact (Except.error.inj h).symm

namespace Message

variable (host : Order)

theorem extractFrom_eq (m : Message) (part : ℕ) (types : List ValueType) :
    m.extractFrom host part types
      = (streamInAll host { m with readCursor := part } types).mapError
          fun _ => Failure.assertFailed := by
  induction types generalizing part with
  | nil => rfl
  | cons type types ih =>
    unfold extractFrom
    by_cases hpart : part < m.count
    · have hlen : part < m.payloads.length := by rwa [payloads_length]
      have hvalue := getValue_decode host (List.getElem?_eq_getElem hlen) type
      rw [if_pos hpart]
      cases hdecode : type.decode m.payloads[part] with
      | error f =>
        rw [hdecode] at hvalue
        -- the assertion of `get` is the one that fails, on either path
        have hread : streamInAll host { m with readCursor := part } (type :: types) = .error f :=
          streamInAll_cons_error host hvalue
        rw [hvalue, hread, decode_error hdecode]
        rfl
      | ok v =>
        rw [hdecode] at hvalue
        have hread : streamInAll host { m with readCursor := part } (type :: types)
            = (streamInAll host { m with readCursor := part + 1 } types).map (v :: ·) :=
          streamInAll_cons host hvalue
        rw [hvalue, hread, ih]
        cases streamInAll host { m with readCursor := part + 1 } types <;> rfl
    · have hvalue : m.getValue host type part = .error (.threw outsideRange) :=
        getValue_error type (Nat.le_of_not_lt hpart)
      have hread : streamInAll host { m with readCursor := part } (type :: types)
          = .error (.threw outsideRange) := streamInAll_cons_error host hvalue
      rw [if_neg hpart, hread]
      rfl

/-- **`extract` returns what `operator>>` returns from the first part on**, wherever the cursor
stands; where the stream would have failed, by its exception or its assertion, an assertion of
`extract` fails. -/
theorem extract_reads_stream (m : Message) (types : List ValueType) :
    m.extract host types
      = (m.resetReadCursor.streamInAll host types).mapError fun _ => Failure.assertFailed :=
  m.extractFrom_eq host 0 types

end Message

/-! ## values -/

/-- parts that are the values written, which are read at their types only -/
def typed : Coding Value where
  write v := v
  read type v := if v.type = type then some (.ok v.readBack) else none
  size v := v.wireFormat.length

theorem decode_wireFormat (v : Value) : v.type.decode v.wireFormat = .ok v.readBack := by
  have hpart : (⟨⟨[Frame.copyOf v.wireFormat], 1⟩, 0⟩ : Message).payloads[0]?
      = some v.wireFormat := rfl
  rw [← getValue_decode .bigEndian hpart]
  exact Message.getValue_wireFormat .bigEndian hpart

/-- parts of one coding are seen as parts of the other, and a reading that takes place there is
the same here -/
structure Coding.Into {α β : Type} (c : Coding α) (c' : Coding β) (f : α → β) : Prop where
  write : ∀ v, f (c.write v) = c'.write v
  read : ∀ type a r, c.read type a = some r → c'.read type (f a) = some r
  size : ∀ a, c.size a = c'.size (f a)

theorem typed_into_wire : typed.Into wire Value.wireFormat where
  write _ := rfl
  read type v r h := by
    change (if v.type = type then some (.ok v.readBack) else none) = some r at h
    split at h
    · rename_i htype
      subst htype
      rw [← Option.some.inj h, ← decode_wireFormat]
      rfl
    · cases h
  size _ := rfl

namespace Deque
variable {α β : Type} {c : Coding α} {c' : Coding β} {f : α → β}

theorem get_into (hf : c.Into c' f) {d : Deque α} {type : ValueType} {part : ℕ}
    {r : Except Failure Value} (h : d.get c type part = some r) :
    (d.map f).get c' type part = some r := by
  have hparts : (d.map f).parts[part]? = d.parts[part]?.map f := List.getElem?_map ..
  unfold get at *
  rw [hparts]
  cases hpart : d.parts[part]? with
  | none =>
    rw [hpart] at h
    exact h
  | some a =>
    rw [hpart] at h
    exact hf.read type a r h

theorem extract_into (hf : c.Into c' f) {as : List α} {types : List ValueType}
    {r : Except Failure (List Value)} (h : extract c as types = some r) :
    extract c' (as.map f) types = some r := by
  induction types generalizing as r with
  | nil =>
    cases as with
    | nil => exact h
    | cons a as => exact h
  | cons type types ih =>
    cases as with
    | nil => exact h
    | cons a as =>
      obtain ⟨x, hx, h⟩ := Option.bind_eq_some_iff.mp h
      refine Option.bind_eq_some_iff.mpr ⟨x, hf.read type a x hx, ?_⟩
      cases x with
      | error e => exact h
      | ok v =>
        obtain ⟨rest, hrest, hr⟩ := Option.map_eq_some_iff.mp h
        exact Option.map_eq_some_iff.mpr ⟨rest, ih hrest, hr⟩

theorem size_into (hf : c.Into c' f) (d : Deque α) (part : ℕ) :
    (d.map f).size c' part = d.size c part := by
  have hparts : (d.map f).parts[part]? = d.parts[part]?.map f := List.getElem?_map ..
  unfold size
  rw [hparts]
  cases d.parts[part]? with
  | none => rfl
  | some a => exact congrArg Except.ok (hf.size a).symm

theorem append_into (hf : c.Into c' f) (d : Deque α) (args : List Value) :
    (d.append c args).map f = (d.map f).append c' args := by
  unfold append map
  rw [List.map_append, List.map_map]
  simp only [Function.comp_def, hf.write]

/-- the pool after a step and the answers, the parts seen as those of the other coding -/
def into (f : α → β) (r : List (Deque α) × List Answer) : List (Deque β) × List Answer :=
  (r.1.map (map f), r.2)

theorem into_set (f : α → β) (s : List (Deque α)) (i : ℕ) {d : Deque α} {d' : Deque β}
    (h : d.map f = d') (e : List Answer) :
    into f (s.set i d, e) = ((s.map (map f)).set i d', e) := by
  unfold into
  rw [List.map_set, h]

/-- a step that finds deque `i` -/
theorem found_into {s : List (Deque α)} {i : ℕ}
    {k : Deque α → Option (List (Deque α) × List Answer)}
    {k' : Deque β → Option (List (Deque β) × List Answer)} {r : List (Deque α) × List Answer}
    (h : s[i]?.bind k = some r) (hk : ∀ d, k d = some r → k' (d.map f) = some (into f r)) :
    (s.map (map f))[i]?.bind k' = some (into f r) := by
  obtain ⟨d, hd, h⟩ := Option.bind_eq_some_iff.mp h
  rw [List.getElem?_map, hd]
  exact hk d h

/-- a step that changes deque `i` and answers nothing -/
theorem put_into {s : List (Deque α)} {i : ℕ} {d : Deque α} {d' : Deque β}
    {r : List (Deque α) × List Answer} (h : put s i d = some r) (hd : d.map f = d') :
    put (s.map (map f)) i d' = some (into f r) := by
  rw [← Option.some.inj h]
  exact congrArg some (into_set f s i hd []).symm

theorem cursor_into (hf : c.Into c' f) {s : List (Deque α)} {op : CursorOp}
    {r : List (Deque α) × List Answer} (h : step c s (.cursor op) = some r) :
    step c' (s.map (map f)) (.cursor op) = some (into f r) := by
  cases op with
  | construct =>
    rw [← Option.some.inj h]
    unfold into
    rw [List.map_append]
    rfl
  | streamOut i v =>
    apply found_into h
    intro d hd
    exact put_into hd (append_into hf d [v])
  | streamIn i type =>
    apply found_into h
    intro d hd
    obtain ⟨x, hx, rfl⟩ := Option.map_eq_some_iff.mp hd
    have hmoved : map f { d with readCursor := d.readCursor + 1 }
        = { d.map f with readCursor := d.readCursor + 1 } := rfl
    exact Option.map_eq_some_iff.mpr ⟨x, get_into hf hx, (into_set f s i hmoved _).symm⟩
  | next i =>
    apply found_into h
    intro d hd
    have hmoved : map f { d with readCursor := d.readCursor + 1 }
        = { d.map f with readCursor := d.readCursor + 1 } := rfl
    rw [← Option.some.inj hd]
    exact congrArg some (into_set f s i hmoved _).symm
  | resetReadCursor i =>
    apply found_into h
    intro d hd
    exact put_into hd rfl
  | pushFront i v =>
    apply found_into h
    intro d hd
    refine put_into hd ?_
    show (⟨f (c.write v) :: d.parts.map f, d.readCursor⟩ : Deque β) = _
    rw [hf.write]
    rfl
  | popFront i =>
    apply found_into h
    intro d hd
    obtain ⟨hpos, hd⟩ := Option.ite_none_right_eq_some.mp hd
    refine Option.ite_none_right_eq_some.mpr ⟨(List.length_map f).symm ▸ hpos, put_into hd ?_⟩
    exact congrArg (fun ps => (⟨ps, d.readCursor⟩ : Deque β)) List.map_tail
  | popBack i =>
    apply found_into h
    intro d hd
    obtain ⟨hpos, hd⟩ := Option.ite_none_right_eq_some.mp hd
    refine Option.ite_none_right_eq_some.mpr ⟨(List.length_map f).symm ▸ hpos, put_into hd ?_⟩
    exact congrArg (fun ps => (⟨ps, d.readCursor⟩ : Deque β)) List.map_dropLast
  | remove i part =>
    apply found_into h
    intro d hd
    obtain ⟨hpart, hd⟩ := Option.ite_none_right_eq_some.mp hd
    have hlen : part < (d.parts.map f).length := (List.length_map f).symm ▸ hpart
    refine Option.ite_none_right_eq_some.mpr ⟨hlen, put_into hd ?_⟩
    exact congrArg (fun ps => (⟨ps, d.readCursor⟩ : Deque β)) (List.eraseIdx_map ..).symm
  | copy i j =>
    apply found_into h
    intro d hd
    apply found_into hd
    intro source hsource
    exact put_into hsource rfl
  | moveCtor j =>
    apply found_into h
    intro d hd
    rw [← Option.some.inj hd]
    unfold into
    rw [List.map_append, List.map_set]
    rfl
  | moveAssign i j =>
    apply found_into h
    intro a ha
    apply found_into ha
    intro b hb
    by_cases hij : i = j
    · rw [if_pos hij] at hb ⊢
      exact put_into hb rfl
    · rw [if_neg hij] at hb ⊢
      rw [← Option.some.inj hb, into_set f _ i rfl, List.map_set]
      rfl

/-- **One call** on deques of one coding is the call on those of the other. -/
theorem step_into (hf : c.Into c' f) {s : List (Deque α)} {op : MessageCall}
    {r : List (Deque α) × List Answer} (h : step c s op = some r) :
    step c' (s.map (map f)) op = some (into f r) := by
  cases op with
  | cursor op => exact cursor_into hf h
  | construct args =>
    rw [← Option.some.inj h]
    unfold into
    rw [List.map_append, List.map_singleton, append_into hf]
    rfl
  | add i args =>
    apply found_into h
    intro d hd
    exact put_into hd (append_into hf d args)
  | get i type part =>
    apply found_into h
    intro d hd
    obtain ⟨x, hx, rfl⟩ := Option.map_eq_some_iff.mp hd
    exact Option.map_eq_some_iff.mpr ⟨x, get_into hf hx, rfl⟩
  | extract i args =>
    apply found_into h
    intro d hd
    obtain ⟨x, hx, rfl⟩ := Option.map_eq_some_iff.mp hd
    exact Option.map_eq_some_iff.mpr ⟨x, extract_into hf hx, rfl⟩
  | size i part =>
    apply found_into h
    intro d hd
    rw [← Option.some.inj hd, size_into hf]
    rfl
  | parts i =>
    apply found_into h
    intro d hd
    rw [← Option.some.inj hd]
    show some (_, [Answer.number (d.parts.map f).length]) = _
    rw [List.length_map]
    rfl
  | remaining i =>
    apply found_into h
    intro d hd
    rw [← Option.some.inj hd]
    show some (_, [Answer.remaining (UInt64.ofNat (d.parts.map f).length - _)]) = _
    rw [List.length_map]
    rfl

end Deque

namespace Seen

/-- **What is read at its type is what was written.**  A pool of messages holds values, written on
any host.  Whatever is called on them here, as long as every part is read at the type of its value:
the calls answer with the values themselves, found by position in the rows of values, and leave
the messages holding the values of those rows. -/
theorem typed_reads [VectorGrowth] (host : Order) {s : List Message} {ds ds' : List (Deque Value)}
    (hs : s.map Message.deque = ds.map (Deque.map Value.wireFormat)) {ops : List MessageCall}
    {answers : List Answer} (h : (Deque.machine typed).exec ds ops = some (ds', answers)) :
    ∃ t, (machine host).exec s ops = some (t, answers) ∧
      t.map Message.deque = ds'.map (Deque.map Value.wireFormat) := by
  have hwire : (Deque.machine wire).exec (ds.map (Deque.map Value.wireFormat)) ops
      = some (ds'.map (Deque.map Value.wireFormat), answers) := by
    apply Lib.Machine.exec_lift (List.map (Deque.map Value.wireFormat)) _ h
    intro d op d' e hstep
    exact Deque.step_into typed_into_wire hstep
  have hmessages : ((machine host).exec s ops).map deques
      = (Deque.machine wire).exec (s.map Message.deque) ops :=
    Lib.Machine.exec_map (List.map Message.deque) (deques_step host) s ops
  rw [hs] at hmessages
  obtain ⟨⟨t, e⟩, ht, hte⟩ := Option.map_eq_some_iff.mp (hmessages.trans hwire)
  obtain ⟨hparts, rfl⟩ := Prod.mk.inj hte
  exact ⟨t, ht, hparts⟩

/-- a string and a number are built, copied, and read from either end of the copy -/
theorem typed_reads_copied :
    letI : VectorGrowth := ⟨fun n => n + 1⟩
    ∃ t, (machine .littleEndian).exec []
        [.construct [.string (ascii "a"), .int16 (-2)], .cursor .construct, .cursor (.copy 1 0),
          .get 1 .int16 1, .cursor (.popBack 1), .cursor (.streamIn 1 .string)]
        = some (t, [.value (.ok (.int16 (-2))), .value (.ok (.string (ascii "a")))]) ∧
      t.map Message.deque = [⟨[ascii "a", [0xff, 0xfe]], 0⟩, ⟨[ascii "a"], 1⟩] := by
  let _ : VectorGrowth := ⟨fun n => n + 1⟩
  have h : (Deque.machine typed).exec []
      [.construct [.string (ascii "a"), .int16 (-2)], .cursor .construct, .cursor (.copy 1 0),
        .get 1 .int16 1, .cursor (.popBack 1), .cursor (.streamIn 1 .string)]
      = some ([⟨[.string (ascii "a"), .int16 (-2)], 0⟩, ⟨[.string (ascii "a")], 1⟩],
        [.value (.ok (.int16 (-2))), .value (.ok (.string (ascii "a")))]) := by decide
  exact typed_reads .littleEndian rfl h

end Seen
end Zmqpp
