import ZmqppPty.Lib.Lines
import ZmqppPty.Message.Basic
import ZmqppPty.Message.Inet

/-!
# Typed streams (operator<<, push_front and get in message.cpp)

Every type has three functions of its own in the source, and so it has here: one that appends a
part, one that puts it in front, and one that reads it.  `float` and `double` are their bit
patterns.

* `streamOut`, `pushFrontValue`, `getValue`   the three families;
* `streamIn`                                  `operator>>`, which moves the read cursor;
* `wireFormat`                                what a part should be: integers big-endian in two's
                                              complement of their width, strings as they are;
* `streamOut_eq`, `pushFrontValue_eq`         both writers produce it, on either host;
* `getValue_wireFormat`                       and the reader of the same type reads it back;
* `stream_round_trip`                         hence whole lists of values do.
-/

namespace Zmqpp

open Lib (bytesOf)

/-- the bytes before the terminating NUL of a C string -/
abbrev CString := { s : Bytes // (0 : UInt8) ∉ s }

/-- the memory a `char const*` points at -/
def CString.memory (s : CString) : Bytes := s.val ++ [0]

def strlen (memory : Bytes) : ℕ := (memory.takeWhile fun c => c ≠ 0).length

/-- a value of one of the overloads; `signal` is an enumeration over `int64_t` -/
inductive Value where
  | int8 (integer : Int8)
  | int16 (integer : Int16)
  | int32 (integer : Int32)
  | int64 (integer : Int64)
  | signal (sig : Int64)
  | uint8 (unsigned_integer : UInt8)
  | uint16 (unsigned_integer : UInt16)
  | uint32 (unsigned_integer : UInt32)
  | uint64 (unsigned_integer : UInt64)
  | float (floating_point : UInt32)
  | double (double_precision : UInt64)
  | bool (boolean : Bool)
  | cString (c_string : CString)
  | string (string : Bytes)
deriving DecidableEq

/-- the types of the overloads of `get` -/
inductive ValueType where
  | int8
  | int16
  | int32
  | int64
  | signal
  | uint8
  | uint16
  | uint32
  | uint64
  | float
  | double
  | bool
  | string
deriving DecidableEq, Repr

/-- the type a value is read back at, C strings as strings -/
def Value.type : Value → ValueType
  | .int8 _ => .int8
  | .int16 _ => .int16
  | .int32 _ => .int32
  | .int64 _ => .int64
  | .signal _ => .signal
  | .uint8 _ => .uint8
  | .uint16 _ => .uint16
  | .uint32 _ => .uint32
  | .uint64 _ => .uint64
  | .float _ => .float
  | .double _ => .double
  | .bool _ => .bool
  | .cString _ => .string
  | .string _ => .string

/-- the value itself, or the string that a C string is read back as -/
def Value.readBack : Value → Value
  | .cString s => .string s.val
  | v => v

/-- the representation of an integer in two's complement -/
def twosComplement (bits : ℕ) (i : ℤ) : ℕ := (i % 2 ^ bits).toNat

/-- the part that every host should write for a value -/
def Value.wireFormat : Value → Bytes
  | .int8 i => bytesOf 1 (twosComplement 8 i.toInt)
  | .int16 i => bytesOf 2 (twosComplement 16 i.toInt)
  | .int32 i => bytesOf 4 (twosComplement 32 i.toInt)
  | .int64 i => bytesOf 8 (twosComplement 64 i.toInt)
  | .signal i => bytesOf 8 (twosComplement 64 i.toInt)
  | .uint8 u => bytesOf 1 u.toNat
  | .uint16 u => bytesOf 2 u.toNat
  | .uint32 u => bytesOf 4 u.toNat
  | .uint64 u => bytesOf 8 u.toNat
  | .float bits => bytesOf 4 bits.toNat
  | .double bits => bytesOf 8 bits.toNat
  | .bool b => [if b then 1 else 0]
  | .cString s => s.val
  | .string s => s

namespace Message

variable (host : Order)

section
variable [VectorGrowth]

/-- `operator<<` -/
def streamOut (m : Message) : Value → Message × List Block
  | .int8 integer => m.addRaw [integer.toUInt8]
  | .int16 integer =>
    let network_order := host.htons integer.toUInt16
    m.addRaw (host.store 2 network_order.toNat)
  | .int32 integer =>
    let network_order := host.htonl integer.toUInt32
    m.addRaw (host.store 4 network_order.toNat)
  | .int64 integer =>
    let network_order := host.htonll integer.toUInt64
    m.addRaw (host.store 8 network_order.toNat)
  | .signal sig =>
    let network_order := host.htonll sig.toUInt64
    m.addRaw (host.store 8 network_order.toNat)
  | .uint8 unsigned_integer => m.addRaw [unsigned_integer]
  | .uint16 unsigned_integer =>
    let network_order := host.htons unsigned_integer
    m.addRaw (host.store 2 network_order.toNat)
  | .uint32 unsigned_integer =>
    let network_order := host.htonl unsigned_integer
    m.addRaw (host.store 4 network_order.toNat)
  | .uint64 unsigned_integer =>
    let network_order := host.htonll unsigned_integer
    m.addRaw (host.store 8 network_order.toNat)
  | .float floating_point =>
    let network_order := host.htonf floating_point
    m.addRaw (host.store 4 network_order.toNat)
  | .double double_precision =>
    let network_order := host.htond double_precision
    m.addRaw (host.store 8 network_order.toNat)
  | .bool boolean =>
    let byte : UInt8 := if boolean then 1 else 0
    m.addRaw [byte]
  | .cString c_string => m.addRaw (c_string.memory.take (strlen c_string.memory))
  | .string string => m.addRaw string

/-- the typed overloads of `push_front` -/
def pushFrontValue (m : Message) : Value → Message × List Block
  | .int8 integer => m.pushFront [integer.toUInt8]
  | .int16 integer =>
    let network_order := host.htons integer.toUInt16
    m.pushFront (host.store 2 network_order.toNat)
  | .int32 integer =>
    let network_order := host.htonl integer.toUInt32
    m.pushFront (host.store 4 network_order.toNat)
  | .int64 integer =>
    let network_order := host.htonll integer.toUInt64
    m.pushFront (host.store 8 network_order.toNat)
  | .signal sig =>
    let network_order := host.htonll sig.toUInt64
    m.pushFront (host.store 8 network_order.toNat)
  | .uint8 unsigned_integer => m.pushFront [unsigned_integer]
  | .uint16 unsigned_integer =>
    let network_order := host.htons unsigned_integer
    m.pushFront (host.store 2 network_order.toNat)
  | .uint32 unsigned_integer =>
    let network_order := host.htonl unsigned_integer
    m.pushFront (host.store 4 network_order.toNat)
  | .uint64 unsigned_integer =>
    let network_order := host.htonll unsigned_integer
    m.pushFront (host.store 8 network_order.toNat)
  | .float floating_point =>
    let network_order := host.htonf floating_point
    m.pushFront (host.store 4 network_order.toNat)
  | .double double_precision =>
    let network_order := host.htond double_precision
    m.pushFront (host.store 8 network_order.toNat)
  | .bool boolean =>
    let byte : UInt8 := if boolean then 1 else 0
    m.pushFront [byte]
  | .cString c_string => m.pushFront (c_string.memory.take (strlen c_string.memory))
  | .string string => m.pushFront string

end

/-- `assert(sizeof(Type) == size(part))`, and the part's data -/
def dataOfSize (m : Message) (size part : ℕ) : Except Failure Bytes :=
  match m.size part with
  | .error e => .error (.threw e)
  | .ok n => if size = n then (m.get part).mapError .threw else .error .assertFailed

/-- `get(value, part)`.  The 32 and 64 bit integers with a sign are converted by `htonl` and
`htonll`. -/
def getValue (m : Message) (type : ValueType) (part : ℕ) : Except Failure Value :=
  match type with
  | .int8 => do
    let data ← m.dataOfSize 1 part
    return .int8 (data.getD 0 0).toInt8
  | .int16 => do
    let data ← m.dataOfSize 2 part
    return .int16 (host.ntohs (host.loadUInt16 data)).toInt16
  | .int32 => do
    let data ← m.dataOfSize 4 part
    return .int32 (host.htonl (host.loadUInt32 data)).toInt32
  | .int64 => do
    let data ← m.dataOfSize 8 part
    return .int64 (host.htonll (host.loadUInt64 data)).toInt64
  | .signal => do
    let data ← m.dataOfSize 8 part
    return .signal (host.htonll (host.loadUInt64 data)).toInt64
  | .uint8 => do
    let data ← m.dataOfSize 1 part
    return .uint8 (data.getD 0 0)
  | .uint16 => do
    let data ← m.dataOfSize 2 part
    return .uint16 (host.ntohs (host.loadUInt16 data))
  | .uint32 => do
    let data ← m.dataOfSize 4 part
    return .uint32 (host.ntohl (host.loadUInt32 data))
  | .uint64 => do
    let data ← m.dataOfSize 8 part
    return .uint64 (host.ntohll (host.loadUInt64 data))
  | .float => do
    let data ← m.dataOfSize 4 part
    return .float (host.ntohf (host.loadUInt32 data))
  | .double => do
    let data ← m.dataOfSize 8 part
    return .double (host.ntohd (host.loadUInt64 data))
  | .bool => do
    let data ← m.dataOfSize 1 part
    return .bool (data.getD 0 0 != 0)
  | .string => do
    let string ← (m.get part).mapError .threw
    return .string string

/-- `operator>>`: the cursor moves on whether or not the part can be read -/
def streamIn (m : Message) (type : ValueType) : Message × Except Failure Value :=
  ({ m with readCursor := m.readCursor + 1 }, m.getValue host type m.readCursor)

/-- one `operator>>` after the other -/
def streamInAll (m : Message) : List ValueType → Except Failure (List Value)
  | [] => .ok []
  | type :: types =>
    match m.streamIn host type with
    | (_, .error f) => .error f
    | (m, .ok v) => (streamInAll m types).map (v :: ·)

/-! ## the wire format -/

theorem twosComplement_toInt {w : ℕ} (b : BitVec w) : twosComplement w b.toInt = b.toNat := by
  have hcast : (2 : ℤ) ^ w = ((2 ^ w : ℕ) : ℤ) := by push_cast; rfl
  show (b.toInt % 2 ^ w).toNat = b.toNat
  rw [BitVec.toInt_eq_toNat_bmod, hcast, Int.bmod_emod, ← Int.natCast_emod, Int.toNat_natCast,
    Nat.mod_eq_of_lt b.isLt]

theorem wireFormat_int8 (i : Int8) : (Value.int8 i).wireFormat = [i.toUInt8] := by
  have h : twosComplement 8 i.toInt = i.toUInt8.toNat := twosComplement_toInt i.toBitVec
  show bytesOf 1 _ = _
  rw [h]
  show [UInt8.ofNat i.toUInt8.toNat] = _
  rw [UInt8.ofNat_toNat]

theorem wireFormat_int16 (i : Int16) : (Value.int16 i).wireFormat = bytesOf 2 i.toUInt16.toNat :=
  congrArg (bytesOf 2) (twosComplement_toInt i.toBitVec)

theorem wireFormat_int32 (i : Int32) : (Value.int32 i).wireFormat = bytesOf 4 i.toUInt32.toNat :=
  congrArg (bytesOf 4) (twosComplement_toInt i.toBitVec)

theorem wireFormat_int64 (i : Int64) : (Value.int64 i).wireFormat = bytesOf 8 i.toUInt64.toNat :=
  congrArg (bytesOf 8) (twosComplement_toInt i.toBitVec)

theorem wireFormat_signal (i : Int64) : (Value.signal i).wireFormat = bytesOf 8 i.toUInt64.toNat :=
  wireFormat_int64 i

theorem wireFormat_uint8 (u : UInt8) : (Value.uint8 u).wireFormat = [u] := by
  show [UInt8.ofNat u.toNat] = _
  rw [UInt8.ofNat_toNat]

/-- `strlen` finds the end of a C string -/
theorem strlen_memory (s : CString) : strlen s.memory = s.val.length := by
  show ((s.val ++ [0]).takeWhile _).length = _
  rw [(Lib.Lines.span_ne s.property []).1]

theorem take_strlen (s : CString) : s.memory.take (strlen s.memory) = s.val := by
  rw [strlen_memory]
  exact List.take_left

example : (Value.int16 (-2)).wireFormat = [0xff, 0xfe] := by decide

/-! ## writing -/

section
variable [VectorGrowth]

/-- **What `operator<<` appends**: the wire format, on either host. -/
theorem streamOut_eq (m : Message) (v : Value) : m.streamOut host v = m.addRaw v.wireFormat := by
  cases v with
  | int8 i => rw [wireFormat_int8]; rfl
  | int16 i =>
    show m.addRaw (host.store 2 (host.htons i.toUInt16).toNat) = _
    rw [host.store_htons, wireFormat_int16]
  | int32 i =>
    show m.addRaw (host.store 4 (host.htonl i.toUInt32).toNat) = _
    rw [host.store_htonl, wireFormat_int32]
  | int64 i =>
    show m.addRaw (host.store 8 (host.htonll i.toUInt64).toNat) = _
    rw [host.store_htonll, wireFormat_int64]
  | signal i =>
    show m.addRaw (host.store 8 (host.htonll i.toUInt64).toNat) = _
    rw [host.store_htonll, wireFormat_signal]
  | uint8 u => rw [wireFormat_uint8]; rfl
  | uint16 u => exact congrArg m.addRaw (host.store_htons u)
  | uint32 u => exact congrArg m.addRaw (host.store_htonl u)
  | uint64 u => exact congrArg m.addRaw (host.store_htonll u)
  | float bits => exact congrArg m.addRaw (host.store_htonl bits)
  | double bits => exact congrArg m.addRaw (host.store_htonll bits)
  | bool b => rfl
  | cString s => exact congrArg m.addRaw (take_strlen s)
  | string s => rfl

/-- **What the typed `push_front` puts in front**: the same. -/
theorem pushFrontValue_eq (m : Message) (v : Value) :
    m.pushFrontValue host v = m.pushFront v.wireFormat := by
  cases v with
  | int8 i => rw [wireFormat_int8]; rfl
  | int16 i =>
    show m.pushFront (host.store 2 (host.htons i.toUInt16).toNat) = _
    rw [host.store_htons, wireFormat_int16]
  | int32 i =>
    show m.pushFront (host.store 4 (host.htonl i.toUInt32).toNat) = _
    rw [host.store_htonl, wireFormat_int32]
  | int64 i =>
    show m.pushFront (host.store 8 (host.htonll i.toUInt64).toNat) = _
    rw [host.store_htonll, wireFormat_int64]
  | signal i =>
    show m.pushFront (host.store 8 (host.htonll i.toUInt64).toNat) = _
    rw [host.store_htonll, wireFormat_signal]
  | uint8 u => rw [wireFormat_uint8]; rfl
  | uint16 u => exact congrArg m.pushFront (host.store_htons u)
  | uint32 u => exact congrArg m.pushFront (host.store_htonl u)
  | uint64 u => exact congrArg m.pushFront (host.store_htonll u)
  | float bits => exact congrArg m.pushFront (host.store_htonl bits)
  | double bits => exact congrArg m.pushFront (host.store_htonll bits)
  | bool b => rfl
  | cString s => exact congrArg m.pushFront (take_strlen s)
  | string s => rfl

/-- the values written to a message with `operator<<` -/
def written (m : Message) (vs : List Value) : Message :=
  vs.foldl (fun m v => (m.streamOut host v).1) m

/-- the values put in front of a message with `push_front` -/
def pushed (m : Message) (vs : List Value) : Message :=
  vs.foldl (fun m v => (m.pushFrontValue host v).1) m

theorem written_payloads (m : Message) (vs : List Value) :
    (m.written host vs).payloads = m.payloads ++ vs.map Value.wireFormat := by
  induction vs generalizing m with
  | nil => exact (List.append_nil _).symm
  | cons v vs ih =>
    show ((m.streamOut host v).1.written host vs).payloads = _
    rw [ih, streamOut_eq, addRaw_payloads, List.append_assoc]
    rfl

theorem written_readCursor (m : Message) (vs : List Value) :
    (m.written host vs).readCursor = m.readCursor := by
  induction vs generalizing m with
  | nil => rfl
  | cons v vs ih =>
    show ((m.streamOut host v).1.written host vs).readCursor = _
    rw [ih, streamOut_eq]
    rfl

theorem pushed_payloads (m : Message) (vs : List Value) :
    (m.pushed host vs).payloads = (vs.map Value.wireFormat).reverse ++ m.payloads := by
  induction vs generalizing m with
  | nil => rfl
  | cons v vs ih =>
    show ((m.pushFrontValue host v).1.pushed host vs).payloads = _
    rw [ih, pushFrontValue_eq, pushFront_payloads, List.map_cons, List.reverse_cons,
      List.append_assoc]
    rfl

end

/-! ## reading -/

theorem dataOfSize_ok {m : Message} {part : ℕ} {b : Bytes} (h : m.payloads[part]? = some b)
    {size : ℕ} (hsize : b.length = size) : m.dataOfSize size part = .ok b := by
  obtain ⟨hget, hlen⟩ := get_of_payloads h
  unfold dataOfSize
  rw [hlen, hsize, hget]
  show (if size = size then _ else _) = _
  rw [if_pos rfl]
  rfl

/-- **A part in the wire format of a value is read back as this value.** -/
theorem getValue_wireFormat {m : Message} {part : ℕ} {v : Value}
    (h : m.payloads[part]? = some v.wireFormat) :
    m.getValue host v.type part = .ok v.readBack := by
  cases v with
  | int8 i =>
    rw [wireFormat_int8] at h
    have hdata : m.dataOfSize 1 part = .ok [i.toUInt8] := dataOfSize_ok h rfl
    show (m.dataOfSize 1 part >>= _) = _
    rw [hdata]
    rfl
  | int16 i =>
    rw [wireFormat_int16] at h
    show (m.dataOfSize 2 part >>= _) = _
    rw [dataOfSize_ok h (Lib.bytesOf_length 2 _)]
    show Except.ok (Value.int16 (host.ntohs _).toInt16) = _
    rw [host.ntohs_load]
    rfl
  | int32 i =>
    rw [wireFormat_int32] at h
    show (m.dataOfSize 4 part >>= _) = _
    rw [dataOfSize_ok h (Lib.bytesOf_length 4 _)]
    show Except.ok (Value.int32 (host.htonl _).toInt32) = _
    rw [host.htonl_eq_ntohl, host.ntohl_load]
    rfl
  | int64 i =>
    rw [wireFormat_int64] at h
    show (m.dataOfSize 8 part >>= _) = _
    rw [dataOfSize_ok h (Lib.bytesOf_length 8 _)]
    show Except.ok (Value.int64 (host.ntohll _).toInt64) = _
    rw [host.ntohll_load]
    rfl
  | signal i =>
    rw [wireFormat_signal] at h
    show (m.dataOfSize 8 part >>= _) = _
    rw [dataOfSize_ok h (Lib.bytesOf_length 8 _)]
    show Except.ok (Value.signal (host.ntohll _).toInt64) = _
    rw [host.ntohll_load]
    rfl
  | uint8 u =>
    rw [wireFormat_uint8] at h
    have hdata : m.dataOfSize 1 part = .ok [u] := dataOfSize_ok h rfl
    show (m.dataOfSize 1 part >>= _) = _
    rw [hdata]
    rfl
  | uint16 u =>
    show (m.dataOfSize 2 part >>= _) = _
    rw [dataOfSize_ok h (Lib.bytesOf_length 2 _)]
    exact congrArg (fun x => Except.ok (Value.uint16 x)) (host.ntohs_load u)
  | uint32 u =>
    show (m.dataOfSize 4 part >>= _) = _
    rw [dataOfSize_ok h (Lib.bytesOf_length 4 _)]
    exact congrArg (fun x => Except.ok (Value.uint32 x)) (host.ntohl_load u)
  | uint64 u =>
    show (m.dataOfSize 8 part >>= _) = _
    rw [dataOfSize_ok h (Lib.bytesOf_length 8 _)]
    exact congrArg (fun x => Except.ok (Value.uint64 x)) (host.ntohll_load u)
  | float bits =>
    show (m.dataOfSize 4 part >>= _) = _
    rw [dataOfSize_ok h (Lib.bytesOf_length 4 _)]
    exact congrArg (fun x => Except.ok (Value.float x)) (host.ntohl_load bits)
  | double bits =>
    show (m.dataOfSize 8 part >>= _) = _
    rw [dataOfSize_ok h (Lib.bytesOf_length 8 _)]
    exact congrArg (fun x => Except.ok (Value.double x)) (host.ntohll_load bits)
  | bool b =>
    have hdata : m.dataOfSize 1 part = .ok [if b then 1 else 0] := dataOfSize_ok h rfl
    show (m.dataOfSize 1 part >>= _) = _
    rw [hdata]
    cases b <;> rfl
  | cString s =>
    show ((m.get part).mapError Failure.threw >>= _) = _
    rw [(get_of_payloads h).1]
    rfl
  | string s =>
    show ((m.get part).mapError Failure.threw >>= _) = _
    rw [(get_of_payloads h).1]
    rfl

theorem streamInAll_cons {m : Message} {type : ValueType} {types : List ValueType} {v : Value}
    (h : m.getValue host type m.readCursor = .ok v) :
    m.streamInAll host (type :: types) =
      (streamInAll host { m with readCursor := m.readCursor + 1 } types).map (v :: ·) := by
  show (match ({ m with readCursor := m.readCursor + 1 }, m.getValue host type m.readCursor) with
    | (_, Except.error f) => Except.error f
    | (m, Except.ok v) => (streamInAll host m types).map (v :: ·)) = _
  rw [h]

theorem streamInAll_cons_error {m : Message} {type : ValueType} {types : List ValueType}
    {f : Failure} (h : m.getValue host type m.readCursor = .error f) :
    m.streamInAll host (type :: types) = .error f := by
  show (match ({ m with readCursor := m.readCursor + 1 }, m.getValue host type m.readCursor) with
    | (_, Except.error f) => Except.error f
    | (m, Except.ok v) => (streamInAll host m types).map (v :: ·)) = _
  rw [h]

/-- reading on from the cursor -/
theorem streamInAll_drop {m : Message} {all vs : List Value}
    (hm : m.payloads = all.map Value.wireFormat) (hvs : all.drop m.readCursor = vs) :
    m.streamInAll host (vs.map Value.type) = .ok (vs.map Value.readBack) := by
  induction vs generalizing m with
  | nil => rfl
  | cons v vs ih =>
    have hv : all[m.readCursor]? = some v := by
      rw [← List.head?_drop, hvs]
      rfl
    have hpart : m.payloads[m.readCursor]? = some v.wireFormat := by
      rw [hm, List.getElem?_map, hv]
      rfl
    have hrest : all.drop (m.readCursor + 1) = vs := by
      rw [← List.tail_drop, hvs]
      rfl
    have hnext : streamInAll host { m with readCursor := m.readCursor + 1 } (vs.map Value.type)
        = .ok (vs.map Value.readBack) := ih hm hrest
    show m.streamInAll host (v.type :: vs.map Value.type) = _
    rw [streamInAll_cons host (getValue_wireFormat host hpart), hnext]
    rfl

/-- **Typed streams round-trip**, from one host to any other; their parts are the wire format on
every host, and `push_front` of the reversed list builds the same parts. -/
theorem stream_round_trip [VectorGrowth] (host host' : Order) (vs : List Value) :
    (written host {} vs).streamInAll host' (vs.map Value.type) = .ok (vs.map Value.readBack) ∧
      (written host {} vs).payloads = vs.map Value.wireFormat ∧
      (written host' {} vs).payloads = (written host {} vs).payloads ∧
      (pushed host {} vs.reverse).payloads = (written host {} vs).payloads := by
  have hwritten : ∀ host, (written host {} vs).payloads = vs.map Value.wireFormat :=
    fun host => written_payloads host {} vs
  refine ⟨?_, hwritten host, (hwritten host').trans (hwritten host).symm, ?_⟩
  · apply streamInAll_drop host' (hwritten host)
    rw [written_readCursor]
    rfl
  · rw [pushed_payloads, hwritten, List.map_reverse, List.reverse_reverse]
    exact List.append_nil _

end Message
end Zmqpp
