import ZmqppPty.Base
import ZmqppPty.Lib.Endian

/-!
# Network order (inet.hpp and the functions of libc it extends)

* `htons`, `htonl`, `ntohs`, `ntohl`   of libc, said of the bytes in memory;
* `swapIfNeeded`                       the 64 bit version, a swap in a union chosen at run time;
* `htonf`, `ntohf`, `htond`, `ntohd`   the floating point versions, on bit patterns;
* `store_htons` …                      a converted object lies in memory in network order;
* `ntohs_load` …                       and what lies there in network order is converted back.
-/

namespace Zmqpp

open Lib (bytesOf numberOf)

inductive Order where
  | bigEndian
  | littleEndian
deriving DecidableEq, Repr

namespace Order

def littleFirst : Order → Bool
  | .bigEndian => false
  | .littleEndian => true

/-- the memory of an object of `n` bytes -/
def store (host : Order) (n x : ℕ) : Bytes := Lib.store host.littleFirst n x

def load (host : Order) (bytes : Bytes) : ℕ := Lib.load host.littleFirst bytes

variable (host : Order)

/-- the object whose bytes in memory are those of the value in network order -/
def toNetwork (n x : ℕ) : ℕ := host.load (bytesOf n x)

/-- the value whose bytes in network order are those of the object in memory -/
def ofNetwork (n x : ℕ) : ℕ := numberOf (host.store n x)

def htons (hostshort : UInt16) : UInt16 := UInt16.ofNat (host.toNetwork 2 hostshort.toNat)
def htonl (hostlong : UInt32) : UInt32 := UInt32.ofNat (host.toNetwork 4 hostlong.toNat)
def ntohs (netshort : UInt16) : UInt16 := UInt16.ofNat (host.ofNetwork 2 netshort.toNat)
def ntohl (netlong : UInt32) : UInt32 := UInt32.ofNat (host.ofNetwork 4 netlong.toNat)

/-- the order `swap_if_needed` finds out once -/
def hostOrder : Order := if host.htonl 42 = 42 then .bigEndian else .littleEndian

/-- `std::swap(bytes[i], bytes[j])` -/
def swapBytes (bytes : Bytes) (i j : ℕ) : Bytes :=
  (bytes.set i (bytes.getD j 0)).set j (bytes.getD i 0)

def swapIfNeeded (value_to_check : UInt64) : UInt64 :=
  if host.hostOrder = .bigEndian then value_to_check
  else
    let bytes := host.store 8 value_to_check.toNat
    let bytes := swapBytes bytes 0 7
    let bytes := swapBytes bytes 1 6
    let bytes := swapBytes bytes 2 5
    let bytes := swapBytes bytes 3 4
    UInt64.ofNat (host.load bytes)

def htonll (hostlonglong : UInt64) : UInt64 := host.swapIfNeeded hostlonglong
def ntohll (networklonglong : UInt64) : UInt64 := host.swapIfNeeded networklonglong

def htonf (value : UInt32) : UInt32 := host.htonl value
def ntohf (value : UInt32) : UInt32 := host.ntohl value
def htond (value : UInt64) : UInt64 := host.htonll value
def ntohd (value : UInt64) : UInt64 := host.ntohll value

example : littleEndian.htonl 0x01020304 = 0x04030201 ∧
    littleEndian.swapIfNeeded 0x0102030405060708 = 0x0807060504030201 := by decide

/-! ## both directions are one -/

theorem toNetwork_eq_ofNetwork (n x : ℕ) : host.toNetwork n x = host.ofNetwork n x := by
  cases host <;> rfl

theorem htonl_eq_ntohl (x : UInt32) : host.htonl x = host.ntohl x := by
  show UInt32.ofNat _ = UInt32.ofNat _
  rw [toNetwork_eq_ofNetwork]

theorem hostOrder_eq : host.hostOrder = host := by
  cases host <;> decide

theorem swapBytes_reverse {bytes : Bytes} (h : bytes.length = 8) :
    swapBytes (swapBytes (swapBytes (swapBytes bytes 0 7) 1 6) 2 5) 3 4 = bytes.reverse := by
  match bytes, h with
  | [_, _, _, _, _, _, _, _], _ => rfl

theorem numberOf_bytesOf_of_lt {n x : ℕ} (h : x < 256 ^ n) :
    numberOf (bytesOf n x) = x := by
  rw [Lib.numberOf_bytesOf, Nat.mod_eq_of_lt h]

/-- the swap in the union is the conversion to network order -/
theorem swapIfNeeded_eq (x : UInt64) :
    host.swapIfNeeded x = UInt64.ofNat (host.toNetwork 8 x.toNat) := by
  unfold swapIfNeeded
  rw [hostOrder_eq]
  cases host with
  | bigEndian =>
    have hx : numberOf (bytesOf 8 x.toNat) = x.toNat := numberOf_bytesOf_of_lt x.toNat_lt
    show x = UInt64.ofNat (numberOf (bytesOf 8 x.toNat))
    rw [hx, UInt64.ofNat_toNat]
  | littleEndian =>
    have hlen : (littleEndian.store 8 x.toNat).length = 8 := Lib.store_length true 8 _
    dsimp only
    rw [if_neg (by decide), swapBytes_reverse hlen]
    show UInt64.ofNat (littleEndian.load (bytesOf 8 x.toNat).reverse.reverse) = _
    rw [List.reverse_reverse]
    rfl

/-! ## what lies in memory -/

theorem toNetwork_lt (n x : ℕ) : host.toNetwork n x < 256 ^ n := by
  have h := Lib.load_lt host.littleFirst (bytesOf n x)
  rw [Lib.bytesOf_length] at h
  exact h

theorem store_toNetwork (n x : ℕ) : host.store n (host.toNetwork n x) = bytesOf n x := by
  have h := Lib.store_load host.littleFirst (bytesOf n x)
  rw [Lib.bytesOf_length] at h
  exact h

theorem ofNetwork_load {n x : ℕ} (h : x < 256 ^ n) :
    host.ofNetwork n (host.load (bytesOf n x)) = x := by
  show numberOf (host.store n (host.toNetwork n x)) = x
  rw [store_toNetwork, numberOf_bytesOf_of_lt h]

theorem store_htons (x : UInt16) : host.store 2 (host.htons x).toNat = bytesOf 2 x.toNat := by
  have h : (host.htons x).toNat = host.toNetwork 2 x.toNat :=
    UInt16.toNat_ofNat_of_lt (host.toNetwork_lt 2 x.toNat)
  rw [h, store_toNetwork]

theorem store_htonl (x : UInt32) : host.store 4 (host.htonl x).toNat = bytesOf 4 x.toNat := by
  have h : (host.htonl x).toNat = host.toNetwork 4 x.toNat :=
    UInt32.toNat_ofNat_of_lt (host.toNetwork_lt 4 x.toNat)
  rw [h, store_toNetwork]

theorem store_htonll (x : UInt64) : host.store 8 (host.htonll x).toNat = bytesOf 8 x.toNat := by
  have h : (host.htonll x).toNat = host.toNetwork 8 x.toNat := by
    show (host.swapIfNeeded x).toNat = _
    rw [swapIfNeeded_eq]
    exact UInt64.toNat_ofNat_of_lt (host.toNetwork_lt 8 x.toNat)
  rw [h, store_toNetwork]

/-- the object that `raw_data` points at, read as an unsigned integer -/
def loadUInt16 (data : Bytes) : UInt16 := UInt16.ofNat (host.load (data.take 2))
def loadUInt32 (data : Bytes) : UInt32 := UInt32.ofNat (host.load (data.take 4))
def loadUInt64 (data : Bytes) : UInt64 := UInt64.ofNat (host.load (data.take 8))

theorem take_bytesOf (n x : ℕ) : (bytesOf n x).take n = bytesOf n x := by
  apply List.take_of_length_le
  rw [Lib.bytesOf_length]

theorem ntohs_load (x : UInt16) : host.ntohs (host.loadUInt16 (bytesOf 2 x.toNat)) = x := by
  have h : (host.loadUInt16 (bytesOf 2 x.toNat)).toNat = host.load (bytesOf 2 x.toNat) := by
    unfold loadUInt16
    rw [take_bytesOf]
    exact UInt16.toNat_ofNat_of_lt (host.toNetwork_lt 2 x.toNat)
  show UInt16.ofNat (host.ofNetwork 2 _) = x
  rw [h, ofNetwork_load host x.toNat_lt, UInt16.ofNat_toNat]

theorem ntohl_load (x : UInt32) : host.ntohl (host.loadUInt32 (bytesOf 4 x.toNat)) = x := by
  have h : (host.loadUInt32 (bytesOf 4 x.toNat)).toNat = host.load (bytesOf 4 x.toNat) := by
    unfold loadUInt32
    rw [take_bytesOf]
    exact UInt32.toNat_ofNat_of_lt (host.toNetwork_lt 4 x.toNat)
  show UInt32.ofNat (host.ofNetwork 4 _) = x
  rw [h, ofNetwork_load host x.toNat_lt, UInt32.ofNat_toNat]

theorem ntohll_load (x : UInt64) : host.ntohll (host.loadUInt64 (bytesOf 8 x.toNat)) = x := by
  have h : (host.loadUInt64 (bytesOf 8 x.toNat)).toNat = host.load (bytesOf 8 x.toNat) := by
    unfold loadUInt64
    rw [take_bytesOf]
    exact UInt64.toNat_ofNat_of_lt (host.toNetwork_lt 8 x.toNat)
  show host.swapIfNeeded _ = x
  rw [swapIfNeeded_eq, toNetwork_eq_ofNetwork, h, ofNetwork_load host x.toNat_lt,
    UInt64.ofNat_toNat]

end Order
end Zmqpp
