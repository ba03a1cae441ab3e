import ZmqppPty.Lib.Records
import ZmqppPty.Message.Inet

/-!
# The metadata of a ZAP reply (zap_request::serialize_metadata)

* `appendPair`, `serializeMetadata`   the loop over the map, in the order the iteration has;
* `Iterates`                          a list of pairs is such an order of the map;
* `parsePair`, `parseMetadata`        a name and a value, each behind its length; any number of
                                      them;
* `parsePair_wire`                    the lengths say where a pair ends, whatever its bytes;
* `metadata_decodable`                what is parsed are the pairs of the map, each once.
-/

namespace Zmqpp
namespace Metadata

open Lib (bytesOf numberOf)
open Lib.Records (chunk readAll)

/-- `HOST_TO_BIG_ENDIAN_32`, which is `htobe32` -/
def hostToBigEndian32 (host : Order) (x : UInt32) : UInt32 := host.htonl x

/-- the body of the loop -/
def appendPair (host : Order) (metadata : Bytes) (pair : Bytes × Bytes) : Except Failure Bytes := do
  if ¬ pair.1.length < 256 then
    throw .assertFailed
  let metadata := metadata ++ [UInt8.ofNat pair.1.length]
  let metadata := metadata ++ pair.1
  if ¬ pair.2.length ≤ 4294967295 then
    throw .assertFailed
  let value_length := hostToBigEndian32 host (UInt32.ofNat pair.2.length)
  let metadata := metadata ++ host.store 4 value_length.toNat
  return metadata ++ pair.2

/-- `serialize_metadata`, on the pairs in the order in which the map is iterated over -/
def serializeMetadata (host : Order) (pairs : List (Bytes × Bytes)) : Except Failure Bytes :=
  pairs.foldlM (appendPair host) []

/-- an order in which the pairs of a map are iterated over -/
structure Iterates (map : Bytes → Option Bytes) (pairs : List (Bytes × Bytes)) : Prop where
  nodup : (pairs.map Prod.fst).Nodup
  mem : ∀ name value, (name, value) ∈ pairs ↔ map name = some value

/-! ## the format -/

/-- 1 byte of length and a name, 4 bytes of length in network order and a value -/
def parsePair (bytes : Bytes) : Option ((Bytes × Bytes) × Bytes) := do
  let (nameLength, bytes) ← chunk 1 bytes
  let (name, bytes) ← chunk (numberOf nameLength) bytes
  let (valueLength, bytes) ← chunk 4 bytes
  let (value, bytes) ← chunk (numberOf valueLength) bytes
  return ((name, value), bytes)

/-- all the bytes as pairs -/
def parseMetadata (bytes : Bytes) : Option (List (Bytes × Bytes)) :=
  readAll parsePair bytes.length bytes

/-- the lengths that the fields have room for -/
def Fits (pair : Bytes × Bytes) : Prop := pair.1.length < 256 ∧ pair.2.length ≤ 2 ^ 32 - 1

def pairWire (pair : Bytes × Bytes) : Bytes :=
  bytesOf 1 pair.1.length ++ pair.1 ++ bytesOf 4 pair.2.length ++ pair.2

theorem appendPair_eq (host : Order) (metadata : Bytes) {pair : Bytes × Bytes} (h : Fits pair) :
    appendPair host metadata pair = .ok (metadata ++ pairWire pair) := by
  obtain ⟨hname, hvalue⟩ := h
  have hle : pair.2.length ≤ 4294967295 := hvalue
  have hlen : (UInt32.ofNat pair.2.length).toNat = pair.2.length :=
    UInt32.toNat_ofNat_of_lt (Nat.lt_succ_of_le hle)
  have hstore : host.store 4 (hostToBigEndian32 host (UInt32.ofNat pair.2.length)).toNat
      = bytesOf 4 pair.2.length := by
    show host.store 4 (host.htonl _).toNat = _
    rw [host.store_htonl, hlen]
  unfold appendPair pairWire
  rw [if_neg (not_not.mpr hname), if_neg (not_not.mpr hle)]
  dsimp only
  rw [hstore]
  simp only [List.append_assoc]
  rfl

/-- **What the loop produces**: one pair after the other, on either host. -/
theorem serializeMetadata_eq (host : Order) {pairs : List (Bytes × Bytes)}
    (h : ∀ pair ∈ pairs, Fits pair) :
    serializeMetadata host pairs = .ok (pairs.flatMap pairWire) := by
  have hloop : ∀ metadata, pairs.foldlM (appendPair host) metadata
      = .ok (metadata ++ pairs.flatMap pairWire) := by
    induction pairs with
    | nil =>
      intro metadata
      rw [List.flatMap_nil, List.append_nil]
      rfl
    | cons pair pairs ih =>
      intro metadata
      rw [List.foldlM_cons, appendPair_eq host metadata (h pair List.mem_cons_self)]
      show pairs.foldlM (appendPair host) (metadata ++ pairWire pair) = _
      rw [ih fun p hp => h p (List.mem_cons_of_mem pair hp), List.append_assoc]
      rfl
  exact hloop []

theorem parsePair_wire {pair : Bytes × Bytes} (h : Fits pair) (rest : Bytes) :
    parsePair (pairWire pair ++ rest) = some (pair, rest) := by
  obtain ⟨hname, hvalue⟩ := h
  have hname' : numberOf (bytesOf 1 pair.1.length) = pair.1.length :=
    Order.numberOf_bytesOf_of_lt hname
  have hvalue' : numberOf (bytesOf 4 pair.2.length) = pair.2.length :=
    Order.numberOf_bytesOf_of_lt (Nat.lt_succ_of_le hvalue)
  unfold parsePair pairWire
  rw [List.append_assoc, List.append_assoc, List.append_assoc]
  simp only [Lib.Records.chunk_append (Lib.bytesOf_length 1 _), Option.bind_eq_bind,
    Option.bind_some, hname', Lib.Records.chunk_append rfl,
    Lib.Records.chunk_append (Lib.bytesOf_length 4 _), hvalue']
  rfl

theorem pairs_delimited : Lib.Records.Delimits parsePair pairWire Fits where
  reads _ h rest := parsePair_wire h rest
  nonempty pair _ := by
    unfold pairWire
    rw [List.append_assoc, List.append_assoc]
    exact List.append_ne_nil_of_left_ne_nil (List.cons_ne_nil _ _) _

/-- **Metadata is uniquely decodable**: in whatever order a map is iterated over, and on either
host, parsing its metadata uses up all bytes and yields the pairs of the map, each once. -/
theorem metadata_decodable (host : Order) (map : Bytes → Option Bytes)
    (pairs : List (Bytes × Bytes)) (hmap : Iterates map pairs)
    (hfits : ∀ name value, map name = some value →
      name.length < 256 ∧ value.length ≤ 2 ^ 32 - 1) :
    ∃ bytes parsed, serializeMetadata host pairs = .ok bytes ∧
      parseMetadata bytes = some parsed ∧ Iterates map parsed ∧ parsed = pairs := by
  have hall : ∀ pair ∈ pairs, Fits pair := by
    intro pair hpair
    exact hfits pair.1 pair.2 ((hmap.mem pair.1 pair.2).mp hpair)
  have hparse : parseMetadata (pairs.flatMap pairWire) = some pairs :=
    Lib.Records.readAll_flatMap pairs_delimited hall (pairs_delimited.length_le hall)
  exact ⟨_, pairs, serializeMetadata_eq host hall, hparse, hmap, rfl⟩

/-- a map of two pairs, the value of one of which looks like a pair -/
def twoPairs : Bytes → Option Bytes := fun name =>
  if name = ascii "foo" then some [1, 97, 0, 0, 0, 0] else if name = [] then some [] else none

theorem metadata_decodable_two :
    ∃ bytes parsed, serializeMetadata .littleEndian [([], []), (ascii "foo", [1, 97, 0, 0, 0, 0])]
        = .ok bytes ∧
      parseMetadata bytes = some parsed ∧ Iterates twoPairs parsed ∧
      parsed = [([], []), (ascii "foo", [1, 97, 0, 0, 0, 0])] := by
  have hne : ascii "foo" ≠ [] := by decide
  have hmem : ∀ name value, (name, value) ∈ [([], []), (ascii "foo", [1, 97, 0, 0, 0, 0])] ↔
      twoPairs name = some value := by
    intro name value
    unfold twoPairs
    by_cases hfoo : name = ascii "foo"
    · simp [hfoo, hne, eq_comm]
    · by_cases hnil : name = []
      · simp [hnil, hne.symm, eq_comm]
      · simp [hfoo, hnil]
  refine metadata_decodable .littleEndian twoPairs _ ⟨by decide, hmem⟩ fun name value h => ?_
  rcases List.mem_cons.mp ((hmem name value).mpr h) with hpair | hpair
  · cases hpair
    decide
  · cases List.mem_singleton.mp hpair
    decide

end Metadata
end Zmqpp
