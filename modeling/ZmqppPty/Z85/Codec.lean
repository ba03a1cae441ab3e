import ZmqppPty.Auth.Configuration
import ZmqppPty.Lib.Endian
import Mathlib.Data.List.GetD

/-!
# The Z85 functions of libzmq

`zmq_z85_encode` and `zmq_z85_decode` belong to libzmq: a `Codec` is what the source relies on.

* `Codec`               four bytes become five characters, and a string is decoded to the block it
                        is the encoding of;
* `z85Value`, `z85Number`, `z85ToWords`   digits back to numbers, and those to bytes;
* `z85ToWords_encoded`, `z85OfWords_decoded`   the two round trips;
* `z85Codec`            the encoding of ZeroMQ.
-/

namespace Zmqpp
namespace Z85

open Auth (z85Digits z85Word z85OfWords)
open Lib (bytesOf numberOf)

structure Codec where
  /-- what `zmq_z85_encode` writes before the NUL; `none` if it returns a null pointer -/
  encode : Bytes → Option Bytes
  /-- what `zmq_z85_decode` writes; the argument is the string before its NUL -/
  decode : Bytes → Option Bytes
  encodes : ∀ d, (encode d).isSome = true ↔ d.length % 4 = 0
  length : ∀ d s, encode d = some s → 4 * s.length = 5 * d.length
  noNul : ∀ d s, encode d = some s → 0 ∉ s
  /-- libzmq 4.3.5 is so for all strings but one: it encodes the empty block as the empty string,
  and does not decode that -/
  decodes : ∀ s d, 0 ∉ s → (decode s = some d ↔ encode d = some s)

/-! ## one block -/

def z85Value (c : UInt8) : Option ℕ := z85Digits.idxOf? c

/-- five digits, unless they are more than four bytes -/
def z85Number (a b c d e : UInt8) : Option ℕ :=
  match z85Value a, z85Value b, z85Value c, z85Value d, z85Value e with
  | some a, some b, some c, some d, some e =>
    let n := (((a * 85 + b) * 85 + c) * 85 + d) * 85 + e
    if n < 2 ^ 32 then some n else none
  | _, _, _, _, _ => none

def z85ToWords : Bytes → Option Bytes
  | [] => some []
  | a :: b :: c :: d :: e :: s =>
    match z85Number a b c d e with
    | none => none
    | some n => (z85ToWords s).map fun raw => bytesOf 4 n ++ raw
  | _ => none

/-- the digit of a number -/
def z85Digit (i : ℕ) : UInt8 := z85Digits.getD i 0

theorem z85Digits_length : z85Digits.length = 85 := by decide +kernel

theorem z85Digits_nodup : z85Digits.Nodup := by decide +kernel

theorem lt_z85Digits {i : ℕ} : i < z85Digits.length ↔ i < 85 := by rw [z85Digits_length]

theorem digit_z85Value {c : UInt8} {i : ℕ} (h : z85Value c = some i) : i < 85 ∧ z85Digit i = c := by
  obtain ⟨hi, hget, -⟩ := List.idxOf?_eq_some_iff.mp h
  refine ⟨lt_z85Digits.mp hi, ?_⟩
  unfold z85Digit
  rw [List.getD_eq_getElem _ _ hi, hget]

theorem z85Value_digit {i : ℕ} (hi : i < 85) : z85Value (z85Digit i) = some i := by
  have hlt : i < z85Digits.length := lt_z85Digits.mpr hi
  refine List.idxOf?_eq_some_iff.mpr ⟨hlt, ?_, ?_⟩
  · exact (List.getD_eq_getElem _ _ hlt).symm
  · intro j hj heq
    have hsame := heq.trans (List.getD_eq_getElem _ 0 hlt)
    exact hj.ne ((List.Nodup.getElem_inj_iff z85Digits_nodup).mp hsame)

theorem z85Word_eq (n : ℕ) :
    z85Word n = [z85Digit (n / 85 ^ 4 % 85), z85Digit (n / 85 ^ 3 % 85), z85Digit (n / 85 ^ 2 % 85),
      z85Digit (n / 85 % 85), z85Digit (n % 85)] := by
  unfold z85Word
  rw [List.map_cons, List.map_cons, List.map_cons, List.map_cons, List.map_cons, List.map_nil,
    Nat.div_one]
  rfl

/-- the digits of a block are read back -/
theorem z85Number_digits {n : ℕ} (hn : n < 2 ^ 32) :
    z85Number (z85Digit (n / 85 ^ 4 % 85)) (z85Digit (n / 85 ^ 3 % 85)) (z85Digit (n / 85 ^ 2 % 85))
      (z85Digit (n / 85 % 85)) (z85Digit (n % 85)) = some n := by
  have hmod : ∀ k, k % 85 < 85 := fun k => Nat.mod_lt k (by decide)
  unfold z85Number
  rw [z85Value_digit (hmod _), z85Value_digit (hmod _), z85Value_digit (hmod _),
    z85Value_digit (hmod _), z85Value_digit (hmod _)]
  dsimp only
  have hback : (((n / 85 ^ 4 % 85 * 85 + n / 85 ^ 3 % 85) * 85 + n / 85 ^ 2 % 85) * 85
      + n / 85 % 85) * 85 + n % 85 = n := by
    omega
  rw [hback, if_pos hn]

/-- what is read is spelled by the digits -/
theorem word_z85Number {a b c d e : UInt8} {n : ℕ} (h : z85Number a b c d e = some n) :
    n < 2 ^ 32 ∧ z85Word n = [a, b, c, d, e] := by
  unfold z85Number at h
  split at h
  · rename_i i4 i3 i2 i1 i0 h4 h3 h2 h1 h0
    obtain ⟨l4, rfl⟩ := digit_z85Value h4
    obtain ⟨l3, rfl⟩ := digit_z85Value h3
    obtain ⟨l2, rfl⟩ := digit_z85Value h2
    obtain ⟨l1, rfl⟩ := digit_z85Value h1
    obtain ⟨l0, rfl⟩ := digit_z85Value h0
    dsimp only at h
    split at h
    · rename_i hn
      obtain rfl := Option.some.inj h
      refine ⟨hn, ?_⟩
      have e4 : ((((i4 * 85 + i3) * 85 + i2) * 85 + i1) * 85 + i0) / 85 ^ 4 % 85 = i4 := by omega
      have e3 : ((((i4 * 85 + i3) * 85 + i2) * 85 + i1) * 85 + i0) / 85 ^ 3 % 85 = i3 := by omega
      have e2 : ((((i4 * 85 + i3) * 85 + i2) * 85 + i1) * 85 + i0) / 85 ^ 2 % 85 = i2 := by omega
      have e1 : ((((i4 * 85 + i3) * 85 + i2) * 85 + i1) * 85 + i0) / 85 % 85 = i1 := by omega
      have e0 : ((((i4 * 85 + i3) * 85 + i2) * 85 + i1) * 85 + i0) % 85 = i0 := by omega
      rw [z85Word_eq, e4, e3, e2, e1, e0]
    · cases h
  · cases h

/-! ## strings -/

theorem numberOf_four (a b c d : UInt8) :
    ((a.toNat * 256 + b.toNat) * 256 + c.toNat) * 256 + d.toNat = numberOf [a, b, c, d] := by
  show _ = 256 * (256 * (256 * (256 * 0 + a.toNat) + b.toNat) + c.toNat) + d.toNat
  ring

theorem numberOf_four_lt (a b c d : UInt8) : numberOf [a, b, c, d] < 2 ^ 32 := by
  have hwidth : (2 : ℕ) ^ 32 = 256 ^ 4 := by norm_num
  rw [hwidth]
  exact Lib.numberOf_lt [a, b, c, d]

/-- an encoding is built block by block -/
@[elab_as_elim]
theorem z85OfWords_induct {motive : Bytes → Bytes → Prop} (nil : motive [] [])
    (block : ∀ a b c d raw s, motive raw s →
      motive (a :: b :: c :: d :: raw) (z85Word (numberOf [a, b, c, d]) ++ s))
    {d s : Bytes} (h : z85OfWords d = some s) : motive d s := by
  fun_induction z85OfWords d generalizing s with
  | case1 =>
    obtain rfl := Option.some.inj h
    exact nil
  | case2 a b c d raw ih =>
    obtain ⟨s', hs', rfl⟩ := Option.map_eq_some_iff.mp h
    rw [numberOf_four]
    exact block a b c d raw s' (ih hs')
  | case3 raw hne hnw => cases h

/-- **What is decoded is what was encoded.** -/
theorem z85ToWords_encoded {d s : Bytes} (h : z85OfWords d = some s) : z85ToWords s = some d := by
  refine z85OfWords_induct ?nil ?block h
  case nil => rfl
  case block =>
    intro a b c d raw s ih
    have hlt := numberOf_four_lt a b c d
    rw [z85Word_eq]
    show z85ToWords (_ :: _ :: _ :: _ :: _ :: s) = _
    rw [z85ToWords, z85Number_digits hlt]
    dsimp only
    rw [ih, Option.map_some]
    exact congrArg (fun front => some (front ++ raw)) (Lib.bytesOf_numberOf [a, b, c, d])

/-- a block is encoded as the digits of its number -/
theorem z85OfWords_block {n : ℕ} (hn : n < 2 ^ 32) (raw : Bytes) :
    z85OfWords (bytesOf 4 n ++ raw) = (z85OfWords raw).map fun s => z85Word n ++ s := by
  have hwidth : (256 : ℕ) ^ 4 = 2 ^ 32 := by norm_num
  obtain ⟨a, b, c, d, hbytes⟩ := List.length_eq_four.mp (Lib.bytesOf_length 4 n)
  have hnumber : numberOf [a, b, c, d] = n := by
    rw [← hbytes, Lib.numberOf_bytesOf, hwidth, Nat.mod_eq_of_lt hn]
  rw [hbytes]
  show z85OfWords (a :: b :: c :: d :: raw) = _
  rw [z85OfWords, numberOf_four, hnumber]

/-- **A string that is decoded is the encoding of what is written.** -/
theorem z85OfWords_decoded {s d : Bytes} (h : z85ToWords s = some d) : z85OfWords d = some s := by
  induction s using z85ToWords.induct generalizing d with
  | case1 =>
    obtain rfl := Option.some.inj h
    rfl
  | case2 a b c d e s hnone =>
    rw [z85ToWords, hnone] at h
    cases h
  | case3 a b c d e s n hn ih =>
    rw [z85ToWords, hn] at h
    obtain ⟨raw, hraw, rfl⟩ := Option.map_eq_some_iff.mp h
    obtain ⟨hlt, hword⟩ := word_z85Number hn
    rw [z85OfWords_block hlt, ih hraw, hword]
    rfl
  | case4 s hne hnw =>
    rw [z85ToWords] at h
    · cases h
    · exact hne
    · exact hnw

theorem z85OfWords_length {d s : Bytes} (h : z85OfWords d = some s) :
    4 * s.length = 5 * d.length := by
  refine z85OfWords_induct ?nil ?block h
  case nil => rfl
  case block =>
    intro a b c d raw s ih
    have hword : ∀ n, (z85Word n).length = 5 := fun n => rfl
    rw [List.length_append, hword]
    simp only [List.length_cons]
    omega

theorem z85Digit_ne_zero {i : ℕ} (hi : i < 85) : z85Digit i ≠ 0 := by
  have hlt : i < z85Digits.length := lt_z85Digits.mpr hi
  have hnul : (0 : UInt8) ∉ z85Digits := by decide +kernel
  unfold z85Digit
  rw [List.getD_eq_getElem _ _ hlt]
  exact fun h => hnul (h ▸ List.getElem_mem hlt)

theorem z85Word_noNul (n : ℕ) : 0 ∉ z85Word n := by
  rw [z85Word_eq]
  intro h
  simp only [List.mem_cons, List.not_mem_nil, or_false] at h
  rcases h with h | h | h | h | h <;>
    exact z85Digit_ne_zero (Nat.mod_lt _ (by decide)) h.symm

theorem z85OfWords_noNul {d s : Bytes} (h : z85OfWords d = some s) : 0 ∉ s := by
  refine z85OfWords_induct ?nil ?block h
  case nil => exact List.not_mem_nil
  case block =>
    intro a b c d raw s ih
    rw [List.mem_append, not_or]
    exact ⟨z85Word_noNul _, ih⟩

theorem z85OfWords_isSome (d : Bytes) : (z85OfWords d).isSome = true ↔ d.length % 4 = 0 := by
  constructor
  · intro h
    obtain ⟨s, hs⟩ := Option.isSome_iff_exists.mp h
    have hlength := z85OfWords_length hs
    omega
  · exact Auth.z85OfWords_encodes d

/-- the encoding of ZeroMQ, where the empty string is decoded too -/
def z85Codec : Codec where
  encode := z85OfWords
  decode := z85ToWords
  encodes := z85OfWords_isSome
  length := fun _ _ => z85OfWords_length
  noNul := fun _ _ => z85OfWords_noNul
  decodes := fun _ _ _ => ⟨z85OfWords_decoded, z85ToWords_encoded⟩

end Z85
end Zmqpp
