import ZmqppPty.Common.Hex
import ZmqppPty.Lib.Digits

/-!
# The value of a string of hexadecimal digits (snprintu8 in common.c)

* `digitOf`, `hexValue`     the digits in both cases, and the number that a string of them spells;
* `ctou8_toNat`             the search stops before the last entry of the table, which is 'F';
* `ComputesValue`           the bytes that are written spell that number, as far as they go;
* `computes_value_iff`      the strings and the sizes for which they do.
-/

namespace Zmqpp
namespace Common

open Lib.Buffer
open Lib.Digits (pair)

/-! ## digits -/

/-- '0' to '9', 'a' to 'f' and 'A' to 'F' -/
def IsHexDigit (c : UInt8) : Prop := (48 ≤ c ∧ c ≤ 57) ∨ (97 ≤ c ∧ c ≤ 102) ∨ (65 ≤ c ∧ c ≤ 70)

instance (c : UInt8) : Decidable (IsHexDigit c) := inferInstanceAs (Decidable (_ ∨ _))

theorem isHexDigit_of_all {text : Bytes}
    (h : text.all (fun c => decide (IsHexDigit c)) = true) : ∀ c ∈ text, IsHexDigit c :=
  fun c hc => of_decide_eq_true (List.all_eq_true.mp h c hc)

def digitOf (c : UInt8) : ℕ :=
  if c ≤ 57 then c.toNat - 48 else if 97 ≤ c then c.toNat - 87 else c.toNat - 55

/-- the value in base 16, the first digit is the most significant -/
def hexValue (text : Bytes) : ℕ := Nat.ofDigits 16 (text.reverse.map digitOf)

/-- 'F' is read as 0 -/
def readAs (c : UInt8) : ℕ := if c = 70 then 0 else digitOf c

theorem digitOf_lt {c : UInt8} (h : IsHexDigit c) : digitOf c < 16 := by
  revert h
  exact @forall_byte (fun c => IsHexDigit c → digitOf c < 16) (by decide +kernel) c

theorem ctou8_toNat {c : UInt8} (h : IsHexDigit c) : (ctou8 c).toNat = readAs c := by
  revert h
  exact @forall_byte (fun c => IsHexDigit c → (ctou8 c).toNat = readAs c) (by decide +kernel) c

theorem readAs_eq_iff {c : UInt8} (h : IsHexDigit c) : readAs c = digitOf c ↔ c ≠ 70 := by
  revert h
  exact @forall_byte (fun c => IsHexDigit c → (readAs c = digitOf c ↔ c ≠ 70)) (by decide +kernel) c

theorem readAs_lt {c : UInt8} (h : IsHexDigit c) : readAs c < 16 := by
  unfold readAs
  split
  · decide
  · exact digitOf_lt h

theorem ctou8_lt (c : UInt8) : (ctou8 c).toNat < 16 :=
  @forall_byte (fun c => (ctou8 c).toNat < 16) (by decide +kernel) c

theorem merge_toNat (h l : UInt8) :
    (merge (ctou8 h) (ctou8 l)).toNat = 16 * (ctou8 h).toNat + (ctou8 l).toNat := by
  have hnibbles : ∀ x y : Fin 16,
      (merge (UInt8.ofNat x) (UInt8.ofNat y)).toNat = 16 * (x : ℕ) + y := by decide +kernel
  have heq := hnibbles ⟨_, ctou8_lt h⟩ ⟨_, ctou8_lt l⟩
  rw [UInt8.ofNat_toNat, UInt8.ofNat_toNat] at heq
  exact heq

/-! ## the property -/

/-- the number of bytes that are to be written -/
def written (text : Bytes) (outSize : ℕ) : ℕ := min outSize (text.length / 2)

/-- The bytes that are written, the first one the least significant, spell the end of the value. -/
def ComputesValue (text : Bytes) (outSize : ℕ) : Prop :=
  ∀ out : Bytes, out.length = outSize →
    ∃ out', snprintu8 out outSize text text.length = some out' ∧
      Nat.ofDigits 256 ((out'.take (written text outSize)).map UInt8.toNat)
        = hexValue text % 256 ^ written text outSize

/-- the character that is `j` characters before the end -/
def digitBack (text : Bytes) (j : ℕ) : UInt8 := text.getD (text.length - 1 - j) 0

/-- Neither size is cut short by its cast, and the digits that are read have the values of those at
the end. -/
structure ReadsDigits (text : Bytes) (outSize : ℕ) : Prop where
  room : written text outSize ≤ (asInt outSize).toNat
  size : 2 * written text outSize ≤ (asInt text.length).toNat
  digits : ∀ j, j < 2 * written text outSize → readAs (charBack text j) = digitOf (digitBack text j)

/-! ## what is written -/

theorem asInt_toNat_le (n : ℕ) : (asInt n).toNat ≤ n :=
  Int.toNat_le.mpr (asInt_le n (Int.natCast_nonneg n))

theorem scanCount_eq {text : Bytes} {outSize : ℕ} (heven : text.length % 2 = 0) :
    scanCount outSize text.length = min (asInt outSize).toNat ((asInt text.length).toNat / 2) := by
  obtain ⟨half, hhalf, hcount⟩ := @scanCount_even outSize _ heven
  rw [hcount]
  generalize asInt outSize = room
  generalize asInt text.length = size at hhalf ⊢
  omega

theorem scanCount_le_written {text : Bytes} {outSize : ℕ} (heven : text.length % 2 = 0) :
    scanCount outSize text.length ≤ written text outSize := by
  have hout := asInt_toNat_le outSize
  have hin := asInt_toNat_le text.length
  rw [scanCount_eq heven]
  unfold written
  omega

theorem digitBack_mem {text : Bytes} {j : ℕ} (hj : j < text.length) : digitBack text j ∈ text := by
  have hlt : text.length - 1 - j < text.length := by omega
  unfold digitBack
  rw [List.getD_eq_getElem _ _ hlt]
  exact List.getElem_mem hlt

theorem charBack_mem {text : Bytes} {j : ℕ} (hj : j < (asInt text.length).toNat) :
    charBack text j ∈ text := by
  have hle := asInt_toNat_le text.length
  have hlt : (asInt text.length).toNat - 1 - j < text.length := by omega
  unfold charBack
  rw [List.getD_eq_getElem _ _ hlt]
  exact List.getElem_mem hlt

/-- the digits from the end -/
theorem getD_digits {text : Bytes} {j : ℕ} (hj : j < text.length) :
    (text.reverse.map digitOf).getD j 0 = digitOf (digitBack text j) := by
  have hlt : text.length - 1 - j < text.length := by omega
  unfold digitBack
  rw [List.getD_eq_getElem?_getD, List.getElem?_map, List.getElem?_reverse hj,
    List.getElem?_eq_getElem hlt, List.getD_eq_getElem _ _ hlt]
  rfl

theorem pair_digits {text : Bytes} {i : ℕ} (hi : 2 * i + 1 < text.length) :
    pair 16 (text.reverse.map digitOf) i
      = digitOf (digitBack text (2 * i)) + 16 * digitOf (digitBack text (2 * i + 1)) := by
  unfold pair
  rw [getD_digits (by omega), getD_digits hi]

theorem byteBack_toNat {text : Bytes} (hdigits : ∀ c ∈ text, IsHexDigit c) {i : ℕ}
    (hi : 2 * i + 1 < (asInt text.length).toNat) :
    (byteBack text i).toNat
      = readAs (charBack text (2 * i)) + 16 * readAs (charBack text (2 * i + 1)) := by
  have hlow := ctou8_toNat (hdigits _ (charBack_mem (j := 2 * i) (by omega)))
  have hhigh := ctou8_toNat (hdigits _ (charBack_mem hi))
  unfold byteBack
  rw [merge_toNat, hlow, hhigh, Nat.add_comm]

theorem getD_take_toNat {l : Bytes} {os i : ℕ} (hi : i < os) (hlt : i < l.length) :
    ((l.take os).map UInt8.toNat).getD i 0 = (l.getD i 0).toNat := by
  rw [List.getD_eq_getElem?_getD, List.getElem?_map, List.getElem?_take_of_lt hi,
    List.getD_eq_getElem _ _ hlt, List.getElem?_eq_getElem hlt]
  rfl

/-- the bytes that are spelled, one by one -/
theorem computesValue_iff_bytes {text : Bytes} {outSize : ℕ} (hdigits : ∀ c ∈ text, IsHexDigit c)
    (heven : text.length % 2 = 0) :
    ComputesValue text outSize ↔ ∀ out : Bytes, out.length = outSize →
      ∀ i, i < written text outSize →
        (((List.range (scanCount outSize text.length)).map (byteBack text)
          ++ out.drop (scanCount outSize text.length)).getD i 0).toNat
            = pair 16 (text.reverse.map digitOf) i := by
  have hds : ∀ d ∈ text.reverse.map digitOf, d < 16 := by
    intro d hd
    obtain ⟨c, hc, rfl⟩ := List.mem_map.mp hd
    exact digitOf_lt (hdigits c (List.mem_reverse.mp hc))
  have hcount := @scanCount_le_written text outSize heven
  have hwritten : written text outSize ≤ outSize := min_le_left _ _
  have hhalf : 2 * written text outSize ≤ text.length := by
    unfold written
    omega
  refine forall_congr' fun out => forall_congr' fun hout => ?_
  have hscan := @snprintu8_even out text heven
  rw [hout] at hscan
  generalize scanCount outSize text.length = count at hcount hscan ⊢
  generalize hresult : (List.range count).map (byteBack text) ++ out.drop count = result
    at hscan ⊢
  have hlen : result.length = outSize := by
    rw [← hresult, List.length_append, List.length_map, List.length_range, List.length_drop, hout]
    omega
  generalize written text outSize = os at *
  have htake : ((result.take os).map UInt8.toNat).length = os := by
    rw [List.length_map, List.length_take_of_le (hlen ▸ hwritten)]
  have hbytes : ∀ e ∈ (result.take os).map UInt8.toNat, e < 16 ^ 2 := by
    intro e he
    obtain ⟨b, -, rfl⟩ := List.mem_map.mp he
    exact b.toNat_lt
  have hiff := @Lib.Digits.mod_eq_pairs_iff 16 (text.reverse.map digitOf)
    ((result.take os).map UInt8.toNat) (by decide) hds hbytes
    (by rw [htake, List.length_map, List.length_reverse]; exact hhalf)
  rw [htake] at hiff
  have hget : ∀ i, i < os →
      ((result.take os).map UInt8.toNat).getD i 0 = (result.getD i 0).toNat := by
    intro i hi
    exact getD_take_toNat hi (by omega)
  constructor
  · rintro ⟨out', hout', hvalue⟩ i hi
    obtain rfl := Option.some.inj (hscan.symm.trans hout')
    rw [← hget i hi]
    exact hiff.mp hvalue i hi
  · intro h
    refine ⟨result, hscan, hiff.mpr fun i hi => ?_⟩
    rw [hget i hi]
    exact h i hi

theorem getD_scanned {text out : Bytes} {count i : ℕ} (hi : i < count) :
    ((List.range count).map (byteBack text) ++ out.drop count).getD i 0 = byteBack text i := by
  rw [List.getD_eq_getElem?_getD,
    List.getElem?_append_left (by rw [List.length_map, List.length_range]; exact hi),
    List.getElem?_map, List.getElem?_range hi]
  rfl

/-- a byte behind those that are written -/
theorem getD_unscanned {text : Bytes} {count size : ℕ} (hcount : count < size) (v : UInt8) :
    ((List.range count).map (byteBack text)
      ++ (List.replicate size v).drop count).getD count 0 = v := by
  have hlen : ((List.range count).map (byteBack text)).length = count := by
    rw [List.length_map, List.length_range]
  have hlast := @get_unwritten _ ((List.range count).map (byteBack text)) size (by omega) v
  rw [hlen] at hlast
  rw [List.getD_eq_getElem?_getD, hlast]
  rfl

/-- the loop goes as far as it has to iff both casts keep enough of the sizes -/
theorem scanCount_eq_written_iff {text : Bytes} {outSize : ℕ} (heven : text.length % 2 = 0) :
    scanCount outSize text.length = written text outSize ↔
      written text outSize ≤ (asInt outSize).toNat ∧
        2 * written text outSize ≤ (asInt text.length).toNat := by
  have hle := @scanCount_le_written text outSize heven
  have hcount := @scanCount_eq text outSize heven
  generalize scanCount outSize text.length = count at hle hcount ⊢
  generalize (asInt outSize).toNat = room at hcount ⊢
  generalize (asInt text.length).toNat = size at hcount ⊢
  omega

/-- a number below 256 has two digits -/
theorem nibbles_eq {a b c d : ℕ} (ha : a < 16) (hc : c < 16) (h : a + 16 * b = c + 16 * d) :
    a = c ∧ b = d := by
  omega

/-- **Which digits are read.** -/
theorem computesValue_iff (text : Bytes) (outSize : ℕ) (hdigits : ∀ c ∈ text, IsHexDigit c)
    (heven : text.length % 2 = 0) : ComputesValue text outSize ↔ ReadsDigits text outSize := by
  have hwritten : written text outSize ≤ outSize := min_le_left _ _
  have hhalf : 2 * written text outSize ≤ text.length := by
    unfold written
    omega
  rw [computesValue_iff_bytes hdigits heven]
  constructor
  · intro h
    have hcount : scanCount outSize text.length = written text outSize := by
      have hle := @scanCount_le_written text outSize heven
      generalize scanCount outSize text.length = count at h hle ⊢
      by_contra hne
      have hlt : count < written text outSize := by omega
      obtain ⟨v, hv⟩ :=
        exists_byte_ne (UInt8.ofNat (pair 16 (text.reverse.map digitOf) count))
      have hat := h (List.replicate outSize v) List.length_replicate count hlt
      rw [getD_unscanned (Nat.lt_of_lt_of_le hlt hwritten)] at hat
      exact hv (by rw [← hat, UInt8.ofNat_toNat])
    obtain ⟨hroom, hsize⟩ := (scanCount_eq_written_iff heven).mp hcount
    refine ⟨hroom, hsize, ?_⟩
    have hpair : ∀ i, i < written text outSize →
        readAs (charBack text (2 * i)) = digitOf (digitBack text (2 * i)) ∧
          readAs (charBack text (2 * i + 1)) = digitOf (digitBack text (2 * i + 1)) := by
      intro i hi
      have hread : 2 * i + 1 < (asInt text.length).toNat := Nat.lt_of_lt_of_le (by omega) hsize
      have hat := h (List.replicate outSize 0) List.length_replicate i hi
      rw [getD_scanned (hcount ▸ hi), byteBack_toNat hdigits hread, pair_digits (by omega)] at hat
      exact nibbles_eq (readAs_lt (hdigits _ (charBack_mem (Nat.lt_of_succ_lt hread))))
        (digitOf_lt (hdigits _ (digitBack_mem (by omega)))) hat
    intro j hj
    rcases Nat.even_or_odd' j with ⟨i, rfl | rfl⟩
    · exact (hpair i (by omega)).1
    · exact (hpair i (by omega)).2
  · intro h out hout i hi
    have hcount := (scanCount_eq_written_iff heven).mpr ⟨h.room, h.size⟩
    have hread : 2 * i + 1 < (asInt text.length).toNat := Nat.lt_of_lt_of_le (by omega) h.size
    rw [getD_scanned (hcount ▸ hi), byteBack_toNat hdigits hread, pair_digits (by omega),
      h.digits (2 * i) (by omega), h.digits (2 * i + 1) (by omega)]

/-- a string that an `int` can count is read as it is, but for 'F' -/
theorem readsDigits_iff {text : Bytes} {outSize : ℕ} (hdigits : ∀ c ∈ text, IsHexDigit c)
    (hint : (text.length : ℤ) ≤ intMax) :
    ReadsDigits text outSize ↔ written text outSize ≤ (asInt outSize).toNat ∧
      70 ∉ text.drop (text.length - 2 * written text outSize) := by
  have hhalf : 2 * written text outSize ≤ text.length := by
    unfold written
    omega
  have hlen : (asInt text.length).toNat = text.length := asInt_toNat hint
  have hchar : ∀ j, charBack text j = digitBack text j := by
    intro j
    unfold charBack digitBack
    rw [hlen]
  have hdigit : ∀ j, j < 2 * written text outSize →
      (readAs (charBack text j) = digitOf (digitBack text j) ↔ digitBack text j ≠ 70) := by
    intro j hj
    rw [hchar]
    exact readAs_eq_iff (hdigits _ (digitBack_mem (Nat.lt_of_lt_of_le hj hhalf)))
  constructor
  · intro h
    refine ⟨h.room, fun hmem => ?_⟩
    obtain ⟨k, hk, hget⟩ := List.getElem_of_mem hmem
    rw [List.length_drop] at hk
    rw [List.getElem_drop] at hget
    have hj : 2 * written text outSize - 1 - k < 2 * written text outSize := by omega
    have hindex : text.length - 1 - (2 * written text outSize - 1 - k)
        = text.length - 2 * written text outSize + k := by omega
    refine (hdigit _ hj).mp (h.digits _ hj) ?_
    unfold digitBack
    rw [hindex, List.getD_eq_getElem _ _ (by omega), hget]
  · rintro ⟨hroom, hmem⟩
    refine ⟨hroom, hlen.symm ▸ hhalf, fun j hj => (hdigit j hj).mpr fun heq => hmem ?_⟩
    have hindex : text.length - 1 - j
        = text.length - 2 * written text outSize + (2 * written text outSize - 1 - j) := by omega
    unfold digitBack at heq
    rw [hindex, List.getD_eq_getElem _ _ (by omega)] at heq
    rw [List.mem_iff_getElem]
    refine ⟨2 * written text outSize - 1 - j, by rw [List.length_drop]; omega, ?_⟩
    rw [List.getElem_drop, heq]

/-- **The value is computed iff the sizes survive their casts and the digits at the end are read as
what they are.**  Of a string that an `int` can count they are if none of them is 'F'. -/
theorem computes_value_iff (text : Bytes) (outSize : ℕ) (hdigits : ∀ c ∈ text, IsHexDigit c)
    (heven : text.length % 2 = 0) :
    (ComputesValue text outSize ↔ ReadsDigits text outSize) ∧
      ((text.length : ℤ) ≤ intMax → (ReadsDigits text outSize ↔
        written text outSize ≤ (asInt outSize).toNat ∧
          70 ∉ text.drop (text.length - 2 * written text outSize))) :=
  ⟨computesValue_iff text outSize hdigits heven, readsDigits_iff hdigits⟩

theorem computes_value_mixed : ComputesValue (ascii "Fa3E9b") 2 := by
  obtain ⟨hiff, hreads⟩ := computes_value_iff (ascii "Fa3E9b") 2 (isHexDigit_of_all (by decide)) (by decide)
  exact hiff.mpr ((hreads (by decide)).mpr (by decide))

/-- **The last entry of the table is not found**: "0F" is 0. -/
theorem capital_f_is_lost :
    (∀ c ∈ ascii "0F", IsHexDigit c) ∧ snprintu8 [7] 1 (ascii "0F") 2 = some [0] ∧
      hexValue (ascii "0F") = 15 ∧ ¬ ComputesValue (ascii "0F") 1 := by
  have hscan : snprintu8 [7] 1 (ascii "0F") 2 = some [0] := by decide
  refine ⟨isHexDigit_of_all (by decide), hscan, by decide, ?_⟩
  intro h
  obtain ⟨out', hout', hvalue⟩ := h [7] rfl
  obtain rfl := Option.some.inj (hscan.symm.trans hout')
  revert hvalue
  decide

end Common
end Zmqpp
