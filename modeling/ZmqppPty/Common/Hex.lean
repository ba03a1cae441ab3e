import ZmqppPty.Base
import ZmqppPty.Lib.Buffer

/-!
# Bytes and hexadecimal digits (common.c)

`u8nprints` writes two digits for each byte, `snprintu8` reads them back from the end.  The sizes
of the buffers are arguments of their own, as in C; an access outside a buffer has no result.

* `u8nct`, `u8toc`, `ctou8`    the table, a byte to digits and a digit to a number;
* `u8nprints`, `snprintu8`     the two loops;
* `u8nprints_eq`               what is written for all bytes of an array;
* `snprintu8_even`             what is read from an even number of characters;
* `hex_reverses_iff`           the sizes for which one reverses the other.
-/

namespace Zmqpp
namespace Common

open Lib.Buffer

/-! ## the table -/

structure LutU8C where
  num : UInt8
  rep : UInt8
deriving DecidableEq, Repr

/-- `uint8_t` nibble-char table -/
def u8nct : List LutU8C :=
  [⟨0x00, 48⟩, ⟨0x01, 49⟩, ⟨0x02, 50⟩, ⟨0x03, 51⟩, ⟨0x04, 52⟩, ⟨0x05, 53⟩, ⟨0x06, 54⟩, ⟨0x07, 55⟩,
    ⟨0x08, 56⟩, ⟨0x09, 57⟩, ⟨0x0A, 97⟩, ⟨0x0B, 98⟩, ⟨0x0C, 99⟩, ⟨0x0D, 100⟩, ⟨0x0E, 101⟩,
    ⟨0x0F, 102⟩, ⟨0x0A, 65⟩, ⟨0x0B, 66⟩, ⟨0x0C, 67⟩, ⟨0x0D, 68⟩, ⟨0x0E, 69⟩, ⟨0x0F, 70⟩]

/-- `0x0F & in` -/
def lowNibble (input : UInt8) : UInt8 := input &&& 0x0F

/-- `0x0F & (in >> 4)` -/
def highNibble (input : UInt8) : UInt8 := (input >>> 4) &&& 0x0F

/-- `*conv = u8nct[i].rep` for the first of 16 entries with this number -/
def putNibble (out : Bytes) (conv : ℤ) (nibble : UInt8) : Option Bytes :=
  match (u8nct.take 16).find? fun e => nibble == e.num with
  | none => some out
  | some e => write out conv e.rep

/-- The two pointers are indexes of `out`.  The high nibble goes to `low_nibble_conv`. -/
def u8toc (out : Bytes) (highNibbleConv lowNibbleConv : ℤ) (input : UInt8) : Option Bytes :=
  match putNibble out lowNibbleConv (highNibble input) with
  | none => none
  | some out => putNibble out highNibbleConv (lowNibble input)

/-- the first of 21 entries with this character; 0 if there is none -/
def ctou8 (inChar : UInt8) : UInt8 :=
  match (u8nct.take 21).find? fun e => inChar == e.rep with
  | none => 0x00
  | some e => e.num

/-! ## the loops -/

/-- `(0xF0 & (h << 4)) | (0x0F & l)` -/
def merge (h l : UInt8) : UInt8 := ((h <<< 4) &&& 0xF0) ||| (l &&& 0x0F)

/-- the characters at `index` and before it to a byte -/
def mergeAt (input : Bytes) (index : ℤ) (i : ℕ) (out : Bytes) : Option Bytes :=
  match read input index with
  | none => none
  | some l =>
    match read input (index - 1) with
    | none => none
    | some h => write out i (merge (ctou8 h) (ctou8 l))

/-- two characters to a byte; `index` is computed as a `size_t` and stored in an `int` -/
def scanByte (input : Bytes) (inSize i : ℕ) (out : Bytes) : Option Bytes :=
  let index : ℤ := asInt (inSize - 1 - i * 2)
  mergeAt input index i out

def snprintu8 (out : Bytes) (outSize : ℕ) (input : Bytes) (inSize : ℕ) : Option Bytes :=
  let shift : ℤ := (asInt inSize).tmod 2
  let half : ℤ := (asInt inSize).tdiv 2 + shift
  if asInt outSize < half then
    let os := asInt outSize
    if 0 = os then some out else forRange (scanByte input inSize) os.toNat out
  else
    let os := half
    forRange (scanByte input inSize) os.toNat out

/-- a byte to two characters -/
def printByte (input : Bytes) (i : ℕ) (out : Bytes) : Option Bytes :=
  match read input i with
  | none => none
  | some b => u8toc out (2 * i + 1) (2 * i) b

def u8nprints (out : Bytes) (outSize : ℕ) (input : Bytes) (inNum : ℕ) : Option Bytes :=
  let brs : ℕ := if outSize < inNum then outSize else inNum
  forRange (printByte input) (asInt brs).toNat out

/-! ## the digits of a byte -/

theorem exists_byte_ne (c : UInt8) : ∃ v, v ≠ c := by
  by_cases hc : c = 0
  · exact ⟨1, hc ▸ by decide⟩
  · exact ⟨0, Ne.symm hc⟩

def digitChar (nibble : UInt8) : UInt8 :=
  match (u8nct.take 16).find? fun e => nibble == e.num with
  | none => 0
  | some e => e.rep

/-- in the order in which they are written -/
def hexChars (b : UInt8) : Bytes := [digitChar (highNibble b), digitChar (lowNibble b)]

theorem nibble_found (b : UInt8) :
    ((u8nct.take 16).find? fun e => lowNibble b == e.num).isSome = true :=
  @forall_byte (fun b => ((u8nct.take 16).find? fun e => lowNibble b == e.num).isSome = true)
    (by decide +kernel) b

/-- the digits are read back -/
theorem merge_digitChar (b : UInt8) :
    merge (ctou8 (digitChar (highNibble b))) (ctou8 (digitChar (lowNibble b))) = b :=
  @forall_byte
    (fun b => merge (ctou8 (digitChar (highNibble b))) (ctou8 (digitChar (lowNibble b))) = b)
    (by decide +kernel) b

theorem putNibble_eq (out : Bytes) (conv : ℤ) (b : UInt8) :
    putNibble out conv (lowNibble b) = write out conv (digitChar (lowNibble b)) := by
  unfold putNibble digitChar
  have hfound := nibble_found b
  split
  · rename_i hnone
    rw [hnone] at hfound
    cases hfound
  · rfl

/-- both digits of a byte, after those that are there already -/
theorem u8toc_append (a rest : Bytes) (x y b : UInt8) {i : ℤ} (hi : i = a.length) :
    u8toc (a ++ x :: y :: rest) (i + 1) i b = some (a ++ hexChars b ++ rest) := by
  have hhigh : putNibble (a ++ x :: y :: rest) i (highNibble b)
      = some (a ++ digitChar (highNibble b) :: y :: rest) := by
    rw [hi]
    exact (putNibble_eq _ _ (b >>> 4)).trans (write_append a (y :: rest) x _)
  have hlow : putNibble (a ++ digitChar (highNibble b) :: y :: rest) (i + 1) (lowNibble b)
      = some (a ++ hexChars b ++ rest) := by
    have hwrite := write_append (a ++ [digitChar (highNibble b)]) rest y (digitChar (lowNibble b))
    rw [List.length_append, List.length_singleton, Nat.cast_add, Nat.cast_one, ← hi,
      List.append_assoc, List.append_assoc] at hwrite
    rw [putNibble_eq, List.append_assoc]
    exact hwrite
  unfold u8toc
  rw [hhigh]
  exact hlow

/-! ## writing -/

theorem hexChars_length (l : Bytes) : (l.flatMap hexChars).length = 2 * l.length := by
  induction l with
  | nil => rfl
  | cons b l ih =>
    rw [List.flatMap_cons, List.length_append, ih, List.length_cons]
    show 2 + _ = _
    omega

theorem printByte_eq {input out : Bytes} {i : ℕ} (hi : i < input.length)
    (hroom : 2 * input.length ≤ out.length) :
    printByte input i ((input.take i).flatMap hexChars ++ out.drop (2 * i))
      = some ((input.take (i + 1)).flatMap hexChars ++ out.drop (2 * (i + 1))) := by
  have hread : read input i = some input[i] := by
    rw [read_natCast, List.getElem?_eq_getElem hi]
  have hdrop : out.drop (2 * i) = out[2 * i] :: out[2 * i + 1] :: out.drop (2 * (i + 1)) := by
    rw [List.drop_eq_getElem_cons (by omega), List.drop_eq_getElem_cons (by omega)]
    rfl
  have hlen : (2 * i : ℤ) = ((input.take i).flatMap hexChars).length := by
    rw [hexChars_length, List.length_take_of_le hi.le]
    rfl
  have htake : (input.take (i + 1)).flatMap hexChars
      = (input.take i).flatMap hexChars ++ hexChars input[i] := by
    rw [List.take_succ_eq_append_getElem hi, List.flatMap_append, List.flatMap_singleton]
  unfold printByte
  rw [hread]
  dsimp only
  rw [hdrop, u8toc_append _ _ _ _ _ hlen, htake]

/-- **The digits of all bytes**, if there is room for two of each. -/
theorem u8nprints_eq {out input : Bytes} {outSize : ℕ} (hroom : 2 * input.length ≤ out.length)
    (hsize : input.length ≤ outSize) (hint : (input.length : ℤ) ≤ intMax) :
    u8nprints out outSize input input.length
      = some (input.flatMap hexChars ++ out.drop (2 * input.length)) := by
  have hloop := @forRange_eq _ (printByte input) input.length
    (fun i => (input.take i).flatMap hexChars ++ out.drop (2 * i))
    fun i hi => printByte_eq hi hroom
  rw [List.take_length] at hloop
  unfold u8nprints
  dsimp only
  rw [if_neg (not_lt.mpr hsize), asInt_toNat hint]
  exact hloop

/-! ## reading -/

/-- the number of turns -/
def scanCount (outSize inSize : ℕ) : ℕ :=
  (min (asInt outSize) ((asInt inSize).tdiv 2 + (asInt inSize).tmod 2)).toNat

theorem snprintu8_loop (out : Bytes) (outSize : ℕ) (input : Bytes) (inSize : ℕ) :
    snprintu8 out outSize input inSize
      = forRange (scanByte input inSize) (scanCount outSize inSize) out := by
  unfold snprintu8 scanCount
  dsimp only
  split
  · rename_i hlt
    rw [min_eq_left hlt.le]
    split
    · rename_i hzero
      rw [← hzero]
      rfl
    · rfl
  · rename_i hge
    rw [min_eq_right (not_lt.mp hge)]

/-- the character that is `j` characters before the end, as `(int)in_size` has it -/
def charBack (input : Bytes) (j : ℕ) : UInt8 := input.getD ((asInt input.length).toNat - 1 - j) 0

/-- the byte of the `i`-th pair of characters from the end -/
def byteBack (input : Bytes) (i : ℕ) : UInt8 :=
  merge (ctou8 (charBack input (2 * i + 1))) (ctou8 (charBack input (2 * i)))

theorem read_charBack {input : Bytes} {j : ℕ} (h : (j : ℤ) + 1 ≤ asInt input.length) :
    read input (asInt input.length - 1 - j) = some (charBack input j) := by
  have hle := asInt_le input.length (Int.natCast_nonneg _)
  have hindex : asInt input.length - 1 - j = (((asInt input.length).toNat - 1 - j : ℕ) : ℤ) := by
    omega
  have hlt : (asInt input.length).toNat - 1 - j < input.length := by omega
  unfold charBack
  rw [hindex, read_natCast, List.getD_eq_getElem?_getD, List.getElem?_eq_getElem hlt]
  rfl

theorem mergeAt_eq {input : Bytes} {index : ℤ} {l h : UInt8} (hlow : read input index = some l)
    (hhigh : read input (index - 1) = some h) (i : ℕ) (out : Bytes) :
    mergeAt input index i out = write out i (merge (ctou8 h) (ctou8 l)) := by
  unfold mergeAt
  rw [hlow]
  dsimp only
  rw [hhigh]

theorem scanByte_eq {input : Bytes} {i : ℕ} (hi : 2 * (i : ℤ) + 2 ≤ asInt input.length)
    (out : Bytes) : scanByte input input.length i out = write out i (byteBack input i) := by
  have hindex : asInt ((input.length : ℤ) - 1 - i * 2) = asInt input.length - 1 - (2 * i : ℕ) := by
    have hsub := @asInt_sub input.length (1 + i * 2) (by omega) (by omega)
    rw [← Int.sub_sub] at hsub
    rw [hsub]
    push_cast
    ring
  have hlow := @read_charBack input (2 * i) (by push_cast; omega)
  have hhigh := @read_charBack input (2 * i + 1) (by push_cast; omega)
  rw [Nat.cast_add, Nat.cast_one, ← Int.sub_sub] at hhigh
  unfold scanByte byteBack
  dsimp only
  rw [hindex]
  exact mergeAt_eq hlow hhigh i out

/-- an even number of characters is halved -/
theorem scanCount_even {outSize inSize : ℕ} (heven : inSize % 2 = 0) :
    ∃ half : ℤ, asInt inSize = 2 * half ∧
      scanCount outSize inSize = (min (asInt outSize) half).toNat := by
  have hmod := asInt_mod_two inSize
  obtain ⟨half, hhalf⟩ := Int.dvd_of_emod_eq_zero (show asInt inSize % 2 = 0 by omega)
  refine ⟨half, hhalf, ?_⟩
  unfold scanCount
  rw [hhalf, Int.mul_tdiv_cancel_left half (by decide), Int.mul_tmod_right, Int.add_zero]

theorem scanCount_lt {outSize inSize i : ℕ} (heven : inSize % 2 = 0)
    (hi : i < scanCount outSize inSize) : 2 * (i : ℤ) + 2 ≤ asInt inSize := by
  obtain ⟨half, hhalf, hcount⟩ := @scanCount_even outSize inSize heven
  omega

theorem scanCount_le (outSize inSize : ℕ) : scanCount outSize inSize ≤ outSize := by
  have hle := asInt_le outSize (Int.natCast_nonneg _)
  unfold scanCount
  omega

/-- what is read if there are two characters for each turn -/
theorem snprintu8_eq {out input : Bytes}
    (hpairs : ∀ i : ℕ, i < scanCount out.length input.length → 2 * (i : ℤ) + 2 ≤ asInt input.length) :
    snprintu8 out out.length input input.length
      = some ((List.range (scanCount out.length input.length)).map (byteBack input)
          ++ out.drop (scanCount out.length input.length)) := by
  rw [snprintu8_loop]
  refine forRange_fill (byteBack input) (scanCount_le _ _) ?_
  intro i s hi
  exact scanByte_eq (hpairs i hi) s

/-- **What is read from an even number of characters.** -/
theorem snprintu8_even {out input : Bytes} (heven : input.length % 2 = 0) :
    snprintu8 out out.length input input.length
      = some ((List.range (scanCount out.length input.length)).map (byteBack input)
          ++ out.drop (scanCount out.length input.length)) :=
  snprintu8_eq fun _ hi => scanCount_lt heven hi

/-! ## one after the other -/

/-- What `u8nprints` has written into a buffer of two characters for each byte, `snprintu8` reads
as the reversed bytes, as many as there is room for. -/
def HexReverses (b : Bytes) (outSize : ℕ) : Prop :=
  ∀ text out : Bytes, text.length = 2 * b.length → out.length = outSize →
    ∃ text' out', u8nprints text (2 * b.length) b b.length = some text' ∧
      snprintu8 out outSize text' (2 * b.length) = some out' ∧
      out' = b.reverse.take outSize ++ out.drop b.length

/-- the digits of the `k`-th byte -/
theorem hexChars_get (l : Bytes) (k : ℕ) :
    (l.flatMap hexChars)[2 * k]? = l[k]?.map (fun b => digitChar (highNibble b)) ∧
      (l.flatMap hexChars)[2 * k + 1]? = l[k]?.map fun b => digitChar (lowNibble b) := by
  induction l generalizing k with
  | nil => exact ⟨rfl, rfl⟩
  | cons b l ih =>
    cases k with
    | zero => exact ⟨rfl, rfl⟩
    | succ k => exact ih k

/-- the pairs of digits from the end are the bytes from the end -/
theorem byteBack_hexChars {b : Bytes} (hint : (2 * b.length : ℕ) ≤ intMax) {i : ℕ}
    (hi : i < b.length) : byteBack (b.flatMap hexChars) i = b[b.length - 1 - i] := by
  have hlen : (asInt (b.flatMap hexChars).length).toNat = 2 * b.length := by
    rw [hexChars_length, asInt_toNat hint]
  have hlow : 2 * b.length - 1 - 2 * i = 2 * (b.length - 1 - i) + 1 := by omega
  have hhigh : 2 * b.length - 1 - (2 * i + 1) = 2 * (b.length - 1 - i) := by omega
  have hget : b[b.length - 1 - i]? = some b[b.length - 1 - i] :=
    List.getElem?_eq_getElem (by omega)
  obtain ⟨hfirst, hsecond⟩ := hexChars_get b (b.length - 1 - i)
  unfold byteBack charBack
  rw [hlen, hlow, hhigh, List.getD_eq_getElem?_getD, List.getD_eq_getElem?_getD, hfirst, hsecond,
    hget]
  exact merge_digitChar _

theorem map_byteBack {b : Bytes} (hint : (2 * b.length : ℕ) ≤ intMax) {count : ℕ}
    (hcount : count ≤ b.length) :
    (List.range count).map (byteBack (b.flatMap hexChars)) = b.reverse.take count := by
  apply List.ext_getElem
  · rw [List.length_map, List.length_range, List.length_take, List.length_reverse,
      min_eq_left hcount]
  · intro i hi _
    rw [List.length_map, List.length_range] at hi
    rw [List.getElem_map, List.getElem_range, List.getElem_take, List.getElem_reverse,
      byteBack_hexChars hint (by omega)]

/-- **What comes out.** -/
theorem hex_eq {b text out : Bytes} (hint : (2 * b.length : ℕ) ≤ intMax)
    (htext : text.length = 2 * b.length) :
    ∃ text', u8nprints text (2 * b.length) b b.length = some text' ∧
      snprintu8 out out.length text' (2 * b.length)
        = some (b.reverse.take (min (asInt out.length) b.length).toNat
            ++ out.drop (min (asInt out.length) b.length).toNat) := by
  have hprint := @u8nprints_eq text b (2 * b.length) htext.ge (by omega) (by omega)
  rw [List.drop_of_length_le htext.le, List.append_nil] at hprint
  refine ⟨_, hprint, ?_⟩
  have hlen := hexChars_length b
  have heven : (b.flatMap hexChars).length % 2 = 0 := by omega
  obtain ⟨half, hhalf, hcount⟩ := @scanCount_even out.length _ heven
  have hscan := @snprintu8_even out _ heven
  rw [hlen, asInt_of_le (Int.natCast_nonneg _) hint] at hhalf
  obtain rfl : half = b.length := by
    push_cast at hhalf
    omega
  rw [hcount, map_byteBack hint (by omega), hlen] at hscan
  exact hscan

/-- the element behind those that are written is still there -/
theorem eq_of_unwritten {l rest : Bytes} {k n size : ℕ} {v : UInt8} (hk : k < n)
    (hl : k < l.length) (hsize : k < size)
    (h : l.take n ++ rest = l.take k ++ (List.replicate size v).drop k) : l[k] = v := by
  have hback : (l.take k).length = k := List.length_take_of_le hl.le
  have hfront : k < (l.take n).length := by
    rw [List.length_take]
    omega
  have hlast := @get_unwritten _ (l.take k) size (by omega) v
  rw [hback, ← h, List.getElem?_append_left hfront, List.getElem?_take_of_lt hk,
    List.getElem?_eq_getElem hl] at hlast
  exact Option.some.inj hlast

/-- as many bytes as there is room for -/
theorem take_drop_min (l out : Bytes) :
    l.take (min out.length l.length) ++ out.drop (min out.length l.length)
      = l.take out.length ++ out.drop l.length := by
  by_cases hlt : out.length < l.length
  · rw [min_eq_left hlt.le, List.drop_of_length_le le_rfl, List.drop_of_length_le hlt.le]
  · have hle := not_lt.mp hlt
    rw [min_eq_right hle, List.take_of_length_le le_rfl, List.take_of_length_le hle]

/-- **The bytes are reversed iff `(int)out_size` is not less than what is to be written.** -/
theorem hex_reverses_iff (b : Bytes) (outSize : ℕ) (hint : (2 * b.length : ℕ) ≤ intMax) :
    HexReverses b outSize ↔ b = [] ∨ (min outSize b.length : ℕ) ≤ asInt outSize := by
  have hle := asInt_le outSize (Int.natCast_nonneg _)
  constructor
  · intro h
    by_contra hno
    obtain ⟨hne, hlt⟩ := not_or.mp hno
    have hpos := List.length_pos_iff.mpr hne
    have hzero : outSize = 0 → asInt outSize = 0 := fun h => h ▸ rfl
    have hcount : (min (asInt outSize) b.length).toNat < min outSize b.length := by omega
    generalize hk : (min (asInt outSize) b.length).toNat = k at hcount
    have hkb : k < b.reverse.length := by
      rw [List.length_reverse]
      omega
    -- a buffer that is filled with another byte than the one that should be at `k`
    obtain ⟨v, hv⟩ := exists_byte_ne b.reverse[k]
    obtain ⟨text', out', hprint, hscan, hout⟩ :=
      h (List.replicate (2 * b.length) 0) (List.replicate outSize v) List.length_replicate
        List.length_replicate
    obtain ⟨text'', hprint', hscan'⟩ :=
      @hex_eq b (List.replicate (2 * b.length) 0) (List.replicate outSize v) hint
        List.length_replicate
    obtain rfl := Option.some.inj (hprint.symm.trans hprint')
    rw [List.length_replicate, hscan, hk] at hscan'
    have heq := hout.symm.trans (Option.some.inj hscan')
    exact hv (eq_of_unwritten (by omega) hkb (by omega) heq).symm
  · intro h text out htext hout
    obtain ⟨text', hprint, hscan⟩ := @hex_eq b text out hint htext
    rw [hout] at hscan
    refine ⟨text', _, hprint, hscan, ?_⟩
    rcases h with rfl | h
    · have hnil : (min (asInt outSize) ([] : Bytes).length).toNat = 0 := by
        rw [List.length_nil]
        omega
      rw [hnil]
      simp
    · have hcount : (min (asInt outSize) b.length).toNat = min outSize b.length := by omega
      have hmin := take_drop_min b.reverse out
      rw [List.length_reverse, hout] at hmin
      rw [hcount, hmin]

theorem hex_reverses_three : HexReverses [0x3C, 0x0F, 0xA5] 2 :=
  (hex_reverses_iff [0x3C, 0x0F, 0xA5] 2 (by decide)).mpr (Or.inr (by decide))

/-- a buffer of `2 ^ 31` bytes: its size is negative as an `int` -/
theorem hex_not_reversed : ¬ HexReverses [0x3C] (2 ^ 31) := by
  intro h
  obtain ⟨text', out', -, hscan, hout⟩ :=
    h [0, 0] (List.replicate (2 ^ 31) 0) rfl List.length_replicate
  have hscan0 : snprintu8 (List.replicate (2 ^ 31) 0) (2 ^ 31) text' 2
      = some (List.replicate (2 ^ 31) 0) := by
    rw [snprintu8_loop]
    rfl
  obtain rfl := Option.some.inj (hscan0.symm.trans hscan)
  have hhead := congrArg List.head? hout
  rw [List.head?_replicate] at hhead
  revert hhead
  decide

end Common
end Zmqpp
