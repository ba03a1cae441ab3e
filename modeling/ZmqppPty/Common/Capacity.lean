import ZmqppPty.Common.Hex

/-!
# What the helpers of common.c touch of their buffers

The sizes of the buffers are those that are passed.  A helper that returns has made every access
within them.

* `snprintu8_inside_iff`     `snprintu8` stays inside unless it comes to an odd first character;
* `u8toascii`, `asciitou8`   bytes to a terminated text, and a text to bytes;
* `truncated`                a buffer with a text, or with what it has room for;
* `respects_capacity_iff`    the sizes for which `u8nprints`, `u8toascii` and `asciitou8` leave
                             just that.
-/

namespace Zmqpp
namespace Common

open Lib.Buffer

/-! ## pairs of characters -/

/-- the number of turns is rounded up -/
theorem scanCount_odd {outSize inSize i : ℕ} (hi : i < scanCount outSize inSize) :
    2 * (i : ℤ) + 1 ≤ asInt inSize := by
  have hsplit := Int.mul_tdiv_add_tmod (asInt inSize) 2
  have hshift := Int.tmod_lt_of_pos (asInt inSize) (show (0 : ℤ) < 2 by decide)
  unfold scanCount at hi
  omega

theorem scanByte_inside {input out t : Bytes} {i : ℕ} (hi : 2 * (i : ℤ) + 1 ≤ asInt input.length)
    (h : scanByte input input.length i out = some t) : 2 * (i : ℤ) + 2 ≤ asInt input.length := by
  have hindex := @asInt_sub input.length (1 + i * 2) (by omega) (by omega)
  rw [← Int.sub_sub] at hindex
  unfold scanByte mergeAt at h
  dsimp only at h
  rw [hindex] at h
  by_contra hlast
  have hneg : read input (asInt input.length - (1 + i * 2) - 1) = none :=
    if_neg (by omega)
  rw [hneg] at h
  cases hlow : read input (asInt input.length - (1 + i * 2)) with
  | none =>
    rw [hlow] at h
    cases h
  | some l =>
    rw [hlow] at h
    cases h

/-- it returns iff every turn has two characters to read -/
theorem snprintu8_isSome_iff (out input : Bytes) :
    (snprintu8 out out.length input input.length).isSome = true ↔
      ∀ i : ℕ, i < scanCount out.length input.length → 2 * (i : ℤ) + 2 ≤ asInt input.length := by
  constructor
  · intro h i hi
    obtain ⟨u, hu⟩ := Option.isSome_iff_exists.mp h
    rw [snprintu8_loop] at hu
    obtain ⟨t, t', -, hturn⟩ :=
      forRange_reaches (fun _ => True) trivial (fun _ _ _ _ _ => trivial) hu hi
    exact scanByte_inside (scanCount_odd hi) hturn
  · intro h
    rw [snprintu8_eq h]
    rfl

/-- half of an odd number, rounded up -/
theorem half_lt {n os : ℤ} (hpos : 0 < n) (hodd : n % 2 ≠ 0) (hroom : n < 2 * os) :
    n.toNat / 2 < (min os (n.tdiv 2 + n.tmod 2)).toNat := by
  have hsplit := Int.mul_tdiv_add_tmod n 2
  have hnonneg := Int.tmod_nonneg 2 hpos.le
  omega

/-- an odd number of characters has one for its last turn -/
theorem scanCount_pairs_iff (outSize inSize : ℕ) :
    (∀ i : ℕ, i < scanCount outSize inSize → 2 * (i : ℤ) + 2 ≤ asInt inSize) ↔
      asInt inSize ≤ 0 ∨ inSize % 2 = 0 ∨ 2 * asInt outSize ≤ asInt inSize := by
  constructor
  · intro h
    by_contra hno
    rw [not_or, not_or, not_le, not_le] at hno
    obtain ⟨hpos, hodd, hroom⟩ := hno
    have hparity := asInt_mod_two inSize
    have hpair := h _ (half_lt hpos (by omega) hroom)
    omega
  · rintro (hneg | heven | hroom) i hi
    · have := scanCount_odd hi
      omega
    · exact scanCount_lt heven hi
    · unfold scanCount at hi
      omega

/-- **`snprintu8` stays inside its buffers** iff the number of characters, as an `int`, is even or
not positive, or there is no room for the byte of the first one. -/
theorem snprintu8_inside_iff (out input : Bytes) :
    (snprintu8 out out.length input input.length).isSome = true ↔
      asInt input.length ≤ 0 ∨ input.length % 2 = 0 ∨
        2 * asInt out.length ≤ asInt input.length :=
  (snprintu8_isSome_iff out input).trans (scanCount_pairs_iff out.length input.length)

/-- one character and room for one byte: `in[-1]` is read -/
theorem snprintu8_reads_before :
    ¬ ∀ out input : Bytes, (out.length : ℤ) ≤ intMax → (input.length : ℤ) ≤ intMax →
      (snprintu8 out out.length input input.length).isSome = true := by
  intro h
  have hsome := h [0] [0x41] (by decide) (by decide)
  revert hsome
  decide

/-! ## bytes to text and back -/

/-- `out[i] = in[i]` -/
def copyByte (input : Bytes) (i : ℕ) (out : Bytes) : Option Bytes :=
  match read input i with
  | none => none
  | some b => write out i b

/-- with the size that it returns; the terminating NUL is at `out[brs-1]` -/
def u8toascii (out : Bytes) (outSize : ℕ) (input : Bytes) (inNum : ℕ) : Option (Bytes × ℕ) :=
  let brs := asSize (inNum + 1)
  let brs := if brs > outSize then outSize else brs
  let last := asSize (brs - 1)
  (forRange (copyByte input) (asInt last).toNat out).bind fun out =>
    (write out last 0).map fun out => (out, brs)

def asciitou8 (out : Bytes) (outSize : ℕ) (input : Bytes) (inLen : ℕ) : Option (Bytes × ℕ) :=
  let brs := if inLen > outSize then outSize else inLen
  (forRange (copyByte input) (asInt brs).toNat out).map fun out => (out, brs)

/-- a buffer that got a text, or the front of it that there is room for -/
def truncated (text out : Bytes) : Bytes := text.take out.length ++ out.drop text.length

/-- the front of a text and its terminating NUL, in a buffer of this size -/
def terminated (text : Bytes) (outSize : ℕ) : Bytes := text.take (outSize - 1) ++ [0]

/-! ## what each leaves in the buffer -/

/-- `u8nprints` writes two digits for each byte, as many digits as there is room for -/
def PrintsTruncated (out input : Bytes) : Prop :=
  u8nprints out out.length input input.length = some (truncated (input.flatMap hexChars) out)

/-- `u8toascii` copies as many bytes as there is room for before a NUL -/
def TerminatesTruncated (out input : Bytes) : Prop :=
  u8toascii out out.length input input.length
    = some (truncated (terminated input out.length) out, min out.length (input.length + 1))

/-- `asciitou8` copies as many characters as there is room for -/
def CopiesTruncated (out input : Bytes) : Prop :=
  asciitou8 out out.length input input.length
    = some (truncated input out, min out.length input.length)

theorem copyByte_eq {input : Bytes} {i : ℕ} {v : UInt8} (h : input[i]? = some v) (out : Bytes) :
    copyByte input i out = write out i v := by
  unfold copyByte
  rw [read_natCast, h]

/-- a loop of `copyByte` -/
theorem copyBytes_eq {input out : Bytes} {n : ℕ} (hin : n ≤ input.length) (hout : n ≤ out.length) :
    forRange (copyByte input) n out = some (input.take n ++ out.drop n) :=
  forRange_copy hin hout fun _ s _ hv => copyByte_eq hv s

/-- the size that a helper takes is the smaller one -/
theorem size_eq_min (outSize inSize : ℕ) :
    (if inSize > outSize then outSize else inSize) = min outSize inSize := by
  split <;> omega

theorem copiesTruncated (out input : Bytes) (hint : (out.length : ℤ) ≤ intMax) :
    CopiesTruncated out input := by
  have hcast : (asInt (min out.length input.length : ℕ)).toNat = min out.length input.length :=
    asInt_toNat (by omega)
  unfold CopiesTruncated asciitou8
  dsimp only
  rw [size_eq_min, hcast, copyBytes_eq (by omega) (by omega), take_drop_min]
  rfl

/-! ## the terminating NUL -/

theorem truncated_of_room {text out : Bytes} (h : text.length ≤ out.length) :
    truncated text out = text ++ out.drop text.length := by
  unfold truncated
  rw [List.take_of_length_le h]

/-- the bytes before the NUL are copied -/
theorem terminated_written {out input : Bytes} {k : ℕ}
    (hk : k + 1 = min out.length (input.length + 1)) :
    write (input.take k ++ out.drop k) k 0 = some (truncated (terminated input out.length) out) := by
  have hlen : (input.take k).length = k := List.length_take_of_le (by omega)
  have hdrop : out.drop k = out[k] :: out.drop (k + 1) := List.drop_eq_getElem_cons (by omega)
  have hfront : input.take (out.length - 1) = input.take k := by
    rcases Nat.lt_or_ge input.length out.length with hlt | hge
    · rw [List.take_of_length_le (show input.length ≤ out.length - 1 by omega),
        List.take_of_length_le (show input.length ≤ k by omega)]
    · rw [show out.length - 1 = k by omega]
  have htext : terminated input out.length = input.take k ++ [0] := by
    unfold terminated
    rw [hfront]
  have htextlen : (input.take k ++ [0]).length = k + 1 := by
    rw [List.length_append, hlen]
    rfl
  have hwrite := write_append (input.take k) (out.drop (k + 1)) out[k] 0
  rw [hlen] at hwrite
  rw [hdrop, hwrite, htext, truncated_of_room (by omega), htextlen, List.append_assoc]
  rfl

theorem u8toascii_eq {out input : Bytes} (hint : (out.length : ℤ) ≤ intMax) (hroom : out ≠ [])
    (hsize : input.length + 1 < 2 ^ 64) : TerminatesTruncated out input := by
  have hpos := List.length_pos_iff.mpr hroom
  have hbrs : asSize ((input.length : ℤ) + 1) = input.length + 1 := asSize_of_lt hsize
  obtain ⟨k, hk⟩ : ∃ k, k + 1 = min out.length (input.length + 1) :=
    ⟨min out.length (input.length + 1) - 1, by omega⟩
  have hlast : asSize (((k + 1 : ℕ) : ℤ) - 1) = k := by
    rw [Nat.cast_succ, Int.add_sub_cancel]
    exact asSize_of_lt (by omega)
  have hcast : (asInt k).toNat = k := asInt_toNat (by omega)
  unfold TerminatesTruncated u8toascii
  dsimp only
  rw [hbrs, size_eq_min, ← hk, hlast, hcast, copyBytes_eq (by omega) (by omega), Option.bind_some,
    terminated_written hk]
  rfl

/-- with a size of zero the NUL goes to `out[SIZE_MAX]` -/
theorem u8toascii_none {out input : Bytes} (hint : (out.length : ℤ) ≤ intMax)
    (hzero : min out.length (asSize ((input.length : ℤ) + 1)) = 0) :
    u8toascii out out.length input input.length = none := by
  have hlast : asSize (((0 : ℕ) : ℤ) - 1) = 2 ^ 64 - 1 := rfl
  have hturns : (asInt ((2 ^ 64 - 1 : ℕ) : ℤ)).toNat = 0 := by decide
  have hloop : forRange (copyByte input) 0 out = some out := rfl
  have hbound : (out.length : ℤ) ≤ 2 ^ 31 - 1 := hint
  have hwrite : write out ((2 ^ 64 - 1 : ℕ) : ℤ) 0 = none := if_neg (by omega)
  unfold u8toascii
  dsimp only
  rw [size_eq_min, hzero, hlast, hturns, hloop, Option.bind_some, hwrite, Option.map_none]

theorem terminatesTruncated_iff (out input : Bytes) (hint : (out.length : ℤ) ≤ intMax)
    (hsize : input.length < 2 ^ 64) :
    TerminatesTruncated out input ↔ out ≠ [] ∧ input.length ≠ 2 ^ 64 - 1 := by
  constructor
  · intro h
    by_contra hno
    have hzero : min out.length (asSize ((input.length : ℤ) + 1)) = 0 := by
      by_cases hnil : out = []
      · rw [hnil]
        exact Nat.zero_min _
      · have hmax : input.length = 2 ^ 64 - 1 := by
          by_contra hne
          exact hno ⟨hnil, hne⟩
        have hwrap : asSize (((2 ^ 64 - 1 : ℕ) : ℤ) + 1) = 0 := rfl
        rw [hmax, hwrap, Nat.min_zero]
    unfold TerminatesTruncated at h
    rw [u8toascii_none hint hzero] at h
    cases h
  · rintro ⟨hroom, hmax⟩
    exact u8toascii_eq hint hroom (by omega)

/-! ## two digits for each byte -/

theorem u8toc_inside {out t : Bytes} {high low : ℤ} {b : UInt8} (h : u8toc out high low b = some t) :
    high < out.length ∧ t.length = out.length := by
  have hlow : putNibble out low (highNibble b) = write out low (digitChar (highNibble b)) :=
    putNibble_eq out low (b >>> 4)
  unfold u8toc at h
  rw [hlow] at h
  cases hmid : write out low (digitChar (highNibble b)) with
  | none =>
    rw [hmid] at h
    cases h
  | some mid =>
    rw [hmid] at h
    dsimp only at h
    rw [putNibble_eq] at h
    obtain ⟨-, hlen⟩ := write_inside hmid
    obtain ⟨hhigh, hlen'⟩ := write_inside h
    rw [hlen] at hhigh hlen'
    exact ⟨hhigh, hlen'⟩

theorem printByte_inside {input out t : Bytes} {i : ℕ} (h : printByte input i out = some t) :
    2 * i + 1 < out.length ∧ t.length = out.length := by
  unfold printByte at h
  cases hread : read input i with
  | none =>
    rw [hread] at h
    cases h
  | some b =>
    rw [hread] at h
    obtain ⟨hhigh, hlen⟩ := u8toc_inside h
    exact ⟨by omega, hlen⟩

theorem u8nprints_room {out input t : Bytes} (hint : (out.length : ℤ) ≤ intMax)
    (h : u8nprints out out.length input input.length = some t) :
    out = [] ∨ 2 * input.length ≤ out.length := by
  by_contra hno
  obtain ⟨hne, hroom⟩ := not_or.mp hno
  have hpos := List.length_pos_iff.mpr hne
  have hcast : (asInt (min out.length input.length : ℕ)).toNat = min out.length input.length :=
    asInt_toNat (by omega)
  unfold u8nprints at h
  dsimp only at h
  rw [size_eq_min, hcast] at h
  -- the turn whose second digit is the first one behind the end
  have hk : out.length / 2 < min out.length input.length := by omega
  obtain ⟨u, u', hu, hturn⟩ := forRange_reaches (fun u : Bytes => u.length = out.length) rfl
    (fun i s t hs ht => (printByte_inside ht).2.trans hs) h hk
  have hinside := (printByte_inside hturn).1
  omega

theorem printsTruncated_iff (out input : Bytes) (hint : (out.length : ℤ) ≤ intMax) :
    PrintsTruncated out input ↔ out = [] ∨ 2 * input.length ≤ out.length := by
  constructor
  · exact u8nprints_room hint
  · rintro (rfl | hroom)
    · unfold PrintsTruncated u8nprints truncated
      dsimp only
      rw [size_eq_min, List.length_nil, Nat.zero_min, List.take_zero, List.drop_nil]
      rfl
    · have hprint := @u8nprints_eq out input out.length hroom (by omega) (by omega)
      have hlen := hexChars_length input
      unfold PrintsTruncated
      rw [hprint, truncated_of_room (by omega), hlen]

/-! ## the three helpers -/

/-- **When the helpers respect the size of their output**: `u8nprints` if it is zero or there is
room for two digits of every byte, `u8toascii` if it is not zero and `in_num + 1` does not wrap
around, `asciitou8` always. -/
theorem respects_capacity_iff (out input : Bytes) (hint : (out.length : ℤ) ≤ intMax)
    (hsize : input.length < 2 ^ 64) :
    (PrintsTruncated out input ↔ out = [] ∨ 2 * input.length ≤ out.length) ∧
    (TerminatesTruncated out input ↔ out ≠ [] ∧ input.length ≠ 2 ^ 64 - 1) ∧
    CopiesTruncated out input :=
  ⟨printsTruncated_iff out input hint, terminatesTruncated_iff out input hint hsize,
    copiesTruncated out input hint⟩

/-- two bytes as four digits -/
theorem respects_capacity_four :
    PrintsTruncated [0, 0, 0, 0] [0x5A, 0x74] ∧ TerminatesTruncated [0, 0, 0, 0] [0x5A, 0x74] ∧
      CopiesTruncated [0, 0, 0, 0] [0x5A, 0x74] := by
  obtain ⟨hprint, hterminate, hcopy⟩ :=
    respects_capacity_iff [0, 0, 0, 0] [0x5A, 0x74] (by decide) (by decide)
  exact ⟨hprint.mpr (Or.inr (by decide)), hterminate.mpr (by decide), hcopy⟩

/-- one byte and room for one character: the second digit is written to `out[1]` -/
theorem capacity_not_respected :
    ¬ ∀ out input : Bytes, (out.length : ℤ) ≤ intMax → input.length < 2 ^ 64 →
      PrintsTruncated out input ∧ TerminatesTruncated out input ∧ CopiesTruncated out input := by
  intro h
  obtain ⟨hprint, -, -⟩ := h [0] [0x5A] (by decide) (by decide)
  revert hprint
  unfold PrintsTruncated
  decide

end Common
end Zmqpp
