import ZmqppPty.Lib.Lines
import ZmqppPty.Z85.Codec
import Mathlib.Data.List.TakeWhile

/-!
# Z85 strings of C++ and of C

`z85.cpp` sizes its buffers by the length of a `std::string`, libzmq goes by the first NUL.

* `encode`, `decode`       the two functions of z85.cpp, on top of a `Codec`;
* `encode_eq`, `decode_eq`   what they do to a block that has an encoding, and to the encoding;
* `accepts_faithful_iff`   when a string that is accepted is encoded back to itself;
* `encodes_faithfully_iff`   when a block is decoded back to itself.
-/

namespace Zmqpp
namespace Z85

/-- the string at an address: what stands before the first NUL -/
def textAt (memory : Bytes) : Bytes := memory.takeWhile fun c => c ≠ 0

theorem textAt_noNul (memory : Bytes) : 0 ∉ textAt memory := by
  intro h
  unfold textAt at h
  have hne := List.mem_takeWhile_imp h
  exact absurd hne (by decide)

theorem textAt_c_str {s : Bytes} (h : 0 ∉ s) : textAt (s ++ [0]) = s := (Lib.Lines.span_ne h []).1

section
variable (codec : Codec)

/-- `z85::encode`; there is no outcome if libzmq writes past the end of `storage` -/
def encode (d : Bytes) : Option (Except Exn Bytes) :=
  let storage := d.length * 5 % 2 ^ 64 / 4 + 1
  match codec.encode d with
  | none => some (.error (.z85 "Failed to encode to z85"))
  | some s =>
    -- the string ends in `storage`, with the NUL that libzmq has written
    if s.length + 1 ≤ storage then some (.ok (textAt (s ++ [0]))) else none

/-- the size of the vector that `z85::decode` returns -/
def destSize (s : Bytes) : ℕ := s.length * 4 % 2 ^ 64 / 5

/-- `z85::decode`; `nullBegin`: `&dest[0]` is a null pointer if there is nothing in `dest` -/
def decode (nullBegin : Bool) (s : Bytes) : Option (Except Exn Bytes) :=
  let dest := List.replicate (destSize s) 0
  match codec.decode (textAt (s ++ [0])) with
  | none => some (.error (.z85 "Failed to decode from z85"))
  | some d =>
    if d.length ≤ dest.length then
      -- what libzmq returns on success is the address of the buffer
      if nullBegin ∧ dest.length = 0 then some (.error (.z85 "Failed to decode from z85"))
      else some (.ok (d ++ dest.drop d.length))
    else none

def Throws (outcome : Option (Except Exn Bytes)) : Prop :=
  ∃ what, outcome = some (.error (.z85 what))

/-- `z85::decode` throws, or returns what is encoded as the string -/
def AcceptsFaithful (nullBegin : Bool) (s : Bytes) : Prop :=
  Throws (decode codec nullBegin s) ∨
    ∃ v, decode codec nullBegin s = some (.ok v) ∧ encode codec v = some (.ok s)

/-- `z85::encode` throws exactly if the size is wrong, or returns what is decoded to the block -/
def EncodesFaithfully (nullBegin : Bool) (d : Bytes) : Prop :=
  (Throws (encode codec d) ↔ d.length % 4 ≠ 0) ∧
    (Throws (encode codec d) ∨
      ∃ s, encode codec d = some (.ok s) ∧ decode codec nullBegin s = some (.ok d))

end

variable {codec : Codec} {nullBegin : Bool}

/-! ## the two calls -/

theorem encode_eq {d s : Bytes} (h : codec.encode d = some s) :
    encode codec d = if 5 * d.length < 2 ^ 64 then some (.ok s) else none := by
  have hlength := codec.length d s h
  unfold encode
  rw [h]
  dsimp only
  rw [textAt_c_str (codec.noNul d s h)]
  apply if_congr _ rfl rfl
  omega

theorem throws_encode {d : Bytes} (h : codec.encode d = none) : Throws (encode codec d) := by
  unfold encode
  rw [h]
  exact ⟨_, rfl⟩

/-- a string that is returned is the encoding -/
theorem codec_of_encode {d s : Bytes} (h : encode codec d = some (.ok s)) :
    codec.encode d = some s := by
  cases hd : codec.encode d with
  | none =>
    obtain ⟨what, hwhat⟩ := throws_encode hd
    rw [hwhat] at h
    cases h
  | some t =>
    rw [encode_eq hd] at h
    split at h
    · cases h
      rfl
    · cases h

theorem throws_decode {s : Bytes} (h : codec.decode (textAt (s ++ [0])) = none) :
    Throws (decode codec nullBegin s) := by
  unfold decode
  rw [h]
  exact ⟨_, rfl⟩

theorem decode_eq {s d : Bytes} (h : codec.decode (textAt (s ++ [0])) = some d) :
    decode codec nullBegin s =
      if d.length ≤ destSize s then
        if nullBegin ∧ destSize s = 0 then some (.error (.z85 "Failed to decode from z85"))
        else some (.ok (d ++ List.replicate (destSize s - d.length) 0))
      else none := by
  unfold decode
  rw [h]
  dsimp only
  rw [List.length_replicate, List.drop_replicate]

/-- the encoding of a block is decoded to it, in a buffer of its size -/
theorem decode_encoding (nullBegin : Bool) {s d : Bytes} (h : codec.encode d = some s)
    (hfit : 4 * s.length < 2 ^ 64) :
    decode codec nullBegin s =
      if nullBegin ∧ d = [] then some (.error (.z85 "Failed to decode from z85"))
      else some (.ok d) := by
  have hlength := codec.length d s h
  have hnul := codec.noNul d s h
  have hsize : destSize s = d.length := by
    unfold destSize
    omega
  have hd : codec.decode (textAt (s ++ [0])) = some d := by
    rw [textAt_c_str hnul]
    exact (codec.decodes s d hnul).mpr h
  rw [decode_eq hd, hsize, if_pos le_rfl, Nat.sub_self, List.replicate_zero, List.append_nil]
  apply if_congr _ rfl rfl
  rw [List.length_eq_zero_iff]

/-! ## strings -/

/-- what libzmq decodes is the block that the part before the first NUL encodes -/
theorem codec_of_decode {s d : Bytes} (h : codec.decode (textAt (s ++ [0])) = some d) :
    codec.encode d = some (textAt (s ++ [0])) :=
  (codec.decodes _ d (textAt_noNul _)).mp h

theorem not_encoding {s : Bytes} (h : codec.decode (textAt (s ++ [0])) = none) :
    ¬ ∃ d, codec.encode d = some (textAt (s ++ [0])) := by
  rintro ⟨d, hd⟩
  rw [(codec.decodes _ d (textAt_noNul _)).mpr hd] at h
  cases h

/-- **A string is not accepted unfaithfully** iff what stands before its first NUL is no encoding,
or this is the whole string and the size of the buffer does not wrap, or nothing is decoded into
an empty buffer. -/
theorem accepts_faithful_iff (s : Bytes) :
    AcceptsFaithful codec nullBegin s ↔
      ((∃ d, codec.encode d = some (textAt (s ++ [0]))) →
        (0 ∉ s ∧ 4 * s.length < 2 ^ 64) ∨
          (textAt (s ++ [0]) = [] ∧ destSize s = 0 ∧ nullBegin = true)) := by
  cases hd : codec.decode (textAt (s ++ [0])) with
  | none => exact ⟨fun _ h => absurd h (not_encoding hd), fun _ => Or.inl (throws_decode hd)⟩
  | some d =>
    have henc := codec_of_decode hd
    have hlength := codec.length d _ henc
    constructor
    · rintro (⟨what, hthrows⟩ | ⟨v, -, hv⟩) -
      · -- a block that fits into an empty buffer is empty
        rw [decode_eq hd] at hthrows
        split at hthrows
        · rename_i hfit
          split at hthrows
          · rename_i hnull
            have hempty : (textAt (s ++ [0])).length = 0 := by omega
            exact Or.inr ⟨List.length_eq_zero_iff.mp hempty, hnull.2, hnull.1⟩
          · cases hthrows
        · cases hthrows
      · have hs := codec_of_encode hv
        have hsize := codec.length v s hs
        rw [encode_eq hs] at hv
        split at hv
        · rename_i hfit
          exact Or.inl ⟨codec.noNul v s hs, by omega⟩
        · cases hv
    · intro h
      rcases h ⟨d, henc⟩ with ⟨hnul, hfit⟩ | ⟨hempty, hsize, hnull⟩
      · rw [textAt_c_str hnul] at henc hlength
        have hback := decode_encoding nullBegin henc hfit
        split at hback
        · exact Or.inl ⟨_, hback⟩
        · refine Or.inr ⟨d, hback, ?_⟩
          rw [encode_eq henc, if_pos (by omega)]
      · have hlen : d.length = 0 := by
          rw [hempty, List.length_nil] at hlength
          omega
        left
        rw [decode_eq hd, hlen, if_pos (Nat.zero_le _), if_pos ⟨hnull, hsize⟩]
        exact ⟨_, rfl⟩

/-! ## blocks -/

theorem encodes_faithfully_iff (d : Bytes) :
    EncodesFaithfully codec nullBegin d ↔
      (d.length % 4 = 0 → 5 * d.length < 2 ^ 64 ∧ (d = [] → nullBegin = false)) := by
  have hsome := codec.encodes d
  cases henc : codec.encode d with
  | none =>
    rw [henc] at hsome
    have hwrong : d.length % 4 ≠ 0 := fun h => Bool.false_ne_true (hsome.mpr h)
    have hthrows := throws_encode henc
    exact ⟨fun _ h => absurd h hwrong, fun _ => ⟨⟨fun _ => hwrong, fun _ => hthrows⟩, .inl hthrows⟩⟩
  | some s =>
    rw [henc] at hsome
    have hright : d.length % 4 = 0 := hsome.mp rfl
    have hlength := codec.length d s henc
    have hreturns : ¬ Throws (encode codec d) := by
      rintro ⟨what, hwhat⟩
      rw [encode_eq henc] at hwhat
      split at hwhat <;> cases hwhat
    constructor
    · rintro ⟨-, hthrows | ⟨s', hs', hback⟩⟩ -
      · exact absurd hthrows hreturns
      · obtain rfl : s = s' := Option.some.inj (henc.symm.trans (codec_of_encode hs'))
        rw [encode_eq henc] at hs'
        split at hs'
        · rename_i hfit
          refine ⟨hfit, fun hempty => ?_⟩
          rw [decode_encoding nullBegin henc (by omega)] at hback
          split at hback
          · cases hback
          · rename_i hnull
            exact Bool.eq_false_iff.mpr fun h => hnull ⟨h, hempty⟩
        · cases hs'
    · intro h
      obtain ⟨hfit, hnull⟩ := h hright
      refine ⟨⟨fun h => absurd h hreturns, fun h => absurd hright h⟩, Or.inr ⟨s, ?_, ?_⟩⟩
      · rw [encode_eq henc, if_pos hfit]
      · rw [decode_encoding nullBegin henc (by omega), if_neg]
        rintro ⟨htrue, hempty⟩
        rw [hnull hempty] at htrue
        cases htrue

/-- **Z85 strings and blocks are faithful to each other** as long as no NUL cuts the string short,
no size wraps and an empty buffer has an address. -/
theorem faithful_iff (codec : Codec) (nullBegin : Bool) :
    (∀ s, AcceptsFaithful codec nullBegin s ↔
      ((∃ d, codec.encode d = some (textAt (s ++ [0]))) →
        (0 ∉ s ∧ 4 * s.length < 2 ^ 64) ∨
          (textAt (s ++ [0]) = [] ∧ destSize s = 0 ∧ nullBegin = true))) ∧
    ∀ d, EncodesFaithfully codec nullBegin d ↔
      (d.length % 4 = 0 → 5 * d.length < 2 ^ 64 ∧ (d = [] → nullBegin = false)) :=
  ⟨accepts_faithful_iff, encodes_faithfully_iff⟩

def helloBlock : Bytes := [0x86, 0x4F, 0xD2, 0x6F, 0xB5, 0x59, 0xF7, 0x5B]

theorem faithful_hello :
    AcceptsFaithful z85Codec true (ascii "HelloWorld") ∧
      EncodesFaithfully z85Codec true helloBlock := by
  constructor
  · exact ((faithful_iff z85Codec true).1 _).mpr fun _ => Or.inl ⟨by decide, by decide⟩
  · exact ((faithful_iff z85Codec true).2 _).mpr fun _ => ⟨by decide, by decide⟩

/-- the string with five NULs at its end is accepted, and the block gets four bytes too many -/
theorem trailing_nuls_accepted :
    decode z85Codec true (ascii "HelloWorld" ++ [0, 0, 0, 0, 0])
        = some (.ok (helloBlock ++ [0, 0, 0, 0])) ∧
      encode z85Codec (helloBlock ++ [0, 0, 0, 0]) = some (.ok (ascii "HelloWorld00000")) ∧
      ¬ AcceptsFaithful z85Codec true (ascii "HelloWorld" ++ [0, 0, 0, 0, 0]) := by
  refine ⟨by rfl, by rfl, ?_⟩
  rw [accepts_faithful_iff]
  intro h
  rcases h ⟨helloBlock, by rfl⟩ with ⟨hnul, -⟩ | ⟨hempty, -⟩
  · exact hnul (by decide)
  · exact absurd hempty (by decide)

end Z85
end Zmqpp
