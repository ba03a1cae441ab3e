import Mathlib.Tactic

/-!
# Integers as bytes

* `bytesOf n x`          the last `n` bytes of `x` in base 256, the most significant first;
* `numberOf`             the number that a list of bytes spells;
* `numberOf_bytesOf`, `bytesOf_numberOf`   the two round trips;
* `store`, `load`        the same for an object in the memory of a host, whose bytes may stand in
                         the other order;
* `store_load`           what has been loaded is stored as it was.
-/

namespace Lib

def bytesOf : ℕ → ℕ → List UInt8
  | 0, _ => []
  | n + 1, x => bytesOf n (x / 256) ++ [UInt8.ofNat x]

def numberOf (bytes : List UInt8) : ℕ := bytes.foldl (fun x b => 256 * x + b.toNat) 0

theorem bytesOf_length (n x : ℕ) : (bytesOf n x).length = n := by
  induction n generalizing x with
  | zero => rfl
  | succ n ih =>
    show (bytesOf n (x / 256) ++ [UInt8.ofNat x]).length = n + 1
    rw [List.length_append, ih]
    rfl

theorem numberOf_concat (bytes : List UInt8) (b : UInt8) :
    numberOf (bytes ++ [b]) = 256 * numberOf bytes + b.toNat := by
  show List.foldl _ 0 (bytes ++ [b]) = _
  rw [List.foldl_append]
  rfl

theorem numberOf_lt (bytes : List UInt8) : numberOf bytes < 256 ^ bytes.length := by
  induction bytes using List.reverseRecOn with
  | nil => show 0 < 1; omega
  | append_singleton bytes b ih =>
    have hb : b.toNat < 256 := b.toNat_lt
    rw [numberOf_concat, List.length_append, List.length_singleton, pow_succ]
    omega

/-- **Writing and reading back** keeps what fits into the width. -/
theorem numberOf_bytesOf (n x : ℕ) : numberOf (bytesOf n x) = x % 256 ^ n := by
  induction n generalizing x with
  | zero =>
    show 0 = x % 1
    omega
  | succ n ih =>
    have hlast : (UInt8.ofNat x).toNat = x % 256 := rfl
    show numberOf (bytesOf n (x / 256) ++ [UInt8.ofNat x]) = _
    rw [numberOf_concat, ih, hlast, pow_succ', Nat.mod_mul]
    omega

theorem bytesOf_numberOf (bytes : List UInt8) :
    bytesOf bytes.length (numberOf bytes) = bytes := by
  induction bytes using List.reverseRecOn with
  | nil => rfl
  | append_singleton bytes b ih =>
    have hb : b.toNat < 256 := b.toNat_lt
    have hdiv : (256 * numberOf bytes + b.toNat) / 256 = numberOf bytes := by omega
    have hmod : UInt8.ofNat (256 * numberOf bytes + b.toNat) = b := by
      apply UInt8.toNat_inj.mp
      show (256 * numberOf bytes + b.toNat) % 256 = b.toNat
      omega
    rw [numberOf_concat, List.length_append, List.length_singleton]
    show bytesOf bytes.length ((256 * numberOf bytes + b.toNat) / 256) ++ _ = _
    rw [hdiv, ih, hmod]

/-! ## the memory of a host -/

/-- the bytes of an object of `n` bytes at rising addresses, on a host with the least significant
byte first or last -/
def store (littleFirst : Bool) (n x : ℕ) : List UInt8 :=
  if littleFirst then (bytesOf n x).reverse else bytesOf n x

/-- the object that these bytes are on the host -/
def load (littleFirst : Bool) (bytes : List UInt8) : ℕ :=
  if littleFirst then numberOf bytes.reverse else numberOf bytes

variable (littleFirst : Bool)

theorem store_length (n x : ℕ) : (store littleFirst n x).length = n := by
  cases littleFirst with
  | false => exact bytesOf_length n x
  | true => exact (List.length_reverse ..).trans (bytesOf_length n x)

theorem load_lt (bytes : List UInt8) : load littleFirst bytes < 256 ^ bytes.length := by
  cases littleFirst with
  | false => exact numberOf_lt bytes
  | true =>
    have h := numberOf_lt bytes.reverse
    rw [List.length_reverse] at h
    exact h

theorem store_load (bytes : List UInt8) :
    store littleFirst bytes.length (load littleFirst bytes) = bytes := by
  cases littleFirst with
  | false => exact bytesOf_numberOf bytes
  | true =>
    show (bytesOf bytes.length (numberOf bytes.reverse)).reverse = bytes
    rw [← List.length_reverse, bytesOf_numberOf, List.reverse_reverse]

end Lib
