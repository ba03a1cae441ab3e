import Mathlib.Tactic

/-!
# Handles that are passed from owner to owner

`own x` is the handle that the owner `x` has, if it has one.

* `transfer`          the handle of `src` goes to `dst`, whatever `dst` had before;
* `Exclusive`         no handle has two owners;
* `Held`              a handle has an owner;
* `held_transfer`     a transfer to an owner without a handle loses none;
* `lost_of_transfer`  a transfer to an owner with a handle loses it, also one to itself;
* `exchange`          two owners swap what they have;
* `Owned`             no handle has two owners, and those that have one are the live ones.
-/

namespace Lib
namespace Handles
variable {ι κ : Type*} [DecidableEq ι]

def transfer (own : ι → Option κ) (dst src : ι) : ι → Option κ :=
  Function.update (Function.update own dst (own src)) src none

def Exclusive (own : ι → Option κ) : Prop :=
  ∀ ⦃x y : ι⦄ ⦃c : κ⦄, own x = some c → own y = some c → x = y

def Held (own : ι → Option κ) (c : κ) : Prop := ∃ x, own x = some c

theorem transfer_src (own : ι → Option κ) (dst src : ι) : transfer own dst src src = none := by
  unfold transfer
  rw [Function.update_self]

theorem transfer_dst (own : ι → Option κ) {dst src : ι} (h : dst ≠ src) :
    transfer own dst src dst = own src := by
  unfold transfer
  rw [Function.update_of_ne h, Function.update_self]

theorem transfer_other (own : ι → Option κ) {dst src x : ι} (hd : x ≠ dst) (hs : x ≠ src) :
    transfer own dst src x = own x := by
  unfold transfer
  rw [Function.update_of_ne hs, Function.update_of_ne hd]

/-- who owns a handle after a transfer -/
theorem transfer_cases {own : ι → Option κ} {dst src x : ι} {c : κ}
    (h : transfer own dst src x = some c) :
    x ≠ src ∧ ((x = dst ∧ own src = some c) ∨ (x ≠ dst ∧ own x = some c)) := by
  by_cases hs : x = src
  · rw [hs, transfer_src] at h
    cases h
  · refine ⟨hs, ?_⟩
    by_cases hd : x = dst
    · subst hd
      rw [transfer_dst own hs] at h
      exact Or.inl ⟨rfl, h⟩
    · rw [transfer_other own hd hs] at h
      exact Or.inr ⟨hd, h⟩

theorem Exclusive.transfer {own : ι → Option κ} (h : Exclusive own) (dst src : ι) :
    Exclusive (transfer own dst src) := by
  intro x y c hx hy
  obtain ⟨hxs, hx⟩ := transfer_cases hx
  obtain ⟨hys, hy⟩ := transfer_cases hy
  rcases hx with ⟨hxd, hx⟩ | ⟨-, hx⟩
  · rcases hy with ⟨hyd, -⟩ | ⟨-, hy⟩
    · rw [hxd, hyd]
    · exact absurd (h hy hx) hys
  · rcases hy with ⟨-, hy⟩ | ⟨-, hy⟩
    · exact absurd (h hx hy) hxs
    · exact h hx hy

theorem Exclusive.release {own : ι → Option κ} (h : Exclusive own) (x : ι) :
    Exclusive (Function.update own x none) := by
  intro y z c hy hz
  rw [Function.update_apply] at hy hz
  split at hy
  · cases hy
  · split at hz
    · cases hz
    · exact h hy hz

/-- a handle that nobody has -/
theorem Exclusive.acquire {own : ι → Option κ} (h : Exclusive own) (x : ι) {c : κ}
    (hc : ¬ Held own c) : Exclusive (Function.update own x (some c)) := by
  intro y z d hy hz
  rw [Function.update_apply] at hy hz
  split at hy
  · rename_i hyx
    split at hz
    · rename_i hzx
      rw [hyx, hzx]
    · rw [Option.some.inj hy] at hc
      exact absurd ⟨z, hz⟩ hc
  · split at hz
    · rw [Option.some.inj hz] at hc
      exact absurd ⟨y, hy⟩ hc
    · exact h hy hz

theorem held_of_transfer {own : ι → Option κ} {dst src : ι} {c : κ}
    (h : Held (transfer own dst src) c) : Held own c := by
  obtain ⟨x, hx⟩ := h
  rcases (transfer_cases hx).2 with ⟨-, hx⟩ | ⟨-, hx⟩
  · exact ⟨src, hx⟩
  · exact ⟨x, hx⟩

theorem held_transfer {own : ι → Option κ} {dst src : ι} (hd : own dst = none) (c : κ) :
    Held (transfer own dst src) c ↔ Held own c := by
  constructor
  · exact held_of_transfer
  · intro h
    obtain ⟨x, hx⟩ := h
    have hxd : x ≠ dst := by
      intro hxd
      rw [hxd, hd] at hx
      cases hx
    by_cases hxs : x = src
    · subst hxs
      refine ⟨dst, ?_⟩
      rw [transfer_dst own hxd.symm, hx]
    · refine ⟨x, ?_⟩
      rw [transfer_other own hxd hxs, hx]

/-- **An overwritten handle is lost.** -/
theorem lost_of_transfer {own : ι → Option κ} (h : Exclusive own) {dst : ι} {c : κ}
    (hd : own dst = some c) (src : ι) : ¬ Held (transfer own dst src) c := by
  intro hheld
  obtain ⟨x, hx⟩ := hheld
  obtain ⟨hxs, hx⟩ := transfer_cases hx
  rcases hx with ⟨hxd, hx⟩ | ⟨hxd, hx⟩
  · exact hxs (hxd.trans (h hd hx))
  · exact hxd (h hx hd)

theorem held_release {own : ι → Option κ} (h : Exclusive own) (x : ι) (c : κ) :
    Held (Function.update own x none) c ↔ Held own c ∧ own x ≠ some c := by
  constructor
  · intro hheld
    obtain ⟨y, hy⟩ := hheld
    rw [Function.update_apply] at hy
    split at hy
    · cases hy
    · rename_i hyx
      exact ⟨⟨y, hy⟩, fun hx => hyx (h hy hx)⟩
  · intro hheld
    obtain ⟨⟨y, hy⟩, hx⟩ := hheld
    refine ⟨y, ?_⟩
    rw [Function.update_of_ne, hy]
    intro hyx
    rw [hyx] at hy
    exact hx hy

/-- an owner without a handle gets one -/
theorem held_acquire {own : ι → Option κ} {x : ι} (hx : own x = none) (c d : κ) :
    Held (Function.update own x (some c)) d ↔ Held own d ∨ d = c := by
  constructor
  · intro hheld
    obtain ⟨y, hy⟩ := hheld
    rw [Function.update_apply] at hy
    split at hy
    · exact Or.inr (Option.some.inj hy).symm
    · exact Or.inl ⟨y, hy⟩
  · intro hd
    rcases hd with ⟨y, hy⟩ | hd
    · refine ⟨y, ?_⟩
      rw [Function.update_of_ne, hy]
      intro hyx
      rw [hyx, hx] at hy
      cases hy
    · subst hd
      refine ⟨x, ?_⟩
      rw [Function.update_self]

/-! ## owners that swap -/

def exchange (own : ι → Option κ) (x y : ι) : ι → Option κ := fun z => own (Equiv.swap x y z)

theorem Exclusive.exchange {own : ι → Option κ} (h : Exclusive own) (x y : ι) :
    Exclusive (exchange own x y) :=
  fun _ _ _ ha hb => (Equiv.swap x y).injective (h ha hb)

theorem held_exchange (own : ι → Option κ) (x y : ι) (c : κ) :
    Held (exchange own x y) c ↔ Held own c :=
  (Equiv.swap x y).exists_congr_left.trans (exists_congr fun z => by
    unfold exchange
    rw [Equiv.apply_symm_apply])

theorem exchange_eq (own : ι → Option κ) (x y : ι) :
    exchange own x y = Function.update (Function.update own x (own y)) y (own x) := by
  funext z
  unfold exchange
  rw [Equiv.swap_apply_def, Function.update_apply, Function.update_apply]
  split
  · rename_i hzx
    subst hzx
    split
    · rename_i hzy
      rw [hzy]
    · rfl
  · split <;> rfl

/-! ## owners of what is live -/

structure Owned (own : ι → Option κ) (live : κ → Prop) : Prop where
  exclusive : Exclusive own
  held_iff : ∀ c, Held own c ↔ live c

namespace Owned

variable {own : ι → Option κ} {live : κ → Prop}

omit [DecidableEq ι] in
theorem init : Owned (fun _ : ι => (none : Option κ)) (fun _ => False) where
  exclusive _ _ _ hx _ := by cases hx
  held_iff c := by simp [Held]

theorem acquire (h : Owned own live) {x : ι} (hx : own x = none) {c : κ} (hc : ¬ live c) :
    Owned (Function.update own x (some c)) (fun d => live d ∨ d = c) where
  exclusive := h.exclusive.acquire x fun hheld => hc ((h.held_iff c).mp hheld)
  held_iff d := by rw [held_acquire hx, h.held_iff]

theorem release (h : Owned own live) {x : ι} {c : κ} (hx : own x = some c) :
    Owned (Function.update own x none) (fun d => live d ∧ d ≠ c) where
  exclusive := h.exclusive.release x
  held_iff d := by
    rw [held_release h.exclusive, h.held_iff, hx]
    simp [eq_comm]

theorem release_none (h : Owned own live) {x : ι} (hx : own x = none) :
    Owned (Function.update own x none) live := by
  rwa [← hx, Function.update_eq_self]

theorem transfer (h : Owned own live) {dst : ι} (hd : own dst = none) (src : ι) :
    Owned (Lib.Handles.transfer own dst src) live where
  exclusive := h.exclusive.transfer dst src
  held_iff c := (held_transfer hd c).trans (h.held_iff c)

theorem exchange (h : Owned own live) (x y : ι) : Owned (Lib.Handles.exchange own x y) live where
  exclusive := h.exclusive.exchange x y
  held_iff c := (held_exchange own x y c).trans (h.held_iff c)

end Owned
end Handles
end Lib
