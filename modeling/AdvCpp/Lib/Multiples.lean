import Mathlib.Algebra.Order.Floor.Div
import Mathlib.Order.Bounds.Basic
import Mathlib.Tactic.Common

/-!
# Rounding up to a multiple

* `isLeast_ceilDiv_mul` — the least multiple of `a` that is not below `n`.
* `isLeast_lt_iff` — when it is below a bound that is a multiple as well.
* `mod_ceilDiv_mul` — what arithmetic modulo that bound computes.
* `isPowerOfTwo_dvd` — a power of two divides those that are not below it.
-/

namespace AdvCpp.Lib

/-- The multiples of `a` from `n` on. -/
def multiplesFrom (a n : Nat) : Set Nat := {m | a ∣ m ∧ n ≤ m}

variable {a n r M : Nat}

theorem isLeast_ceilDiv_mul (ha : 0 < a) (n : Nat) : IsLeast (multiplesFrom a n) (n ⌈/⌉ a * a) := by
  constructor
  · refine ⟨Nat.dvd_mul_left _ _, ?_⟩
    rw [Nat.mul_comm]
    exact (ceilDiv_le_iff_le_mul ha).1 le_rfl
  · rintro m ⟨⟨k, rfl⟩, hk⟩
    rw [Nat.mul_comm a k]
    exact Nat.mul_le_mul_right a ((ceilDiv_le_iff_le_mul ha).2 hk)

/-- A multiple less than `a` above `n`. -/
theorem isLeast_of_lt (hle : n ≤ r) (hdvd : a ∣ r) (hlt : r < n + a) :
    IsLeast (multiplesFrom a n) r := by
  refine ⟨⟨hdvd, hle⟩, ?_⟩
  rintro m ⟨hm, hnm⟩
  by_contra hmr
  -- two multiples are at least `a` apart
  have hgap : a ≤ r - m := Nat.le_of_dvd (by omega) (Nat.dvd_sub hdvd hm)
  omega

/-- **Below a multiple `M`** there is room for the result. -/
theorem isLeast_lt_iff (h : IsLeast (multiplesFrom a n) r) (ha : 0 < a) (hM : a ∣ M)
    (hpos : 0 < M) : r < M ↔ n ≤ M - a := by
  have haM : a ≤ M := Nat.le_of_dvd hpos hM
  obtain ⟨⟨hdvd, hle⟩, hleast⟩ := h
  constructor
  · intro hlt
    have hgap : a ≤ M - r := Nat.le_of_dvd (by omega) (Nat.dvd_sub hM hdvd)
    omega
  · intro hn
    have hr : r ≤ M - a := hleast ⟨Nat.dvd_sub hM (Nat.dvd_refl a), hn⟩
    omega

/-- **Where the sum wraps, the result is zero.** -/
theorem mod_ceilDiv_mul (ha : 0 < a) (hM : a ∣ M) (hn : n < M) :
    (n + a - 1) % M / a * a = if n ≤ M - a then n ⌈/⌉ a * a else 0 := by
  have haM : a ≤ M := Nat.le_of_dvd (by omega) hM
  rw [Nat.ceilDiv_eq_add_pred_div]
  split
  · rw [Nat.mod_eq_of_lt (by omega)]
  · have hwrap : (n + a - 1) % M = n + a - 1 - M := by
      rw [Nat.mod_eq_sub_mod (by omega), Nat.mod_eq_of_lt (by omega)]
    rw [hwrap, Nat.div_eq_of_lt (by omega), Nat.zero_mul]

/-- Powers of two divide each other. -/
theorem isPowerOfTwo_dvd {k : Nat} (ha : a.isPowerOfTwo) (hle : a ≤ 2 ^ k) : a ∣ 2 ^ k := by
  obtain ⟨j, rfl⟩ := ha
  exact Nat.pow_dvd_pow 2 ((Nat.pow_le_pow_iff_right (by decide)).1 hle)

end AdvCpp.Lib
