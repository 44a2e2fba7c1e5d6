import Mathlib.Data.Rat.Floor
import UiBinding.Proofs.RoundTrip

namespace UiBinding.Binary64

/-- The rational number that the bits of a finite number stand for: its sign, the fraction below
the hidden bit, and the biased exponent above it. -/
def toRat (x : Binary64) : ℚ :=
  (if x.negative then -1 else 1) *
    if x.magnitude / hidden = 0 then (x.magnitude : ℚ) * 2 ^ (-1074 : ℤ)
    else ((hidden + x.magnitude % hidden : ℕ) : ℚ) * 2 ^ ((x.magnitude / hidden : ℕ) - 1075 : ℤ)

theorem one_cast_pos : (0 : ℚ) < one := Nat.cast_pos.2 one_pos

theorem one_cast : (one : ℚ) = 2 ^ (1074 : ℤ) := by
  obtain ⟨i, hi⟩ : ∃ i, i = 1074 := ⟨_, rfl⟩
  have hint : (1074 : ℤ) = (i : ℕ) := by omega
  rw [one_eq hi, hint, zpow_natCast, Nat.cast_pow, Nat.cast_ofNat]

theorem toRat_eq (x : Binary64) : x.toRat = x.signedUnits / one := by
  have hunits : (if x.magnitude / hidden = 0 then (x.magnitude : ℚ) * 2 ^ (-1074 : ℤ)
      else ((hidden + x.magnitude % hidden : ℕ) : ℚ) *
        2 ^ ((x.magnitude / hidden : ℕ) - 1075 : ℤ)) = x.units / one := by
    rw [one_cast, units]
    by_cases he : x.magnitude / hidden = 0
    · rw [if_pos he, if_pos he, zpow_neg, div_eq_mul_inv]
    · have hexp : ((x.magnitude / hidden : ℕ) : ℤ) - 1075 =
          ((x.magnitude / hidden - 1 : ℕ) : ℤ) - 1074 := by
        generalize x.magnitude / hidden = e at he
        omega
      rw [if_neg he, if_neg he, hexp, zpow_sub₀ two_ne_zero, zpow_natCast, Nat.shiftLeft_eq,
        Nat.cast_mul, Nat.cast_pow, Nat.cast_ofNat, mul_div_assoc]
  rw [toRat, hunits, signedUnits]
  cases x.negative <;> simp [neg_div]

theorem toRat_eq_ite (x : Binary64) :
    x.toRat = if x.negative then -(x.units / one : ℚ) else x.units / one := by
  rw [toRat_eq, signedUnits]
  cases x.negative <;> simp [neg_div]

theorem abs_toRat (x : Binary64) : |x.toRat| = x.units / one := by
  rw [toRat_eq, abs_div, Nat.abs_cast, ← Int.cast_abs, Int.abs_eq_natAbs, natAbs_signedUnits,
    Int.cast_natCast]

def signed (x : Binary64) (v : ℤ) : ℚ := if x.negative then -(v / one : ℚ) else v / one

theorem toRat_eq_signed (x : Binary64) : x.toRat = x.signed x.units := by
  rw [toRat_eq_ite, signed, Int.cast_natCast]

theorem abs_signed_sub (x : Binary64) (u v : ℤ) :
    |x.signed u - x.signed v| = (u - v).natAbs / one := by
  have hdist : |(u / one : ℚ) - v / one| = (u - v).natAbs / one := by
    rw [← sub_div, abs_div, Nat.abs_cast, Nat.cast_natAbs, Int.cast_abs, Int.cast_sub]
  rw [← hdist]
  cases hx : x.negative
  · simp only [signed, hx, Bool.false_eq_true, if_false]
  · simp only [signed, hx, if_true]
    rw [neg_sub_neg, abs_sub_comm]

theorem toRat_eq_intCast_iff {x : Binary64} {n : ℤ} : x.toRat = n ↔ x.signedUnits = n * one := by
  rw [toRat_eq, div_eq_iff one_cast_pos.ne']
  exact_mod_cast Iff.rfl

theorem toRat_le_intCast_iff {x : Binary64} {n : ℤ} : x.toRat ≤ n ↔ x.signedUnits ≤ n * one := by
  rw [toRat_eq, div_le_iff₀ one_cast_pos]
  exact_mod_cast Iff.rfl

theorem intCast_le_toRat_iff {x : Binary64} {n : ℤ} : n ≤ x.toRat ↔ n * one ≤ x.signedUnits := by
  rw [toRat_eq, le_div_iff₀ one_cast_pos]
  exact_mod_cast Iff.rfl

theorem units_lt {x y : Binary64} (h : x.magnitude < y.magnitude) : x.units < y.units := by
  obtain ⟨e, q, hm, hq, he⟩ := exists_significand x
  obtain ⟨e', q', hm', hq', he'⟩ := exists_significand y
  rw [units_of_magnitude hm hq he, units_of_magnitude hm' hq' he']
  rw [hm, hm'] at h
  rcases Nat.lt_trichotomy e e' with hlt | rfl | hgt
  · calc q * 2 ^ e
      _ < 2 * hidden * 2 ^ e := Nat.mul_lt_mul_of_pos_right hq (Nat.two_pow_pos e)
      _ = hidden * 2 ^ (e + 1) := by ring
      _ ≤ q' * 2 ^ e' := Nat.mul_le_mul (by omega) (Nat.pow_le_pow_right (by decide) hlt)
  · exact Nat.mul_lt_mul_of_pos_right (by omega) (Nat.two_pow_pos e)
  · rw [hidden] at *
    omega

theorem units_le {x y : Binary64} (h : x.magnitude ≤ y.magnitude) : x.units ≤ y.units := by
  rcases Nat.lt_or_eq_of_le h with hlt | heq
  · exact Nat.le_of_lt (units_lt hlt)
  · rw [units, units, heq]

theorem units_eq_zero {x : Binary64} (h : x.magnitude = 0) : x.units = 0 := by
  rw [units, h, Nat.zero_div, if_pos rfl]

theorem toRat_le {x y : Binary64} (h : x.le y = true) : x.toRat ≤ y.toRat := by
  have hrank : x.rank ≤ y.rank := by
    rw [le, Bool.and_eq_true_iff] at h
    simpa using h.2
  have hunits : x.signedUnits ≤ y.signedUnits := by
    rw [rank, rank] at hrank
    rw [signedUnits, signedUnits]
    cases hx : x.negative <;> cases hy : y.negative <;>
      simp only [hx, hy, Bool.false_eq_true, if_false, if_true] at hrank ⊢
    · exact Int.ofNat_le.2 (units_le (by omega))
    · rw [units_eq_zero (x := x) (by omega), units_eq_zero (x := y) (by omega)]
      exact Int.le_refl _
    · omega
    · have := units_le (x := y) (y := x) (by omega)
      omega
  rw [toRat_eq, toRat_eq, div_le_div_iff_of_pos_right one_cast_pos]
  exact_mod_cast hunits

end UiBinding.Binary64
