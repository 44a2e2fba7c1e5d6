import UiBinding.Proofs.ExactValue

namespace UiBinding

namespace Binary64

def singleUnits (x : Binary64) : ℕ := x.singleSignificand * x.singleStep

theorem mul_singleUnit_cases (x : Binary64) {m : ℕ} (hm : m < 2 ^ 24) (k : ℕ) :
    (∃ c, m * 2 ^ k * singleUnit = c * x.singleStep) ∨
      m * 2 ^ k * singleUnit < 2 ^ 23 * x.singleStep ∧ 2 ^ 23 * x.singleStep ≤ x.units := by
  rcases Nat.lt_or_ge k x.singleExcess with hlt | hge
  · refine .inr ⟨?_, singleStep_le_units (by omega)⟩
    calc m * 2 ^ k * singleUnit
      _ < 2 ^ 24 * 2 ^ k * singleUnit :=
          Nat.mul_lt_mul_of_pos_right (Nat.mul_lt_mul_of_pos_right hm (Nat.two_pow_pos k))
            singleUnit_pos
      _ = 2 ^ 23 * (singleUnit * 2 ^ (k + 1)) := by ring
      _ ≤ 2 ^ 23 * x.singleStep :=
          Nat.mul_le_mul_left _ (Nat.mul_le_mul_left _ (Nat.pow_le_pow_right (by decide) hlt))
  · obtain ⟨i, rfl⟩ := Nat.exists_eq_add_of_le hge
    exact .inl ⟨m * 2 ^ i, by rw [singleStep]; ring⟩

theorem singleUnits_nearest (x : Binary64) {m k : ℕ} {w : ℤ} (hm : m < 2 ^ 24)
    (hw : w.natAbs = m * 2 ^ k * singleUnit) :
    ((x.units : ℤ) - x.singleUnits).natAbs ≤ ((x.units : ℤ) - w).natAbs ∧
      (((x.units : ℤ) - w).natAbs = ((x.units : ℤ) - x.singleUnits).natAbs →
        w ≠ x.singleUnits → x.singleSignificand % 2 = 0) := by
  have hmultiple (c : ℕ) := roundHalfEven_nearest (a := x.units) x.singleStep_pos c
  change ∀ c : ℕ, ((x.units : ℤ) - x.singleUnits).natAbs ≤ _ ∧
    (_ = ((x.units : ℤ) - x.singleUnits).natAbs → c ≠ x.singleSignificand → _) at hmultiple
  rcases lt_or_ge w 0 with hneg | hpos
  · have hzero := (hmultiple 0).1
    rw [Nat.zero_mul] at hzero
    omega
  obtain ⟨c, hc⟩ | ⟨hlt, hle⟩ := x.mul_singleUnit_cases hm k
  · obtain rfl : w = (c * x.singleStep : ℕ) := by omega
    refine ⟨(hmultiple c).1, fun htie hne => (hmultiple c).2 htie ?_⟩
    rintro rfl
    exact hne rfl
  · have hpower := (hmultiple (2 ^ 23)).1
    omega

end Binary64

/-- A finite number of single precision: 24 bits of significand, of which the first one is set
unless the exponent is the least. -/
structure SingleForm (q : ℚ) (m : ℕ) (e : ℤ) : Prop where
  significand_lt : m < 2 ^ 24
  le_exponent : -149 ≤ e
  exponent_le : e ≤ 104
  normal : e = -149 ∨ 2 ^ 23 ≤ m
  abs_eq : |q| = m * 2 ^ e

/-- `r` is the number of single precision nearest to `q`, and the one with an even significand
where another one is as near. -/
structure NearestSingle (q r : ℚ) : Prop where
  single : ∃ m e, SingleForm r m e
  nearest : ∀ p m e, SingleForm p m e → |q - r| ≤ |q - p|
  even : ∀ p m e, SingleForm p m e → |q - p| = |q - r| → p ≠ r →
    ∃ m e, SingleForm r m e ∧ m % 2 = 0

namespace Binary64

theorem one_eq_singleUnit : (one : ℚ) = singleUnit * 2 ^ (149 : ℤ) := by
  obtain ⟨n, hn⟩ : ∃ n, n = 925 := ⟨_, rfl⟩
  have hone : one = singleUnit * 2 ^ 149 := by
    rw [one_eq (n := n + 149) (by omega), singleUnit_eq hn, Nat.pow_add]
  rw [hone, Nat.cast_mul, Nat.cast_pow, Nat.cast_ofNat, zpow_ofNat]

theorem mul_zpow_eq (m k : ℕ) :
    (m * 2 ^ (k - 149 : ℤ) : ℚ) = (m * 2 ^ k * singleUnit : ℕ) / one := by
  have hunit : (singleUnit : ℚ) ≠ 0 := (Nat.cast_pos.2 singleUnit_pos).ne'
  rw [one_eq_singleUnit, zpow_sub₀ two_ne_zero, zpow_natCast, Nat.cast_mul, Nat.cast_mul,
    Nat.cast_pow, Nat.cast_ofNat, mul_comm (singleUnit : ℚ), mul_div_mul_right _ _ hunit,
    mul_div_assoc]

theorem singleForm_toRat {x : Binary64} {m k : ℕ} (hm : m < 2 ^ 24) (hk : k < 254)
    (hnormal : k = 0 ∨ 2 ^ 23 ≤ m) (hx : x.units = m * 2 ^ k * singleUnit) :
    SingleForm x.toRat m (k - 149) where
  significand_lt := hm
  le_exponent := by omega
  exponent_le := by omega
  normal := hnormal.imp_left fun h => by omega
  abs_eq := by rw [abs_toRat, hx, mul_zpow_eq]

theorem exists_signed (x : Binary64) {p : ℚ} {m : ℕ} {e : ℤ} (h : SingleForm p m e) :
    ∃ (k : ℕ) (v : ℤ), v.natAbs = m * 2 ^ k * singleUnit ∧ p = x.signed v := by
  obtain ⟨k, hk⟩ := Int.eq_ofNat_of_zero_le (by have := h.le_exponent; omega : 0 ≤ e + 149)
  have habs : |p| = (m * 2 ^ k * singleUnit : ℕ) / one := by
    rw [h.abs_eq, ← mul_zpow_eq, ← hk, add_sub_cancel_right]
  refine ⟨k, ?_⟩
  generalize m * 2 ^ k * singleUnit = n at habs ⊢
  have hsign : p = n / one ∨ p = -(n / one) := by
    rw [← habs]
    exact eq_or_eq_neg_of_abs_eq rfl
  cases hneg : x.negative <;> obtain rfl | rfl := hsign
  · exact ⟨n, Int.natAbs_natCast n, by simp [signed, hneg]⟩
  · exact ⟨-n, Int.natAbs_neg n, by simp [signed, hneg, neg_div]⟩
  · exact ⟨-n, Int.natAbs_neg n, by simp [signed, hneg, neg_div]⟩
  · exact ⟨n, Int.natAbs_natCast n, by simp [signed, hneg]⟩

theorem negative_toSingle {x : Binary64} (hf : x.isFinite = true) :
    x.toSingle.negative = x.negative := by
  rw [toSingle, if_pos hf]
  split
  · rfl
  · exact negative_ofUnits _ _ _

section Finite

variable {x : Binary64} (hf : x.isFinite = true) (hx : x.exceedsSingle = false)

include hf hx

theorem toRat_toSingle : x.toSingle.toRat = x.signed x.singleUnits := by
  have hunits : x.toSingle.units = x.singleUnits := by
    rw [(units_toSingle hf hx).2, singleUnits, singleStep]
    ring
  rw [toRat_eq_signed, signed, signed, negative_toSingle hf, hunits]

theorem exists_singleForm : ∃ m e, SingleForm x.toSingle.toRat m e ∧
    (x.singleSignificand % 2 = 0 → m % 2 = 0) := by
  obtain ⟨m, k, hm, hk, hnormal, he, heven⟩ := exists_singleSignificand hf hx
  exact ⟨m, _, singleForm_toRat hm hk hnormal (by rw [(units_toSingle hf hx).2, he]), heven⟩

theorem nearestSingle_toSingle : NearestSingle x.toRat x.toSingle.toRat := by
  obtain ⟨m, e, hform, heven⟩ := exists_singleForm hf hx
  have hdist (v : ℤ) : |x.toRat - x.signed v| = ((x.units : ℤ) - v).natAbs / one := by
    rw [toRat_eq_signed, abs_signed_sub]
  constructor
  · exact ⟨m, e, hform⟩
  · intro p m' e' hp
    obtain ⟨k, v, hv, rfl⟩ := x.exists_signed hp
    rw [toRat_toSingle hf hx, hdist, hdist, div_le_div_iff_of_pos_right one_cast_pos, Nat.cast_le]
    exact (x.singleUnits_nearest hp.significand_lt hv).1
  · intro p m' e' hp htie hne
    obtain ⟨k, v, hv, rfl⟩ := x.exists_signed hp
    rw [toRat_toSingle hf hx] at htie hne
    rw [hdist, hdist, div_left_inj' one_cast_pos.ne', Nat.cast_inj] at htie
    refine ⟨m, e, hform, heven ((x.singleUnits_nearest hp.significand_lt hv).2 htie ?_)⟩
    rintro rfl
    exact hne rfl

end Finite

theorem exceedsSingle_iff {x : Binary64} (hf : x.isFinite = true) :
    x.exceedsSingle = true ↔ (2 ^ 24 - 1) * 2 ^ 104 < |x.toRat| := by
  have hbound : ((2 ^ 24 - 1) * 2 ^ 104 : ℚ) =
      ((2 ^ 24 - 1) * (2 ^ 253 * singleUnit) : ℕ) / one := by
    have hform := mul_zpow_eq (2 ^ 24 - 1) 253
    rw [← Nat.mul_assoc, ← hform]
    norm_num
  rw [abs_toRat, hbound, div_lt_div_iff_of_pos_right one_cast_pos, Nat.cast_lt]
  cases hx : x.exceedsSingle with
  | true => exact iff_of_true rfl (lt_units_of_exceedsSingle hx)
  | false =>
      refine iff_of_false ?_ (Nat.not_lt.2 (units_le_of_not_exceedsSingle hf hx))
      exact Bool.false_ne_true

/-- What single precision makes of a number: the nearest number that it has, and an infinity from
half a step above its greatest one on. -/
structure RoundsToSingle (x r : Binary64) : Prop where
  isNaN_eq : r.isNaN = x.isNaN
  infinite_iff : r.isInfinite = true ↔
    x.isInfinite = true ∨ x.isFinite = true ∧ 2 ^ 128 - 2 ^ 103 ≤ |x.toRat|
  negative_eq : x.isNaN = false → r.negative = x.negative
  nearest : x.isFinite = true → r.isFinite = true → NearestSingle x.toRat r.toRat

/-- Above the greatest number of single precision, but less than half a step. -/
structure JustAboveSingle (x : Binary64) : Prop where
  finite : x.isFinite = true
  greatest_lt : (2 ^ 24 - 1) * 2 ^ 104 < |x.toRat|
  lt_half_step : |x.toRat| < 2 ^ 128 - 2 ^ 103

theorem roundsToSingle_of_not_finite {x : Binary64} (hf : x.isFinite = false) :
    x.RoundsToSingle x.toSingle := by
  rw [toSingle, hf, if_neg Bool.false_ne_true]
  have hnearest (r : Binary64) (h : x.isFinite = true) (_ : r.isFinite = true) :
      NearestSingle x.toRat r.toRat := by cases hf.symm.trans h
  cases hnan : x.isNaN with
  | true =>
      have hinf : x.isInfinite = false := isInfinite_of_isNaN hnan
      refine ⟨hnan.symm, iff_of_false Bool.false_ne_true ?_, fun h => ?_, hnearest _⟩
      · simp [hf, hinf]
      · cases hnan.symm.trans h
  | false => exact ⟨rfl, by simp [hf], fun _ => rfl, hnearest _⟩

theorem roundsToSingle_infinity {x : Binary64} (hf : x.isFinite = true) :
    x.RoundsToSingle { infinity with negative := x.negative } ↔
      2 ^ 128 - 2 ^ 103 ≤ |x.toRat| := by
  obtain ⟨hnan, hinf⟩ := isFinite_iff.1 hf
  constructor
  · intro h
    obtain htrue | ⟨-, hge⟩ := h.infinite_iff.1 rfl
    · cases hinf.symm.trans htrue
    · exact hge
  · intro h
    exact ⟨hnan.symm, iff_of_true rfl (.inr ⟨hf, h⟩), fun _ => rfl, nofun⟩

theorem roundsToSingle_toSingle {x : Binary64} (hf : x.isFinite = true)
    (hx : x.exceedsSingle = false) : x.RoundsToSingle x.toSingle := by
  have hle : |x.toRat| ≤ (2 ^ 24 - 1) * 2 ^ 104 := by
    rw [← not_lt, ← exceedsSingle_iff hf, hx]
    exact Bool.false_ne_true
  obtain ⟨hnan, hinf⟩ := isFinite_iff.1 hf
  obtain ⟨hnan', hinf'⟩ := isFinite_iff.1 (units_toSingle hf hx).1
  refine ⟨hnan'.trans hnan.symm, ?_, fun _ => negative_toSingle hf,
    fun _ _ => nearestSingle_toSingle hf hx⟩
  rw [hinf, hinf']
  refine iff_of_false Bool.false_ne_true ?_
  rintro (hfalse | ⟨-, hge⟩)
  · cases hfalse
  · linarith

end Binary64

/-- Stored in single precision, a number is rounded to the nearest number that single precision
has, a tie to the even significand, unless it is above the greatest of these by less than half a
step: it is infinite then already. -/
theorem unwrap_single_rounds_iff (x : Binary64) :
    ∃ r, (Value.number x).unwrap .f32 false = .ok (.float r) ∧
      (x.RoundsToSingle r ↔ ¬ x.JustAboveSingle) ∧
      (x.JustAboveSingle → r = { Binary64.infinity with negative := x.negative }) := by
  refine ⟨x.toSingle, rfl, ?_⟩
  cases hf : x.isFinite with
  | false =>
      have habove : ¬ x.JustAboveSingle := fun h => by cases hf.symm.trans h.finite
      exact ⟨iff_of_true (Binary64.roundsToSingle_of_not_finite hf) habove,
        fun h => (habove h).elim⟩
  | true =>
      cases hx : x.exceedsSingle with
      | false =>
          have habove : ¬ x.JustAboveSingle := fun h => by
            cases hx.symm.trans ((Binary64.exceedsSingle_iff hf).2 h.greatest_lt)
          exact ⟨iff_of_true (Binary64.roundsToSingle_toSingle hf hx) habove,
            fun h => (habove h).elim⟩
      | true =>
          have hinf : x.toSingle = { Binary64.infinity with negative := x.negative } := by
            rw [Binary64.toSingle, if_pos hf, if_pos hx]
          have hlt := (Binary64.exceedsSingle_iff hf).1 hx
          rw [hinf, Binary64.roundsToSingle_infinity hf]
          exact ⟨⟨fun hge h => absurd hge (not_le.2 h.lt_half_step),
            fun h => not_lt.1 fun hlt' => h ⟨hf, hlt, hlt'⟩⟩, fun _ => rfl⟩

namespace Sample

def aboveSingle : Binary64 := ⟨false, 0x47EFFFFFE0000001, by decide⟩

theorem aboveSingle_just_above : aboveSingle.JustAboveSingle where
  finite := rfl
  greatest_lt := (Binary64.exceedsSingle_iff rfl).1 rfl
  lt_half_step := by
    have hunits : aboveSingle.units < (2 ^ 128 - 2 ^ 103) * Binary64.one := by decide +kernel
    have hbound : (2 ^ 128 - 2 ^ 103 : ℚ) = (2 ^ 128 - 2 ^ 103 : ℕ) := by norm_num
    rw [Binary64.abs_toRat, div_lt_iff₀ Binary64.one_cast_pos, hbound, ← Nat.cast_mul]
    exact Nat.cast_lt.2 hunits

/-- It is stored as an infinity, although it is nearer to the greatest number of single precision
than half a step. -/
theorem aboveSingle_infinite :
    aboveSingle.isFinite = true ∧ |aboveSingle.toRat| < 2 ^ 128 - 2 ^ 103 ∧
      (Value.number aboveSingle).unwrap .f32 false = .ok (.float .infinity) ∧
      ¬ aboveSingle.RoundsToSingle .infinity := by
  have hinf : aboveSingle.toSingle = .infinity := by decide +kernel
  have hstored : (Value.number aboveSingle).unwrap .f32 false =
      .ok (.float aboveSingle.toSingle) := rfl
  have hlt := aboveSingle_just_above.lt_half_step
  refine ⟨rfl, hlt, by rw [hstored, hinf], fun h => ?_⟩
  exact absurd ((Binary64.roundsToSingle_infinity rfl).1 h) (not_le.2 hlt)

end Sample

end UiBinding
