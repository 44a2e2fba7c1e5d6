import Mathlib.Tactic.Ring
import UiBinding.Conversion

namespace UiBinding.Binary64

theorem lt_two_pow_excess (width n : Nat) : n < 2 ^ (width + excess width n) := by
  refine Nat.lt_of_lt_of_le Nat.lt_log2_self (Nat.pow_le_pow_right (by decide) ?_)
  rw [excess]
  omega

theorem excess_le_of_lt {width k n : Nat} (hw : 0 < width) (h : n < 2 ^ (width + k)) :
    excess width n ≤ k := by
  rw [excess]
  by_cases hn : n = 0
  · subst hn; simp only [Nat.log2_zero]; omega
  · have := (Nat.log2_lt hn).2 h; omega

theorem le_div_of_excess_pos {width n : Nat} (hw : 0 < width) (h : 0 < excess width n) :
    2 ^ (width - 1) ≤ n / 2 ^ excess width n := by
  have hn : n ≠ 0 := by rintro rfl; simp [excess] at h; omega
  rw [Nat.le_div_iff_mul_le (Nat.two_pow_pos _), ← Nat.pow_add]
  refine Nat.le_trans (Nat.pow_le_pow_right (by decide) ?_) (Nat.log2_self_le hn)
  rw [excess] at h ⊢
  omega

theorem mul_two_pow_lt {q : Nat} (hq : q < 2 ^ 53) (k : Nat) : q * 2 ^ k < 2 ^ (53 + k) := by
  rw [Nat.pow_add]
  exact Nat.mul_lt_mul_of_pos_right hq (Nat.two_pow_pos k)

theorem two_pow_excess_le {a : Nat} (h : excess 53 a ≠ 0) : 2 ^ (52 + excess 53 a) ≤ a := by
  have hlow : 2 ^ 52 ≤ a / 2 ^ excess 53 a :=
    le_div_of_excess_pos (by decide) (Nat.pos_of_ne_zero h)
  rw [Nat.pow_add]
  exact (Nat.le_div_iff_mul_le (Nat.two_pow_pos _)).1 hlow

theorem excess_eq {a k : Nat} (hlow : 2 ^ (52 + k) ≤ a) (hhigh : a < 2 ^ (53 + k)) :
    excess 53 a = k := by
  have hle : excess 53 a ≤ k := excess_le_of_lt (by decide) hhigh
  have hlt := (Nat.pow_lt_pow_iff_right (by decide)).1
    (Nat.lt_of_le_of_lt hlow (lt_two_pow_excess 53 a))
  omega

theorem roundHalfEven_of_dvd {a b : Nat} (hb : 0 < b) (h : b ∣ a) :
    roundHalfEven a b = a / b := by
  have : a % b = 0 := Nat.mod_eq_zero_of_dvd h
  simp [roundHalfEven, this, hb]

theorem roundHalfEven_le {a b c : Nat} (hb : 0 < b) (h : a ≤ c * b) : roundHalfEven a b ≤ c := by
  have hdiv : a / b ≤ c := Nat.div_le_of_le_mul (by rwa [Nat.mul_comm])
  have hsplit := Nat.div_add_mod a b
  rw [roundHalfEven]
  split
  · exact hdiv
  · rename_i hr
    have hmod : 0 < a % b := by omega
    by_contra hc
    have he : a / b = c := by omega
    rw [he, Nat.mul_comm] at hsplit
    omega

theorem le_roundHalfEven {a b c : Nat} (hb : 0 < b) (h : c * b ≤ a) : c ≤ roundHalfEven a b := by
  have hdiv : c ≤ a / b := (Nat.le_div_iff_mul_le hb).2 h
  rw [roundHalfEven]
  split <;> omega

theorem roundHalfEven_cases (a b : Nat) :
    (2 * (a % b) < b ∧ roundHalfEven a b = a / b) ∨
    (b < 2 * (a % b) ∧ roundHalfEven a b = a / b + 1) ∨
    (2 * (a % b) = b ∧ roundHalfEven a b % 2 = 0 ∧
      (roundHalfEven a b = a / b ∨ roundHalfEven a b = a / b + 1)) := by
  rw [roundHalfEven]
  split <;> omega

/-- No multiple is nearer, and one that is as near is another one only if the quotient is even. -/
theorem roundHalfEven_nearest {a b : Nat} (hb : 0 < b) (c : Nat) :
    ((a : Int) - (roundHalfEven a b * b : Nat)).natAbs ≤ ((a : Int) - (c * b : Nat)).natAbs ∧
      (((a : Int) - (c * b : Nat)).natAbs = ((a : Int) - (roundHalfEven a b * b : Nat)).natAbs →
        c ≠ roundHalfEven a b → roundHalfEven a b % 2 = 0) := by
  have hsplit : a = a / b * b + a % b := by rw [Nat.mul_comm, Nat.div_add_mod]
  have hmod := Nat.mod_lt a hb
  have hc : c < a / b ∧ c * b + b ≤ a / b * b ∨ c = a / b ∨ c = a / b + 1 ∨
      a / b + 1 < c ∧ a / b * b + b + b ≤ c * b := by
    rcases Nat.lt_trichotomy c (a / b) with hlt | heq | hgt
    · refine .inl ⟨hlt, ?_⟩
      rw [← Nat.succ_mul]
      exact Nat.mul_le_mul_right b hlt
    · exact .inr (.inl heq)
    · rcases Nat.lt_or_eq_of_le hgt with hgt | heq
      · refine .inr (.inr (.inr ⟨hgt, ?_⟩))
        rw [← Nat.succ_mul, ← Nat.succ_mul]
        exact Nat.mul_le_mul_right b hgt
      · exact .inr (.inr (.inl heq.symm))
  have hnext : (a / b + 1) * b = a / b * b + b := Nat.succ_mul _ _
  obtain ⟨hr, he⟩ | ⟨hr, he⟩ | ⟨hr, heven, he | he⟩ := roundHalfEven_cases a b <;>
    obtain ⟨hlt, hle⟩ | rfl | rfl | ⟨hgt, hle⟩ := hc <;> rw [he] <;> omega

theorem units_of_magnitude {x : Binary64} {e q : Nat} (h : x.magnitude = e * hidden + q)
    (hq : q < 2 * hidden) (he : e = 0 ∨ hidden ≤ q) : x.units = q * 2 ^ e := by
  rw [units, h]
  by_cases hlow : q < hidden
  · obtain rfl : e = 0 := by omega
    rw [Nat.zero_mul, Nat.zero_add, if_pos (Nat.div_eq_of_lt hlow), Nat.pow_zero, Nat.mul_one]
  · have hd : (e * hidden + q) / hidden = e + 1 := by rw [hidden] at *; omega
    have hm : (e * hidden + q) % hidden = q - hidden := by rw [hidden] at *; omega
    have hs : hidden + (q - hidden) = q := by omega
    rw [hd, hm, hs, if_neg (by omega), Nat.add_sub_cancel, Nat.shiftLeft_eq]

theorem nearest_le (a b : Nat) (hb : 0 < b) :
    nearest a b ≤ (excess 53 (a / b) + 2) * hidden := by
  have hr : roundHalfEven a (b <<< excess 53 (a / b)) ≤ 2 ^ 53 := by
    refine roundHalfEven_le ?_ ?_
    · rw [Nat.shiftLeft_eq]; exact Nat.mul_pos hb (Nat.two_pow_pos _)
    · have h := (Nat.div_lt_iff_lt_mul hb).1 (lt_two_pow_excess 53 (a / b))
      rw [Nat.pow_add] at h
      rw [Nat.shiftLeft_eq, Nat.mul_comm b, ← Nat.mul_assoc]
      exact Nat.le_of_lt h
  have h2 : (2 : Nat) ^ 53 = 2 * hidden := by decide
  rw [nearest, Nat.add_mul, ← h2]
  omega

theorem nearest_lt_top {a b : Nat} (hb : 0 < b) (h : excess 53 (a / b) ≤ 2044) :
    nearest a b < top := by
  have hn := nearest_le a b hb
  rw [top]
  rw [hidden] at *
  omega

theorem units_ofUnits_eq {negative : Bool} {a : Nat} (ha : excess 53 a ≤ 2044) :
    (ofUnits negative a 1).units =
      roundHalfEven a (2 ^ excess 53 a) * 2 ^ excess 53 a := by
  have hpos : 0 < 2 ^ excess 53 a := Nat.two_pow_pos _
  have hn : nearest a 1 = excess 53 a * hidden + roundHalfEven a (2 ^ excess 53 a) := by
    rw [nearest, Nat.div_one, Nat.shiftLeft_eq, Nat.one_mul]
  have hlt : nearest a 1 < top := nearest_lt_top (by decide) (by rwa [Nat.div_one])
  have hm : (ofUnits negative a 1).magnitude =
      excess 53 a * hidden + roundHalfEven a (2 ^ excess 53 a) := by
    show min top (nearest a 1) = _
    rw [Nat.min_eq_right (Nat.le_of_lt hlt), hn]
  have hle : roundHalfEven a (2 ^ excess 53 a) ≤ 2 * hidden := by
    refine roundHalfEven_le hpos (Nat.le_of_lt ?_)
    rw [show 2 * hidden = 2 ^ 53 by decide, ← Nat.pow_add]
    exact lt_two_pow_excess 53 a
  have hge : excess 53 a = 0 ∨ hidden ≤ roundHalfEven a (2 ^ excess 53 a) := by
    refine or_iff_not_imp_left.2 fun h => le_roundHalfEven hpos ?_
    have hlow := two_pow_excess_le h
    rwa [Nat.pow_add] at hlow
  rcases Nat.lt_or_eq_of_le hle with hq | hcarry
  · exact units_of_magnitude hm hq hge
  · rw [hcarry] at hm ⊢
    have hnext : (ofUnits negative a 1).magnitude = (excess 53 a + 1) * hidden + hidden := by
      rw [hm]; ring
    rw [units_of_magnitude hnext (by decide) (.inr (Nat.le_refl _))]
    ring

theorem units_ofUnits {negative : Bool} {a : Nat} (hd : 2 ^ excess 53 a ∣ a)
    (ha : excess 53 a ≤ 2044) :
    (ofUnits negative a 1).units = a := by
  rw [units_ofUnits_eq ha, roundHalfEven_of_dvd (Nat.two_pow_pos _) hd, Nat.div_mul_cancel hd]

theorem negative_ofUnits (negative : Bool) (a b : Nat) :
    (ofUnits negative a b).negative = negative := rfl

theorem exists_significand (x : Binary64) : ∃ e q, x.magnitude = e * hidden + q ∧
    q < 2 * hidden ∧ (e = 0 ∨ hidden ≤ q) := by
  have hsplit := Nat.div_add_mod x.magnitude hidden
  have hmod : x.magnitude % hidden < hidden := Nat.mod_lt _ (by decide)
  rcases Nat.eq_zero_or_pos (x.magnitude / hidden) with h | h
  · exact ⟨0, x.magnitude, by omega, by rw [h] at hsplit; omega, .inl rfl⟩
  · obtain ⟨e, he⟩ := Nat.exists_eq_add_of_le' h
    refine ⟨e, hidden + x.magnitude % hidden, ?_, by omega, .inr (by omega)⟩
    rw [he, Nat.mul_comm, Nat.add_mul] at hsplit
    omega

theorem singleUnit_eq {n : Nat} (hn : n = 925) : singleUnit = 2 ^ n := by
  rw [← Nat.one_shiftLeft, hn, singleUnit]

theorem singleUnit_pos : 0 < singleUnit := by
  obtain ⟨n, hn⟩ : ∃ n, n = 925 := ⟨_, rfl⟩
  rw [singleUnit_eq hn]; exact Nat.two_pow_pos n

theorem significand_le {n e q : Nat} (he : e ≤ n + 1) (hq : q < 2 ^ 53)
    (hlast : e = n + 1 → q ≤ (2 ^ 24 - 1) * 2 ^ 29) : q * 2 ^ e ≤ (2 ^ 24 - 1) * 2 ^ (n + 30) := by
  rcases Nat.lt_or_eq_of_le he with hlt | rfl
  · calc q * 2 ^ e ≤ 2 ^ 53 * 2 ^ n :=
          Nat.mul_le_mul (Nat.le_of_lt hq) (Nat.pow_le_pow_right (by decide) (by omega))
      _ = 2 ^ 23 * 2 ^ (n + 30) := by ring
      _ ≤ (2 ^ 24 - 1) * 2 ^ (n + 30) := Nat.mul_le_mul_right _ (by decide)
  · calc q * 2 ^ (n + 1) ≤ (2 ^ 24 - 1) * 2 ^ 29 * 2 ^ (n + 1) :=
          Nat.mul_le_mul_right _ (hlast rfl)
      _ = (2 ^ 24 - 1) * 2 ^ (n + 30) := by ring

theorem units_le_of_not_exceedsSingle {x : Binary64} (hf : x.isFinite = true)
    (h : x.exceedsSingle = false) : x.units ≤ (2 ^ 24 - 1) * (2 ^ 253 * singleUnit) := by
  have hle : x.magnitude ≤ 1149 * hidden + (2 ^ 24 - 1) * 2 ^ 29 := by
    have hmax : singleMax.magnitude = 1149 * hidden + (2 ^ 24 - 1) * 2 ^ 29 := by decide
    simpa [exceedsSingle, hf, hmax] using h
  obtain ⟨e, q, hm, hq, he⟩ := exists_significand x
  obtain ⟨n, hn⟩ : ∃ n, n = 925 := ⟨_, rfl⟩
  have hpow : 2 ^ 253 * singleUnit = 2 ^ (1148 + 30) := by
    rw [singleUnit_eq hn, ← Nat.pow_add]
    congr 1
    omega
  rw [units_of_magnitude hm hq he, hpow]
  rw [hidden] at *
  exact significand_le (by omega) (by omega) (by omega)

theorem one_eq {n : Nat} (hn : n = 1074) : one = 2 ^ n := by
  rw [← Nat.one_shiftLeft, hn, one]

theorem ofInt?_eq_some {n : Int} (h : n.natAbs < 2 ^ 100) : ofInt? n = some (ofInt n) := by
  obtain ⟨k, hk⟩ : ∃ k, k = 1074 := ⟨_, rfl⟩
  have he : excess 53 (n.natAbs * one / 1) ≤ 47 + k := by
    refine excess_le_of_lt (by decide) ?_
    rw [Nat.div_one, one_eq hk, ← Nat.add_assoc, Nat.pow_add]
    exact Nat.mul_lt_mul_of_pos_right h (Nat.two_pow_pos _)
  have hlt := nearest_lt_top (by decide) (Nat.le_trans he (by omega))
  have hm : (ofInt n).magnitude < top := Nat.lt_of_le_of_lt (Nat.min_le_right _ _) hlt
  have hi : (ofInt n).isInfinite = false := by simpa [isInfinite] using Nat.ne_of_lt hm
  simp [ofInt?, hi]

theorem isFinite_iff {x : Binary64} :
    x.isFinite = true ↔ x.isNaN = false ∧ x.isInfinite = false := by
  simp only [isFinite, isNaN, isInfinite, decide_eq_true_eq, decide_eq_false_iff_not,
    beq_eq_false_iff_ne]
  omega

theorem isInfinite_of_isNaN {x : Binary64} (h : x.isNaN = true) : x.isInfinite = false := by
  simp only [isNaN, isInfinite, decide_eq_true_eq, beq_eq_false_iff_ne] at h ⊢
  omega

/-- Exactly representable in single precision, with infinities and the NaN that conversion makes. -/
def IsSingle (x : Binary64) : Prop :=
  (x.isFinite = true → ∃ m k, m < 2 ^ 24 ∧ k < 254 ∧ x.units = m * 2 ^ k * singleUnit) ∧
    (x.isNaN = true → x = freshNaN)

theorem isSingle_freshNaN : freshNaN.IsSingle := ⟨nofun, fun _ => rfl⟩

theorem isSingle_of_not_finite {x : Binary64} (hf : x.isFinite = false) (hx : x.isNaN = false) :
    x.IsSingle := by
  simp [IsSingle, hf, hx]

/-- A rounding up to the next power of two is a shorter significand of the next exponent. -/
theorem exists_short_significand {m k : Nat} (hm : m ≤ 2 ^ 24) (hk : k ≤ 253)
    (hlow : k = 0 ∨ 2 ^ 23 ≤ m) (hlast : k = 253 → m ≤ 2 ^ 24 - 1) :
    ∃ m' k', m' < 2 ^ 24 ∧ k' < 254 ∧ (k' = 0 ∨ 2 ^ 23 ≤ m') ∧ m * 2 ^ k = m' * 2 ^ k' ∧
      (m % 2 = 0 → m' % 2 = 0) := by
  rcases Nat.lt_or_eq_of_le hm with hlt | rfl
  · exact ⟨m, k, hlt, by omega, hlow, rfl, id⟩
  · have : k ≠ 253 := fun h => by have := hlast h; omega
    exact ⟨2 ^ 23, k + 1, by decide, by omega, .inr (Nat.le_refl _), by ring, fun _ => by decide⟩

theorem isFinite_ofUnits {negative : Bool} {a b : Nat} (hb : 0 < b)
    (h : excess 53 (a / b) ≤ 2044) : (ofUnits negative a b).isFinite = true := by
  rw [isFinite, decide_eq_true_iff]
  exact Nat.lt_of_le_of_lt (Nat.min_le_right _ _) (nearest_lt_top hb h)

theorem excess_single {m k n : Nat} (hm : m < 2 ^ 24) (hn : n = 925) :
    m * 2 ^ k * singleUnit = m * 2 ^ (k + n) ∧ excess 53 (m * 2 ^ k * singleUnit) ≤ k + n := by
  have ha : m * 2 ^ k * singleUnit = m * 2 ^ (k + n) := by
    rw [singleUnit_eq hn, Nat.mul_assoc, ← Nat.pow_add]
  refine ⟨ha, excess_le_of_lt (by decide) ?_⟩
  rw [ha]
  exact mul_two_pow_lt (by omega) (k + n)

theorem units_ofUnits_single {negative : Bool} {m k : Nat} (hm : m < 2 ^ 24) (hk : k < 254) :
    (ofUnits negative (m * 2 ^ k * singleUnit) 1).isFinite = true ∧
      (ofUnits negative (m * 2 ^ k * singleUnit) 1).units = m * 2 ^ k * singleUnit := by
  obtain ⟨n, hn⟩ : ∃ n, n = 925 := ⟨_, rfl⟩
  obtain ⟨ha, he⟩ := excess_single (k := k) hm hn
  refine ⟨isFinite_ofUnits (by decide) (by rw [Nat.div_one]; omega), units_ofUnits ?_ (by omega)⟩
  rw [ha] at he ⊢
  exact Nat.dvd_mul_left_of_dvd (Nat.pow_dvd_pow 2 he) m

/-- How many bits more than single precision has there are in a number. -/
def singleExcess (x : Binary64) : Nat := excess 24 (x.units / singleUnit)

def singleStep (x : Binary64) : Nat := singleUnit * 2 ^ x.singleExcess

def singleSignificand (x : Binary64) : Nat := roundHalfEven x.units x.singleStep

theorem singleStep_pos (x : Binary64) : 0 < x.singleStep :=
  Nat.mul_pos singleUnit_pos (Nat.two_pow_pos _)

theorem units_lt_singleStep (x : Binary64) : x.units < 2 ^ 24 * x.singleStep := by
  have h := (Nat.div_lt_iff_lt_mul singleUnit_pos).1
    (lt_two_pow_excess 24 (x.units / singleUnit))
  rwa [Nat.pow_add, Nat.mul_assoc, Nat.mul_comm _ singleUnit] at h

theorem singleStep_le_units {x : Binary64} (h : x.singleExcess ≠ 0) :
    2 ^ 23 * x.singleStep ≤ x.units := by
  have hlow := le_div_of_excess_pos (by decide) (Nat.pos_of_ne_zero h)
  rw [Nat.div_div_eq_div_mul] at hlow
  exact (Nat.le_div_iff_mul_le x.singleStep_pos).1 hlow

theorem singleSignificand_le (x : Binary64) : x.singleSignificand ≤ 2 ^ 24 :=
  roundHalfEven_le x.singleStep_pos (Nat.le_of_lt x.units_lt_singleStep)

theorem le_singleSignificand {x : Binary64} (h : x.singleExcess ≠ 0) :
    2 ^ 23 ≤ x.singleSignificand :=
  le_roundHalfEven x.singleStep_pos (singleStep_le_units h)

section Finite

variable {x : Binary64} (hf : x.isFinite = true) (hx : x.exceedsSingle = false)

include hf hx

theorem toSingle_eq_ofUnits :
    x.toSingle = ofUnits x.negative (x.singleSignificand * 2 ^ x.singleExcess * singleUnit) 1 := by
  rw [toSingle, if_pos hf, hx]
  simp only [Bool.false_eq_true, if_false, Nat.shiftLeft_eq]
  rfl

theorem exists_singleSignificand : ∃ m k, m < 2 ^ 24 ∧ k < 254 ∧ (k = 0 ∨ 2 ^ 23 ≤ m) ∧
    x.singleSignificand * 2 ^ x.singleExcess = m * 2 ^ k ∧
    (x.singleSignificand % 2 = 0 → m % 2 = 0) := by
  have hu := units_le_of_not_exceedsSingle hf hx
  have hq : x.units / singleUnit < 2 ^ (24 + 253) := by
    rw [Nat.div_lt_iff_lt_mul singleUnit_pos, Nat.pow_add, Nat.mul_assoc]
    refine Nat.lt_of_le_of_lt hu (Nat.mul_lt_mul_of_pos_right (by decide) ?_)
    exact Nat.mul_pos (Nat.two_pow_pos _) singleUnit_pos
  refine exists_short_significand x.singleSignificand_le (excess_le_of_lt (by decide) hq) ?_ ?_
  · exact or_iff_not_imp_left.2 le_singleSignificand
  · intro hlast
    refine roundHalfEven_le x.singleStep_pos ?_
    rw [singleStep, hlast, Nat.mul_comm singleUnit]
    exact hu

theorem units_toSingle : x.toSingle.isFinite = true ∧
    x.toSingle.units = x.singleSignificand * 2 ^ x.singleExcess * singleUnit := by
  obtain ⟨m, k, hm, hk, -, he, -⟩ := exists_singleSignificand hf hx
  rw [toSingle_eq_ofUnits hf hx, he]
  exact units_ofUnits_single hm hk

end Finite

theorem isSingle_toSingle (x : Binary64) : x.toSingle.IsSingle := by
  by_cases hf : x.isFinite = true
  swap
  · rw [toSingle, if_neg hf]
    cases hx : x.isNaN with
    | true => exact isSingle_freshNaN
    | false => exact isSingle_of_not_finite (by simpa using hf) hx
  cases hx : x.exceedsSingle with
  | true =>
      rw [toSingle, if_pos hf, hx]
      exact isSingle_of_not_finite rfl rfl
  | false =>
      obtain ⟨m, k, hm, hk, -, he, -⟩ := exists_singleSignificand hf hx
      refine ⟨fun _ => ⟨m, k, hm, hk, by rw [(units_toSingle hf hx).2, he]⟩, fun hnan => ?_⟩
      cases (isFinite_iff.1 (units_toSingle hf hx).1).1.symm.trans hnan

theorem excess_significand {e q : Nat} (hq : q < 2 * hidden) (he : e = 0 ∨ hidden ≤ q) :
    excess 53 (q * 2 ^ e) = e := by
  obtain rfl | hq' := he
  · exact Nat.le_zero.1 (excess_le_of_lt (by decide) (mul_two_pow_lt hq 0))
  · refine excess_eq ?_ (mul_two_pow_lt hq e)
    rw [Nat.pow_add]
    exact Nat.mul_le_mul_right _ hq'

/-- The number of units of a finite number is rounded to that number. -/
theorem ofUnits_units {x : Binary64} (h : x.isFinite = true) :
    ofUnits x.negative x.units 1 = x := by
  obtain ⟨e, q, hm, hq, he⟩ := exists_significand x
  have hround : roundHalfEven (q * 2 ^ e) (2 ^ e) = q := by
    rw [roundHalfEven_of_dvd (Nat.two_pow_pos e) (Nat.dvd_mul_left _ _),
      Nat.mul_div_cancel _ (Nat.two_pow_pos e)]
  have hnearest : nearest x.units 1 = x.magnitude := by
    rw [nearest, Nat.div_one, units_of_magnitude hm hq he, excess_significand hq he,
      Nat.one_shiftLeft, hround, hm]
  have hlt : x.magnitude < top := by simpa [isFinite] using h
  have hmin : min top (nearest x.units 1) = x.magnitude := by
    rw [hnearest, Nat.min_eq_right (Nat.le_of_lt hlt)]
  obtain ⟨negative, magnitude, bound⟩ := x
  simp only [ofUnits, hmin]

theorem significand_lt {n e q : Nat} (he : n + 1 ≤ e) (hq : hidden ≤ q)
    (hfirst : e = n + 1 → (2 ^ 24 - 1) * 2 ^ 29 < q) :
    (2 ^ 24 - 1) * 2 ^ (n + 30) < q * 2 ^ e := by
  rcases Nat.lt_or_eq_of_le he with hlt | rfl
  · calc (2 ^ 24 - 1) * 2 ^ (n + 30)
      _ < 2 ^ 24 * 2 ^ (n + 30) := Nat.mul_lt_mul_of_pos_right (by decide) (Nat.two_pow_pos _)
      _ = hidden * 2 ^ (n + 2) := by rw [hidden]; ring
      _ ≤ q * 2 ^ e := Nat.mul_le_mul hq (Nat.pow_le_pow_right (by decide) hlt)
  · calc (2 ^ 24 - 1) * 2 ^ (n + 30)
      _ = (2 ^ 24 - 1) * 2 ^ 29 * 2 ^ (n + 1) := by ring
      _ < q * 2 ^ (n + 1) := Nat.mul_lt_mul_of_pos_right (hfirst rfl) (Nat.two_pow_pos _)

theorem lt_units_of_exceedsSingle {x : Binary64} (h : x.exceedsSingle = true) :
    (2 ^ 24 - 1) * (2 ^ 253 * singleUnit) < x.units := by
  have hlt : 1149 * hidden + (2 ^ 24 - 1) * 2 ^ 29 < x.magnitude := by
    have hmax : singleMax.magnitude = 1149 * hidden + (2 ^ 24 - 1) * 2 ^ 29 := by decide
    rw [exceedsSingle, hmax] at h
    simpa using (Bool.and_eq_true_iff.1 h).2
  obtain ⟨e, q, hm, hq, he⟩ := exists_significand x
  obtain ⟨n, hn⟩ : ∃ n, n = 925 := ⟨_, rfl⟩
  have hpow : 2 ^ 253 * singleUnit = 2 ^ (1148 + 30) := by
    rw [singleUnit_eq hn, ← Nat.pow_add]
    congr 1
    omega
  rw [units_of_magnitude hm hq he, hpow]
  rw [hidden] at *
  exact significand_lt (by omega) (by rw [hidden]; omega) (by omega)

theorem exceedsSingle_of_isSingle {x : Binary64} (h : x.IsSingle) : x.exceedsSingle = false := by
  by_contra hx
  rw [Bool.not_eq_false] at hx
  have hf : x.isFinite = true := (Bool.and_eq_true_iff.1 hx).1
  obtain ⟨m, k, hm, hk, hu⟩ := h.1 hf
  have hle : m * 2 ^ k ≤ (2 ^ 24 - 1) * 2 ^ 253 :=
    Nat.mul_le_mul (by omega) (Nat.pow_le_pow_right (by decide) (by omega))
  have hlt := lt_units_of_exceedsSingle hx
  rw [hu, ← Nat.mul_assoc] at hlt
  exact absurd (Nat.mul_le_mul_right singleUnit hle) (Nat.not_le.2 hlt)

/-- A number that single precision has is not rounded. -/
theorem toSingle_of_isSingle {x : Binary64} (h : x.IsSingle) : x.toSingle = x := by
  rw [toSingle]
  by_cases hf : x.isFinite = true
  swap
  · rw [if_neg hf]
    split
    · exact (h.2 ‹_›).symm
    · rfl
  obtain ⟨m, j, hm, hj, hu⟩ := h.1 hf
  have hk : excess 24 (x.units / singleUnit) ≤ j := by
    rw [hu, Nat.mul_div_cancel _ singleUnit_pos]
    refine excess_le_of_lt (by decide) ?_
    rw [Nat.pow_add]
    exact Nat.mul_lt_mul_of_pos_right hm (Nat.two_pow_pos _)
  rw [if_pos hf, exceedsSingle_of_isSingle h]
  simp only [Bool.false_eq_true, if_false]
  generalize excess 24 (x.units / singleUnit) = k at *
  obtain ⟨i, rfl⟩ := Nat.exists_eq_add_of_le hk
  have hsplit : x.units = m * 2 ^ i * (singleUnit * 2 ^ k) := by
    rw [hu, Nat.pow_add]
    ring
  have hstep : 0 < singleUnit * 2 ^ k := Nat.mul_pos singleUnit_pos (Nat.two_pow_pos k)
  have hround : roundHalfEven x.units (singleUnit * 2 ^ k) = m * 2 ^ i := by
    rw [hsplit, roundHalfEven_of_dvd hstep (Nat.dvd_mul_left _ _), Nat.mul_div_cancel _ hstep]
  have hunits : m * 2 ^ i * 2 ^ k * singleUnit = x.units := by
    rw [hsplit]
    ring
  rw [Nat.shiftLeft_eq, Nat.shiftLeft_eq, hround, hunits]
  exact ofUnits_units hf

theorem magnitude_eq_of_rank_eq {x y : Binary64} (h : x.rank = y.rank) :
    x.magnitude = y.magnitude := by
  rw [rank, rank] at h
  split at h <;> split at h <;> omega

theorem IsSingle.of_magnitude_eq {x y : Binary64} (h : y.IsSingle) (hx : x.isNaN = false)
    (he : x.magnitude = y.magnitude) : x.IsSingle := by
  refine ⟨fun hf => ?_, fun hnan => by cases hx.symm.trans hnan⟩
  have hfinite : y.isFinite = true := by rwa [isFinite, ← he]
  obtain ⟨m, k, hm, hk, hu⟩ := h.1 hfinite
  exact ⟨m, k, hm, hk, by rw [← hu, units, units, he]⟩

theorem toSingle_eq_iff {x : Binary64} (hx : x.isNaN = false) :
    x.toSingle.eq x = true ↔ x.IsSingle := by
  constructor
  · intro h
    have hrank : x.toSingle.rank = x.rank := by
      simpa using (Bool.and_eq_true_iff.1 h).2
    exact x.isSingle_toSingle.of_magnitude_eq hx (magnitude_eq_of_rank_eq hrank).symm
  · intro h
    simp [toSingle_of_isSingle h, eq, hx]

end UiBinding.Binary64
