import UiBinding.Decimal
import UiBinding.Proofs.ExactValue

namespace UiBinding

namespace Binary64

theorem roundHalfEven_mul_right (a b : ℕ) {k : ℕ} (hk : 0 < k) :
    roundHalfEven (a * k) (b * k) = roundHalfEven a b := by
  have hless : 2 * (a % b * k) < b * k ↔ 2 * (a % b) < b := by
    rw [← Nat.mul_assoc, Nat.mul_lt_mul_right hk]
  have htie : 2 * (a % b * k) = b * k ↔ 2 * (a % b) = b := by
    rw [← Nat.mul_assoc, Nat.mul_left_inj hk.ne']
  simp only [roundHalfEven, Nat.mul_mod_mul_right, Nat.mul_div_mul_right _ _ hk, hless, htie]

theorem nearest_mul_right (a b : ℕ) {k : ℕ} (hk : 0 < k) :
    nearest (a * k) (b * k) = nearest a b := by
  have hstep : (b * k) <<< excess 53 (a / b) = b <<< excess 53 (a / b) * k := by
    rw [Nat.shiftLeft_eq, Nat.shiftLeft_eq, Nat.mul_right_comm]
  rw [nearest, nearest, Nat.mul_div_mul_right _ _ hk, hstep, roundHalfEven_mul_right _ _ hk]

theorem nearest_congr {a b a' b' : ℕ} (hb : 0 < b) (hb' : 0 < b') (h : (a / b : ℚ) = a' / b') :
    nearest a b = nearest a' b' := by
  have hcross : a * b' = a' * b := by
    rw [div_eq_div_iff (Nat.cast_ne_zero.2 hb.ne') (Nat.cast_ne_zero.2 hb'.ne')] at h
    exact_mod_cast h
  rw [← nearest_mul_right a b hb', hcross, Nat.mul_comm b b', nearest_mul_right a' b' hb]

theorem nearest_eq_zero {a b : ℕ} (h : 2 * a < b) : nearest a b = 0 := by
  have hdiv : a / b = 0 := Nat.div_eq_of_lt (by omega)
  have hmod : a % b = a := Nat.mod_eq_of_lt (by omega)
  have hexcess : excess 53 0 = 0 := by decide
  rw [nearest, hdiv, hexcess, roundHalfEven, Nat.shiftLeft_zero, hmod, hdiv, if_pos (.inl h)]
  rfl

theorem le_nearest {a b : ℕ} (hb : 0 < b) (h : excess 53 (a / b) ≠ 0) :
    (excess 53 (a / b) + 1) * hidden ≤ nearest a b := by
  have hlow := two_pow_excess_le h
  rw [nearest]
  generalize excess 53 (a / b) = e at *
  have hround : hidden ≤ roundHalfEven a (b <<< e) := by
    rw [Nat.shiftLeft_eq]
    refine le_roundHalfEven (Nat.mul_pos hb (Nat.two_pow_pos e)) ?_
    rw [Nat.mul_comm b, ← Nat.mul_assoc, show hidden = 2 ^ 52 by decide, ← Nat.pow_add]
    exact (Nat.le_div_iff_mul_le hb).1 hlow
  rw [Nat.succ_mul]
  omega

theorem top_le_nearest {a b k : ℕ} (hk : k = 2098) (hb : 0 < b) (h : 2 ^ k * b ≤ a) :
    top ≤ nearest a b := by
  have hdiv : 2 ^ k ≤ a / b := (Nat.le_div_iff_mul_le hb).2 h
  have hexcess : 2046 ≤ excess 53 (a / b) := by
    have hlt := (Nat.pow_lt_pow_iff_right (by decide)).1
      (Nat.lt_of_le_of_lt hdiv (lt_two_pow_excess 53 (a / b)))
    omega
  calc top
    _ = (2046 + 1) * hidden := rfl
    _ ≤ (excess 53 (a / b) + 1) * hidden := Nat.mul_le_mul_right _ (Nat.succ_le_succ hexcess)
    _ ≤ nearest a b := le_nearest hb (by omega)

theorem ofUnits_eq_iff {x : Binary64} (hf : x.isFinite = true) {a b : ℕ} :
    ofUnits x.negative a b = x ↔ nearest a b = x.magnitude := by
  have hlt : x.magnitude < top := by simpa [isFinite] using hf
  constructor
  · intro h
    have hm : min top (nearest a b) = x.magnitude := congrArg magnitude h
    omega
  · intro h
    have hm : min top (nearest a b) = x.magnitude := by omega
    obtain ⟨negative, magnitude, bound⟩ := x
    simp only [ofUnits, hm]

theorem eq_of_magnitude_eq_zero {x : Binary64} (h : x.magnitude = 0) :
    { zero with negative := x.negative } = x := by
  obtain ⟨negative, magnitude, bound⟩ := x
  subst h
  rfl

end Binary64

open Binary64

namespace Decimal

def value (d : Decimal) : ℚ := d.digits * 10 ^ d.exponent

theorem ten_zpow_pos (e : ℤ) : (0 : ℚ) < 10 ^ e := zpow_pos (by norm_num) e

/-- A decimal number is rounded as what it is in units. -/
theorem ofDecimal_eq_ofUnits (negative : Bool) (digits : ℕ) (exponent : ℤ) :
    ∃ a b : ℕ, 0 < b ∧ (digits * 10 ^ exponent : ℚ) * one = a / b ∧
      ofDecimal negative digits exponent = ofUnits negative a b := by
  rw [ofDecimal]
  split
  · rename_i h
    obtain ⟨n, rfl⟩ := Int.eq_ofNat_of_zero_le h
    refine ⟨_, _, Nat.one_pos, ?_, rfl⟩
    simp
  · rename_i h
    obtain ⟨n, hn⟩ := Int.eq_ofNat_of_zero_le (a := -exponent) (by omega)
    obtain rfl : exponent = -n := by omega
    refine ⟨_, _, Nat.pow_pos (by decide), ?_, rfl⟩
    simp [div_eq_mul_inv, mul_right_comm]

theorem ofDecimal_congr (negative : Bool) {digits digits' : ℕ} {exponent exponent' : ℤ}
    (h : (digits * 10 ^ exponent : ℚ) = digits' * 10 ^ exponent') :
    ofDecimal negative digits exponent = ofDecimal negative digits' exponent' := by
  obtain ⟨a, b, hb, hvalue, he⟩ := ofDecimal_eq_ofUnits negative digits exponent
  obtain ⟨a', b', hb', hvalue', he'⟩ := ofDecimal_eq_ofUnits negative digits' exponent'
  rw [h, hvalue'] at hvalue
  simp only [he, he', ofUnits, nearest_congr hb hb' hvalue.symm]

theorem two_pow_le_ten_pow {k n : ℕ} (h : k ≤ 3 * n) : (2 : ℚ) ^ k ≤ 10 ^ n :=
  calc (2 : ℚ) ^ k
    _ ≤ 2 ^ (3 * n) := pow_le_pow_right₀ (by norm_num) h
    _ = (2 ^ 3) ^ n := pow_mul _ _ _
    _ ≤ 10 ^ n := pow_le_pow_left₀ (by norm_num) (by norm_num) n

section Bounds

variable {x : Binary64} (hf : x.isFinite = true) {digits n : ℕ} {exponent : ℤ}
  (h : ofDecimal x.negative digits exponent = x)

include hf h

theorem exists_nearest_eq : ∃ a b : ℕ, 0 < b ∧ (digits * 10 ^ exponent : ℚ) * one = a / b ∧
    nearest a b = x.magnitude := by
  obtain ⟨a, b, hb, hvalue, he⟩ := ofDecimal_eq_ofUnits x.negative digits exponent
  rw [he, ofUnits_eq_iff hf] at h
  exact ⟨a, b, hb, hvalue, h⟩

theorem lt_of_ofDecimal (hn : n = 400) : (digits * 10 ^ exponent : ℚ) < 10 ^ n := by
  obtain ⟨a, b, hb, hvalue, hnearest⟩ := exists_nearest_eq hf h
  obtain ⟨k, hk⟩ : ∃ k, k = 1074 := ⟨_, rfl⟩
  obtain ⟨m, hm⟩ : ∃ m, m = 1024 := ⟨_, rfl⟩
  by_contra hlarge
  have hunits : (2 : ℚ) ^ (m + k) ≤ a / b :=
    calc (2 : ℚ) ^ (m + k)
      _ = 2 ^ m * one := by rw [pow_add, one_eq hk, Nat.cast_pow, Nat.cast_ofNat]
      _ ≤ digits * 10 ^ exponent * one := by
          refine mul_le_mul_of_nonneg_right ?_ one_cast_pos.le
          exact (two_pow_le_ten_pow (by omega)).trans (not_lt.1 hlarge)
      _ = a / b := hvalue
  rw [le_div_iff₀ (Nat.cast_pos.2 hb)] at hunits
  have htop := top_le_nearest (k := m + k) (by omega) hb (by exact_mod_cast hunits)
  have hlt : x.magnitude < top := by simpa [isFinite] using hf
  omega

theorem magnitude_eq_zero_of_small (hn : n = 400)
    (hsmall : (digits * 10 ^ exponent : ℚ) * 10 ^ n < 1) : x.magnitude = 0 := by
  obtain ⟨a, b, hb, hvalue, hnearest⟩ := exists_nearest_eq hf h
  obtain ⟨k, hk⟩ : ∃ k, k = 1074 := ⟨_, rfl⟩
  have hunits : (2 * (a / b) : ℚ) < 1 :=
    calc (2 * (a / b) : ℚ)
      _ = digits * 10 ^ exponent * 2 ^ (k + 1) := by
          rw [← hvalue, one_eq hk, Nat.cast_pow, Nat.cast_ofNat]
          ring
      _ ≤ digits * 10 ^ exponent * 10 ^ n := by
          refine mul_le_mul_of_nonneg_left (two_pow_le_ten_pow (by omega)) ?_
          exact mul_nonneg (Nat.cast_nonneg _) (ten_zpow_pos _).le
      _ < 1 := hsmall
  rw [← mul_div_assoc, div_lt_one (Nat.cast_pos.2 hb)] at hunits
  rw [← hnearest]
  exact nearest_eq_zero (by exact_mod_cast hunits)

end Bounds

theorem readsAs_eq {k : ℕ} (hk : k = 1074) (x : Binary64) (c : ℕ) :
    readsAs x c = (nearest c (5 ^ k) == x.magnitude) := by
  rw [readsAs, ← hk]
  rfl

theorem mul_ten_zpow_mul_one {k : ℕ} (hk : k = 1074) (c : ℕ) :
    (c * 10 ^ (-1074 : ℤ) : ℚ) * one = c / (5 ^ k : ℕ) := by
  have hexponent : (1074 : ℤ) = (k : ℕ) := by omega
  have hten : (10 : ℚ) ^ k = 2 ^ k * 5 ^ k := by rw [← mul_pow]; norm_num
  rw [hexponent, zpow_neg, zpow_natCast, one_eq hk, hten]
  push_cast
  field_simp

theorem readsAs_iff {x : Binary64} (hf : x.isFinite = true) (m places : ℕ) :
    readsAs x (m * 10 ^ places) = true ↔ ofDecimal x.negative m (places - 1074) = x := by
  obtain ⟨a, b, hb, hvalue, he⟩ := ofDecimal_eq_ofUnits x.negative m (places - 1074)
  obtain ⟨k, hk⟩ : ∃ k, k = 1074 := ⟨_, rfl⟩
  have hfraction : (a / b : ℚ) = (m * 10 ^ places : ℕ) / (5 ^ k : ℕ) := by
    rw [← hvalue, ← mul_ten_zpow_mul_one hk, sub_eq_add_neg, zpow_add₀ (by norm_num), zpow_natCast,
      ← mul_assoc, Nat.cast_mul, Nat.cast_pow, Nat.cast_ofNat]
  rw [readsAs_eq hk, beq_iff_eq, he, ofUnits_eq_iff hf,
    nearest_congr hb (Nat.pow_pos (by decide)) hfraction]

theorem scaled_eq {k : ℕ} (hk : k = 1074) (x : Binary64) : scaled x = x.units * 5 ^ k := by
  rw [scaled, ← hk]
  rfl

theorem readsAs_scaled {x : Binary64} (hf : x.isFinite = true) : readsAs x (scaled x) = true := by
  obtain ⟨k, hk⟩ : ∃ k, k = 1074 := ⟨_, rfl⟩
  have h := nearest_mul_right x.units 1 (k := 5 ^ k) (Nat.pow_pos (by decide))
  rw [readsAs_eq hk, beq_iff_eq, scaled_eq hk]
  rwa [Nat.one_mul, (ofUnits_eq_iff hf).1 (ofUnits_units hf)] at h

theorem value_strip (fuel : ℕ) (d : Decimal) : (strip fuel d).value = d.value := by
  induction fuel generalizing d with
  | zero => rfl
  | succ fuel ih =>
      rw [strip]
      split
      · rename_i h
        have hdigits : d.digits = 10 * (d.digits / 10) := by omega
        have hcast : (d.digits : ℚ) = 10 * (d.digits / 10 : ℕ) := by exact_mod_cast hdigits
        rw [ih, value, value, zpow_add_one₀ (by norm_num), hcast]
        ring
      · rfl

/-- No zero is left at the end. -/
def Stripped (d : Decimal) : Prop := d.digits = 0 ∨ d.digits % 10 ≠ 0

theorem stripped_strip {fuel : ℕ} {d : Decimal} (h : d.digits ≤ 10 ^ fuel) :
    (strip fuel d).Stripped := by
  induction fuel generalizing d with
  | zero =>
      rw [strip, Stripped]
      omega
  | succ fuel ih =>
      rw [strip]
      split
      · refine ih (d := ⟨_, _⟩) ?_
        simp only
        omega
      · rw [Stripped]
        omega

theorem neighbour?_eq_some {x : Binary64} {n step m : ℕ} (h : neighbour? x n step = some m) :
    readsAs x (m * step) = true ∧ m ≤ n / step + 1 := by
  simp only [neighbour?] at h
  split at h
  · rename_i hboth
    obtain ⟨hbelow, habove⟩ := Bool.and_eq_true_iff.1 hboth
    cases h
    have hround := roundHalfEven_cases n step
    generalize roundHalfEven n step = m at *
    obtain rfl | rfl : m = n / step ∨ m = n / step + 1 := by omega
    · exact ⟨hbelow, Nat.le_succ _⟩
    · exact ⟨habove, Nat.le_refl _⟩
  split at h
  · rename_i hbelow
    cases h
    exact ⟨hbelow, Nat.le_succ _⟩
  split at h
  · rename_i habove
    cases h
    exact ⟨habove, Nat.le_refl _⟩
  · cases h

def width (x : Binary64) : ℕ := (digitText (scaled x)).length

theorem scaled_lt (x : Binary64) : scaled x < 10 ^ width x :=
  (Nat.length_toDigits_le_iff (by decide) Nat.length_toDigits_pos).1 (Nat.le_refl _)

/-- Whichever attempt it comes from, the result is read back, and the fuel is enough to strip
it. -/
theorem exists_shortest {x : Binary64} (hf : x.isFinite = true) : ∃ m places : ℕ,
    shortest x = strip (width x) ⟨m, places - 1074⟩ ∧ m ≤ 10 ^ width x ∧
      readsAs x (m * 10 ^ places) = true := by
  have hlt := scaled_lt x
  rw [shortest]
  generalize hattempt : (List.range 17).findSome? _ = found
  cases found with
  | none => exact ⟨scaled x, 0, rfl, Nat.le_of_lt hlt, by simpa using readsAs_scaled hf⟩
  | some d =>
      obtain ⟨i, -, hd⟩ := List.exists_of_findSome?_eq_some hattempt
      obtain ⟨m, hm, rfl⟩ := Option.map_eq_some_iff.1 hd
      obtain ⟨hreads, hle⟩ := neighbour?_eq_some hm
      refine ⟨m, _, rfl, Nat.le_trans hle ?_, hreads⟩
      exact Nat.lt_of_le_of_lt (Nat.div_le_self _ _) hlt

theorem stripped_shortest {x : Binary64} (hf : x.isFinite = true) : (shortest x).Stripped := by
  obtain ⟨m, places, hshortest, hm, -⟩ := exists_shortest hf
  rw [hshortest]
  exact stripped_strip hm

/-- The shortest digits of a number are read back as that number. -/
theorem ofDecimal_shortest {x : Binary64} (hf : x.isFinite = true) :
    ofDecimal x.negative (shortest x).digits (shortest x).exponent = x := by
  obtain ⟨m, places, hshortest, -, hreads⟩ := exists_shortest hf
  have hvalue := value_strip (width x) ⟨m, places - 1074⟩
  rw [← hshortest] at hvalue
  calc ofDecimal x.negative (shortest x).digits (shortest x).exponent
    _ = ofDecimal x.negative m (places - 1074) := ofDecimal_congr x.negative hvalue
    _ = x := (readsAs_iff hf m places).1 hreads

end Decimal

end UiBinding
