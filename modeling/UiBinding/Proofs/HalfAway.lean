import UiBinding.Evaluation
import UiBinding.Proofs.ExactValue

namespace UiBinding

namespace Binary64

theorem two_mul_roundHalfEven_le (a b : ℕ) : 2 * (roundHalfEven a b * b) ≤ 2 * a + b := by
  have hsplit : a = a / b * b + a % b := by rw [Nat.mul_comm, Nat.div_add_mod]
  have hnext : (a / b + 1) * b = a / b * b + b := Nat.succ_mul _ _
  obtain ⟨hr, he⟩ | ⟨hr, he⟩ | ⟨hr, -, he | he⟩ := roundHalfEven_cases a b <;> rw [he] <;> omega

def roundedUnits (a : ℕ) : ℕ := roundHalfEven a (2 ^ excess 53 a) * 2 ^ excess 53 a

/-- Where the last bit of a number counts more than one, a half that is added is lost. Where it
counts one, there is a tie. -/
theorem roundHalfEven_add_half {k h : ℕ} (hk : h < k) (q : ℕ) :
    roundHalfEven (q * 2 ^ k + 2 ^ h) (2 ^ k) = if k = h + 1 ∧ q % 2 = 1 then q + 1 else q := by
  have hlt : 2 ^ h < 2 ^ k := Nat.pow_lt_pow_right (by decide) hk
  have hdiv : (q * 2 ^ k + 2 ^ h) / 2 ^ k = q := by
    rw [Nat.add_comm, Nat.add_mul_div_right _ _ (Nat.two_pow_pos k), Nat.div_eq_of_lt hlt,
      Nat.zero_add]
  have hmod : (q * 2 ^ k + 2 ^ h) % 2 ^ k = 2 ^ h := by
    rw [Nat.mul_add_mod_self_right, Nat.mod_eq_of_lt hlt]
  rw [roundHalfEven, hdiv, hmod]
  rcases Nat.lt_or_eq_of_le (Nat.succ_le_of_lt hk) with hfar | rfl
  · have hsmall : 2 * 2 ^ h < 2 ^ k := by
      rw [← Nat.pow_succ']
      exact Nat.pow_lt_pow_right (by decide) hfar
    rw [if_pos (.inl hsmall), if_neg (by omega)]
  · rw [Nat.pow_succ']
    rcases Nat.mod_two_eq_zero_or_one q with heven | hodd
    · rw [if_pos (.inr ⟨rfl, heven⟩), if_neg (by omega)]
    · rw [if_neg (by omega), if_pos ⟨rfl, hodd⟩]

theorem excess_add_half {q k h : ℕ} (hq : q < 2 ^ 53) (hnormal : k = 0 ∨ 2 ^ 52 ≤ q) (hk : h < k) :
    excess 53 (q * 2 ^ k + 2 ^ h) = k := by
  have hlt : 2 ^ h < 2 ^ k := Nat.pow_lt_pow_right (by decide) hk
  have hlow := Nat.mul_le_mul_right (2 ^ k) (hnormal.resolve_left (by omega))
  have hhigh := Nat.mul_le_mul_right (2 ^ k) (Nat.succ_le_of_lt hq)
  rw [Nat.succ_mul] at hhigh
  refine excess_eq ?_ ?_
  · rw [Nat.pow_add]
    exact Nat.le_add_right_of_le hlow
  · rw [Nat.pow_add]
    exact Nat.lt_of_lt_of_le (Nat.add_lt_add_left hlt _) hhigh

theorem roundedUnits_of_dvd {a : ℕ} (h : 2 ^ excess 53 a ∣ a) : roundedUnits a = a := by
  rw [roundedUnits, roundHalfEven_of_dvd (Nat.two_pow_pos _) h, Nat.div_mul_cancel h]

theorem two_mul_roundedUnits_le (a : ℕ) : 2 * roundedUnits a ≤ 2 * a + 2 ^ excess 53 a :=
  two_mul_roundHalfEven_le a _

theorem eq_pred_of_near {q k i : ℕ} (hq : q < 2 ^ 53) (hlt : q * 2 ^ k < 2 ^ (53 + i))
    (hnear : 2 ^ (53 + i) ≤ q * 2 ^ k + 2 ^ i) : q * 2 ^ k + 2 ^ i = 2 ^ (53 + i) := by
  rw [Nat.pow_add] at *
  rcases Nat.lt_or_ge k i with hki | hik
  · have hle : q * 2 ^ k ≤ (2 ^ 53 - 1) * 2 ^ k := Nat.mul_le_mul_right _ (by omega)
    have hstep : 2 ^ k < 2 ^ i := Nat.pow_lt_pow_right (by decide) hki
    omega
  · obtain ⟨j, rfl⟩ := Nat.exists_eq_add_of_le hik
    have hu : q * 2 ^ (i + j) + 2 ^ i = (q * 2 ^ j + 1) * 2 ^ i := by ring
    rw [hu] at hnear ⊢
    have hlow := Nat.le_of_mul_le_mul_right hnear (Nat.two_pow_pos i)
    have hu' : q * 2 ^ (i + j) = q * 2 ^ j * 2 ^ i := by ring
    rw [hu'] at hlt
    have hhigh := Nat.lt_of_mul_lt_mul_right hlt
    congr 1
    omega

theorem lt_of_long_sum {q k h n : ℕ} (hlt : q * 2 ^ k + 2 ^ h < (n + 1) * 2 ^ (h + 1))
    (hq : q < 2 ^ 53) (hlarge : 2 ^ h ≤ q * 2 ^ k)
    (hlong : 2 ^ (52 + (k + 1)) ≤ q * 2 ^ k + 2 ^ h) :
    q * 2 ^ k + 2 ^ h + 2 ^ h < (n + 1) * 2 ^ (h + 1) := by
  have hu := mul_two_pow_lt hq k
  have hhk : h < 53 + k :=
    (Nat.pow_lt_pow_iff_right (by decide)).1 (Nat.lt_of_le_of_lt hlarge hu)
  obtain ⟨i, hi⟩ := Nat.exists_eq_add_of_le hhk
  have hpow : 2 ^ (53 + k) = 2 ^ i * 2 ^ (h + 1) := by
    rw [← Nat.pow_add]
    congr 1
    omega
  rw [show 52 + (k + 1) = 53 + k by omega] at hlong
  rw [hpow] at hlong hu
  have hn : 2 ^ i + 1 ≤ n + 1 := Nat.lt_of_mul_lt_mul_right (Nat.lt_of_le_of_lt hlong hlt)
  have hnext := Nat.mul_le_mul_right (2 ^ (h + 1)) hn
  rw [Nat.succ_mul] at hnext
  have hone : 2 ^ (h + 1) = 2 * 2 ^ h := Nat.pow_succ'
  omega

section Carry

variable {q k h n : ℕ} (hlt : q * 2 ^ k + 2 ^ h < (n + 1) * 2 ^ (h + 1))
  (hcarry : roundedUnits (q * 2 ^ k + 2 ^ h) = (n + 1) * 2 ^ (h + 1))

include hlt hcarry

theorem near_half_of_carry (hh : 53 < h) (hsmall : q * 2 ^ k < 2 ^ h) :
    2 ^ h ≤ q * 2 ^ k + 2 ^ (h - 53) := by
  have hnear := two_mul_roundedUnits_le (q * 2 ^ k + 2 ^ h)
  have hone : 2 ^ (h + 1) = 2 * 2 ^ h := Nat.pow_succ'
  have hn : 2 ^ (h + 1) ≤ (n + 1) * 2 ^ (h + 1) := Nat.le_mul_of_pos_left _ n.succ_pos
  rw [hcarry] at hnear
  have hexcess : excess 53 (q * 2 ^ k + 2 ^ h) ≠ 0 := by
    intro hzero
    rw [hzero] at hnear
    omega
  have hbits : 52 + excess 53 (q * 2 ^ k + 2 ^ h) < h + 1 := by
    refine (Nat.pow_lt_pow_iff_right (a := 2) (by decide)).1 ?_
    refine Nat.lt_of_le_of_lt (two_pow_excess_le hexcess) ?_
    omega
  have hstep : 2 ^ excess 53 (q * 2 ^ k + 2 ^ h) ≤ 2 * 2 ^ (h - 53) := by
    rw [← Nat.pow_succ']
    exact Nat.pow_le_pow_right (by decide) (by omega)
  omega

theorem lt_half_of_carry (hq : q < 2 ^ 53) (hk : k ≤ h) : q * 2 ^ k < 2 ^ h := by
  by_contra hlarge
  have hsum : q * 2 ^ k + 2 ^ h < 2 ^ (53 + (k + 1)) := by
    have hu := mul_two_pow_lt hq k
    rw [← Nat.add_assoc, Nat.pow_succ']
    omega
  have hexcess : excess 53 (q * 2 ^ k + 2 ^ h) ≤ k + 1 := excess_le_of_lt (by decide) hsum
  rcases Nat.lt_or_eq_of_le hexcess with hle | heq
  · have hd : 2 ^ excess 53 (q * 2 ^ k + 2 ^ h) ∣ q * 2 ^ k + 2 ^ h :=
      Nat.dvd_add (Nat.dvd_mul_left_of_dvd (Nat.pow_dvd_pow 2 (by omega)) q)
        (Nat.pow_dvd_pow 2 (by omega))
    rw [roundedUnits_of_dvd hd] at hcarry
    omega
  · have hge := two_pow_excess_le (a := q * 2 ^ k + 2 ^ h) (by omega)
    have hnear := two_mul_roundedUnits_le (q * 2 ^ k + 2 ^ h)
    rw [heq] at hge hnear
    rw [hcarry] at hnear
    have hbit : 2 ^ (k + 1) = 2 * 2 ^ k := Nat.pow_succ'
    have hfar := lt_of_long_sum hlt hq (Nat.le_of_not_lt hlarge) hge
    have hstep : 2 ^ k ≤ 2 ^ h := Nat.pow_le_pow_right (by decide) hk
    omega

end Carry

theorem div_roundedUnits {q k h : ℕ} (hq : q < 2 ^ 53) (hk : k ≤ h) (hh : 53 < h) :
    excess 53 (q * 2 ^ k + 2 ^ h) ≤ h + 1 ∧
      (roundedUnits (q * 2 ^ k + 2 ^ h) / 2 ^ (h + 1) = (q * 2 ^ k + 2 ^ h) / 2 ^ (h + 1) ∨
        q * 2 ^ k + 2 ^ (h - 53) = 2 ^ h) := by
  have hexcess : excess 53 (q * 2 ^ k + 2 ^ h) ≤ h + 1 := by
    refine excess_le_of_lt (by decide) ?_
    have hu := mul_two_pow_lt hq k
    have hle : 2 ^ (53 + k) ≤ 2 ^ (53 + h) := Nat.pow_le_pow_right (by decide) (by omega)
    have hhalf : 2 ^ h ≤ 2 ^ (53 + h) := Nat.pow_le_pow_right (by decide) (by omega)
    rw [← Nat.add_assoc, Nat.pow_succ']
    omega
  refine ⟨hexcess, ?_⟩
  obtain ⟨j, hj⟩ := Nat.exists_eq_add_of_le hexcess
  generalize ha : q * 2 ^ k + 2 ^ h = a at *
  have hmul (c : ℕ) : c * 2 ^ (h + 1) = c * 2 ^ j * 2 ^ excess 53 a := by
    rw [hj, Nat.pow_add]
    ring
  have hlow : a / 2 ^ (h + 1) * 2 ^ (h + 1) ≤ roundedUnits a := by
    rw [hmul]
    refine Nat.mul_le_mul_right _ (le_roundHalfEven (Nat.two_pow_pos _) ?_)
    rw [← hmul]
    exact Nat.div_mul_le_self a _
  have hlt : a < (a / 2 ^ (h + 1) + 1) * 2 ^ (h + 1) := by
    rw [Nat.mul_comm]
    exact Nat.lt_mul_div_succ a (Nat.two_pow_pos _)
  have hhigh : roundedUnits a ≤ (a / 2 ^ (h + 1) + 1) * 2 ^ (h + 1) := by
    rw [hmul] at hlt ⊢
    exact Nat.mul_le_mul_right _ (roundHalfEven_le (Nat.two_pow_pos _) hlt.le)
  rcases Nat.lt_or_eq_of_le hhigh with hkept | hcarry
  · exact .inl (Nat.div_eq_of_lt_le hlow hkept)
  · subst ha
    have hsmall := lt_half_of_carry hlt hcarry hq hk
    have hnear := near_half_of_carry hlt hcarry hh hsmall
    obtain ⟨i, rfl⟩ := Nat.exists_eq_add_of_le hh.le
    rw [Nat.add_sub_cancel_left] at *
    exact .inr (eq_pred_of_near hq hsmall hnear)

def halfAdded (u : ℕ) : Binary64 := ofUnits false (u + half.units) 1

theorem abs_add_half {x : Binary64} (hf : x.isFinite = true) :
    x.abs.add half = halfAdded x.units := by
  obtain ⟨hnan, hinf⟩ : x.abs.isNaN = false ∧ x.abs.isInfinite = false := isFinite_iff.1 hf
  have hhalf : half.isNaN = false ∧ half.isInfinite = false := by decide
  have hpos : 0 < half.units := by decide +kernel
  have hsum : x.abs.signedUnits + half.signedUnits = ((x.units + half.units : ℕ) : ℤ) := rfl
  have hzero : ¬ ((x.units + half.units : ℕ) : ℤ) = 0 := by omega
  have hneg : ¬ ((x.units + half.units : ℕ) : ℤ) < 0 := by omega
  simp only [add, hnan, hinf, hhalf.1, hhalf.2, hsum, Bool.or_false, Bool.false_eq_true, if_false]
  rw [if_neg hzero, decide_eq_false hneg, Int.natAbs_natCast, halfAdded]

theorem abs_toRat_eq_natCast_iff {x : Binary64} {n : ℕ} : |x.toRat| = n ↔ x.units = n * one := by
  rw [abs_toRat, div_eq_iff one_cast_pos.ne', ← Nat.cast_mul, Nat.cast_inj]

def belowHalf : Binary64 := ⟨false, 0x3FDFFFFFFFFFFFFF, by decide⟩

/-- The numbers for which the sum with one half is rounded up to an integer that is not the nearest
one: the number just below one half, and the odd integers whose last bit counts one. -/
inductive CarriesOver (x : Binary64) : Prop
  | belowHalf (h : |x.toRat| = 1 / 2 - 2 ^ (-54 : ℤ))
  | odd (n : ℕ) (hodd : n % 2 = 1) (hlow : 2 ^ 52 < n) (hhigh : n < 2 ^ 53) (h : |x.toRat| = n)

section Halves

variable {h : ℕ} (hh : h = 1073)

include hh

theorem half_units : half.units = 2 ^ h ∧ one = 2 ^ (h + 1) := by
  refine ⟨?_, one_eq (by omega)⟩
  subst hh
  decide +kernel

theorem belowHalf_units : belowHalf.units + 2 ^ (h - 53) = 2 ^ h := by
  subst hh
  decide +kernel

theorem belowHalf_iff {x : Binary64} :
    |x.toRat| = 1 / 2 - 2 ^ (-54 : ℤ) ↔ x.units + 2 ^ (h - 53) = 2 ^ h := by
  obtain ⟨i, rfl⟩ := Nat.exists_eq_add_of_le (by omega : 53 ≤ h)
  have hone : (one : ℚ) = 2 ^ 54 * 2 ^ i := by
    rw [one_eq (n := 54 + i) (by omega), Nat.cast_pow, Nat.cast_ofNat, pow_add]
  have hbound : (1 / 2 - 2 ^ (-54 : ℤ)) * (one : ℚ) = 2 ^ (53 + i) - 2 ^ i := by
    rw [hone, pow_add]
    generalize (2 ^ i : ℚ) = step
    norm_num
    ring
  rw [abs_toRat, div_eq_iff one_cast_pos.ne', hbound, eq_sub_iff_add_eq, Nat.add_sub_cancel_left]
  exact_mod_cast Iff.rfl

theorem halfAdded_belowHalf {u : ℕ} (hu : u + 2 ^ (h - 53) = 2 ^ h) :
    (halfAdded u).isFinite = true ∧ (halfAdded u).units / one = u / one + 1 := by
  obtain rfl : u = belowHalf.units := Nat.add_right_cancel (hu.trans (belowHalf_units hh).symm)
  decide +kernel

theorem halfAdded_odd {n : ℕ} (hodd : n % 2 = 1) (hlow : 2 ^ 52 ≤ n) (hhigh : n < 2 ^ 53) :
    (halfAdded (n * one)).isFinite = true ∧ (halfAdded (n * one)).units / one = n + 1 := by
  obtain ⟨hhalf, hone⟩ := half_units hh
  have hexcess := excess_add_half hhigh (.inr hlow) (Nat.lt_add_one h)
  have hround := roundHalfEven_add_half (Nat.lt_add_one h) n
  rw [if_pos ⟨rfl, hodd⟩] at hround
  rw [halfAdded, hhalf, hone]
  refine ⟨isFinite_ofUnits (by decide) (by rw [Nat.div_one]; omega), ?_⟩
  rw [units_ofUnits_eq (by omega), hexcess, hround, Nat.mul_div_cancel _ (Nat.two_pow_pos _)]

variable {x : Binary64}

theorem halfAdded_lost (hf : x.isFinite = true) {k q : ℕ} (hm : x.magnitude = k * hidden + q)
    (hq : q < 2 ^ 53) (hnormal : k = 0 ∨ 2 ^ 52 ≤ q) (hk : h < k)
    (heven : ¬ (k = h + 1 ∧ q % 2 = 1)) :
    halfAdded x.units = x.abs ∧ x.units / one = (x.units + half.units) / one := by
  obtain ⟨hhalf, hone⟩ := half_units hh
  have hunits : x.units = q * 2 ^ k := units_of_magnitude hm hq hnormal
  have hround := roundHalfEven_add_half hk q
  rw [if_neg heven] at hround
  have hn : nearest (x.units + half.units) 1 = x.magnitude := by
    rw [hunits, hhalf, nearest, Nat.div_one, excess_add_half hq hnormal hk, Nat.one_shiftLeft,
      hround, hm]
  have hlt : x.magnitude < top := by simpa [isFinite] using hf
  have hmin : min top (nearest (x.units + half.units) 1) = x.magnitude := by
    rw [hn, Nat.min_eq_right hlt.le]
  refine ⟨by simp only [halfAdded, ofUnits, hmin]; rfl, ?_⟩
  obtain ⟨j, rfl⟩ := Nat.exists_eq_add_of_le (Nat.succ_le_of_lt hk)
  have hwhole : q * 2 ^ (h + 1 + j) = q * 2 ^ j * 2 ^ (h + 1) := by ring
  have hlost : 2 ^ h < 2 ^ (h + 1) := Nat.pow_lt_pow_right (by decide) (Nat.lt_add_one h)
  rw [hunits, hhalf, hone, hwhole, Nat.mul_div_cancel _ (Nat.two_pow_pos _), Nat.add_comm,
    Nat.add_mul_div_right _ _ (Nat.two_pow_pos _), Nat.div_eq_of_lt hlost, Nat.zero_add]

theorem halfAdded_small (hnot : ¬ x.CarriesOver) {k q : ℕ} (hm : x.magnitude = k * hidden + q)
    (hq : q < 2 ^ 53) (hnormal : k = 0 ∨ 2 ^ 52 ≤ q) (hk : k ≤ h) :
    (halfAdded x.units).isFinite = true ∧
      (halfAdded x.units).units / one = (x.units + half.units) / one := by
  obtain ⟨hhalf, hone⟩ := half_units hh
  have hunits : x.units = q * 2 ^ k := units_of_magnitude hm hq hnormal
  obtain ⟨hexcess, hdiv⟩ := div_roundedUnits hq hk (by omega)
  rw [halfAdded, hhalf, hone, hunits]
  refine ⟨isFinite_ofUnits (by decide) (by rw [Nat.div_one]; omega), ?_⟩
  rw [units_ofUnits_eq (by omega)]
  refine hdiv.resolve_right fun hbelow => hnot (.belowHalf ((belowHalf_iff hh).2 ?_))
  rw [hunits, hbelow]

end Halves

theorem div_halfAdded_of_carriesOver {x : Binary64} (hcarry : x.CarriesOver) :
    (halfAdded x.units).isFinite = true ∧
      (halfAdded x.units).units / one = x.units / one + 1 := by
  obtain ⟨h, hh⟩ : ∃ h, h = 1073 := ⟨_, rfl⟩
  cases hcarry with
  | belowHalf hbelow => exact halfAdded_belowHalf hh ((belowHalf_iff hh).1 hbelow)
  | odd n hodd hlow hhigh hn =>
    rw [abs_toRat_eq_natCast_iff.1 hn, Nat.mul_div_cancel _ one_pos]
    exact halfAdded_odd hh hodd hlow.le hhigh

/-- The integer part of the sum is the one of the exact sum, unless the rounding carries over. -/
theorem div_halfAdded {x : Binary64} (hf : x.isFinite = true) (hnot : ¬ x.CarriesOver) :
    (halfAdded x.units).isFinite = true ∧
      (halfAdded x.units).units / one = (x.units + half.units) / one := by
  obtain ⟨h, hh⟩ : ∃ h, h = 1073 := ⟨_, rfl⟩
  obtain ⟨k, q, hm, hq, hnormal⟩ := exists_significand x
  rcases Nat.lt_or_ge h k with hk | hk
  swap
  · exact halfAdded_small hh hnot hm hq hnormal hk
  by_cases hodd : k = h + 1 ∧ q % 2 = 1
  · obtain ⟨rfl, hodd⟩ := hodd
    have hlow : 2 ^ 52 ≤ q := hnormal.resolve_left (Nat.succ_ne_zero h)
    refine absurd (CarriesOver.odd q hodd (by omega) hq ?_) hnot
    rw [abs_toRat_eq_natCast_iff, (half_units hh).2]
    exact units_of_magnitude hm hq hnormal
  · obtain ⟨hlost, hdiv⟩ := halfAdded_lost hh hf hm hq hnormal hk hodd
    rw [hlost]
    exact ⟨hf, hdiv⟩

section CopySign

variable (x y : Binary64)

@[simp] theorem isFinite_copySign : (x.copySign y).isFinite = x.isFinite := rfl

@[simp] theorem negative_copySign : (x.copySign y).negative = y.negative := rfl

@[simp] theorem units_copySign : (x.copySign y).units = x.units := rfl

end CopySign

theorem units_roundHalfAway {x : Binary64} (hf : x.isFinite = true)
    (hsum : (halfAdded x.units).isFinite = true) :
    x.roundHalfAway.isFinite = true ∧ x.roundHalfAway.negative = x.negative ∧
      x.roundHalfAway.units = (halfAdded x.units).units / one * one := by
  have htruncate : (halfAdded x.units).truncate = ((halfAdded x.units).units / one : ℕ) := by
    rw [truncate, halfAdded, negative_ofUnits, if_neg (by decide)]
  have hround : x.roundHalfAway = (ofInt (halfAdded x.units).truncate).copySign x := by
    rw [roundHalfAway, if_pos hf, abs_add_half hf]
  obtain ⟨hfinite, hunits⟩ := ofInt_of_exact (exact_truncate hsum)
  rw [htruncate] at hround hfinite hunits
  generalize (halfAdded x.units).units / one = n at *
  have hn := units_eq_of_signedUnits hunits
  rw [Int.natAbs_natCast] at hn
  rw [hround, isFinite_copySign, negative_copySign, units_copySign]
  exact ⟨hfinite, rfl, hn⟩

theorem eq_of_units {x y : Binary64} (hneg : x.negative = y.negative) (h : x.units = y.units) :
    x = y := by
  have hmagnitude : x.magnitude = y.magnitude := by
    rcases Nat.lt_trichotomy x.magnitude y.magnitude with hlt | heq | hgt
    · exact absurd h (units_lt hlt).ne
    · exact heq
    · exact absurd h (units_lt hgt).ne'
  obtain ⟨_, _, _⟩ := x
  obtain ⟨_, _, _⟩ := y
  simp_all

/-- `r` is the integer nearest to `x`, halves away from zero. -/
structure RoundsHalfAway (x r : Binary64) : Prop where
  finite : r.isFinite = true
  integral : ∃ n : ℤ, r.toRat = n
  negative_eq : r.negative = x.negative
  near : |r.toRat - x.toRat| ≤ 1 / 2
  away : |r.toRat - x.toRat| = 1 / 2 → |x.toRat| < |r.toRat|
  whole : ∀ n : ℤ, x.toRat = n → r = x

theorem two_mul_half : 2 * half.units = one := by
  obtain ⟨h, hh⟩ : ∃ h, h = 1073 := ⟨_, rfl⟩
  obtain ⟨hhalf, hone⟩ := half_units hh
  rw [hhalf, hone, Nat.pow_succ']

theorem div_one_le_half_iff {d : ℕ} : (d / one : ℚ) ≤ 1 / 2 ↔ d ≤ half.units := by
  rw [div_le_div_iff₀ one_cast_pos two_pos, one_mul, ← two_mul_half]
  norm_cast
  omega

theorem div_one_eq_half_iff {d : ℕ} : (d / one : ℚ) = 1 / 2 ↔ d = half.units := by
  rw [div_eq_div_iff one_cast_pos.ne' two_ne_zero, one_mul, ← two_mul_half]
  norm_cast
  omega

section Rounded

variable {x r : Binary64} {n : ℕ} (hneg : r.negative = x.negative) (hr : r.units = n * one)

include hneg hr

theorem abs_toRat_sub : |r.toRat - x.toRat| = ((n * one : ℕ) - x.units : ℤ).natAbs / one := by
  have hsigned : r.toRat = x.signed r.units := by rw [toRat_eq_signed, signed, signed, hneg]
  rw [hsigned, toRat_eq_signed x, abs_signed_sub, hr]

theorem roundsHalfAway_of_div (hfinite : r.isFinite = true)
    (hn : n = (x.units + half.units) / one) : x.RoundsHalfAway r := by
  have hlow : n * one ≤ x.units + half.units := hn ▸ Nat.div_mul_le_self _ _
  have hhigh : x.units + half.units < n * one + one := by
    rw [← Nat.succ_mul, hn, Nat.mul_comm]
    exact Nat.lt_mul_div_succ _ one_pos
  have htwo := two_mul_half
  refine ⟨hfinite, ?_, hneg, ?_, ?_, ?_⟩
  · refine ⟨if r.negative then -n else n, toRat_eq_intCast_iff.2 ?_⟩
    rw [signedUnits, hr]
    split <;> push_cast <;> ring
  · rw [abs_toRat_sub hneg hr, div_one_le_half_iff]
    omega
  · rw [abs_toRat_sub hneg hr, div_one_eq_half_iff]
    intro htie
    rw [abs_toRat, abs_toRat, div_lt_div_iff_of_pos_right one_cast_pos, Nat.cast_lt, hr]
    have := one_pos
    omega
  · intro m hm
    have hx := units_eq_of_signedUnits (toRat_eq_intCast_iff.1 hm)
    refine eq_of_units hneg ?_
    have hhalf : half.units < one := by
      have := one_pos
      omega
    rw [hr, hn, hx, Nat.add_comm, Nat.add_mul_div_right _ _ one_pos, Nat.div_eq_of_lt hhalf,
      Nat.zero_add]

theorem not_near_of_carriesOver (hcarry : x.CarriesOver) (hn : n = x.units / one + 1) :
    ¬ |r.toRat - x.toRat| ≤ 1 / 2 := by
  have htwo := two_mul_half
  have hpos := one_pos
  rw [abs_toRat_sub hneg hr, div_one_le_half_iff, hn, Nat.succ_mul]
  cases hcarry with
  | belowHalf hbelow =>
    have hlt : x.units < half.units := by
      obtain ⟨h, hh⟩ : ∃ h, h = 1073 := ⟨_, rfl⟩
      have hstep := Nat.two_pow_pos (h - 53)
      have hunits := (belowHalf_iff hh).1 hbelow
      rw [(half_units hh).1]
      omega
    rw [Nat.div_eq_of_lt (by omega)]
    omega
  | odd m _ _ _ hm =>
    rw [abs_toRat_eq_natCast_iff.1 hm, Nat.mul_div_cancel _ hpos]
    omega

end Rounded

theorem floor_abs_toRat (x : Binary64) : ⌊|x.toRat|⌋₊ = x.units / one := by
  rw [abs_toRat, Rat.natFloor_natCast_div_natCast]

theorem roundHalfAway_of_not_finite {x : Binary64} (hf : x.isFinite = false) :
    x.roundHalfAway = x := by
  rw [roundHalfAway, hf, if_neg Bool.false_ne_true]

theorem roundsHalfAway_roundHalfAway {x : Binary64} (hf : x.isFinite = true)
    (hnot : ¬ x.CarriesOver) : x.RoundsHalfAway x.roundHalfAway := by
  obtain ⟨hsum, hdiv⟩ := div_halfAdded hf hnot
  obtain ⟨hfinite, hneg, hunits⟩ := units_roundHalfAway hf hsum
  exact roundsHalfAway_of_div hneg hunits hfinite hdiv

theorem roundHalfAway_of_carriesOver {x : Binary64} (hf : x.isFinite = true)
    (hcarry : x.CarriesOver) : ¬ x.RoundsHalfAway x.roundHalfAway ∧
      x.roundHalfAway.negative = x.negative ∧ |x.roundHalfAway.toRat| = ⌊|x.toRat|⌋₊ + 1 := by
  obtain ⟨hsum, hdiv⟩ := div_halfAdded_of_carriesOver hcarry
  obtain ⟨-, hneg, hunits⟩ := units_roundHalfAway hf hsum
  refine ⟨fun h => not_near_of_carriesOver hneg hunits hcarry hdiv h.near, hneg, ?_⟩
  rw [floor_abs_toRat, ← Nat.cast_succ, abs_toRat_eq_natCast_iff, hunits, hdiv]

end Binary64

/-- A cast rounds to the nearest integer, halves away from zero, unless the sum with one half
carries over: the next integer is the result then. -/
theorem cast_rounds_half_away_iff (types : Catalog) (depth : ℕ) (scope : Scope) (s : State)
    (x : Binary64) :
    ∃ r, (Evaluation.eval types (depth + 2) scope (.cast (.number x) .int32)).run s =
        (.ok (.value (.number r)), s) ∧
      (x.isFinite = false → r = x) ∧
      (x.isFinite = true → (x.RoundsHalfAway r ↔ ¬ x.CarriesOver)) ∧
      (x.isFinite = true → x.CarriesOver →
        r.negative = x.negative ∧ |r.toRat| = ⌊|x.toRat|⌋₊ + 1) := by
  refine ⟨x.roundHalfAway, rfl, Binary64.roundHalfAway_of_not_finite, fun hf => ⟨?_, ?_⟩,
    fun hf hcarry => (Binary64.roundHalfAway_of_carriesOver hf hcarry).2⟩
  · exact fun h hcarry => (Binary64.roundHalfAway_of_carriesOver hf hcarry).1 h
  · exact Binary64.roundsHalfAway_roundHalfAway hf

namespace Sample

/-- The number just below one half is cast to one, although zero is nearer. -/
theorem belowHalf_cast :
    Binary64.belowHalf.isFinite = true ∧
      (Evaluation.eval [] 2 ⟨64, 0, .outermost 0 ⟨0, 0⟩⟩
        (.cast (.number Binary64.belowHalf) .int32)).run State.empty =
          (.ok (.value (.number (Binary64.ofInt 1))), State.empty) ∧
      ¬ Binary64.belowHalf.RoundsHalfAway (Binary64.ofInt 1) := by
  have hround : Binary64.belowHalf.roundHalfAway = Binary64.ofInt 1 := by decide +kernel
  have hcarry : Binary64.belowHalf.CarriesOver := by
    obtain ⟨h, hh⟩ : ∃ h, h = 1073 := ⟨_, rfl⟩
    exact .belowHalf ((Binary64.belowHalf_iff hh).2 (Binary64.belowHalf_units hh))
  rw [← hround]
  exact ⟨rfl, rfl, (Binary64.roundHalfAway_of_carriesOver rfl hcarry).1⟩

end Sample

end UiBinding
