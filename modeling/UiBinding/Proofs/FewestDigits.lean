import UiBinding.Proofs.ShortestDecimal

namespace UiBinding

namespace Binary64

theorem roundHalfEven_mono {a a' b : ℕ} (h : a ≤ a') : roundHalfEven a b ≤ roundHalfEven a' b := by
  have hdiv : a / b ≤ a' / b := Nat.div_le_div_right h
  obtain hlt | heq := Nat.lt_or_eq_of_le hdiv
  · have hround := roundHalfEven_cases a b
    have hround' := roundHalfEven_cases a' b
    omega
  · have hmod : a % b ≤ a' % b := by
      have hsplit := Nat.div_add_mod a b
      have hsplit' := Nat.div_add_mod a' b
      rw [heq] at hsplit
      omega
    rw [roundHalfEven, roundHalfEven, heq]
    split <;> split <;> omega

theorem excess_mono {width m n : ℕ} (hw : 0 < width) (h : m ≤ n) :
    excess width m ≤ excess width n :=
  excess_le_of_lt hw (Nat.lt_of_le_of_lt h (lt_two_pow_excess width n))

theorem nearest_mono_left {a a' b : ℕ} (hb : 0 < b) (h : a ≤ a') : nearest a b ≤ nearest a' b := by
  have hexcess : excess 53 (a / b) ≤ excess 53 (a' / b) :=
    excess_mono (by decide) (Nat.div_le_div_right h)
  obtain hlt | heq := Nat.lt_or_eq_of_le hexcess
  · calc nearest a b
      _ ≤ (excess 53 (a / b) + 2) * hidden := nearest_le a b hb
      _ ≤ (excess 53 (a' / b) + 1) * hidden := Nat.mul_le_mul_right _ (by omega)
      _ ≤ nearest a' b := le_nearest hb (by omega)
  · rw [nearest, nearest, heq]
    exact Nat.add_le_add_left (roundHalfEven_mono h) _

theorem nearest_mono {a b a' b' : ℕ} (hb : 0 < b) (hb' : 0 < b') (h : (a / b : ℚ) ≤ a' / b') :
    nearest a b ≤ nearest a' b' := by
  have hcross : a * b' ≤ a' * b := by
    rw [div_le_div_iff₀ (Nat.cast_pos.2 hb) (Nat.cast_pos.2 hb')] at h
    exact_mod_cast h
  rw [← nearest_mul_right a b hb', ← nearest_mul_right a' b' hb, Nat.mul_comm b' b]
  exact nearest_mono_left (Nat.mul_pos hb hb') hcross

theorem two_mul_natAbs_sub_le {a b : ℕ} (hb : 0 < b) :
    2 * ((a : ℤ) - (roundHalfEven a b * b : ℕ)).natAbs ≤ b := by
  have hsplit : a = a / b * b + a % b := by rw [Nat.mul_comm, Nat.div_add_mod]
  have hmod := Nat.mod_lt a hb
  have hnext : (a / b + 1) * b = a / b * b + b := Nat.succ_mul _ _
  obtain ⟨hr, he⟩ | ⟨hr, he⟩ | ⟨hr, -, he | he⟩ := roundHalfEven_cases a b <;> rw [he] <;> omega

theorem roundHalfEven_of_near {c q step : ℕ}
    (h : 2 * ((c : ℤ) - (q * step : ℕ)).natAbs < step) : roundHalfEven c step = q := by
  have hround := two_mul_natAbs_sub_le (a := c) (b := step) (by omega)
  generalize roundHalfEven c step = r at *
  rcases Nat.lt_trichotomy r q with hlt | heq | hgt
  · have hstep : (r + 1) * step ≤ q * step := Nat.mul_le_mul_right step hlt
    rw [Nat.succ_mul] at hstep
    omega
  · exact heq
  · have hstep : (q + 1) * step ≤ r * step := Nat.mul_le_mul_right step hgt
    rw [Nat.succ_mul] at hstep
    omega

theorem nearest_eq {c b e q : ℕ} (he : excess 53 (c / b) = e)
    (h : 2 * ((c : ℤ) - (q * (b * 2 ^ e) : ℕ)).natAbs < b * 2 ^ e) :
    nearest c b = e * hidden + q := by
  rw [nearest, he, Nat.shiftLeft_eq, roundHalfEven_of_near h]

theorem div_lt_two_pow {c b e : ℕ} (hb : 0 < b) (h : c < 2 ^ 53 * (b * 2 ^ e)) :
    c / b < 2 ^ (53 + e) := by
  rw [Nat.div_lt_iff_lt_mul hb, Nat.pow_add]
  calc c
    _ < 2 ^ 53 * (b * 2 ^ e) := h
    _ = 2 ^ 53 * 2 ^ e * b := by ring

theorem two_pow_le_div {c b e : ℕ} (hb : 0 < b) (h : 2 ^ 52 * (b * 2 ^ e) ≤ c) :
    2 ^ (52 + e) ≤ c / b := by
  rw [Nat.le_div_iff_mul_le hb, Nat.pow_add]
  calc 2 ^ 52 * 2 ^ e * b
    _ = 2 ^ 52 * (b * 2 ^ e) := by ring
    _ ≤ c := h

/-- Seventeen digits are closer to a finite number than half its last bit, also below a power of
two, where the bits are half as long. -/
theorem nearest_of_near {x : Binary64} {c b : ℕ} (hb : 0 < b)
    (h : 2 * 10 ^ 16 * ((c : ℤ) - (x.units * b : ℕ)).natAbs ≤ x.units * b) :
    nearest c b = x.magnitude := by
  obtain ⟨e, q, hm, hq, he⟩ := exists_significand x
  have hunits : x.units * b = q * (b * 2 ^ e) := by
    rw [units_of_magnitude hm hq he]
    ring
  have hbits : hidden = 2 ^ 52 := by decide
  have hstep : 0 < b * 2 ^ e := Nat.mul_pos hb (Nat.two_pow_pos e)
  have hnext : (q + 1) * (b * 2 ^ e) ≤ 2 ^ 53 * (b * 2 ^ e) := Nat.mul_le_mul_right _ (by omega)
  rw [Nat.succ_mul] at hnext
  rw [hunits] at h
  by_cases hlow : e = 0 ∨ 2 ^ 52 * (b * 2 ^ e) ≤ c
  · have hhigh : c / b < 2 ^ (53 + e) := div_lt_two_pow hb (by omega)
    have hexcess : excess 53 (c / b) = e := by
      obtain rfl | hlow := hlow
      · exact Nat.le_zero.1 (excess_le_of_lt (by decide) hhigh)
      · exact excess_eq (two_pow_le_div hb hlow) hhigh
    have hnear : 2 * ((c : ℤ) - (q * (b * 2 ^ e) : ℕ)).natAbs < b * 2 ^ e := by omega
    rw [nearest_eq hexcess hnear, hm]
  · obtain ⟨i, rfl⟩ : ∃ i, e = i + 1 := ⟨e - 1, by omega⟩
    have hleast : q = 2 ^ 52 := by
      by_contra hne
      have hmul : (2 ^ 52 + 1) * (b * 2 ^ (i + 1)) ≤ q * (b * 2 ^ (i + 1)) :=
        Nat.mul_le_mul_right _ (by omega)
      omega
    have hhalf : q * (b * 2 ^ (i + 1)) = 2 ^ 53 * (b * 2 ^ i) := by
      rw [hleast]
      ring
    have hless : c < 2 ^ 53 * (b * 2 ^ i) := by
      rw [← hhalf, hleast]
      omega
    rw [hhalf] at h
    have hexcess : excess 53 (c / b) = i :=
      excess_eq (two_pow_le_div hb (by omega)) (div_lt_two_pow hb hless)
    have hnear : 2 * ((c : ℤ) - (2 ^ 53 * (b * 2 ^ i) : ℕ)).natAbs < b * 2 ^ i := by
      have hpos : 0 < b * 2 ^ i := Nat.mul_pos hb (Nat.two_pow_pos i)
      omega
    rw [nearest_eq hexcess hnear, hm, hleast, hbits]
    ring

end Binary64

open Binary64

namespace Decimal

variable {x : Binary64} {digits : ℕ} {exponent : ℤ}

section Reading

variable (hf : x.isFinite = true) (h : ofDecimal x.negative digits exponent = x)

include hf h

/-- What is between the number and a decimal number that is read as it is read as it too. -/
theorem readsAs_of_between {c : ℕ}
    (hc : (digits * 10 ^ exponent : ℚ) ≤ c * 10 ^ (-1074 : ℤ) ∧ c ≤ scaled x ∨
      (c * 10 ^ (-1074 : ℤ) : ℚ) ≤ digits * 10 ^ exponent ∧ scaled x ≤ c) :
    readsAs x c = true := by
  obtain ⟨a, b, hb, hvalue, hnearest⟩ := exists_nearest_eq hf h
  obtain ⟨k, hk⟩ : ∃ k, k = 1074 := ⟨_, rfl⟩
  have hpos : 0 < 5 ^ k := Nat.pow_pos (by decide)
  have hunits := mul_ten_zpow_mul_one hk c
  have hself := readsAs_scaled hf
  rw [readsAs_eq hk, beq_iff_eq] at hself ⊢
  obtain ⟨hle, hc⟩ | ⟨hle, hc⟩ := hc
  · have hlow : nearest a b ≤ nearest c (5 ^ k) := by
      refine nearest_mono hb hpos ?_
      rw [← hvalue, ← hunits]
      exact mul_le_mul_of_nonneg_right hle one_cast_pos.le
    have hhigh := nearest_mono_left hpos hc
    omega
  · have hhigh : nearest c (5 ^ k) ≤ nearest a b := by
      refine nearest_mono hpos hb ?_
      rw [← hvalue, ← hunits]
      exact mul_le_mul_of_nonneg_right hle one_cast_pos.le
    have hlow := nearest_mono_left hpos hc
    omega

end Reading

theorem isSome_neighbour? {n step : ℕ}
    (h : readsAs x (n / step * step) = true ∨ readsAs x ((n / step + 1) * step) = true) :
    (neighbour? x n step).isSome := by
  simp only [neighbour?]
  split
  · rfl
  split
  · rfl
  split
  · rfl
  · simp_all

theorem digits_strip (fuel : ℕ) (d : Decimal) : ∃ t, (strip fuel d).digits * 10 ^ t = d.digits := by
  induction fuel generalizing d with
  | zero => exact ⟨0, by simp [strip]⟩
  | succ fuel ih =>
      rw [strip]
      split
      · rename_i h
        obtain ⟨t, ht⟩ := ih ⟨d.digits / 10, d.exponent + 1⟩
        refine ⟨t + 1, ?_⟩
        simp only at ht
        rw [Nat.pow_succ, ← Nat.mul_assoc, ht]
        omega
      · exact ⟨0, by simp⟩

theorem Stripped.digits_lt {d : Decimal} (h : d.Stripped) {t m count : ℕ} (hpos : 0 < count)
    (hm : d.digits * 10 ^ t = m) (hle : m ≤ 10 ^ count) : d.digits < 10 ^ count := by
  obtain ⟨k, rfl⟩ : ∃ k, count = k + 1 := ⟨count - 1, by omega⟩
  have hten : 0 < 10 ^ k := Nat.pow_pos (by decide)
  rw [Stripped] at h
  rw [Nat.pow_succ] at hle ⊢
  cases t with
  | zero =>
      rw [Nat.pow_zero, Nat.mul_one] at hm
      omega
  | succ t =>
      have hgrow : d.digits ≤ d.digits * 10 ^ t :=
        Nat.le_mul_of_pos_right _ (Nat.pow_pos (by decide))
      rw [Nat.pow_succ, ← Nat.mul_assoc] at hm
      omega

theorem le_scaled {k p : ℕ} (hw : width x = k + 1 + p) (hpos : 0 < k + p) :
    10 ^ k * 10 ^ p ≤ scaled x := by
  rw [← Nat.pow_add]
  by_contra hlt
  have hle : width x ≤ k + p := (Nat.length_toDigits_le_iff (by decide) hpos).2 (not_le.1 hlt)
  omega

theorem le_exponent_of_above {k p : ℕ} (hw : width x = k + 1 + p) (hp : 0 < k + p)
    (hlt : digits < 10 ^ (k + 1))
    (h : ((scaled x / 10 ^ p * 10 ^ p : ℕ) * 10 ^ (-1074 : ℤ) : ℚ) < digits * 10 ^ exponent) :
    (p : ℤ) ≤ exponent + 1074 := by
  by_contra hsmall
  have hmultiple : 10 ^ k * 10 ^ p ≤ scaled x / 10 ^ p * 10 ^ p := by
    refine Nat.mul_le_mul_right _ ((Nat.le_div_iff_mul_le (Nat.pow_pos (by decide))).2 ?_)
    exact le_scaled hw hp
  refine not_le.2 h ?_
  calc (digits * 10 ^ exponent : ℚ)
    _ ≤ 10 ^ (k + 1) * 10 ^ exponent :=
        mul_le_mul_of_nonneg_right (by exact_mod_cast Nat.le_of_lt hlt) (ten_zpow_pos _).le
    _ = 10 ^ ((k + 1 : ℕ) + exponent) := by rw [zpow_add₀ (by norm_num), zpow_natCast]
    _ ≤ 10 ^ ((k + p : ℕ) + -1074 : ℤ) := zpow_le_zpow_right₀ (by norm_num) (by omega)
    _ = (10 ^ k * 10 ^ p : ℕ) * 10 ^ (-1074 : ℤ) := by
        rw [zpow_add₀ (by norm_num), zpow_natCast, pow_add, Nat.cast_mul, Nat.cast_pow,
          Nat.cast_pow, Nat.cast_ofNat]
    _ ≤ (scaled x / 10 ^ p * 10 ^ p : ℕ) * 10 ^ (-1074 : ℤ) :=
        mul_le_mul_of_nonneg_right (Nat.cast_le.2 hmultiple) (ten_zpow_pos _).le

theorem div_lt_of_width (x : Binary64) {count : ℕ} :
    scaled x / 10 ^ (width x - count) < 10 ^ count := by
  rw [Nat.div_lt_iff_lt_mul (Nat.pow_pos (by decide)), ← Nat.pow_add]
  exact Nat.lt_of_lt_of_le (scaled_lt x) (Nat.pow_le_pow_right (by decide) (by omega))

theorem exists_first_attempt {i : ℕ} (hi : i < 17)
    (h : (neighbour? x (scaled x) (10 ^ (width x - (i + 1)))).isSome) : ∃ j m, j ≤ i ∧
      neighbour? x (scaled x) (10 ^ (width x - (j + 1))) = some m ∧
      shortest x = strip (width x) ⟨m, (width x - (j + 1) : ℕ) - 1074⟩ := by
  rw [shortest]
  generalize hattempt : (List.range 17).findSome? _ = found
  cases found with
  | none =>
      have hnone := List.findSome?_eq_none_iff.1 hattempt i (List.mem_range.2 hi)
      exact absurd (Option.map_eq_none_iff.1 hnone) (Option.isSome_iff_ne_none.1 h)
  | some d =>
      obtain ⟨before, j, after, hrange, hd, hbefore⟩ := List.findSome?_eq_some_iff.1 hattempt
      obtain ⟨m, hm, rfl⟩ := Option.map_eq_some_iff.1 hd
      refine ⟨j, m, ?_, hm, rfl⟩
      have horder := List.pairwise_lt_range (n := 17)
      have hmem := List.mem_range.2 hi
      rw [hrange] at horder hmem
      obtain hmem | hmem := List.mem_append.1 hmem
      · have hnone := Option.map_eq_none_iff.1 (hbefore i hmem)
        exact absurd hnone (Option.isSome_iff_ne_none.1 h)
      · obtain rfl | hafter := List.mem_cons.1 hmem
        · exact Nat.le_refl _
        · have hlater := (List.pairwise_append.1 horder).2.1
          exact Nat.le_of_lt ((List.pairwise_cons.1 hlater).1 i hafter)

section Attempts

variable (hf : x.isFinite = true)

include hf

theorem isSome_of_width_le {count : ℕ} (hcount : width x ≤ count) :
    (neighbour? x (scaled x) (10 ^ (width x - count))).isSome := by
  refine isSome_neighbour? (.inl ?_)
  rw [Nat.sub_eq_zero_of_le hcount, Nat.pow_zero, Nat.div_one, Nat.mul_one]
  exact readsAs_scaled hf

theorem isSome_of_reads (h : ofDecimal x.negative digits exponent = x) {k : ℕ}
    (hlt : digits < 10 ^ (k + 1)) :
    (neighbour? x (scaled x) (10 ^ (width x - (k + 1)))).isSome := by
  obtain hwidth | hwidth := Nat.lt_or_ge (k + 1) (width x)
  swap
  · exact isSome_of_width_le hf hwidth
  obtain ⟨p, hp⟩ := Nat.exists_eq_add_of_le (Nat.le_of_lt hwidth)
  have hstep : 0 < 10 ^ p := Nat.pow_pos (by decide)
  refine isSome_neighbour? ?_
  rw [hp, Nat.add_sub_cancel_left]
  by_cases hle : (digits * 10 ^ exponent : ℚ) ≤
      (scaled x / 10 ^ p * 10 ^ p : ℕ) * 10 ^ (-1074 : ℤ)
  · exact .inl (readsAs_of_between hf h (.inl ⟨hle, Nat.div_mul_le_self _ _⟩))
  right
  have hexponent := le_exponent_of_above hp (by omega) hlt (not_le.1 hle)
  obtain ⟨i, hi⟩ := Int.eq_ofNat_of_zero_le (a := exponent + 1074 - p) (by omega)
  have hvalue : (digits * 10 ^ exponent : ℚ) =
      (digits * 10 ^ i * 10 ^ p : ℕ) * 10 ^ (-1074 : ℤ) := by
    have hsum : exponent = i + p + -1074 := by omega
    rw [hsum, zpow_add₀ (by norm_num), zpow_add₀ (by norm_num), zpow_natCast, zpow_natCast,
      ← mul_assoc, ← mul_assoc, Nat.cast_mul, Nat.cast_mul, Nat.cast_pow, Nat.cast_pow,
      Nat.cast_ofNat]
  rw [hvalue, mul_le_mul_iff_left₀ (ten_zpow_pos _), Nat.cast_le, not_le] at hle
  have hnext : scaled x / 10 ^ p < digits * 10 ^ i := Nat.lt_of_mul_lt_mul_right hle
  refine readsAs_of_between hf h (.inr ⟨?_, Nat.le_of_lt ?_⟩)
  · rw [hvalue, mul_le_mul_iff_left₀ (ten_zpow_pos _), Nat.cast_le]
    exact Nat.mul_le_mul_right _ hnext
  · rw [Nat.mul_comm]
    exact Nat.lt_mul_div_succ _ hstep

theorem isSome_of_seventeen : (neighbour? x (scaled x) (10 ^ (width x - (16 + 1)))).isSome := by
  obtain hwidth | hwidth := Nat.lt_or_ge (16 + 1) (width x)
  swap
  · exact isSome_of_width_le hf hwidth
  obtain ⟨p, hp⟩ := Nat.exists_eq_add_of_le (Nat.le_of_lt hwidth)
  obtain ⟨k, hk⟩ : ∃ k, k = 1074 := ⟨_, rfl⟩
  have hstep : 0 < 10 ^ p := Nat.pow_pos (by decide)
  refine isSome_neighbour? ?_
  rw [hp, Nat.add_sub_cancel_left]
  have hlow := le_scaled hp (by omega)
  have hround := two_mul_natAbs_sub_le (a := scaled x) hstep
  have hreads : readsAs x (roundHalfEven (scaled x) (10 ^ p) * 10 ^ p) = true := by
    rw [readsAs_eq hk, beq_iff_eq]
    refine nearest_of_near (Nat.pow_pos (by decide)) ?_
    rw [← scaled_eq hk]
    omega
  have hcases := roundHalfEven_cases (scaled x) (10 ^ p)
  generalize roundHalfEven (scaled x) (10 ^ p) = r at *
  obtain rfl | rfl : r = scaled x / 10 ^ p ∨ r = scaled x / 10 ^ p + 1 := by omega
  · exact .inl hreads
  · exact .inr hreads

theorem length_shortest_le {i : ℕ} (hi : i < 17)
    (h : (neighbour? x (scaled x) (10 ^ (width x - (i + 1)))).isSome) :
    (digitText (shortest x).digits).length ≤ i + 1 := by
  obtain ⟨j, m, hj, hm, hshortest⟩ := exists_first_attempt hi h
  obtain ⟨t, ht⟩ := digits_strip (width x) ⟨m, (width x - (j + 1) : ℕ) - 1074⟩
  rw [← hshortest] at ht
  have hle : m ≤ 10 ^ (j + 1) := (neighbour?_eq_some hm).2.trans (div_lt_of_width x)
  have hlt := (stripped_shortest hf).digits_lt (Nat.succ_pos j) ht hle
  exact ((Nat.length_toDigits_le_iff (by decide) (Nat.succ_pos j)).2 hlt).trans (by omega)

theorem length_shortest_le_seventeen : (digitText (shortest x).digits).length ≤ 17 :=
  length_shortest_le hf (by decide) (isSome_of_seventeen hf)

/-- No decimal number with fewer digits is read as `x`. -/
theorem shortest_fewest (h : ofDecimal x.negative digits exponent = x) :
    (digitText (shortest x).digits).length ≤ (digitText digits).length := by
  obtain ⟨k, hk⟩ := Nat.exists_eq_add_one.2 (Nat.length_toDigits_pos (b := 10) (n := digits))
  have hlt : digits < 10 ^ (k + 1) :=
    (Nat.length_toDigits_le_iff (by decide) (Nat.succ_pos k)).1 (Nat.le_of_eq hk)
  rw [show (digitText digits).length = k + 1 from hk]
  by_cases hi : k < 17
  · exact length_shortest_le hf hi (isSome_of_reads hf h hlt)
  · exact (length_shortest_le_seventeen hf).trans (by omega)

end Attempts

end Decimal

end UiBinding
