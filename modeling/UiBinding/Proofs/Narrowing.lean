import UiBinding.Proofs.ExactValue

namespace UiBinding

def integerPart (q : ℚ) : ℤ := if 0 ≤ q then ⌊q⌋ else ⌈q⌉

theorem integerPart_intCast (n : ℤ) : integerPart n = n := by simp [integerPart]

theorem integerPart_neg (q : ℚ) : integerPart (-q) = -integerPart q := by
  rw [integerPart, integerPart, Int.floor_neg, Int.ceil_neg]
  split_ifs with hn hp hp
  · obtain rfl : q = 0 := le_antisymm (neg_nonneg.1 hn) hp
    simp
  · rfl
  · rfl
  · exact absurd (neg_nonneg.2 (not_le.1 hp).le) hn

theorem integerPart_mono {p q : ℚ} (h : p ≤ q) : integerPart p ≤ integerPart q := by
  rw [integerPart, integerPart]
  split_ifs with hp hq hq
  · exact Int.floor_le_floor h
  · exact absurd (hp.trans h) hq
  · exact (Int.ceil_nonpos.2 (not_le.1 hp).le).trans (Int.floor_nonneg.2 hq)
  · exact Int.ceil_le_ceil h

theorem integerPart_le {q : ℚ} {n : ℤ} (h : q ≤ n) : integerPart q ≤ n :=
  (integerPart_mono h).trans_eq (integerPart_intCast n)

theorem le_integerPart {q : ℚ} {n : ℤ} (h : n ≤ q) : n ≤ integerPart q :=
  (integerPart_intCast n).symm.trans_le (integerPart_mono h)

namespace Binary64

theorem truncate_eq (x : Binary64) : x.truncate = integerPart x.toRat := by
  have hfloor : integerPart (x.units / one : ℚ) = (x.units / one : ℕ) := by
    rw [integerPart, if_pos (by positivity), Rat.floor_natCast_div_natCast, Int.natCast_ediv]
  rw [truncate, toRat_eq_ite]
  split
  · rw [integerPart_neg, hfloor]
  · rw [hfloor]

theorem saturate_eq {x : Binary64} {lower upper : ℤ} (hx : x.isNaN = false)
    (h : lower ≤ upper) :
    x.saturate lower upper = max lower (min upper (integerPart x.toRat)) := by
  rw [saturate, hx, if_neg Bool.false_ne_true]
  split
  · rename_i hlow
    have := integerPart_le (toRat_le_intCast_iff.2 hlow)
    omega
  split
  · rename_i _ hhigh
    have := le_integerPart (intCast_le_toRat_iff.2 hhigh)
    omega
  · rename_i hlow hhigh
    have hlower := le_integerPart (intCast_le_toRat_iff.2 (not_le.1 hlow).le)
    have hupper := integerPart_le (toRat_le_intCast_iff.2 (not_le.1 hhigh).le)
    rw [truncate_eq]
    omega

theorem le_abs_toRat {x : Binary64} (hx : x.isNaN = false) (hf : x.isFinite = false) :
    2 ^ 99 ≤ |x.toRat| := by
  have hunits : 2 ^ 99 * one ≤ x.units := by
    by_contra hlt
    rw [isFinite_of_units_lt hx (not_le.1 hlt)] at hf
    cases hf
  rw [abs_toRat, le_div_iff₀ one_cast_pos]
  exact_mod_cast hunits

/-- The integer part of a number within bounds; an infinity goes to the end on its side, and a NaN
to zero. -/
def clamped (x : Binary64) (lower upper : ℤ) : ℤ :=
  if x.isNaN then 0
  else if x.isInfinite then (if x.negative then lower else upper)
  else max lower (min upper (integerPart x.toRat))

variable {lower upper : ℤ}

theorem saturate_eq_clamped (hl : -2 ^ 99 ≤ lower) (hle : lower ≤ upper) (hu : upper ≤ 2 ^ 99)
    (x : Binary64) : x.saturate lower upper = x.clamped lower upper := by
  rw [clamped]
  split
  · rename_i hx
    rw [saturate, if_pos hx]
  rename_i hx
  rw [Bool.not_eq_true] at hx
  rw [saturate_eq hx hle]
  split
  · rename_i hinf
    have hfar : 2 ^ 99 ≤ (x.units / one : ℚ) := by
      rw [← abs_toRat]
      refine le_abs_toRat hx (Bool.eq_false_iff.2 fun hf => ?_)
      rw [(isFinite_iff.1 hf).2] at hinf
      cases hinf
    rw [toRat_eq_ite]
    have hl' : (-2 ^ 99 : ℚ) ≤ lower := by exact_mod_cast hl
    have hu' : (upper : ℚ) ≤ 2 ^ 99 := by exact_mod_cast hu
    split
    · have := integerPart_le (q := -(x.units / one)) (n := lower) (by linarith)
      omega
    · have := le_integerPart (hu'.trans hfar)
      omega
  · rfl

theorem saturate_mono {x y : Binary64} (hle : lower ≤ upper) (h : x.le y = true) :
    x.saturate lower upper ≤ y.saturate lower upper := by
  have hnan : x.isNaN = false ∧ y.isNaN = false := by
    simp only [le, Bool.and_eq_true, Bool.not_eq_true'] at h
    exact h.1
  rw [saturate_eq hnan.1 hle, saturate_eq hnan.2 hle]
  have := integerPart_mono (toRat_le h)
  omega

/-- A number is one of the integers within bounds. -/
structure IsWithin (x : Binary64) (lower upper n : ℤ) : Prop where
  finite : x.isFinite = true
  toRat_eq : x.toRat = n
  lower_le : lower ≤ n
  le_upper : n ≤ upper

theorem IsWithin.clamped_eq {x : Binary64} {n : ℤ} (h : x.IsWithin lower upper n) :
    x.clamped lower upper = n := by
  obtain ⟨hnan, hinf⟩ := isFinite_iff.1 h.finite
  rw [clamped, hnan, hinf, if_neg Bool.false_ne_true, if_neg Bool.false_ne_true, h.toRat_eq,
    integerPart_intCast, min_eq_right h.le_upper, max_eq_right h.lower_le]

theorem fits_iff {x : Binary64} :
    x.fits lower upper = true ↔ ∃ n, x.IsWithin lower upper n := by
  have hone : (0 : ℤ) < one := Int.natCast_pos.2 one_pos
  simp only [fits, isIntegral, Bool.and_eq_true, decide_eq_true_eq, beq_iff_eq]
  constructor
  · rintro ⟨⟨⟨hf, hmod⟩, hl⟩, hu⟩
    obtain ⟨n, hn⟩ : (one : ℤ) ∣ x.signedUnits := by
      rw [← Int.dvd_natAbs, natAbs_signedUnits]
      exact Int.natCast_dvd_natCast.2 (Nat.dvd_of_mod_eq_zero hmod)
    rw [mul_comm] at hn
    rw [hn] at hl hu
    exact ⟨n, hf, toRat_eq_intCast_iff.2 hn, Int.le_of_mul_le_mul_right hl hone,
      Int.le_of_mul_le_mul_right hu hone⟩
  · rintro ⟨n, hf, heq, hl, hu⟩
    have hn := toRat_eq_intCast_iff.1 heq
    refine ⟨⟨⟨hf, ?_⟩, ?_⟩, ?_⟩
    · rw [units_eq_of_signedUnits hn, Nat.mul_mod_left]
    · rw [hn]
      exact Int.mul_le_mul_of_nonneg_right hl hone.le
    · rw [hn]
      exact Int.mul_le_mul_of_nonneg_right hu hone.le

end Binary64

section Storing

variable {t : StorageType} {b : ℤ × ℤ}

theorem unwrap_unchecked (hb : t.bounds? = some b) (x : Binary64) :
    (Value.number x).unwrap t false = .ok (.int (x.clamped b.1 b.2)) := by
  obtain ⟨hl, hu, hlow, hhigh⟩ := StorageType.bounds?_zero_mem hb
  rw [StorageType.unwrap_integer hb, Binary64.saturate_eq_clamped hlow (hl.trans hu) hhigh]

theorem unwrap_checked (hb : t.bounds? = some b) (x : Binary64) :
    (Value.number x).unwrap t true =
      if x.fits b.1 b.2 then .ok (.int (x.saturate b.1 b.2))
      else .error ⟨"number", t.name,
        some (if x.isNaN then .notANumber else .notRepresentable x)⟩ := by
  have hinteger : x.toInteger b.1 b.2 true = if x.fits b.1 b.2 then .ok (x.saturate b.1 b.2)
      else .error (if x.isNaN then .notANumber else .notRepresentable x) := by
    rw [Binary64.toInteger, Bool.true_and, Bool.true_and]
    cases hfits : x.fits b.1 b.2 with
    | true =>
        obtain ⟨n, hn⟩ := Binary64.fits_iff.1 hfits
        rw [(Binary64.isFinite_iff.1 hn.finite).1]
        rfl
    | false => cases x.isNaN <;> rfl
  have hstored : t.ofNumber? x true = some ((x.toInteger b.1 b.2 true).map .int) := by
    cases t <;> cases hb <;> rfl
  have hok {n : Native} (h : t.ofNumber? x true = some (.ok n)) :
      (Value.number x).unwrap t true = .ok n := by
    cases t <;> cases hb <;> simp only [Value.unwrap, h]
  have herror {reason : ConversionReason} (h : t.ofNumber? x true = some (.error reason)) :
      (Value.number x).unwrap t true = .error ((Value.number x).fail t (some reason)) := by
    cases t <;> cases hb <;> simp only [Value.unwrap, h]
  rw [hinteger] at hstored
  cases hfits : x.fits b.1 b.2 with
  | true =>
      rw [hfits] at hstored
      exact hok hstored
  | false =>
      rw [hfits] at hstored
      exact herror hstored

end Storing

/-- A number is stored in an integer type as its integer part, brought into the bounds of the type;
greater numbers are stored as greater integers. Where conversions are checked, just the integers
within the bounds are stored, as what they are, and all other numbers are refused. -/
theorem unwrap_integer_clamps {t : StorageType} {b : ℤ × ℤ} (hb : t.bounds? = some b) :
    (∀ x : Binary64, (Value.number x).unwrap t false = .ok (.int (x.clamped b.1 b.2)) ∧
      b.1 ≤ x.clamped b.1 b.2 ∧ x.clamped b.1 b.2 ≤ b.2) ∧
    (∀ x y : Binary64, x.le y = true → x.clamped b.1 b.2 ≤ y.clamped b.1 b.2) ∧
    ∀ x : Binary64,
      (∀ n, (Value.number x).unwrap t true = .ok n ↔ ∃ k, n = .int k ∧ x.IsWithin b.1 b.2 k) ∧
      (∀ n, (Value.number x).unwrap t true = .ok n → (Value.number x).unwrap t false = .ok n) ∧
      ((¬ ∃ k, x.IsWithin b.1 b.2 k) → (Value.number x).unwrap t true = .error ⟨"number", t.name,
        some (if x.isNaN then .notANumber else .notRepresentable x)⟩) := by
  obtain ⟨hl, hu, hlow, hhigh⟩ := StorageType.bounds?_zero_mem hb
  have hclamped (x : Binary64) := x.saturate_eq_clamped hlow (hl.trans hu) hhigh
  refine ⟨fun x => ⟨unwrap_unchecked hb x, ?_⟩, fun x y hxy => ?_, fun x => ⟨fun n => ?_,
    fun n hn => ?_, fun hnone => ?_⟩⟩
  · rw [← hclamped]
    exact x.saturate_mem hl hu
  · rw [← hclamped, ← hclamped]
    exact Binary64.saturate_mono (hl.trans hu) hxy
  · rw [unwrap_checked hb, hclamped]
    constructor
    · intro h
      split at h
      · rename_i hfits
        obtain ⟨k, hk⟩ := Binary64.fits_iff.1 hfits
        rw [hk.clamped_eq] at h
        cases h
        exact ⟨k, rfl, hk⟩
      · cases h
    · rintro ⟨k, rfl, hk⟩
      rw [if_pos (Binary64.fits_iff.2 ⟨k, hk⟩), hk.clamped_eq]
  · rw [unwrap_checked hb] at hn
    split at hn
    · rwa [StorageType.unwrap_integer hb]
    · cases hn
  · rw [unwrap_checked hb, if_neg fun hfits => hnone (Binary64.fits_iff.1 hfits)]

namespace Sample

def beyondLong : Binary64 := ⟨false, 0x43F0000000000000, by decide⟩

theorem beyondLong_clamped :
    StorageType.u64.bounds? = some (0, 0xFFFFFFFFFFFFFFFF) ∧
      (Value.number beyondLong).unwrap .u64 false = .ok (.int 0xFFFFFFFFFFFFFFFF) ∧
      (Value.number beyondLong).unwrap .u64 true =
        .error ⟨"number", "u64", some (.notRepresentable beyondLong)⟩ := by
  have hb : StorageType.u64.bounds? = some (0, 0xFFFFFFFFFFFFFFFF) := rfl
  obtain ⟨hstored, -, hchecked⟩ := unwrap_integer_clamps hb
  have hvalue : beyondLong.clamped 0 0xFFFFFFFFFFFFFFFF = 0xFFFFFFFFFFFFFFFF := by
    rw [← Binary64.saturate_eq_clamped (by decide) (by decide) (by decide)]
    decide +kernel
  have hfits : beyondLong.fits 0 0xFFFFFFFFFFFFFFFF = false := by decide +kernel
  refine ⟨hb, (hstored beyondLong).1.trans (by rw [hvalue]), (hchecked beyondLong).2.2 fun hk => ?_⟩
  cases hfits.symm.trans (Binary64.fits_iff.2 hk)

end Sample

end UiBinding
