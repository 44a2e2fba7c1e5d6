import UiBinding.Proofs.Storage

namespace UiBinding

namespace Binary64

/-- A finite number equals the integer. -/
def Exact (n : Int) : Prop := ∃ x : Binary64, x.isFinite = true ∧ x.signedUnits = n * one

theorem natAbs_signedUnits (x : Binary64) : x.signedUnits.natAbs = x.units := by
  rw [signedUnits]
  split <;> simp

theorem units_eq_of_signedUnits {x : Binary64} {n : Int} (h : x.signedUnits = n * one) :
    x.units = n.natAbs * one := by
  rw [← natAbs_signedUnits, h, Int.natAbs_mul, Int.natAbs_natCast]

theorem signedUnits_ofInt {n : Int} (h : (ofInt n).units = n.natAbs * one) :
    (ofInt n).signedUnits = n * one := by
  have hneg : (ofInt n).negative = decide (n < 0) := rfl
  rw [signedUnits, h, hneg, Int.natCast_mul]
  generalize (one : Int) = unit
  by_cases hn : n < 0
  · rw [decide_eq_true hn, if_pos rfl, ← Int.neg_mul]
    congr 1
    omega
  · rw [decide_eq_false hn, if_neg (by decide)]
    congr 1
    omega

theorem ofInt_of_exact {n : Int} (h : Exact n) :
    (ofInt n).isFinite = true ∧ (ofInt n).signedUnits = n * one := by
  obtain ⟨x, hf, hx⟩ := h
  have hu := units_eq_of_signedUnits hx
  have hm : (ofInt n).magnitude = x.magnitude := by
    have hself := congrArg magnitude (ofUnits_units hf)
    rwa [hu] at hself
  refine ⟨by rwa [isFinite, hm], signedUnits_ofInt ?_⟩
  rw [← hu, units, units, hm]

theorem exact_of_dvd {x : Binary64} (hf : x.isFinite = true) (h : one ∣ x.units) :
    Exact x.truncate := by
  have hm : (x.units / one : Nat) * one = x.units := Nat.div_mul_cancel h
  refine ⟨x, hf, ?_⟩
  rw [signedUnits, truncate, ite_mul, Int.neg_mul, ← Int.natCast_mul, hm]

theorem exact_of_significand {n : Int} {m k : Nat} (hn : n.natAbs = m * 2 ^ k) (hm : m < 2 ^ 53)
    (hk : k ≤ 970) : Exact n := by
  obtain ⟨i, hi⟩ : ∃ i, i = 1074 := ⟨_, rfl⟩
  have hunits : n.natAbs * one = m * 2 ^ (k + i) := by
    rw [hn, one_eq hi, Nat.mul_assoc, ← Nat.pow_add]
  have he : excess 53 (n.natAbs * one) ≤ k + i := by
    rw [hunits]
    exact excess_le_of_lt (by decide) (mul_two_pow_lt hm (k + i))
  have hd : 2 ^ excess 53 (n.natAbs * one) ∣ n.natAbs * one := by
    rw [hunits]
    rw [hunits] at he
    exact Nat.dvd_mul_left_of_dvd (Nat.pow_dvd_pow 2 he) m
  refine ⟨ofInt n, ?_, signedUnits_ofInt (units_ofUnits hd (by omega))⟩
  exact isFinite_ofUnits (by decide) (by rw [Nat.div_one]; omega)

theorem exact_truncate {x : Binary64} (hf : x.isFinite = true) : Exact x.truncate := by
  obtain ⟨e, q, hm, hq, he⟩ := exists_significand x
  have hunits := units_of_magnitude hm hq he
  obtain ⟨i, hi⟩ : ∃ i, i = 1074 := ⟨_, rfl⟩
  rcases Nat.le_total i e with hle | hle
  · refine exact_of_dvd hf ?_
    rw [hunits, one_eq hi]
    exact Nat.dvd_mul_left_of_dvd (Nat.pow_dvd_pow 2 hle) q
  · have habs : x.truncate.natAbs = x.units / one := by
      rw [truncate]
      split
      · rw [Int.natAbs_neg, Int.natAbs_natCast]
      · rw [Int.natAbs_natCast]
    have hsplit : x.truncate.natAbs = x.units / one * 2 ^ 0 := by
      rw [habs, Nat.pow_zero, Nat.mul_one]
    refine exact_of_significand hsplit ?_ (by decide)
    rw [Nat.div_lt_iff_lt_mul one_pos, hunits, one_eq hi]
    calc q * 2 ^ e
      _ ≤ q * 2 ^ i := Nat.mul_le_mul_left q (Nat.pow_le_pow_right (by decide) hle)
      _ < 2 ^ 53 * 2 ^ i := Nat.mul_lt_mul_of_pos_right hq (Nat.two_pow_pos i)

theorem isFinite_of_units_lt {x : Binary64} (hx : x.isNaN = false) (h : x.units < 2 ^ 99 * one) :
    x.isFinite = true := by
  have hle : x.magnitude ≤ top := by simpa [isNaN] using hx
  rw [isFinite, decide_eq_true_iff]
  refine Nat.lt_of_le_of_ne hle fun htop => ?_
  have hunits : x.units = infinity.units := by
    rw [units, units, htop]
    rfl
  have hlt : 2 ^ 99 * one < infinity.units := by decide +kernel
  omega

end Binary64

theorem Native.toPath_segments (segments : List Segment) :
    (tuple (segments.map segment)).toPath = .ok (.path segments) := by
  simp only [toPath, mapM_toSegment?]

namespace StorageType

variable {t : StorageType} {b : Int × Int}

example : (Binary64.ofInt (2 ^ 53 + 1)).saturate (-2 ^ 63) (2 ^ 63 - 1) = 2 ^ 53 := by
  decide +kernel

/-- What comes back of data that is wrapped into a value. -/
def roundTrip? (t : StorageType) (n : Native) : Option Native :=
  (n.wrap t).toOption.bind fun v => (v.unwrap t false).toOption

theorem unwrap_integer (h : t.bounds? = some b) (x : Binary64) :
    (Value.number x).unwrap t false = .ok (.int (x.saturate b.1 b.2)) := by
  cases t <;> cases h <;> rfl

theorem roundTrip?_of_stores {n : Native} (h : t.Stores n) (ht : t.bounds? = none) :
    t.roundTrip? n = some n := by
  simp only [Stores] at h
  split at h
  case h_1 x =>
    change some (Native.float x.toSingle) = some (.float x)
    rw [Binary64.toSingle_of_isSingle h]
  case h_6 =>
    obtain ⟨fields, rfl⟩ := h
    rw [roundTrip?, Native.wrap, Native.toObject_values]
    rfl
  case h_8 =>
    obtain ⟨segments, rfl⟩ := h
    rw [roundTrip?, Native.wrap, Native.toPath_segments]
    rfl
  case h_10 =>
    obtain ⟨b, hb, -⟩ := h
    rw [hb] at ht
    cases ht
  case h_11 => exact h.elim
  all_goals rfl

end StorageType

namespace Sample

end Sample

end UiBinding
