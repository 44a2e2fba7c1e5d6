import UiBinding.Native.Wrap
import UiBinding.Proofs.Rounding

namespace UiBinding

inductive Tag
  | void
  | number
  | string
  | bool
  | resource
  | array
  | object
  | color
  | path
  deriving DecidableEq

namespace Value

def tag : Value → Tag
  | void => .void
  | number _ => .number
  | string _ => .string
  | bool _ => .bool
  | resource _ => .resource
  | array _ => .array
  | object _ => .object
  | color _ => .color
  | path _ => .path

theorem exists_number {v : Value} (h : v.tag = .number) : ∃ x, v = .number x := by
  cases v <;> cases h
  exact ⟨_, rfl⟩

theorem exists_bool {v : Value} (h : v.tag = .bool) : ∃ b, v = .bool b := by
  cases v <;> cases h
  exact ⟨_, rfl⟩

theorem exists_object {v : Value} (h : v.tag = .object) : ∃ fields, v = .object fields := by
  cases v <;> cases h
  exact ⟨_, rfl⟩

end Value

namespace StorageType

def tag? : StorageType → Option Tag
  | i32 | i64 | u32 | u64 | isize | usize | f32 | f64 => some .number
  | bool => some .bool
  | string => some .string
  | resource => some .resource
  | object => some .object
  | color => some .color
  | pathElements => some .path
  | value => none

/-- The native data of a storage type: integers within its bounds, numbers of its precision,
and otherwise any data of its shape. -/
def Stores : StorageType → Native → Prop
  | f32, .float x => x.IsSingle
  | f64, .float _ | bool, .bool _ | string, .string _ | resource, .resource _ => True
  | object, .dict entries =>
    ∃ fields : List (String × Value), entries = fields.map fun f => (.string f.1, .value f.2)
  | color, .color _ => True
  | pathElements, .tuple items => ∃ segments : List Segment, items = segments.map .segment
  | value, .value _ => True
  | t, .int n => ∃ b, t.bounds? = some b ∧ b.1 ≤ n ∧ n ≤ b.2
  | _, _ => False

theorem exists_tag {t : StorageType} (h : t ≠ .value) : ∃ k, t.tag? = some k := by
  cases t with
  | value => exact (h rfl).elim
  | _ => exact ⟨_, rfl⟩

theorem stores_start (t : StorageType) : t.Stores t.start := by
  cases t with
  | i32 | i64 | u32 | u64 | isize | usize => exact ⟨_, rfl, by decide, by decide⟩
  | f32 => exact ⟨fun _ => ⟨0, 0, by decide, by decide, by decide⟩, nofun⟩
  | object | pathElements => exact ⟨[], rfl⟩
  | _ => trivial

end StorageType

namespace Binary64

theorem one_pos : 0 < one := by
  obtain ⟨n, hn⟩ : ∃ n, n = 1074 := ⟨_, rfl⟩
  rw [one_eq hn]; exact Nat.two_pow_pos n

theorem saturate_mem (x : Binary64) {lower upper : Int} (hl : lower ≤ 0) (hu : 0 ≤ upper) :
    lower ≤ x.saturate lower upper ∧ x.saturate lower upper ≤ upper := by
  rw [saturate]
  split
  · exact ⟨hl, hu⟩
  split
  · exact ⟨Int.le_refl _, Int.le_trans hl hu⟩
  split
  · exact ⟨Int.le_trans hl hu, Int.le_refl _⟩
  rename_i _ hlow hhigh
  have hone : (0 : Int) < one := Int.natCast_pos.2 one_pos
  have hnonneg : (0 : Int) ≤ (x.units / one : Nat) := Int.natCast_nonneg _
  rw [truncate, signedUnits] at *
  rw [Int.natCast_ediv] at *
  cases hs : x.negative
  · rw [hs] at hlow hhigh
    simp only [Bool.false_eq_true, if_false, Int.not_le] at *
    exact ⟨by omega, Int.le_of_lt (Int.ediv_lt_of_lt_mul hone hhigh)⟩
  · rw [hs] at hlow hhigh
    simp only [if_true, Int.not_le] at *
    have : (x.units : Int) / one < -lower :=
      Int.ediv_lt_of_lt_mul hone (by rw [Int.neg_mul]; omega)
    omega

end Binary64

namespace StorageType

theorem bounds?_zero_mem {t : StorageType} {b : Int × Int} (h : t.bounds? = some b) :
    b.1 ≤ 0 ∧ 0 ≤ b.2 ∧ -2 ^ 99 ≤ b.1 ∧ b.2 ≤ 2 ^ 99 := by
  cases t <;> cases h <;> decide

theorem tag?_of_bounds {t : StorageType} {b : Int × Int} (h : t.bounds? = some b) :
    t.tag? = some .number ∧ t ≠ .f32 := by
  cases t <;> first | cases h; done | exact ⟨rfl, nofun⟩

theorem stores_int {t : StorageType} {b : Int × Int} {n : Int} (h : t.bounds? = some b)
    (hn : b.1 ≤ n ∧ n ≤ b.2) : t.Stores (.int n) := by
  cases t <;> first | cases h; done | exact ⟨b, h, hn.1, hn.2⟩

theorem stores_ofNumber? {t : StorageType} {x : Binary64} {checked : Bool} {n : Native}
    (h : t.ofNumber? x checked = some (.ok n)) : t.Stores n := by
  have hint {r : Except ConversionReason Native}
      (ht : t.bounds?.map (fun b => (x.toInteger b.1 b.2 checked).map .int) = some r)
      (hr : r = .ok n) : t.Stores n := by
    obtain ⟨b, hb, rfl⟩ := Option.map_eq_some_iff.1 ht
    have hz := bounds?_zero_mem hb
    rw [Binary64.toInteger] at hr
    split at hr
    · cases hr
    split at hr
    · cases hr
    · cases hr; exact stores_int hb (x.saturate_mem hz.1 hz.2.1)
  cases t <;> first
    | cases h; trivial
    | exact hint h rfl
    | skip
  simp only [ofNumber?, Binary64.narrowSingle, Option.some.injEq] at h
  split at h
  · cases h
  · cases h; exact x.isSingle_toSingle

end StorageType

namespace Value

theorem stores_unwrap {v : Value} {t : StorageType} {checked : Bool} {n : Native}
    (h : v.unwrap t checked = .ok n) : t.Stores n := by
  simp only [unwrap] at h
  split at h
  case h_8 =>
    split at h
    · rename_i hn; cases h; exact StorageType.stores_ofNumber? hn
    · cases h
    · cases h
  all_goals cases h
  all_goals first | trivial | exact ⟨_, rfl⟩

end Value

namespace Native

/-- The equation of `ofInt`, between functions: on an argument its unfolding would go on to
compute with `Binary64.one`. -/
theorem ofInt_eq : ofInt = fun n => match Binary64.ofInt? n with
    | some x => .ok x
    | none => .error .integerTooLarge := by
  delta ofInt
  exact Eq.refl _

theorem ofInt_of_natAbs_lt {n : Int} (h : n.natAbs < 2 ^ 100) :
    ofInt n = .ok (Binary64.ofInt n) :=
  calc ofInt n
    _ = match Binary64.ofInt? n with
        | some x => .ok x
        | none => .error .integerTooLarge := congrFun ofInt_eq n
    _ = .ok (Binary64.ofInt n) := by rw [Binary64.ofInt?_eq_some h]

theorem wrap_int {t : StorageType} {b : Int × Int} {n : Int} (h : t.bounds? = some b)
    (hn : b.1 ≤ n ∧ n ≤ b.2) : (int n).wrap t = .ok (.number (Binary64.ofInt n)) := by
  have hz := StorageType.bounds?_zero_mem h
  have hr : (int n).toNumber = .ok (Binary64.ofInt n) := ofInt_of_natAbs_lt (by omega)
  generalize Binary64.ofInt n = x at hr ⊢
  have hw : (int n).toNumber.map Value.number = .ok (.number x) := by rw [hr]; rfl
  cases t <;> first | exact hw | cases h

theorem toFields_values (fields : List (String × Value)) :
    toFields (fields.map fun f => (string f.1, value f.2)) = .ok fields := by
  induction fields with
  | nil => rfl
  | cons f fields ih =>
      simp only [List.map_cons, toFields, toValue, ih]
      rfl

theorem toObject_values (fields : List (String × Value)) :
    toObject (dict (fields.map fun f => (string f.1, value f.2))) = .ok (.object fields) := by
  simp only [toObject, toFields_values]
  refine if_pos (List.all_eq_true.2 fun e he => ?_)
  obtain ⟨f, _, rfl⟩ := List.mem_map.1 he
  rfl

theorem mapM_toSegment? (segments : List Segment) :
    (segments.map segment).mapM toSegment? = some segments := by
  induction segments with
  | nil => rfl
  | cons s segments ih => simp [List.mapM_cons, ih, toSegment?]

theorem wrap_stores {n : Native} {t : StorageType} (h : t.Stores n) :
    ∃ v, n.wrap t = .ok v ∧ (∀ k, t.tag? = some k → v.tag = k) ∧
      (t = .f32 → ∃ x, v = .number x ∧ x.IsSingle) := by
  simp only [StorageType.Stores] at h
  split at h
  case h_1 x => exact ⟨.number x, rfl, by rintro k ⟨⟩; rfl, fun _ => ⟨x, rfl, h⟩⟩
  case h_6 =>
    obtain ⟨fields, rfl⟩ := h
    exact ⟨.object fields, toObject_values fields, by rintro k ⟨⟩; rfl, nofun⟩
  case h_8 =>
    obtain ⟨segments, rfl⟩ := h
    refine ⟨.path segments, ?_, by rintro k ⟨⟩; rfl, nofun⟩
    simp only [wrap, toPath, mapM_toSegment?]
  case h_10 =>
    obtain ⟨b, hb, hn⟩ := h
    obtain ⟨ht, hne⟩ := StorageType.tag?_of_bounds hb
    exact ⟨_, wrap_int hb hn, by rw [ht]; rintro k ⟨⟩; rfl, fun he => (hne he).elim⟩
  case h_11 => exact h.elim
  case h_9 v => exact ⟨v, rfl, nofun, nofun⟩
  all_goals exact ⟨_, rfl, by rintro k ⟨⟩; rfl, nofun⟩

end Native

end UiBinding
