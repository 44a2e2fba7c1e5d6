import UiBinding.Numeral
import UiBinding.Proofs.ShortestDecimal

namespace UiBinding

open Binary64 Decimal

namespace Numeral

/-- The number that a numeral spells, before it is rounded. -/
def value? (s : List Char) : Option ℚ :=
  let (negative, rest) := sign s
  (parts? rest).map fun (whole, part, e) =>
    (if negative then -1 else 1) * (natural (whole ++ part) * 10 ^ (e - part.length))

def asciiDigits : List Char := (List.range' 48 10).map Char.ofNat

def alphabet : List Char := asciiDigits ++ ['.', '+', '-', 'e']

theorem toNat_of_isDigit {c : Char} (h : c.isDigit = true) : 48 ≤ c.toNat ∧ c.toNat ≤ 57 := by
  simpa [Char.isDigit, UInt32.le_iff_toNat_le] using h

theorem mem_asciiDigits {c : Char} (h : c.isDigit = true) : c ∈ asciiDigits := by
  obtain ⟨hlow, hhigh⟩ := toNat_of_isDigit h
  rw [← Char.ofNat_toNat c]
  exact List.mem_map_of_mem (List.mem_range'_1.2 ⟨hlow, by omega⟩)

theorem plain_alphabet : ∀ c ∈ alphabet, plain c = c ∧ isBlank c = false := by
  have hall : alphabet.all fun c => plain c = c ∧ isBlank c = false := by decide +kernel
  simpa only [List.all_eq_true, decide_eq_true_eq] using hall

theorem asciiDigits_start : ∀ c ∈ asciiDigits,
    c ≠ '-' ∧ c ≠ '+' ∧ c.toLower ≠ 'i' ∧ c.toLower ≠ 'n' := by
  have hall : asciiDigits.all fun c =>
      c ≠ '-' ∧ c ≠ '+' ∧ c.toLower ≠ 'i' ∧ c.toLower ≠ 'n' := by decide +kernel
  simpa only [List.all_eq_true, decide_eq_true_eq] using hall

theorem trim_eq {s : List Char} (h : ∀ c ∈ s, isBlank c = false) : trim s = s := by
  have hdrop : ∀ s : List Char, (∀ c ∈ s, isBlank c = false) → s.dropWhile isBlank = s := by
    intro s hs
    cases s with
    | nil => rfl
    | cons c s => exact List.dropWhile_cons_of_neg (by simp [hs c])
  rw [trim, hdrop s h, hdrop _ (by simpa using h), List.reverse_reverse]

theorem digits_append {ds rest : List Char} (hds : ∀ c ∈ ds, c.isDigit = true)
    (hrest : ∀ c ∈ rest.head?, c.isDigit = false ∧ c ≠ '_') (afterDigit : Bool) :
    digits afterDigit (ds ++ rest) = (ds, rest) := by
  induction ds generalizing afterDigit with
  | nil =>
      cases rest with
      | nil => rfl
      | cons c rest => simp [digits, hrest c rfl]
  | cons c ds ih =>
      have hds := List.forall_mem_cons.1 hds
      simp only [List.cons_append, digits, hds.1, if_true, ih hds.2]

theorem unsigned?_eq {s : List Char} (negative : Bool)
    (h : ∀ word ∈ ["inf", "infinity", "nan"], String.ofList (s.map Char.toLower) ≠ word) :
    unsigned? negative s = (parts? s).map fun (whole, part, e) =>
      magnitude negative ((whole ++ part).dropWhile (· == '0')) (e - part.length) := by
  have hinf := h "inf" (by simp)
  have hinfinity := h "infinity" (by simp)
  have hnan := h "nan" (by simp)
  simp only [unsigned?, beq_eq_false_iff_ne.2 hinf, beq_eq_false_iff_ne.2 hinfinity,
    beq_eq_false_iff_ne.2 hnan, Bool.or_self, Bool.false_eq_true, if_false]

section Natural

variable {c : Char} {ds : List Char}

theorem natural_eq (ds : List Char) : natural ds = Nat.ofDigitChars 10 ds 0 := rfl

theorem natural_append (ds ds' : List Char) :
    natural (ds ++ ds') = natural ds * 10 ^ ds'.length + natural ds' := by
  simp only [natural_eq]
  rw [Nat.ofDigitChars_append, Nat.ofDigitChars_eq_ofDigitChars_zero, Nat.mul_comm]

theorem natural_cons (c : Char) (ds : List Char) :
    natural (c :: ds) = (c.toNat - 48) * 10 ^ ds.length + natural ds := by
  have h := natural_append [c] ds
  simpa [natural] using h

theorem natural_lt (h : ∀ c ∈ ds, c.isDigit = true) : natural ds < 10 ^ ds.length := by
  induction ds with
  | nil => exact Nat.one_pos
  | cons c ds ih =>
      obtain ⟨hc, hds⟩ := List.forall_mem_cons.1 h
      have hdigit : c.toNat - 48 ≤ 9 := by
        have := toNat_of_isDigit hc
        omega
      have hlead := Nat.mul_le_mul_right (10 ^ ds.length) hdigit
      have hrest := ih hds
      rw [natural_cons, List.length_cons, Nat.pow_succ]
      omega

theorem le_natural (hc : c.isDigit = true) (hne : c ≠ '0') :
    10 ^ ds.length ≤ natural (c :: ds) := by
  have hdigit : 1 ≤ c.toNat - 48 := by
    have hlow := (toNat_of_isDigit hc).1
    have hzero : c.toNat ≠ 48 := fun h => hne (Char.toNat_inj.1 h)
    omega
  rw [natural_cons]
  exact Nat.le_add_right_of_le (Nat.le_mul_of_pos_left _ hdigit)

theorem natural_dropWhile (ds : List Char) : natural (ds.dropWhile (· == '0')) = natural ds := by
  induction ds with
  | nil => rfl
  | cons c ds ih =>
      rw [List.dropWhile_cons]
      split
      · rename_i h
        rw [ih, natural_cons, beq_iff_eq.1 h]
        simp
      · rfl

end Natural

/-- The exponents that the reader cuts off are those of numbers that are rounded to infinity or to
zero. -/
theorem magnitude_dropWhile {x : Binary64} (hf : x.isFinite = true) {ds : List Char}
    (hds : ∀ c ∈ ds, c.isDigit = true) {e : ℤ}
    (h : ofDecimal x.negative (natural ds) e = x) :
    magnitude x.negative (ds.dropWhile (· == '0')) e = x := by
  have hvalue := natural_dropWhile ds
  have hdigits : ∀ c ∈ ds.dropWhile (· == '0'), c.isDigit = true := fun c hc =>
    hds c (List.dropWhile_subset _ hc)
  have hhead : ∀ c ∈ (ds.dropWhile (· == '0')).head?, c ≠ '0' := by
    intro c hc
    have hnot := List.head?_dropWhile_not (· == '0') ds
    rw [hc] at hnot
    simpa using hnot
  rw [← hvalue] at h
  generalize ds.dropWhile (· == '0') = ds at *
  obtain ⟨n, hn⟩ : ∃ n, n = 400 := ⟨_, rfl⟩
  simp only [magnitude]
  split
  · rename_i hzero
    refine eq_of_magnitude_eq_zero (magnitude_eq_zero_of_small hf h hn ?_)
    simp [hzero]
  split
  · rename_i hnonzero hlarge
    refine absurd (lt_of_ofDecimal hf h hn) (not_lt.2 ?_)
    cases ds with
    | nil => exact absurd rfl hnonzero
    | cons c ds =>
        have hlead : 10 ^ ds.length ≤ natural (c :: ds) :=
          le_natural (hdigits c List.mem_cons_self) (hhead c rfl)
        calc (10 : ℚ) ^ n
          _ = 10 ^ (n : ℤ) := (zpow_natCast _ _).symm
          _ ≤ 10 ^ (ds.length + e) := zpow_le_zpow_right₀ (by norm_num) (by
              rw [List.length_cons] at hlarge
              omega)
          _ = 10 ^ ds.length * 10 ^ e := by rw [zpow_add₀ (by norm_num), zpow_natCast]
          _ ≤ natural (c :: ds) * 10 ^ e :=
              mul_le_mul_of_nonneg_right (by exact_mod_cast hlead) (ten_zpow_pos e).le
  split
  · rename_i hsmall
    refine eq_of_magnitude_eq_zero (magnitude_eq_zero_of_small hf h hn ?_)
    calc (natural ds * 10 ^ e * 10 ^ n : ℚ)
      _ < 10 ^ ds.length * 10 ^ e * 10 ^ n := by
          have hlt : (natural ds : ℚ) < 10 ^ ds.length := by exact_mod_cast natural_lt hdigits
          have hscaled := mul_lt_mul_of_pos_right hlt (ten_zpow_pos e)
          exact mul_lt_mul_of_pos_right hscaled (by positivity)
      _ = 10 ^ (ds.length + e + n) := by
          rw [zpow_add₀ (by norm_num), zpow_add₀ (by norm_num), zpow_natCast, zpow_natCast]
      _ ≤ 1 := zpow_le_one_of_nonpos₀ (by norm_num) (by omega)
  · exact h

def fraction : List Char → List Char
  | [] => []
  | part => '.' :: part

/-- How a numeral without a sign is written in plain digits. -/
structure Form where
  whole : List Char
  part : List Char
  power : List Char
  exponent : ℤ
  whole_ne_nil : whole ≠ []
  isDigit : ∀ c ∈ whole ++ part, c.isDigit = true
  power_head : ∀ c ∈ power.head?, c = 'e'
  power_alphabet : ∀ c ∈ power, c ∈ alphabet
  exponent_eq : exponent? power = some exponent

namespace Form

variable (f : Form)

def text : List Char := f.whole ++ fraction f.part ++ f.power

def digits : List Char := f.whole ++ f.part

def last : ℤ := f.exponent - f.part.length

def value : ℚ := natural f.digits * 10 ^ f.last

def decimal : Decimal := ⟨natural f.digits, f.last⟩

theorem exists_cons : ∃ c rest, f.text = c :: rest ∧ c ∈ asciiDigits := by
  obtain ⟨c, rest, h⟩ := List.exists_cons_of_ne_nil f.whole_ne_nil
  refine ⟨c, rest ++ fraction f.part ++ f.power, by simp [text, h], mem_asciiDigits ?_⟩
  exact f.isDigit c (by simp [h])

theorem mem_alphabet : ∀ c ∈ f.text, c ∈ alphabet := by
  intro c hc
  have hdigit : c ∈ f.digits → c ∈ alphabet := fun h =>
    List.mem_append_left _ (mem_asciiDigits (f.isDigit c h))
  rw [text, List.mem_append, List.mem_append] at hc
  obtain (hwhole | hpart) | hpower := hc
  · exact hdigit (List.mem_append_left _ hwhole)
  · rw [fraction.eq_def] at hpart
    split at hpart
    · cases hpart
    · obtain rfl | hpart := List.mem_cons.1 hpart
      · decide
      · exact hdigit (List.mem_append_right _ hpart)
  · exact f.power_alphabet c hpower

theorem parts?_text : parts? f.text = some (f.whole, f.part, f.exponent) := by
  have hwhole : ∀ c ∈ f.whole, c.isDigit = true := fun c hc =>
    f.isDigit c (List.mem_append_left _ hc)
  have hpart : ∀ c ∈ f.part, c.isDigit = true := fun c hc =>
    f.isDigit c (List.mem_append_right _ hc)
  have hpower : ∀ c ∈ f.power.head?, c.isDigit = false ∧ c ≠ '_' := by
    intro c hc
    rw [f.power_head c hc]
    decide
  have hend : ∀ c ∈ (fraction f.part ++ f.power).head?, c.isDigit = false ∧ c ≠ '_' := by
    rw [fraction.eq_def]
    split
    · exact hpower
    · simp
  have hsplit : afterPoint (fraction f.part ++ f.power) = (f.part, f.power) := by
    cases hp : f.part with
    | nil =>
        rw [afterPoint.eq_def]
        split
        · rename_i rest h
          have hpoint := f.power_head '.' (by simpa [fraction, hp] using congrArg List.head? h)
          exact absurd hpoint (by decide)
        · rfl
    | cons c part => exact digits_append (hp ▸ hpart) hpower false
  rw [parts?, text, List.append_assoc, digits_append hwhole hend]
  simp only [hsplit, List.isEmpty_eq_false_iff.2 f.whole_ne_nil, f.exponent_eq, Bool.false_and,
    Bool.false_eq_true, if_false, Option.map_some]

theorem unsigned?_text (negative : Bool) : unsigned? negative f.text =
    some (magnitude negative (f.digits.dropWhile (· == '0')) f.last) := by
  obtain ⟨c, rest, htext, hc⟩ := f.exists_cons
  obtain ⟨-, -, hi, hn⟩ := asciiDigits_start c hc
  have hword : ∀ word ∈ ["inf", "infinity", "nan"],
      String.ofList (f.text.map Char.toLower) ≠ word := by
    rintro word hmem rfl
    have hhead : ∀ word ∈ ["inf", "infinity", "nan"],
        word.toList.head? = some 'i' ∨ word.toList.head? = some 'n' := by decide
    simpa [htext, hi, hn] using hhead _ hmem
  rw [unsigned?_eq negative hword, parts?_text]
  rfl

theorem sign_text (negative : Bool) :
    sign ((if negative then ['-'] else []) ++ f.text) = (negative, f.text) := by
  obtain ⟨c, rest, htext, hc⟩ := f.exists_cons
  obtain ⟨hminus, hplus, -⟩ := asciiDigits_start c hc
  cases negative with
  | true => rfl
  | false =>
      rw [htext]
      simp [sign, hminus, hplus]

theorem value?_text (negative : Bool) :
    value? ((if negative then ['-'] else []) ++ f.text) =
      some ((if negative then -1 else 1) * f.value) := by
  simp only [value?, sign_text, parts?_text]
  rfl

theorem ofNumeral?_text (negative : Bool) :
    ofNumeral? ((if negative then ['-'] else []) ++ f.text) = some (negative, f.decimal) := by
  simp only [ofNumeral?, sign_text, parts?_text]
  rfl

theorem read?_text (negative : Bool) :
    read? (String.ofList ((if negative then ['-'] else []) ++ f.text)) =
      some (magnitude negative (f.digits.dropWhile (· == '0')) f.last) := by
  have halphabet : ∀ c ∈ (if negative then ['-'] else []) ++ f.text, c ∈ alphabet := by
    intro c hc
    obtain hsign | htext := List.mem_append.1 hc
    · cases negative with
      | true => rw [List.mem_singleton.1 hsign]; decide
      | false => cases hsign
    · exact f.mem_alphabet c htext
  have hplain := List.map_congr_left fun c hc => (plain_alphabet c (halphabet c hc)).1
  have htrim := trim_eq fun c hc => (plain_alphabet c (halphabet c hc)).2
  rw [read?, String.toList_ofList, hplain, List.map_id', htrim, sign_text]
  exact f.unsigned?_text negative

/-- A number is read from each way to write a decimal number that is rounded to it. -/
theorem read?_eq_some {x : Binary64} (hf : x.isFinite = true) {d : Decimal}
    (hd : ofDecimal x.negative d.digits d.exponent = x) (h : f.value = d.value) :
    read? (String.ofList (x.signText ++ f.text)) = some x := by
  have hx : ofDecimal x.negative (natural f.digits) f.last = x :=
    (ofDecimal_congr x.negative h).trans hd
  have hdigit : ∀ c ∈ f.digits, c.isDigit = true := f.isDigit
  rw [signText, read?_text, magnitude_dropWhile hf hdigit hx]

end Form

end Numeral

end UiBinding
