import UiBinding.Proofs.FewestDigits
import UiBinding.Proofs.NumeralReading

namespace UiBinding

open Binary64 Numeral

namespace Numeral

/-- No zero that could be left out stands before or after the other digits. -/
structure Canonical (whole part : List Char) : Prop where
  whole_ne_nil : whole ≠ []
  isDigit : ∀ c ∈ whole ++ part, c.isDigit = true
  leading : whole.head? = some '0' → whole = ['0']
  trailing : part.getLast? ≠ some '0'

theorem fraction_of_ne_nil {part : List Char} (h : part ≠ []) : fraction part = '.' :: part := by
  obtain ⟨c, part, rfl⟩ := List.exists_cons_of_ne_nil h
  rfl

/-- A text without an exponent that spells a number exactly, in canonical form. -/
structure Spells (text : List Char) (q : ℚ) (whole part : List Char) : Prop
    extends Canonical whole part where
  text_eq : text = whole ++ fraction part
  value_eq : (natural (whole ++ part) * 10 ^ (-part.length : ℤ) : ℚ) = q

def Form.positional (whole part : List Char) (hne : whole ≠ [])
    (hdigit : ∀ c ∈ whole ++ part, c.isDigit = true) : Form where
  whole := whole
  part := part
  power := []
  exponent := 0
  whole_ne_nil := hne
  isDigit := hdigit
  power_head := nofun
  power_alphabet := nofun
  exponent_eq := rfl

section Positional

variable {whole part : List Char} (hne : whole ≠ [])
  (hdigit : ∀ c ∈ whole ++ part, c.isDigit = true)

theorem Form.positional_text :
    (Form.positional whole part hne hdigit).text = whole ++ fraction part := List.append_nil _

theorem Form.positional_value : (Form.positional whole part hne hdigit).value =
    natural (whole ++ part) * 10 ^ (-part.length : ℤ) := by
  rw [Form.value, Form.last]
  simp only [Form.positional, zero_sub]
  rfl

end Positional

namespace Spells

variable {text whole part : List Char} {q : ℚ}

theorem exists_form (h : Spells text q whole part) : ∃ f : Form, f.text = text ∧ f.value = q ∧
    f.decimal = ⟨natural (whole ++ part), -part.length⟩ := by
  refine ⟨.positional whole part h.whole_ne_nil h.isDigit, (Form.positional_text _ _).trans
    h.text_eq.symm, (Form.positional_value _ _).trans h.value_eq, ?_⟩
  rw [Form.decimal, Form.last, Form.positional, zero_sub]
  rfl

theorem exists_pointed (h : Spells text q whole []) : ∃ f : Form,
    f.text = text ++ ['.', '0'] ∧ f.value = q ∧ f.decimal = ⟨natural whole * 10, -1⟩ := by
  have hdigit : ∀ c ∈ whole ++ ['0'], c.isDigit = true := by
    intro c hc
    obtain hc | hc := List.mem_append.1 hc
    · exact h.isDigit c (List.mem_append_left _ hc)
    · rw [List.mem_singleton.1 hc]
      rfl
  have htext := h.text_eq
  have hvalue := h.value_eq
  rw [fraction, List.append_nil] at htext
  rw [List.append_nil] at hvalue
  refine ⟨.positional whole ['0'] h.whole_ne_nil hdigit, ?_, ?_, ?_⟩
  · rw [Form.positional_text, htext]
    rfl
  · rw [Form.positional_value, natural_append, ← hvalue]
    simp [natural]
  · rw [Form.decimal, Form.digits, Form.last]
    simp only [Form.positional, natural_append]
    simp [natural]

theorem withoutPointZero_eq (h : Spells text q whole part) (x : Binary64) :
    Decimal.withoutPointZero (x.signText ++ text) = x.signText ++ text := by
  rw [Decimal.withoutPointZero, if_neg]
  rw [List.isSuffixOf_iff_suffix, h.text_eq]
  rintro ⟨start, hstart⟩
  by_cases hpart : part = []
  · have hpoint : '.' ∈ x.signText ++ (whole ++ fraction part) := by simp [← hstart]
    rw [hpart, fraction, List.append_nil, List.mem_append, signText] at hpoint
    obtain hsign | hdigit := hpoint
    · split at hsign <;> simp at hsign
    · cases h.isDigit '.' (List.mem_append_left _ hdigit)
  · have hlast := congrArg List.getLast? hstart
    rw [fraction_of_ne_nil hpart] at hlast
    refine h.trailing ?_
    rw [← List.getLast?_append_of_ne_nil (x.signText ++ whole ++ ['.']) hpart]
    simpa using hlast.symm

end Spells

end Numeral

namespace Decimal

variable {n : ℕ} {d : Decimal}

theorem isDigit_digitText : ∀ c ∈ digitText n, c.isDigit = true :=
  fun _ hc => Nat.isDigit_of_mem_toDigits (by decide) (by decide) hc

theorem natural_digitText : natural (digitText n) = n := Nat.ofDigitChars_ten_toDigits

theorem head?_digitText (h : n ≠ 0) : (digitText n).head? ≠ some '0' := by
  have hvalue := natural_digitText (n := n)
  have hdigits := isDigit_digitText (n := n)
  have hlength (k : ℕ) (hk : 0 < k) : (digitText n).length ≤ k ↔ n < 10 ^ k :=
    Nat.length_toDigits_le_iff (by decide) hk
  generalize digitText n = ds at *
  intro hzero
  obtain ⟨rest, rfl⟩ := List.head?_eq_some_iff.1 hzero
  have hrest : natural rest = n := by
    rw [natural_cons] at hvalue
    simpa using hvalue
  have hlt := natural_lt (List.forall_mem_cons.1 hdigits).2
  rw [hrest] at hlt
  cases rest with
  | nil => exact h (Nat.lt_one_iff.1 hlt)
  | cons c rest =>
      have hle := (hlength _ (Nat.succ_pos _)).2 hlt
      exact absurd hle (Nat.not_succ_le_self _)

theorem getLast?_digitText (h : n % 10 ≠ 0) : (digitText n).getLast? ≠ some '0' := by
  have hlast : (digitText n).getLast? = some (n % 10).digitChar := by
    rw [digitText, Nat.toDigits_eq_if (by decide)]
    split
    · rename_i hlt
      rw [Nat.mod_eq_of_lt hlt]
      rfl
    · exact List.getLast?_concat
  rw [hlast]
  simpa using h

theorem natural_zeros (k : ℕ) : natural (zeros k) = 0 := by
  rw [natural_eq, zeros, Nat.ofDigitChars_replicate_zero, Nat.mul_zero]

theorem isDigit_zeros {k : ℕ} : ∀ c ∈ zeros k, c.isDigit = true := by
  intro c hc
  rw [List.eq_of_mem_replicate hc]
  rfl

theorem spells_zero : Spells ['0'] 0 ['0'] [] where
  whole_ne_nil := List.cons_ne_nil _ _
  isDigit := by simp
  leading _ := rfl
  trailing := by simp
  text_eq := rfl
  value_eq := by simp [natural]

section Layouts

variable {ds : List Char} (hne : ds ≠ []) (hdigit : ∀ c ∈ ds, c.isDigit = true)

include hne hdigit

theorem spells_above (hhead : ds.head? ≠ some '0') (k : ℕ) :
    Spells (ds ++ zeros k) (natural ds * 10 ^ (k : ℤ)) (ds ++ zeros k) [] where
  whole_ne_nil := by simp [hne]
  isDigit c hc := by
    rw [List.append_nil] at hc
    exact (List.mem_append.1 hc).elim (hdigit c) (isDigit_zeros c)
  leading h := absurd (by rwa [List.head?_append_of_ne_nil _ hne] at h) hhead
  trailing := by simp
  text_eq := (List.append_nil _).symm
  value_eq := by
    rw [List.append_nil, natural_append, natural_zeros, zeros, List.length_replicate]
    simp

theorem spells_inside (hhead : ds.head? ≠ some '0') (hlast : ds.getLast? ≠ some '0') {k : ℕ}
    (hpos : 0 < k) (hk : k < ds.length) :
    Spells (ds.take (ds.length - k) ++ '.' :: ds.drop (ds.length - k))
      (natural ds * 10 ^ (-k : ℤ)) (ds.take (ds.length - k)) (ds.drop (ds.length - k)) where
  whole_ne_nil := by
    rw [Ne, List.take_eq_nil_iff]
    exact not_or.2 ⟨by omega, hne⟩
  isDigit := by rwa [List.take_append_drop]
  leading h := by
    rw [List.head?_take, if_neg (by omega)] at h
    exact absurd h hhead
  trailing := by rwa [List.getLast?_drop, if_neg (by omega)]
  text_eq := by rw [fraction_of_ne_nil (by simp; omega)]
  value_eq := by
    rw [List.take_append_drop, List.length_drop, Nat.sub_sub_self (Nat.le_of_lt hk)]

theorem spells_below (hlast : ds.getLast? ≠ some '0') {k : ℕ} (hk : ds.length ≤ k) :
    Spells ('0' :: '.' :: zeros (k - ds.length) ++ ds) (natural ds * 10 ^ (-k : ℤ)) ['0']
      (zeros (k - ds.length) ++ ds) where
  whole_ne_nil := List.cons_ne_nil _ _
  isDigit c hc := by
    rw [List.singleton_append] at hc
    obtain rfl | hc := List.mem_cons.1 hc
    · rfl
    · exact (List.mem_append.1 hc).elim (isDigit_zeros c) (hdigit c)
  leading _ := rfl
  trailing := by rwa [List.getLast?_append_of_ne_nil _ hne]
  text_eq := by
    rw [fraction_of_ne_nil (by simp [hne])]
    rfl
  value_eq := by
    have hlength : (zeros (k - ds.length) ++ ds).length = k := by
      rw [List.length_append, zeros, List.length_replicate, Nat.sub_add_cancel hk]
    rw [hlength, List.singleton_append, natural_cons, natural_append, natural_zeros]
    simp

end Layouts

theorem digitText_mul_pow (h : n ≠ 0) (k : ℕ) : digitText (n * 10 ^ k) = digitText n ++ zeros k := by
  induction k with
  | zero => simp [zeros]
  | succ k ih =>
      have hpos : 0 < n * 10 ^ k := by positivity
      have hlast := Nat.toDigits_append_toDigits (b := 10) (by decide) hpos (Nat.zero_lt_succ 9)
      rw [zeros, List.replicate_succ', ← List.append_assoc]
      change _ = digitText n ++ zeros k ++ digitText 0
      rw [← ih, digitText, digitText, digitText, hlast]
      congr 1
      ring

theorem fixed_eq_positional (h : d.digits ≠ 0) : d.fixed = d.positional := by
  have hpos : 0 < (digitText d.digits).length := Nat.length_toDigits_pos
  rw [fixed, positional]
  generalize digitText d.digits = ds at *
  simp only [h, false_and, if_false]
  by_cases he : 0 ≤ d.exponent
  · rw [if_pos he, if_neg (by omega)]
    split
    · congr 2
      omega
    · obtain hzero : d.exponent = 0 := by omega
      simp [hzero, zeros, List.ne_nil_of_length_pos hpos]
  · obtain ⟨k, hk⟩ := Int.eq_ofNat_of_zero_le (a := -d.exponent) (by omega)
    obtain hexponent : d.exponent = -k := by omega
    rw [if_neg he, hk, Int.toNat_natCast, hexponent]
    rcases Nat.lt_trichotomy k ds.length with hlt | rfl | hgt
    · have hpoint : (-(k : ℤ) + ds.length).toNat = ds.length - k := by omega
      have hwhole : (ds.take (ds.length - k)).length ≠ 0 := by
        rw [List.length_take]
        omega
      have hpart : (ds.drop (ds.length - k)).length ≠ 0 := by
        rw [List.length_drop]
        omega
      rw [if_neg (by omega), if_neg (by omega), hpoint, if_pos hlt,
        List.isEmpty_eq_false_iff.2 (mt List.length_eq_zero_iff.2 hwhole),
        List.isEmpty_eq_false_iff.2 (mt List.length_eq_zero_iff.2 hpart)]
      rfl
    · simp [zeros, List.ne_nil_of_length_pos hpos]
    · have hbelow : -(k : ℤ) + ds.length < 0 := by omega
      have hzeros : (-(-(k : ℤ) + ds.length)).toNat = k - ds.length := by omega
      rw [if_pos hbelow, if_neg (Nat.not_lt.2 (Nat.le_of_lt hgt)), hzeros]

theorem fixed_pointed (h : n ≠ 0) : fixed ⟨n * 10, -1⟩ = digitText n ++ ['.', '0'] := by
  have hpos : 0 < (digitText n).length := Nat.length_toDigits_pos
  have hdigits := digitText_mul_pow h 1
  rw [pow_one] at hdigits
  rw [fixed_eq_positional (Nat.mul_ne_zero h (by decide)), positional, hdigits]
  generalize digitText n = ds at *
  simp [h, zeros, hpos]

/-- Positional notation is exact and leaves nothing out. It writes a whole number as such, and
otherwise just the digits that there are, with zeros before them. -/
theorem exists_positional (h : d.Stripped) : ∃ whole part,
    Spells d.positional d.value whole part ∧
      (d.digits ≠ 0 → 0 ≤ d.exponent → part = [] ∧ ∃ n ≠ 0, whole = digitText n) ∧
      (d.digits ≠ 0 → d.exponent < 0 → (⟨natural (whole ++ part), -part.length⟩ : Decimal) = d) := by
  obtain ⟨n, e⟩ := d
  rw [positional]
  simp only [value]
  have hdigits := isDigit_digitText (n := n)
  have hvalue := natural_digitText (n := n)
  by_cases hzero : n = 0
  · subst hzero
    exact ⟨['0'], [], by simpa using spells_zero, fun h => absurd rfl h, fun h => absurd rfl h⟩
  have hhead := head?_digitText hzero
  have hshift := digitText_mul_pow hzero
  have hlast := getLast?_digitText (h.resolve_left hzero)
  have hne : digitText n ≠ [] := Nat.toDigits_ne_nil
  generalize digitText n = ds at *
  rw [if_neg hzero]
  split
  · rename_i he
    obtain ⟨k, rfl⟩ := Int.eq_ofNat_of_zero_le he
    refine ⟨_, _, hvalue ▸ spells_above hne hdigits hhead k,
      fun _ _ => ⟨rfl, n * 10 ^ k, ?_, ?_⟩, fun _ => by omega⟩
    · exact Nat.mul_ne_zero hzero (Nat.pow_pos (by decide)).ne'
    · exact (hshift k).symm
  obtain ⟨k, hk⟩ := Int.eq_ofNat_of_zero_le (a := -e) (by omega)
  obtain rfl : e = -k := by omega
  simp only [neg_neg, Int.toNat_natCast]
  split
  · rename_i hlt
    refine ⟨_, _, hvalue ▸ spells_inside hne hdigits hhead hlast (by omega) hlt,
      fun _ => by omega, fun _ _ => ?_⟩
    rw [List.take_append_drop, hvalue, List.length_drop, Nat.sub_sub_self (Nat.le_of_lt hlt)]
  · rename_i hle
    have hlength : (zeros (k - ds.length) ++ ds).length = k := by
      rw [List.length_append, zeros, List.length_replicate, Nat.sub_add_cancel (Nat.not_lt.1 hle)]
    refine ⟨_, _, hvalue ▸ spells_below hne hdigits hlast (by omega),
      fun _ => by omega, fun _ _ => ?_⟩
    rw [hlength, List.singleton_append, natural_cons, natural_append, natural_zeros, hvalue]
    simp

def powerDigits (e : ℤ) : List Char :=
  let power := digitText e.natAbs
  if power.length < 2 then '0' :: power else power

theorem isDigit_powerDigits (e : ℤ) : ∀ c ∈ powerDigits e, c.isDigit = true := by
  intro c hc
  simp only [powerDigits] at hc
  split at hc
  · obtain rfl | hc := List.mem_cons.1 hc
    · rfl
    · exact isDigit_digitText c hc
  · exact isDigit_digitText c hc

theorem natural_powerDigits (e : ℤ) : natural (powerDigits e) = e.natAbs := by
  simp only [powerDigits]
  split
  · rw [natural_cons, natural_digitText]
    simp
  · exact natural_digitText

theorem powerDigits_ne_nil (e : ℤ) : powerDigits e ≠ [] := by
  simp only [powerDigits]
  split
  · exact List.cons_ne_nil _ _
  · exact Nat.toDigits_ne_nil

def powerText (e : ℤ) : List Char := 'e' :: (if e < 0 then '-' else '+') :: powerDigits e

theorem exponent?_powerText (e : ℤ) : exponent? (powerText e) = some e := by
  have hsign : sign ((if e < 0 then '-' else '+') :: powerDigits e) =
      (decide (e < 0), powerDigits e) := by
    by_cases he : e < 0 <;> simp [sign, he]
  have hend : ∀ c ∈ ([] : List Char).head?, c.isDigit = false ∧ c ≠ '_' := nofun
  have hdigits := digits_append (isDigit_powerDigits e) hend false
  rw [List.append_nil] at hdigits
  have hvalue := natural_powerDigits e
  obtain ⟨c, rest, hpower⟩ := List.exists_cons_of_ne_nil (powerDigits_ne_nil e)
  rw [hpower] at hsign hdigits hvalue
  simp only [powerText, exponent?, hpower, hsign, hdigits, hvalue, beq_self_eq_true, Bool.true_or,
    if_true, decide_eq_true_eq, Option.some.injEq]
  split <;> omega

def scientificForm (n : ℕ) (e : ℤ) : Form where
  whole := (digitText n).take 1
  part := (digitText n).drop 1
  power := powerText e
  exponent := e
  whole_ne_nil := by simp [digitText]
  isDigit := by
    rw [List.take_append_drop]
    exact isDigit_digitText
  power_head := by
    rintro c ⟨⟩
    rfl
  power_alphabet := by
    intro c hc
    obtain rfl | hc := List.mem_cons.1 hc
    · decide
    obtain rfl | hc := List.mem_cons.1 hc
    · split <;> decide
    · exact List.mem_append_left _ (mem_asciiDigits (isDigit_powerDigits e c hc))
  exponent_eq := exponent?_powerText e

theorem exists_scientific (d : Decimal) : ∃ f : Form, f.text = d.scientific ∧ f.decimal = d := by
  refine ⟨scientificForm d.digits d.leading, ?_, ?_⟩
  · change (digitText d.digits).take 1 ++ fraction ((digitText d.digits).drop 1) ++
      powerText d.leading = d.scientific
    rw [scientific, leading]
    generalize digitText d.digits = ds
    rcases ds with _ | ⟨lead, _ | ⟨second, rest⟩⟩ <;> rfl
  · have hpos : 0 < (digitText d.digits).length := Nat.length_toDigits_pos
    have hlast : (scientificForm d.digits d.leading).last = d.exponent := by
      simp only [Form.last, scientificForm, List.length_drop, leading]
      omega
    rw [Form.decimal, hlast, Form.digits]
    simp only [scientificForm, List.take_append_drop, natural_digitText]

theorem withoutPointZero_append (s : List Char) : withoutPointZero (s ++ ['.', '0']) = s := by
  simp [withoutPointZero]

end Decimal

namespace Binary64

open Decimal

variable {x : Binary64}

/-- Both notations of diagnostics spell the shortest decimal number. Without its exponent, and
without a point and zero, either is that number in positional notation. -/
theorem exists_diagnosticText (hf : x.isFinite = true) : ∃ f : Form,
    x.diagnosticText = String.ofList (x.signText ++ f.text) ∧ f.value = (shortest x).value ∧
      withoutPointZero (x.signText ++ f.decimal.fixed) =
        x.signText ++ (shortest x).positional := by
  obtain ⟨hnan, hinf⟩ := isFinite_iff.1 hf
  have hstripped := stripped_shortest hf
  rw [diagnosticText, hnan, hinf]
  simp only [Bool.false_eq_true, if_false]
  generalize shortest x = d at *
  obtain ⟨whole, part, hspells, hwhole, hpart⟩ := exists_positional hstripped
  have hfixed (hzero : d.digits ≠ 0) :
      withoutPointZero (x.signText ++ d.fixed) = x.signText ++ d.positional := by
    rw [fixed_eq_positional hzero]
    exact hspells.withoutPointZero_eq x
  split
  · rename_i hzero
    refine ⟨.positional ['0'] ['0'] (List.cons_ne_nil _ _) (by simp), rfl, ?_, ?_⟩
    · simp [Form.value, Form.digits, Form.positional, natural, value, hzero]
    · rw [positional, if_pos hzero, ← withoutPointZero_append (x.signText ++ ['0']),
        List.append_assoc]
      rfl
  rename_i hzero
  split
  · obtain ⟨f, htext, rfl⟩ := exists_scientific d
    exact ⟨f, by rw [htext], rfl, hfixed hzero⟩
  split
  · rename_i he
    obtain ⟨rfl, n, hn, rfl⟩ := hwhole hzero he
    obtain ⟨f, htext, hvalue, hdecimal⟩ := hspells.exists_pointed
    refine ⟨f, by rw [htext], hvalue, ?_⟩
    rw [hdecimal, natural_digitText, fixed_pointed hn, hspells.text_eq, fraction, List.append_nil,
      ← List.append_assoc, withoutPointZero_append]
  · rename_i he
    obtain ⟨f, htext, hvalue, hdecimal⟩ := hspells.exists_form
    rw [hpart hzero (by omega)] at hdecimal
    exact ⟨f, by rw [htext], hvalue, by rw [hdecimal, hfixed hzero]⟩

theorem text_eq (hf : x.isFinite = true) :
    x.text = String.ofList (x.signText ++ (shortest x).positional) := by
  obtain ⟨hnan, hinf⟩ := isFinite_iff.1 hf
  obtain ⟨f, hdiagnostic, -, hfixed⟩ := exists_diagnosticText hf
  have hnumeral : ofNumeral? x.diagnosticText.toList = some (x.negative, f.decimal) := by
    rw [hdiagnostic, String.toList_ofList]
    exact f.ofNumeral?_text x.negative
  simp only [text, hnan, hinf, hnumeral, Bool.false_eq_true, if_false]
  exact congrArg String.ofList hfixed

/-- The text of a finite number is positional and in canonical form. It spells exactly the decimal
number that the text of diagnostics spells, which has the fewest digits of all that are read as the
number. So both texts are read as the number, with its sign, and no other finite number and no
other kind of number has the same text. -/
theorem text_positional (hf : x.isFinite = true) :
    (∃ whole part, x.text.toList = x.signText ++ whole ++ fraction part ∧
      Canonical whole part) ∧
    (∃ q, value? x.text.toList = some q ∧ value? x.diagnosticText.toList = some q ∧
      q = (if x.negative then -1 else 1) * (shortest x).value) ∧
    (∀ (digits : ℕ) (exponent : ℤ), ofDecimal x.negative digits exponent = x →
      (digitText (shortest x).digits).length ≤ (digitText digits).length) ∧
    read? x.text = some x ∧
    read? x.diagnosticText = some x ∧
    (∀ y : Binary64, y.isFinite = true → y.text = x.text → y = x) ∧
    x.text ≠ "inf" ∧ x.text ≠ "-inf" ∧ x.text ≠ "NaN" := by
  have hread (y : Binary64) (hy : y.isFinite = true) : read? y.text = some y := by
    obtain ⟨whole, part, hspells, -⟩ := exists_positional (stripped_shortest hy)
    obtain ⟨f, htext, hvalue, -⟩ := hspells.exists_form
    rw [text_eq hy, ← htext, f.read?_eq_some hy (ofDecimal_shortest hy) hvalue]
  obtain ⟨whole, part, hspells, -⟩ := exists_positional (stripped_shortest hf)
  obtain ⟨f, htext, hvalue, -⟩ := hspells.exists_form
  obtain ⟨g, hdiagnostic, hvalue', -⟩ := exists_diagnosticText hf
  refine ⟨⟨whole, part, ?_, hspells.toCanonical⟩, ⟨_, ?_, ?_, rfl⟩,
    fun _ _ => shortest_fewest hf, hread x hf, ?_, ?_, ?_⟩
  · rw [text_eq hf, String.toList_ofList, hspells.text_eq, List.append_assoc]
  · rw [text_eq hf, String.toList_ofList, ← htext, ← hvalue]
    exact f.value?_text x.negative
  · rw [hdiagnostic, String.toList_ofList, ← hvalue']
    exact g.value?_text x.negative
  · rw [hdiagnostic, g.read?_eq_some hf (ofDecimal_shortest hf) hvalue']
  · intro y hy hsame
    have h := hread y hy
    rw [hsame, hread x hf] at h
    exact (Option.some.inj h).symm
  · have hword (word : String) (y : Binary64) (hy : read? word = some y)
        (hne : y.isFinite = false) : x.text ≠ word := by
      rintro rfl
      rw [hread x hf] at hy
      cases hy
      rw [hf] at hne
      cases hne
    exact ⟨hword _ .infinity rfl rfl, hword _ { infinity with negative := true } rfl rfl,
      hword _ .freshNaN rfl rfl⟩

end Binary64

namespace Sample

def tiny : Binary64 := ⟨true, 0x3E7AD7F29ABCAF48, by decide⟩

theorem tiny_positional :
    tiny.text = "-0.0000001" ∧ tiny.diagnosticText = "-1e-07" ∧
      (∃ q, value? tiny.text.toList = some q ∧ value? tiny.diagnosticText.toList = some q) ∧
      read? "-0.0000001" = some tiny := by
  have htext : tiny.text = "-0.0000001" := by decide +kernel
  obtain ⟨-, ⟨q, hvalue, hvalue', -⟩, -, hread, -⟩ :=
    Binary64.text_positional (x := tiny) (by decide)
  rw [htext] at hread
  exact ⟨htext, by decide +kernel, ⟨q, hvalue, hvalue'⟩, hread⟩

end Sample

end UiBinding
