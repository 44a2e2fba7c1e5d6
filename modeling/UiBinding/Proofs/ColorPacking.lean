import UiBinding.Evaluation
import UiBinding.Proofs.Narrowing

namespace UiBinding

namespace Color

theorem masked_two_pow (n : ℤ) (k : ℕ) : (masked n (2 ^ k - 1) : ℤ) = n % 2 ^ k := by
  have hpow : 0 < 2 ^ k := Nat.two_pow_pos k
  cases n with
  | ofNat n =>
      rw [masked, Nat.and_two_pow_sub_one_eq_mod]
      exact Int.natCast_emod n (2 ^ k)
  | negSucc n =>
      have hlt : n % 2 ^ k < 2 ^ k := Nat.mod_lt n hpow
      have hmod : Int.negSucc n % ((2 ^ k : ℕ) : ℤ) = (2 ^ k - 1 - n % 2 ^ k : ℕ) := by
        rw [Int.negSucc_emod n (by exact_mod_cast hpow)]
        push_cast [Nat.sub_sub, Nat.cast_sub (show 1 + n % 2 ^ k ≤ 2 ^ k by omega)]
        ring
      rw [masked, Nat.and_two_pow_sub_one_eq_mod, ← hmod]
      push_cast
      rfl

theorem channel_toNat (bits : ℕ) : (channel bits).toNat = bits % 256 := by
  rw [channel, UInt8.toNat_ofNat', Nat.and_two_pow_sub_one_eq_mod bits 8, Nat.mod_mod]

theorem channel_eq {bits : ℕ} {b : UInt8} (h : bits % 256 = b.toNat) : channel bits = b := by
  rw [← channel_toNat] at h
  exact UInt8.toNat_inj.1 h

/-- A channel is one digit of the integer to the base 256. The digits of a negative integer are
those of its two's complement. -/
theorem channels_ofArgb (n : ℤ) :
    ((ofArgb n).red.toNat : ℤ) = n / 2 ^ 16 % 256 ∧
      ((ofArgb n).green.toNat : ℤ) = n / 2 ^ 8 % 256 ∧
      ((ofArgb n).blue.toNat : ℤ) = n / 2 ^ 0 % 256 ∧
      ((ofArgb n).alpha.toNat : ℤ) = n / 2 ^ 24 % 256 := by
  have hword : (masked n 0xFFFFFFFF : ℤ) = n % 2 ^ 32 := masked_two_pow n 32
  simp only [ofArgb, channel_toNat, Nat.shiftRight_eq_div_pow]
  omega

theorem channel?_toNat (b : UInt8) : channel? b.toNat = some b := by
  have hb := b.toNat_lt
  rw [channel?, if_pos ⟨by omega, by omega⟩, Int.toNat_natCast, UInt8.ofNat_toNat]

theorem ofChannels?_digits (n : ℤ) :
    ofChannels? (n / 2 ^ 16 % 256) (n / 2 ^ 8 % 256) (n / 2 ^ 0 % 256) (n / 2 ^ 24 % 256) =
      some (ofArgb n) := by
  obtain ⟨hred, hgreen, hblue, halpha⟩ := channels_ofArgb n
  rw [← hred, ← hgreen, ← hblue, ← halpha, ofChannels?, channel?_toNat, channel?_toNat,
    channel?_toNat, channel?_toNat]
  rfl

theorem argb_eq (c : Color) : c.argb =
    c.alpha.toNat * 2 ^ 24 + c.red.toNat * 2 ^ 16 + c.green.toNat * 2 ^ 8 + c.blue.toNat := by
  have hlow : c.green.toNat <<< 8 + c.blue.toNat < 2 ^ 16 := by
    rw [Nat.shiftLeft_eq]
    have := c.green.toNat_lt
    have := c.blue.toNat_lt
    omega
  have hmiddle : c.red.toNat <<< 16 + (c.green.toNat <<< 8 + c.blue.toNat) < 2 ^ 24 := by
    rw [Nat.shiftLeft_eq]
    have := c.red.toNat_lt
    omega
  rw [argb, Nat.or_assoc, Nat.or_assoc, ← Nat.shiftLeft_add_eq_or_of_lt c.blue.toNat_lt,
    ← Nat.shiftLeft_add_eq_or_of_lt hlow, ← Nat.shiftLeft_add_eq_or_of_lt hmiddle]
  simp only [Nat.shiftLeft_eq, Nat.add_assoc]

theorem argb_ofArgb (n : ℤ) : ((ofArgb n).argb : ℤ) = n % 2 ^ 32 := by
  obtain ⟨hred, hgreen, hblue, halpha⟩ := channels_ofArgb n
  rw [argb_eq]
  push_cast
  rw [hred, hgreen, hblue, halpha]
  omega

theorem ofArgb_argb (c : Color) : ofArgb c.argb = c := by
  have hargb := c.argb_eq
  have hblue := c.blue.toNat_lt
  have hgreen := c.green.toNat_lt
  have hred := c.red.toNat_lt
  have halpha := c.alpha.toNat_lt
  have hword : (masked c.argb 0xFFFFFFFF : ℤ) = c.argb % 2 ^ 32 := masked_two_pow _ 32
  simp only [ofArgb, Nat.shiftRight_eq_div_pow]
  rw [channel_eq (show _ = c.red.toNat by omega), channel_eq (show _ = c.green.toNat by omega),
    channel_eq (show _ = c.blue.toNat by omega), channel_eq (show _ = c.alpha.toNat by omega)]

end Color

/-- Any integer is unpacked into a colour that packs to its low 32 bits, and a colour is what its
packed form is unpacked into. A number that is cast to a colour is brought into 32 bits first, and
not one bit of the result is lost. -/
theorem argb_cast_lossless :
    (∀ n : ℤ, Color.ofChannels? (n / 2 ^ 16 % 256) (n / 2 ^ 8 % 256) (n / 2 ^ 0 % 256)
        (n / 2 ^ 24 % 256) = some (.ofArgb n) ∧ ((Color.ofArgb n).argb : ℤ) = n % 2 ^ 32) ∧
    (∀ c : Color, Color.ofArgb c.argb = c) ∧
    ∀ (types : Catalog) (depth : ℕ) (scope : Scope) (s : State) (x : Binary64), ∃ c : Color,
      (Evaluation.eval types (depth + 2) scope (.cast (.number x) .color)).run s =
        (.ok (.value (.color c)), s) ∧ c.argb = x.clamped 0 (2 ^ 32 - 1) := by
  refine ⟨fun n => ⟨Color.ofChannels?_digits n, Color.argb_ofArgb n⟩, Color.ofArgb_argb,
    fun types depth scope s x => ⟨Color.ofArgb (x.saturate 0 0xFFFFFFFF), rfl, ?_⟩⟩
  have hmem : 0 ≤ x.saturate 0 0xFFFFFFFF ∧ x.saturate 0 0xFFFFFFFF ≤ 0xFFFFFFFF :=
    x.saturate_mem (by decide) (by decide)
  rw [Color.argb_ofArgb, ← Binary64.saturate_eq_clamped (by decide) (by decide) (by decide)]
  exact Int.emod_eq_of_lt hmem.1 (Int.lt_of_le_sub_one hmem.2)

example : Color.ofArgb (-1) = ⟨255, 255, 255, 255⟩ := by decide

end UiBinding
