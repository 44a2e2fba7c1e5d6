namespace UiBinding

structure Color where
  red : UInt8
  green : UInt8
  blue : UInt8
  alpha : UInt8
  deriving DecidableEq

namespace Color

def clear : Color := ⟨0, 0, 0, 0⟩

instance : Inhabited Color := ⟨clear⟩

def channel? (n : Int) : Option UInt8 :=
  if 0 ≤ n ∧ n ≤ 255 then some (UInt8.ofNat n.toNat) else none

def ofChannels? (red green blue alpha : Int) : Option Color := do
  return ⟨← channel? red, ← channel? green, ← channel? blue, ← channel? alpha⟩

/-- The bits that a mask lets through of an integer in two's complement. -/
def masked : Int → Nat → Nat
  | .ofNat n, mask => n &&& mask
  | .negSucc n, mask => mask - (n &&& mask)

def channel (bits : Nat) : UInt8 := UInt8.ofNat (bits &&& 0xFF)

/-- The colour packed as `0xAARRGGBB` in the low 32 bits of an integer. -/
def ofArgb (encoded : Int) : Color :=
  let word := masked encoded 0xFFFFFFFF
  ⟨channel (word >>> 16), channel (word >>> 8), channel word, channel (word >>> 24)⟩

def argb (c : Color) : Nat :=
  c.alpha.toNat <<< 24 ||| c.red.toNat <<< 16 ||| c.green.toNat <<< 8 ||| c.blue.toNat

def ofRgb? (red green blue : Int) : Option Color := ofChannels? red green blue 255

end Color

end UiBinding
