import UiBinding.Numeral

namespace UiBinding

structure Decimal where
  digits : Nat
  exponent : Int
  deriving DecidableEq

namespace Decimal

def strip : Nat → Decimal → Decimal
  | 0, d => d
  | fuel + 1, d =>
    if d.digits % 10 = 0 ∧ d.digits ≠ 0 then strip fuel ⟨d.digits / 10, d.exponent + 1⟩ else d

def digitText (n : Nat) : List Char := Nat.toDigits 10 n

def scaled (x : Binary64) : Nat := x.units * Nat.pow 5 1074

def readsAs (x : Binary64) (c : Nat) : Bool := Binary64.nearest c (Nat.pow 5 1074) == x.magnitude

/-- The multiple of `step` next to `n` that is read as `x`: the nearer one where both
neighbours are, and of two equally near ones the even multiple. -/
def neighbour? (x : Binary64) (n step : Nat) : Option Nat :=
  let lower := n / step
  let below := readsAs x (lower * step)
  let above := readsAs x ((lower + 1) * step)
  if below && above then
    some (Binary64.roundHalfEven n step)
  else if below then some lower
  else if above then some (lower + 1)
  else none

/-- The fewest digits that are read back as the absolute value of `x`, and among those
the nearest. All digits of the exact value stand in where seventeen are not enough. -/
def shortest (x : Binary64) : Decimal :=
  let n := scaled x
  let count := (digitText n).length
  let attempt (i : Nat) : Option Decimal :=
    let places := count - (i + 1)
    (neighbour? x n (Nat.pow 10 places)).map (⟨·, (places : Int) - 1074⟩)
  strip count (((List.range 17).findSome? attempt).getD ⟨n, -1074⟩)

def zeros (n : Nat) : List Char := List.replicate n '0'

/-- Positional notation: no exponent, no superfluous zero, a point only before digits. -/
def positional (d : Decimal) : List Char :=
  let ds := digitText d.digits
  if d.digits = 0 then ['0']
  else if 0 ≤ d.exponent then ds ++ zeros d.exponent.toNat
  else
    let places := (-d.exponent).toNat
    if places < ds.length then
      ds.take (ds.length - places) ++ '.' :: ds.drop (ds.length - places)
    else '0' :: '.' :: zeros (places - ds.length) ++ ds

def scientific (d : Decimal) : List Char :=
  let ds := digitText d.digits
  let e := d.exponent + ds.length - 1
  let power := digitText e.natAbs
  let mantissa :=
    match ds with
    | lead :: second :: rest => lead :: '.' :: second :: rest
    | _ => ds
  mantissa ++ 'e' :: (if e < 0 then '-' else '+') ::
    (if power.length < 2 then '0' :: power else power)

def leading (d : Decimal) : Int := d.exponent + (digitText d.digits).length - 1

def ofNumeral? (s : List Char) : Option (Bool × Decimal) :=
  let (negative, rest) := Numeral.sign s
  (Numeral.parts? rest).map fun (whole, part, e) =>
    (negative, ⟨Numeral.natural (whole ++ part), e - part.length⟩)

/-- Fixed notation: no exponent, and all digits, also zeros at the end. -/
def fixed (d : Decimal) : List Char :=
  let ds := digitText d.digits
  let point := d.exponent + ds.length
  if d.digits = 0 ∧ 0 < d.exponent then ['0']
  else if point < 0 then '0' :: '.' :: zeros (-point).toNat ++ ds
  else if ds.length < point then ds ++ zeros (point - ds.length).toNat
  else
    let whole := ds.take point.toNat
    let part := ds.drop point.toNat
    (if whole.isEmpty then ['0'] else whole) ++ (if part.isEmpty then [] else '.' :: part)

def withoutPointZero (s : List Char) : List Char :=
  if ['.', '0'].isSuffixOf s then s.take (s.length - 2) else s

end Decimal

namespace Binary64

def signText (x : Binary64) : List Char := if x.negative then ['-'] else []

/-- Number text of diagnostics: positional with at least one decimal while the leading
digit stands between `10 ^ -4` and `10 ^ 15`, otherwise with an exponent. -/
def diagnosticText (x : Binary64) : String :=
  if x.isNaN then "nan"
  else
    String.ofList (x.signText ++
      if x.isInfinite then "inf".toList
      else
        let d := Decimal.shortest x
        if d.digits = 0 then "0.0".toList
        else if d.leading < -4 ∨ 16 ≤ d.leading then d.scientific
        else if 0 ≤ d.exponent then d.positional ++ ['.', '0']
        else d.positional)

/-- Number text of the binding language: the numeral of diagnostics without its exponent, and
without a point that has no digit but a zero after it. -/
def text (x : Binary64) : String :=
  if x.isNaN then "NaN"
  else if x.isInfinite then (if x.negative then "-inf" else "inf")
  else
    match Decimal.ofNumeral? x.diagnosticText.toList with
    | some (negative, d) =>
      String.ofList (Decimal.withoutPointZero ((if negative then ['-'] else []) ++ d.fixed))
    | none => ""

end Binary64

end UiBinding
