namespace UiBinding

/-- A double precision number as a sign and the 63 bits after it. Magnitudes are
ordered as the numbers they stand for; the ones above `Binary64.top` are no numbers. -/
structure Binary64 where
  negative : Bool
  magnitude : Nat
  bound : magnitude < 0x8000000000000000
  deriving DecidableEq

namespace Binary64

def hidden : Nat := 0x10000000000000

def top : Nat := 2047 * hidden

def zero : Binary64 := ⟨false, 0, by decide⟩

def infinity : Binary64 := ⟨false, top, by decide⟩

/-- The NaN that the program holds as a constant: one object, wherever it is handed out. -/
def nan : Binary64 := ⟨false, 0x7FF8000000000000, by decide⟩

/-- A NaN that has just been made: a new object each time. -/
def freshNaN : Binary64 := ⟨false, 0x7FFFFFFFFFFFFFFF, by decide⟩

instance : Inhabited Binary64 := ⟨zero⟩

def isNaN (x : Binary64) : Bool := top < x.magnitude

def ofBits (word : Nat) : Binary64 :=
  let x : Binary64 :=
    ⟨word / 0x8000000000000000 % 2 == 1, word % 0x8000000000000000, Nat.mod_lt _ (by decide)⟩
  if x.isNaN then freshNaN else x

def toBits (x : Binary64) : Nat :=
  (if x.negative then 0x8000000000000000 else 0) + x.magnitude

def isInfinite (x : Binary64) : Bool := x.magnitude == top

def isFinite (x : Binary64) : Bool := x.magnitude < top

def units (x : Binary64) : Nat :=
  if x.magnitude / hidden = 0 then x.magnitude
  else (hidden + x.magnitude % hidden) <<< (x.magnitude / hidden - 1)

def signedUnits (x : Binary64) : Int :=
  if x.negative then -(x.units : Int) else x.units

def roundHalfEven (a b : Nat) : Nat :=
  if 2 * (a % b) < b ∨ 2 * (a % b) = b ∧ a / b % 2 = 0 then a / b else a / b + 1

def excess (width n : Nat) : Nat := n.log2 + 1 - width

/-- The magnitude nearest to `a / b` units. A carry out of the significand lands in
the exponent, which is the next magnitude up. -/
def nearest (a b : Nat) : Nat :=
  excess 53 (a / b) * hidden + roundHalfEven a (b <<< excess 53 (a / b))

theorem min_top_lt (n : Nat) : min top n < 0x8000000000000000 :=
  Nat.lt_of_le_of_lt (Nat.min_le_left _ _) (by decide)

def ofUnits (negative : Bool) (a b : Nat) : Binary64 :=
  ⟨negative, min top (nearest a b), min_top_lt _⟩

def one : Nat := 1 <<< 1074

def ofInt (n : Int) : Binary64 := ofUnits (n < 0) (n.natAbs * one) 1

def ofInt? (n : Int) : Option Binary64 :=
  if (ofInt n).isInfinite then none else some (ofInt n)

def ofDecimal (negative : Bool) (digits : Nat) (exponent : Int) : Binary64 :=
  if 0 ≤ exponent then ofUnits negative (digits * Nat.pow 10 exponent.toNat * one) 1
  else ofUnits negative (digits * one) (Nat.pow 10 (-exponent).toNat)

def neg (x : Binary64) : Binary64 :=
  if x.isNaN then freshNaN else { x with negative := !x.negative }

def abs (x : Binary64) : Binary64 := { x with negative := false }

def copySign (x y : Binary64) : Binary64 := { x with negative := y.negative }

/-- The place of a number in the order of all numbers; both zeros share one place. -/
def rank (x : Binary64) : Int :=
  if x.negative then -(x.magnitude : Int) else x.magnitude

def eq (x y : Binary64) : Bool :=
  !x.isNaN && !y.isNaN && x.rank == y.rank

def lt (x y : Binary64) : Bool :=
  !x.isNaN && !y.isNaN && x.rank < y.rank

def le (x y : Binary64) : Bool :=
  !x.isNaN && !y.isNaN && x.rank ≤ y.rank

/-- Equality of stored numbers: `nan` is the same object as itself, and all else is compared as
numbers. Of the other NaNs it is not modelled which are one object: each counts as another one than
whatever it is compared with, also where one is stored and read twice. -/
def same (x y : Binary64) : Bool := x.eq y || x == nan && y == nan

def add (x y : Binary64) : Binary64 :=
  if x.isNaN || y.isNaN then freshNaN
  else if x.isInfinite then (if y.isInfinite && x.negative != y.negative then freshNaN else x)
  else if y.isInfinite then y
  else
    let sum := x.signedUnits + y.signedUnits
    if sum = 0 then { zero with negative := x.negative && y.negative }
    else ofUnits (sum < 0) sum.natAbs 1

def sub (x y : Binary64) : Binary64 := x.add y.neg

def mul (x y : Binary64) : Binary64 :=
  let negative := x.negative != y.negative
  if x.isNaN || y.isNaN then freshNaN
  else if x.isInfinite || y.isInfinite then
    (if x.magnitude == 0 || y.magnitude == 0 then freshNaN else { infinity with negative })
  else ofUnits negative (x.units * y.units) one

/-- The divisor zero is looked at first, so that also a NaN divided by it gives the constant. -/
def div (x y : Binary64) : Binary64 :=
  let negative := x.negative != y.negative
  if y.magnitude == 0 then
    (if x.magnitude == 0 || x.isNaN then nan else { infinity with negative })
  else if x.isNaN || y.isNaN then freshNaN
  else if x.isInfinite then (if y.isInfinite then freshNaN else { infinity with negative })
  else if y.isInfinite then { zero with negative }
  else ofUnits negative (x.units * one) y.units

def truncate (x : Binary64) : Int :=
  if x.negative then -(x.units / one : Nat) else (x.units / one : Nat)

def isIntegral (x : Binary64) : Bool := x.isFinite && x.units % one == 0

def half : Binary64 := ⟨false, 1022 * hidden, by decide⟩

/-- The floor of the sum of `|x|` and one half under the sign of `x`. The sum is rounded
like every sum, so the number just below one half goes to one. -/
def roundHalfAway (x : Binary64) : Binary64 :=
  if x.isFinite then (ofInt (x.abs.add half).truncate).copySign x else x

def singleMax : Binary64 := ⟨false, 0x47EFFFFFE0000000, by decide⟩

def exceedsSingle (x : Binary64) : Bool := x.isFinite && singleMax.magnitude < x.magnitude

def singleUnit : Nat := 1 <<< 925

/-- The nearest single precision number, a tie to the even significand. What exceeds the
largest finite one becomes infinite. A NaN goes through a word of 32 bits and comes out anew. -/
def toSingle (x : Binary64) : Binary64 :=
  if x.isFinite then
    if x.exceedsSingle then { infinity with negative := x.negative }
    else
      let k := excess 24 (x.units / singleUnit)
      ofUnits x.negative ((roundHalfEven x.units (singleUnit <<< k) <<< k) * singleUnit) 1
  else if x.isNaN then freshNaN
  else x

end Binary64

end UiBinding
