import UiBinding.Binary64

namespace UiBinding.Numeral

/-- The code points of the digit zero in all scripts (as of Unicode 14); the other digits
of a script follow its zero. -/
def zeroDigits : Array Nat := #[
  0x30, 0x660, 0x6F0, 0x7C0, 0x966, 0x9E6, 0xA66, 0xAE6, 0xB66, 0xBE6, 0xC66, 0xCE6, 0xD66,
  0xDE6, 0xE50, 0xED0, 0xF20, 0x1040, 0x1090, 0x17E0, 0x1810, 0x1946, 0x19D0, 0x1A80, 0x1A90,
  0x1B50, 0x1BB0, 0x1C40, 0x1C50, 0xA620, 0xA8D0, 0xA900, 0xA9D0, 0xA9F0, 0xAA50, 0xABF0, 0xFF10,
  0x104A0, 0x10D30, 0x11066, 0x110F0, 0x11136, 0x111D0, 0x112F0, 0x11450, 0x114D0, 0x11650,
  0x116C0, 0x11730, 0x118E0, 0x11950, 0x11C50, 0x11D50, 0x11DA0, 0x16A60, 0x16AC0, 0x16B50,
  0x1D7CE, 0x1D7D8, 0x1D7E2, 0x1D7EC, 0x1D7F6, 0x1E140, 0x1E2F0, 0x1E950, 0x1FBF0]

def isBlank (c : Char) : Bool :=
  let n := c.toNat
  (0x09 ≤ n && n ≤ 0x0D) || n == 0x20 || n == 0x85 || n == 0xA0 || n == 0x1680 ||
    (0x2000 ≤ n && n ≤ 0x200A) || n == 0x2028 || n == 0x2029 || n == 0x202F || n == 0x205F ||
    n == 0x3000

def plain (c : Char) : Char :=
  match zeroDigits.find? fun z => z ≤ c.toNat && c.toNat < z + 10 with
  | some z => Char.ofNat (0x30 + (c.toNat - z))
  | none => c

def trim (s : List Char) : List Char :=
  ((s.dropWhile isBlank).reverse.dropWhile isBlank).reverse

def digits (afterDigit : Bool) : List Char → List Char × List Char
  | [] => ([], [])
  | c :: rest =>
    if c.isDigit then
      let (ds, tail) := digits true rest
      (c :: ds, tail)
    else if afterDigit && c == '_' && rest.head?.any Char.isDigit then digits false rest
    else ([], c :: rest)

def sign : List Char → Bool × List Char
  | '-' :: rest => (true, rest)
  | '+' :: rest => (false, rest)
  | s => (false, s)

def natural (ds : List Char) : Nat := ds.foldl (fun n c => 10 * n + (c.toNat - '0'.toNat)) 0

/-- Exponents beyond every number are cut off, as they decide nothing. -/
def magnitude (negative : Bool) (ds : List Char) (exponent : Int) : Binary64 :=
  let n := natural ds
  if n = 0 then { Binary64.zero with negative }
  else if 400 < exponent + ds.length then { Binary64.infinity with negative }
  else if exponent + ds.length < -400 then { Binary64.zero with negative }
  else Binary64.ofDecimal negative n exponent

def exponent? : List Char → Option Int
  | [] => some 0
  | c :: rest =>
    if c == 'e' || c == 'E' then
      let (negative, rest) := sign rest
      match digits false rest with
      | ([], _) => none
      | (ds, []) => some (if negative then -(natural ds : Int) else natural ds)
      | _ => none
    else none

def afterPoint : List Char → List Char × List Char
  | '.' :: rest => digits false rest
  | s => ([], s)

def parts? (s : List Char) : Option (List Char × List Char × Int) :=
  let (whole, rest) := digits false s
  let (part, rest) := afterPoint rest
  if whole.isEmpty && part.isEmpty then none
  else (exponent? rest).map fun e => (whole, part, e)

def unsigned? (negative : Bool) (s : List Char) : Option Binary64 :=
  let word := String.ofList (s.map Char.toLower)
  if word == "inf" || word == "infinity" then some { Binary64.infinity with negative }
  else if word == "nan" then some Binary64.freshNaN
  else (parts? s).map fun (whole, part, e) =>
    magnitude negative ((whole ++ part).dropWhile (· == '0')) (e - part.length)

/-- The number that a text spells: a decimal numeral, or a word for infinity or for no
number, with blanks around it and a sign before it. -/
def read? (s : String) : Option Binary64 :=
  let (negative, rest) := sign (trim (s.toList.map plain))
  unsigned? negative rest

def readBytes? (data : List UInt8) : Option Binary64 :=
  if data.all (· < 0x80) then read? (String.ofList (data.map fun b => Char.ofNat b.toNat)) else none

end UiBinding.Numeral
