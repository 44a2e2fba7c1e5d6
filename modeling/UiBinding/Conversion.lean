import UiBinding.Native.Display

namespace UiBinding

inductive ConversionReason
  | notANumber
  | notRepresentable (x : Binary64)
  | outOfRange
  | unknownNativeType
  | unsupportedType
  deriving DecidableEq

namespace ConversionReason

def message : ConversionReason → String
  | notANumber => "NaN"
  | notRepresentable x => x.diagnosticText ++ " is not representable"
  | outOfRange => "out of range"
  | unknownNativeType => "unknown native type"
  | unsupportedType => "unsupported Python type"

end ConversionReason

structure ConversionFailure where
  source : String
  target : String
  reason : Option ConversionReason
  deriving DecidableEq

namespace ConversionFailure

def message (f : ConversionFailure) : String :=
  "Cannot convert " ++ f.source ++ " to " ++ f.target ++
    match f.reason with
    | none => ""
    | some reason => ": " ++ reason.message

end ConversionFailure

namespace Binary64

def saturate (x : Binary64) (lower upper : Int) : Int :=
  if x.isNaN then 0
  else if x.signedUnits ≤ lower * one then lower
  else if upper * one ≤ x.signedUnits then upper
  else x.truncate

def fits (x : Binary64) (lower upper : Int) : Bool :=
  x.isIntegral && lower * one ≤ x.signedUnits && x.signedUnits ≤ upper * one

/-- An integer of the given bounds; with `checked`, only if nothing is lost. -/
def toInteger (x : Binary64) (lower upper : Int) (checked : Bool) : Except ConversionReason Int :=
  if checked && x.isNaN then .error .notANumber
  else if checked && !x.fits lower upper then .error (.notRepresentable x)
  else .ok (x.saturate lower upper)

/-- A single precision number; with `checked`, only if it stays finite. Digits are lost
in both cases. -/
def narrowSingle (x : Binary64) (checked : Bool) : Except ConversionReason Binary64 :=
  if checked && x.exceedsSingle then .error .outOfRange else .ok x.toSingle

end Binary64

namespace StorageType

def ofNumber? (t : StorageType) (x : Binary64) (checked : Bool) :
    Option (Except ConversionReason Native) :=
  match t with
  | f64 => some (.ok (.float x))
  | f32 => some ((x.narrowSingle checked).map .float)
  | t => t.bounds?.map fun b => (x.toInteger b.1 b.2 checked).map .int

end StorageType

namespace Value

def fail (v : Value) (t : StorageType) (reason : Option ConversionReason) : ConversionFailure :=
  ⟨v.kind, t.name, reason⟩

def unwrap (v : Value) (t : StorageType) (checked : Bool) : Except ConversionFailure Native :=
  match t, v with
  | .value, v => .ok (.value v)
  | .bool, bool b => .ok (.bool b)
  | .string, string s => .ok (.string s)
  | .resource, resource r => .ok (.resource r)
  | .object, object fields => .ok (.dict (fields.map fun f => (.string f.1, .value f.2)))
  | .color, color c => .ok (.color c)
  | .pathElements, path segments => .ok (.tuple (segments.map .segment))
  | t, number x =>
    match t.ofNumber? x checked with
    | some (.ok n) => .ok n
    | some (.error reason) => .error (fail v t reason)
    | none => .error (fail v t none)
  | t, v => .error (fail v t none)

def toBool : Value → Except ConversionFailure Bool
  | bool b => .ok b
  | v => .error (fail v .bool none)

def toSingle : Value → Except ConversionFailure Binary64
  | number x => .ok x.toSingle
  | v => .error (fail v .f32 none)

end Value

end UiBinding
