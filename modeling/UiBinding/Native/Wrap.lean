import UiBinding.Conversion
import UiBinding.Native.Record
import UiBinding.Numeral

namespace UiBinding

inductive NativeError
  | conversion (failure : ConversionFailure)
  | integerTooLarge
  | notNumeric (type : String)
  | notANumeral (shown : String)
  | notADictionary (type : String)
  | notIterable (type : String)
  | notAKey (type : String)
  | malformed
  deriving DecidableEq

namespace Native

def ofInt (n : Int) : Except NativeError Binary64 :=
  match Binary64.ofInt? n with
  | some x => .ok x
  | none => .error .integerTooLarge

def segment? : Native → Option Segment
  | segment s => some s
  | _ => none

def segments? : List Native → Option (List Segment)
  | [] => some []
  | n :: ns => do return (← segment? n) :: (← segments? ns)

mutual

/-- The value that data stands for, judged by its type. A sequence of segments is a path,
any other one an array; keys of a dictionary become field names by their text, integers at any
length, as a limit that a host may set on their digits is left out. -/
def toValue : Native → Except NativeError Value
  | value v => .ok v
  | null => .ok .void
  | bool b => .ok (.bool b)
  | int n => (ofInt n).map .number
  | float x => .ok (.number x)
  | string s => .ok (.string s)
  | color c => .ok (.color c)
  | resource r => .ok (.resource r)
  | dict entries => (toFields entries).map fun fields => .object (Assoc.ofPairs fields)
  | list [] => .ok (.array [])
  | list (n :: ns) =>
    match segments? (n :: ns) with
    | some segments => .ok (.path segments)
    | none => (toItems (n :: ns)).map .array
  | tuple [] => .ok (.array [])
  | tuple (n :: ns) =>
    match segments? (n :: ns) with
    | some segments => .ok (.path segments)
    | none => (toItems (n :: ns)).map .array
  | segment s => .error (.conversion ⟨s.kind, "value", some .unsupportedType⟩)
  | n@(bytes _) | n@emptySet | n@(object _) =>
    .error (.conversion ⟨n.typeName, "value", some .unsupportedType⟩)

def toItems : List Native → Except NativeError (List Value)
  | [] => .ok []
  | n :: ns => do
    let v ← toValue n
    let vs ← toItems ns
    return v :: vs

def toFields : List (Native × Native) → Except NativeError (List (String × Value))
  | [] => .ok []
  | (key, n) :: entries => do
    let v ← toValue n
    let fields ← toFields entries
    return (key.text, v) :: fields

end

def truth : Native → Bool
  | null => false
  | bool b => b
  | int n => n != 0
  | float x => x.magnitude != 0
  | string s => s != ""
  | list items => !items.isEmpty
  | tuple items => !items.isEmpty
  | dict entries => !entries.isEmpty
  | bytes data => !data.isEmpty
  | emptySet => false
  | _ => true

def toNumber : Native → Except NativeError Binary64
  | bool b => .ok (if b then Binary64.ofInt 1 else .zero)
  | int n => ofInt n
  | float x => .ok x
  | string s =>
    match Numeral.read? s with
    | some x => .ok x
    | none => .error (.notANumeral (Text.quoted s))
  | bytes data =>
    match Numeral.readBytes? data with
    | some x => .ok x
    | none => .error (.notANumeral (bytesText data))
  | n => .error (.notNumeric n.typeName)

def toPath (n : Native) : Except NativeError Value :=
  match n with
  | list items | tuple items =>
    match items.mapM toSegment? with
    | some segments => .ok (.path segments)
    | none => .error .malformed
  | dict [] | string "" | bytes [] | emptySet => .ok (.path [])
  | dict _ | string _ | bytes _ | value _ | color _ | resource _ | segment _ => .error .malformed
  | n => .error (.notIterable n.typeName)

def toObject (n : Native) : Except NativeError Value :=
  match n with
  | dict entries => do
    let fields ← toFields entries
    if entries.all fun e => match e.1 with | string _ => true | _ => false then
      return .object fields
    else .error .malformed
  | n => .error (.notADictionary n.typeName)

def orMalformed : Option Value → Except NativeError Value
  | some v => .ok v
  | none => .error .malformed

def wrap (n : Native) (t : StorageType) : Except NativeError Value :=
  match t with
  | .i32 | .i64 | .u32 | .u64 | .isize | .usize | .f32 | .f64 => n.toNumber.map .number
  | .bool => .ok (.bool n.truth)
  | .string => .ok (.string n.text)
  | .resource => orMalformed (n.toResource?.map .resource)
  | .object => n.toObject
  | .color => orMalformed (n.toColor?.map .color)
  | .pathElements => n.toPath
  | .value => n.toValue

def wrapNamed (n : Native) (type : String) : Except NativeError Value :=
  match StorageType.ofName? type with
  | some t => n.wrap t
  | none => .error (.conversion ⟨n.kind, type, some .unknownNativeType⟩)

end Native

namespace Value

def unwrapNamed (v : Value) (type : String) (checked : Bool) : Except ConversionFailure Native :=
  match StorageType.ofName? type with
  | some t => v.unwrap t checked
  | none => .error ⟨v.kind, type, none⟩

end Value

end UiBinding
