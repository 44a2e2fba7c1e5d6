import UiBinding.Types
import UiBinding.Value

namespace UiBinding

/-- Data of the host program: what properties store and what models are made of. -/
inductive Native
  | null
  | bool (b : Bool)
  | int (n : Int)
  | float (x : Binary64)
  | string (s : String)
  | list (items : List Native)
  | tuple (items : List Native)
  | dict (entries : List (Native × Native))
  | color (c : Color)
  | resource (r : Resource)
  | segment (s : Segment)
  | value (v : Value)
  | bytes (data : List UInt8)
  | emptySet
  | object (identity : Nat)

namespace Value

def typeName : Value → String
  | void => "VoidValue"
  | number _ => "NumberValue"
  | string _ => "StringValue"
  | bool _ => "BoolValue"
  | resource _ => "ResourceValue"
  | array _ => "ArrayValue"
  | object _ => "ObjectValue"
  | color _ => "ColorValue"
  | path _ => "PathElementsValue"

end Value

namespace Resource

def typeName : Resource → String
  | none => "NoResource"
  | file _ => "AbsoluteFilePath"
  | embedded _ => "EmbeddedData"

end Resource

namespace Segment

def shape : Segment → SegmentShape
  | lineTo _ => .line
  | arcTo _ => .arc

end Segment

namespace Native

instance : Inhabited Native := ⟨null⟩

def typeName : Native → String
  | null => "NoneType"
  | bool _ => "bool"
  | int _ => "int"
  | float _ => "float"
  | string _ => "str"
  | list _ => "list"
  | tuple _ => "tuple"
  | dict _ => "dict"
  | color _ => "Color"
  | resource r => r.typeName
  | segment s => s.shape.structName
  | value v => v.typeName
  | bytes _ => "bytes"
  | emptySet => "set"
  | object _ => "object"

def kind? : Native → Option String
  | resource r => some r.kind
  | segment s => some s.kind
  | value v => some v.kind
  | _ => none

def kind (n : Native) : String := n.kind?.getD n.typeName

def wholeNumber? : Native → Option Int
  | bool b => some (if b then 1 else 0)
  | int n => some n
  | float x => if x.isIntegral then some x.truncate else none
  | _ => none

/-- Both are the constant NaN, which is one object although it is no number that equals itself. -/
def isOneObject : Native → Native → Bool
  | float x, float y => x == .nan && y == .nan
  | _, _ => false

mutual

/-- Equality of data. Numbers are compared across their types, so `1`, `1.0` and true are
equal, and dictionaries without regard to the order of their entries. A value equals no
other data. In collections one object equals itself. -/
def eq : Native → Native → Bool
  | null, null => true
  | string a, string b => a == b
  | list as, list bs => eqItems as bs
  | tuple as, tuple bs => eqItems as bs
  | dict as, dict bs => as.length == bs.length && eqEntries as bs
  | color a, color b => a == b
  | resource a, resource b => a == b
  | segment a, segment b => a.eq b
  | value a, value b => a.eq b
  | bytes a, bytes b => a == b
  | emptySet, emptySet => true
  | object a, object b => a == b
  | float a, float b => a.eq b
  | a, b =>
    match a.wholeNumber?, b.wholeNumber? with
    | some m, some n => m == n
    | _, _ => false

def eqItems : List Native → List Native → Bool
  | [], [] => true
  | a :: as, b :: bs => (isOneObject a b || eq a b) && eqItems as bs
  | _, _ => false

def eqEntries : List (Native × Native) → List (Native × Native) → Bool
  | [], _ => true
  | (key, a) :: as, bs =>
    bs.any (fun e =>
      (isOneObject key e.1 || eq key e.1) && (isOneObject a e.2 || eq a e.2)) && eqEntries as bs

end

end Native

namespace Value

def keyObstacle? : Value → Option String
  | array _ => some "list"
  | object _ => some "dict"
  | path (s :: _) => some s.shape.structName
  | _ => none

end Value

namespace Native

mutual

def keyObstacle? : Native → Option String
  | list _ => some "list"
  | dict _ => some "dict"
  | emptySet => some "set"
  | segment s => some s.shape.structName
  | tuple items => keyObstacleAmong? items
  | value v => v.keyObstacle?
  | _ => none

def keyObstacleAmong? : List Native → Option String
  | [] => none
  | n :: ns => (keyObstacle? n).or (keyObstacleAmong? ns)

end

def insertEntry : List (Native × Native) → Native → Native → List (Native × Native)
  | [], key, n => [(key, n)]
  | (k, m) :: entries, key, n =>
    if isOneObject k key || eq k key then (k, n) :: entries
    else (k, m) :: insertEntry entries key n

/-- A dictionary of entries given in order. A repeated key keeps its place and its
first spelling and takes the last entry. Fails with the type that keeps a key from being
one. -/
def ofEntries (entries : List (Native × Native)) : Except String Native :=
  match entries.findSome? (·.1.keyObstacle?) with
  | some type => .error type
  | none => .ok (dict (entries.foldl (fun d e => insertEntry d e.1 e.2) []))

end Native

namespace StorageType

def start : StorageType → Native
  | i32 | i64 | u32 | u64 | isize | usize => .int 0
  | f32 | f64 => .float .zero
  | bool => .bool false
  | string => .string ""
  | resource => .resource .none
  | object => .dict []
  | color => .color .clear
  | pathElements => .tuple []
  | value => .value .void

end StorageType

namespace DeclaredType

def start : DeclaredType → Value
  | int32 | float32 | length | duration => .number .zero
  | string => .string ""
  | bool => .bool false
  | color => .color .clear
  | resource => .resource .none
  | array => .array []
  | object => .object []
  | pathElements => .path []
  | void | signal => .void

end DeclaredType

end UiBinding
