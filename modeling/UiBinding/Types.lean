namespace UiBinding

inductive DeclaredType
  | void
  | int32
  | float32
  | length
  | duration
  | string
  | bool
  | color
  | resource
  | array
  | object
  | pathElements
  | signal
  deriving DecidableEq

namespace DeclaredType

def all : List DeclaredType :=
  [void, int32, float32, length, duration, string, bool, color, resource, array, object,
    pathElements, signal]

def name : DeclaredType → String
  | void => "void"
  | int32 => "int32"
  | float32 => "float32"
  | length => "length"
  | duration => "duration"
  | string => "string"
  | bool => "bool"
  | color => "color"
  | resource => "resource"
  | array => "array"
  | object => "object"
  | pathElements => "path_elements"
  | signal => "signal"

def ofName? (s : String) : Option DeclaredType := all.find? (·.name == s)

end DeclaredType

inductive StorageType
  | i32
  | i64
  | u32
  | u64
  | isize
  | usize
  | f32
  | f64
  | bool
  | string
  | resource
  | object
  | color
  | pathElements
  | value
  deriving DecidableEq

namespace StorageType

def all : List StorageType :=
  [i32, i64, u32, u64, isize, usize, f32, f64, bool, string, resource, object, color,
    pathElements, value]

def name : StorageType → String
  | i32 => "i32"
  | i64 => "i64"
  | u32 => "u32"
  | u64 => "u64"
  | isize => "isize"
  | usize => "usize"
  | f32 => "f32"
  | f64 => "f64"
  | bool => "bool"
  | string => "string"
  | resource => "resource"
  | object => "object"
  | color => "color"
  | pathElements => "path_elements"
  | value => "value"

def ofName? (s : String) : Option StorageType := all.find? (·.name == s)

def bounds? : StorageType → Option (Int × Int)
  | i32 => some (-0x80000000, 0x7FFFFFFF)
  | i64 | isize => some (-0x8000000000000000, 0x7FFFFFFFFFFFFFFF)
  | u32 => some (0, 0xFFFFFFFF)
  | u64 | usize => some (0, 0xFFFFFFFFFFFFFFFF)
  | _ => none

end StorageType

end UiBinding
