import UiBinding.Conversion

namespace UiBinding

inductive SegmentField
  | x
  | y
  | radiusX
  | radiusY
  | xRotation
  | largeArc
  | sweep
  deriving DecidableEq

namespace SegmentField

def all : List SegmentField := [x, y, radiusX, radiusY, xRotation, largeArc, sweep]

def name : SegmentField → String
  | x => "x"
  | y => "y"
  | radiusX => "radius_x"
  | radiusY => "radius_y"
  | xRotation => "x_rotation"
  | largeArc => "large_arc"
  | sweep => "sweep"

def type : SegmentField → StorageType
  | x | y | radiusX | radiusY | xRotation => .f32
  | largeArc | sweep => .bool

def ofName? (s : String) : Option SegmentField := all.find? (·.name == s)

end SegmentField

namespace SegmentShape

def fields : SegmentShape → List SegmentField
  | line => [.x, .y]
  | arc => [.x, .y, .radiusX, .radiusY, .xRotation, .largeArc, .sweep]

end SegmentShape

namespace Segment

def get? : Segment → SegmentField → Option Value
  | lineTo l, .x => some (.number l.x)
  | lineTo l, .y => some (.number l.y)
  | lineTo _, _ => none
  | arcTo a, .x => some (.number a.x)
  | arcTo a, .y => some (.number a.y)
  | arcTo a, .radiusX => some (.number a.radiusX)
  | arcTo a, .radiusY => some (.number a.radiusY)
  | arcTo a, .xRotation => some (.number a.xRotation)
  | arcTo a, .largeArc => some (.bool a.largeArc)
  | arcTo a, .sweep => some (.bool a.sweep)

def setNumber (s : Segment) (field : SegmentField) (n : Binary64) : Segment :=
  match s, field with
  | lineTo l, .x => lineTo { l with x := n }
  | lineTo l, .y => lineTo { l with y := n }
  | arcTo a, .x => arcTo { a with x := n }
  | arcTo a, .y => arcTo { a with y := n }
  | arcTo a, .radiusX => arcTo { a with radiusX := n }
  | arcTo a, .radiusY => arcTo { a with radiusY := n }
  | arcTo a, .xRotation => arcTo { a with xRotation := n }
  | s, _ => s

def setFlag (s : Segment) (field : SegmentField) (b : Bool) : Segment :=
  match s, field with
  | arcTo a, .largeArc => arcTo { a with largeArc := b }
  | arcTo a, .sweep => arcTo { a with sweep := b }
  | s, _ => s

def set (s : Segment) (field : SegmentField) (v : Value) : Except ConversionFailure Segment :=
  match field.type with
  | .bool => v.toBool.map (s.setFlag field)
  | _ => v.toSingle.map (s.setNumber field)

def store (s : Segment) (field : SegmentField) (n : Native) : Except ConversionFailure Segment :=
  match n with
  | .value v => s.set field v
  | n => .error ⟨n.kind, field.type.name, none⟩

end Segment

end UiBinding
