import UiBinding.Binary64

namespace UiBinding

structure LineTo where
  x : Binary64
  y : Binary64
  deriving DecidableEq

structure ArcTo where
  x : Binary64
  y : Binary64
  radiusX : Binary64
  radiusY : Binary64
  xRotation : Binary64
  largeArc : Bool
  sweep : Bool
  deriving DecidableEq

inductive Segment
  | lineTo (line : LineTo)
  | arcTo (arc : ArcTo)
  deriving DecidableEq

namespace Segment

def kind : Segment → String
  | lineTo _ => "line_to"
  | arcTo _ => "arc_to"

def eq : Segment → Segment → Bool
  | lineTo a, lineTo b => a.x.same b.x && a.y.same b.y
  | arcTo a, arcTo b =>
    a.x.same b.x && a.y.same b.y && a.radiusX.same b.radiusX && a.radiusY.same b.radiusY &&
      a.xRotation.same b.xRotation && a.largeArc == b.largeArc && a.sweep == b.sweep
  | _, _ => false

end Segment

inductive SegmentShape
  | line
  | arc
  deriving DecidableEq

namespace SegmentShape

def name : SegmentShape → String
  | line => "LineTo"
  | arc => "ArcTo"

def structName (s : SegmentShape) : String := "Path" ++ s.name

def ofName? (s : String) : Option SegmentShape := [line, arc].find? (·.name == s)

def start : SegmentShape → Segment
  | line => .lineTo ⟨.zero, .zero⟩
  | arc => .arcTo ⟨.zero, .zero, .zero, .zero, .zero, false, false⟩

end SegmentShape

end UiBinding
