import UiBinding.Decimal
import UiBinding.Native
import UiBinding.Text.Quoted

namespace UiBinding

abbrev Parts := List (String × String)

namespace Parts

def joined (parts : Parts) (separator : String) : String :=
  separator.intercalate (parts.map fun p => p.1 ++ "=" ++ p.2)

def record (parts : Parts) (type : String) : String :=
  type ++ "(" ++ joined parts ", " ++ ")"

end Parts

def truthText (b : Bool) : String := if b then "True" else "False"

def listText (items : List String) : String := "[" ++ ", ".intercalate items ++ "]"

def tupleText : List String → String
  | [item] => "(" ++ item ++ ",)"
  | items => "(" ++ ", ".intercalate items ++ ")"

def dictText (entries : Parts) : String :=
  "\x7b" ++ ", ".intercalate (entries.map fun p => p.1 ++ ": " ++ p.2) ++ "\x7d"

def byteChar (mark : Char) (b : UInt8) : List Char :=
  let c := Char.ofNat b.toNat
  if c = mark ∨ c = '\\' then ['\\', c]
  else if c = '\n' then ['\\', 'n']
  else if c = '\r' then ['\\', 'r']
  else if c = '\t' then ['\\', 't']
  else if 0x20 ≤ b.toNat ∧ b.toNat < 0x7F then [c]
  else Text.codePoint c

def bytesText (data : List UInt8) : String :=
  let mark := Text.quotationMark (data.map fun b => Char.ofNat b.toNat)
  String.ofList ('b' :: mark :: data.flatMap (byteChar mark) ++ [mark])

def Color.parts (c : Color) : Parts :=
  [("red", toString c.red.toNat), ("green", toString c.green.toNat),
    ("blue", toString c.blue.toNat), ("alpha", toString c.alpha.toNat)]

def Resource.parts (r : Resource) : Parts :=
  ("kind", Text.quoted r.kind) ::
    match r with
    | .none => []
    | .file path => [("path", Text.quoted path)]
    | .embedded data => [("data", bytesText data)]

def Segment.parts (s : Segment) : Parts :=
  ("kind", Text.quoted s.kind) ::
    match s with
    | .lineTo l => [("x", l.x.diagnosticText), ("y", l.y.diagnosticText)]
    | .arcTo a =>
      [("x", a.x.diagnosticText), ("y", a.y.diagnosticText),
        ("radius_x", a.radiusX.diagnosticText), ("radius_y", a.radiusY.diagnosticText),
        ("x_rotation", a.xRotation.diagnosticText), ("large_arc", truthText a.largeArc),
        ("sweep", truthText a.sweep)]

def Color.display (c : Color) : String := c.parts.record "Color"

def Resource.display (r : Resource) : String := r.parts.record r.typeName

def Segment.display (s : Segment) : String := s.parts.record s.shape.structName

namespace Value

mutual

def parts : Value → Parts
  | void => [("kind", "'void'")]
  | number n => [("kind", "'number'"), ("value", n.diagnosticText)]
  | string s => [("kind", "'string'"), ("value", Text.quoted s)]
  | bool b => [("kind", "'bool'"), ("value", truthText b)]
  | resource r => [("kind", "'resource'"), ("resource", r.display)]
  | array items => [("kind", "'array'"), ("values", listText (displayItems items))]
  | object fields => [("kind", "'object'"), ("fields", dictText (displayFields fields))]
  | color c => [("kind", "'color'"), ("color", c.display)]
  | path segments =>
    [("kind", "'path_elements'"), ("elements", tupleText (segments.map Segment.display))]

def displayItems : List Value → List String
  | [] => []
  | v :: vs => Parts.record (parts v) (typeName v) :: displayItems vs

def displayFields : List (String × Value) → Parts
  | [] => []
  | (key, v) :: fs => (Text.quoted key, Parts.record (parts v) (typeName v)) :: displayFields fs

end

def display (v : Value) : String := v.parts.record v.typeName

end Value

namespace Native

mutual

def display : Native → String
  | null => "None"
  | bool b => truthText b
  | int n => toString n
  | float x => x.diagnosticText
  | string s => Text.quoted s
  | list items => listText (displayItems items)
  | tuple items => tupleText (displayItems items)
  | dict entries => dictText (displayEntries entries)
  | color c => c.display
  | resource r => r.display
  | segment s => s.display
  | value v => v.display
  | bytes data => bytesText data
  | emptySet => "set()"
  | object _ => "<object>"

def displayItems : List Native → List String
  | [] => []
  | n :: ns => display n :: displayItems ns

def displayEntries : List (Native × Native) → Parts
  | [] => []
  | (k, n) :: es => (display k, display n) :: displayEntries es

end

def text : Native → String
  | string s => s
  | color c => c.parts.joined " "
  | resource r => r.parts.joined " "
  | segment s => s.parts.joined " "
  | value v => v.parts.joined " "
  | n => n.display

end Native

end UiBinding
