import UiBinding.Property

namespace UiBinding

/-- A property of a built-in item, stored as native data. The offset is relative to the
first slot of the item. -/
structure ItemProperty where
  owner : String
  name : String
  type : StorageType
  offset : Int
  checked : Bool

namespace ItemProperty

def display (p : ItemProperty) : String :=
  "NativeProperty(" ++ p.owner ++ "." ++ p.name ++ ": " ++ p.type.name ++ ", offset=" ++
    toString p.offset ++ ")"

end ItemProperty

inductive Item
  | rectangle
  | borderRectangle
  | image
  | text
  | touchArea
  | path
  | flickable
  deriving DecidableEq

namespace Item

def all : List Item := [rectangle, borderRectangle, image, text, touchArea, path, flickable]

def name : Item → String
  | rectangle => "Rectangle"
  | borderRectangle => "BorderRectangle"
  | image => "Image"
  | text => "Text"
  | touchArea => "TouchArea"
  | path => "Path"
  | flickable => "Flickable"

def ofName? (s : String) : Option Item := all.find? (·.name == s)

def geometry : List (String × StorageType) :=
  [("x", .f32), ("y", .f32), ("width", .f32), ("height", .f32)]

def types : Item → List (String × StorageType)
  | rectangle => geometry ++ [("color", .color)]
  | borderRectangle =>
    geometry ++ [("color", .color), ("border_width", .f32), ("border_radius", .f32),
      ("border_color", .color)]
  | image => geometry ++ [("source", .resource)]
  | text =>
    [("x", .f32), ("y", .f32), ("text", .string), ("font_family", .string),
      ("font_pixel_size", .f32), ("color", .color)]
  | touchArea => geometry ++ [("pressed", .bool), ("mouse_x", .f32), ("mouse_y", .f32)]
  | path =>
    geometry ++ [("elements", .pathElements), ("fill_color", .color), ("stroke_color", .color),
      ("stroke_width", .f32)]
  | flickable =>
    geometry ++ [("viewport_x", .f32), ("viewport_y", .f32), ("interactive", .bool)]

def signalNames : Item → List String
  | touchArea => ["clicked"]
  | _ => []

def slotCount (i : Item) : Nat := i.types.length + i.signalNames.length

def properties (i : Item) (checked : Bool) : List ItemProperty :=
  i.types.zipIdx.map fun p => ⟨i.name, p.1.1, p.1.2, p.2, checked⟩

def signals (i : Item) : Assoc Nat :=
  i.signalNames.zipIdx.map fun p => (p.1, i.types.length + p.2)

def property? (i : Item) (checked : Bool) (name : String) : Option ItemProperty :=
  (i.properties checked).find? (·.name == name)

def allocate {β η : Type} (i : Item) : List (Slot β η) :=
  i.types.map (fun p => .property (.start p.2.start)) ++
    i.signalNames.map fun _ => .signal .start

end Item

end UiBinding
