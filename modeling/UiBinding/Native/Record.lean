import UiBinding.Native

namespace UiBinding.Native

mutual

def depth : Native → Nat
  | list items => depthItems items + 1
  | tuple items => depthItems items + 1
  | dict entries => depthEntries entries + 1
  | _ => 0

def depthItems : List Native → Nat
  | [] => 0
  | n :: ns => max (depth n) (depthItems ns)

def depthEntries : List (Native × Native) → Nat
  | [] => 0
  | (_, n) :: es => max (depth n) (depthEntries es)

end

def entry? (entries : List (Native × Native)) (key : String) : Option Native :=
  (entries.find? fun e => match e.1 with | string s => s == key | _ => false).map Prod.snd

def text? : Native → Option String
  | string s => some s
  | _ => none

def flag? : Native → Option Bool
  | bool b => some b
  | _ => none

def int? : Native → Option Int
  | int n => some n
  | _ => none

def number? : Native → Option Binary64
  | int n => Binary64.ofInt? n
  | float x => some x
  | _ => none

def bytes? : Native → Option (List UInt8)
  | bytes data => some data
  | string s => some s.toUTF8.toList
  | _ => none

def items? : Native → Option (List Native)
  | list items => some items
  | tuple items => some items
  | emptySet => some []
  | _ => none

def required {α : Type} (entries : List (Native × Native)) (key : String)
    (read : Native → Option α) : Option α := do
  read (← entry? entries key)

def optional {α : Type} (entries : List (Native × Native)) (key : String) (default : α)
    (read : Native → Option α) : Option α :=
  match entry? entries key with
  | none => some default
  | some n => read n

def toColor? : Native → Option Color
  | color c => some c
  | dict entries => do
    Color.ofChannels? (← optional entries "red" 0 int?)
      (← optional entries "green" 0 int?) (← optional entries "blue" 0 int?)
      (← optional entries "alpha" 0 int?)
  | _ => none

def toResource? : Native → Option Resource
  | resource r => some r
  | dict entries => do
    match ← required entries "kind" text? with
    | "none" => return .none
    | "absolute_file_path" => return .file (← required entries "path" text?)
    | "embedded_data" => return .embedded (← required entries "data" bytes?)
    | _ => none
  | _ => none

def toSegment? : Native → Option Segment
  | segment s => some s
  | dict entries => do
    let coordinate (key : String) := optional entries key .zero number?
    let flag (key : String) := optional entries key false flag?
    match ← required entries "kind" text? with
    | "line_to" => return .lineTo ⟨← coordinate "x", ← coordinate "y"⟩
    | "arc_to" =>
      return .arcTo ⟨← coordinate "x", ← coordinate "y", ← coordinate "radius_x",
        ← coordinate "radius_y", ← coordinate "x_rotation", ← flag "large_arc", ← flag "sweep"⟩
    | _ => none
  | _ => none

def asValueWithin : Nat → Native → Option Value
  | _, value v => some v
  | 0, _ => none
  | depth + 1, dict entries => do
    let read := asValueWithin depth
    match ← required entries "kind" text? with
    | "void" => return .void
    | "number" => return .number (← required entries "value" number?)
    | "string" => return .string (← required entries "value" text?)
    | "bool" => return .bool (← required entries "value" flag?)
    | "resource" => return .resource (← required entries "resource" toResource?)
    | "array" =>
      return .array (← optional entries "values" [] fun n => do (← n.items?).mapM read)
    | "object" =>
      let fields (n : Native) : Option (List (String × Value)) :=
        match n with
        | dict parts => parts.mapM fun p => do return (← p.1.text?, ← read p.2)
        | _ => none
      return .object (← optional entries "fields" [] fields)
    | "color" => return .color (← required entries "color" toColor?)
    | "path_elements" =>
      return .path (← optional entries "elements" [] fun n => do (← n.items?).mapM toSegment?)
    | _ => none
  | _, _ => none

/-- The value that stands in a place for values: the data itself, or what a dictionary of
its parts describes. -/
def asValue? (n : Native) : Option Value := asValueWithin n.depth n

end UiBinding.Native
