import UiBinding.Document
import UiBinding.Settings
import UiBinding.Tree
import UiBinding.Value

namespace UiBinding.Document

def readEach {α : Type} (read : Document → Option α) (d : Document) : Option (List α) := do
  (← d.asList?).mapM read

/-- An ordered map with entries of one form. An entry that a later one replaces may have
any form. -/
def readMap {α : Type} (read : Document → Option α) (d : Document) : Option (Assoc α) := do
  (Assoc.ofPairs (← d.asPairs?)).mapM fun p => do return (p.1, ← read p.2)

def readType (d : Document) : Option DeclaredType := do DeclaredType.ofName? (← d.asText?)

def readMember (make : Int → String → Expr) (d : Document) : Option Expr := do
  return make (← d.required "element" asInt?) (← d.required "name" asText?)

def readExprWithin : Nat → Document → Option Expr
  | 0, _ => none
  | depth + 1, d => do
    let read := readExprWithin depth
    match ← d.required "kind" asText? with
    | "invalid" => return .invalid
    | "uncompiled" => return .uncompiled (← d.optional "source" "" asText?)
    | "string_literal" => return .string (← d.required "value" asText?)
    | "number_literal" => return .number (← d.required "value" asNumber?)
    | "bool_literal" => return .bool (← d.required "value" asBool?)
    | "resource_reference" => return .file (← d.required "absolute_source_path" asText?)
    | "property_reference" => d.readMember .property
    | "signal_reference" => d.readMember .signal
    | "repeater_index" => return .rowIndex (← d.required "element" asInt?)
    | "repeater_model" => return .rowModel (← d.required "element" asInt?)
    | "object_access" =>
      return .field (← d.required "base" read) (← d.required "name" asText?)
    | "cast" => return .cast (← d.required "source" read) (← d.required "to" readType)
    | "code_block" => return .block (← d.optional "expressions" [] (readEach read))
    | "function_call" =>
      return .call (← d.required "function" read) (← d.optional "args" [] (readEach read))
    | "self_assignment" =>
      let op ← AssignOp.ofSign? (← d.required "op" asText?)
      return .assign (← d.required "lhs" read) op (← d.required "rhs" read)
    | "binary" =>
      let op ← BinaryOp.ofSign? (← d.required "op" asText?)
      return .binary op (← d.required "lhs" read) (← d.required "rhs" read)
    | "unary" =>
      let op ← UnaryOp.ofSign? (← d.required "op" asText?)
      return .unary op (← d.required "sub" read)
    | "condition" =>
      return .condition (← d.required "condition" read) (← d.required "true_expr" read)
        (← d.required "false_expr" read)
    | "array" =>
      return .array (← d.nullable "element_type" readType)
        (← d.optional "values" [] (readEach read))
    | "object" => return .object (← d.optional "values" [] (readMap read))
    | "path_elements" =>
      let segment (s : Document) : Option (String × List (String × Expr)) := do
        return (← s.required "element_type" asText?, ← s.optional "bindings" [] (readMap read))
      return .path (← d.optional "elements" [] (readEach segment))
    | _ => none

def readExpr (d : Document) : Option Expr := readExprWithin (d.depth + 1) d

def readSegmentLiteral (d : Document) : Option (String × Assoc Expr) := do
  return (← d.required "element_type" asText?, ← d.optional "bindings" [] (readMap readExpr))

def readBase (d : Document) : Option ElementBase := do
  match ← d.required "kind" asText? with
  | "builtin" => return .builtin (← d.required "name" asText?)
  | "component" => return .component (← d.required "component" asInt?)
  | _ => none

def readElement (d : Document) : Option Element := do
  return {
    id := ← d.required "id" asText?
    base := ← d.required "base_type" readBase
    enclosing := ← d.required "enclosing_component" asInt?
    children := ← d.optional "children" [] (readEach asInt?)
    bindings := ← d.optional "bindings" [] (readMap readExpr) }

def readComponent (d : Document) : Option Component := do
  return ⟨← d.required "id" asText?, ← d.required "root_element" asInt?,
    ← d.nullable "parent_element" asInt?⟩

def readTreeParts (d : Document) : Option (List Element × List Component) := do
  if !d.isRecord then none
  return (← d.optional "elements" [] (readEach readElement),
    ← d.optional "components" [] (readEach readComponent))

def readColor (d : Document) : Option Color := do
  if !d.isRecord then none
  Color.ofChannels? (← d.optional "red" 0 asInt?) (← d.optional "green" 0 asInt?)
    (← d.optional "blue" 0 asInt?) (← d.optional "alpha" 0 asInt?)

def nibble? (c : Char) : Option Nat :=
  if c.isDigit then some (c.toNat - '0'.toNat)
  else if 'a' ≤ c ∧ c ≤ 'f' then some (c.toNat - 'a'.toNat + 10)
  else if 'A' ≤ c ∧ c ≤ 'F' then some (c.toNat - 'A'.toNat + 10)
  else none

def bytes? : List Char → Option (List UInt8)
  | [] => some []
  | high :: low :: rest => do
    return UInt8.ofNat (16 * (← nibble? high) + (← nibble? low)) :: (← bytes? rest)
  | [_] => none

def readBytes (d : Document) : Option (List UInt8) := do bytes? (← d.asText?).toList

def readResource (d : Document) : Option Resource := do
  match ← d.required "kind" asText? with
  | "none" => return .none
  | "absolute_file_path" => return .file (← d.required "path" asText?)
  | "embedded_data" => return .embedded (← d.required "data" readBytes)
  | _ => none

def readSegment (d : Document) : Option Segment := do
  let coordinate (key : String) := d.optional key .zero asNumber?
  let flag (key : String) := d.optional key false asBool?
  match ← d.required "kind" asText? with
  | "line_to" => return .lineTo ⟨← coordinate "x", ← coordinate "y"⟩
  | "arc_to" =>
    return .arcTo ⟨← coordinate "x", ← coordinate "y", ← coordinate "radius_x",
      ← coordinate "radius_y", ← coordinate "x_rotation", ← flag "large_arc", ← flag "sweep"⟩
  | _ => none

def readValueWithin : Nat → Document → Option Value
  | 0, _ => none
  | depth + 1, d => do
    let read := readValueWithin depth
    match ← d.required "kind" asText? with
    | "void" => return .void
    | "number" => return .number (← d.required "value" asNumber?)
    | "string" => return .string (← d.required "value" asText?)
    | "bool" => return .bool (← d.required "value" asBool?)
    | "resource" => return .resource (← d.required "resource" readResource)
    | "array" => return .array (← d.optional "values" [] (readEach read))
    | "object" => return .object (← d.optional "fields" [] (readMap read))
    | "color" => return .color (← d.required "color" readColor)
    | "path_elements" => return .path (← d.optional "elements" [] (readEach readSegment))
    | _ => none

def readValue (d : Document) : Option Value := readValueWithin (d.depth + 1) d

def readSettings (d : Document) : Option Settings := do
  let .record fields := d | none
  if !fields.all fun f => f.1 == "max_context_depth" || f.1 == "log_errors" then none
  Settings.ofDepth? (← d.optional "max_context_depth" 64 asInt?)
    (← d.optional "log_errors" true asBool?)

def readAnimation (d : Document) : Option Animation := do
  if !d.isRecord then none
  Animation.ofCounts? (← d.optional "duration_ms" 0 asInt?) (← d.optional "loop_count" 0 asInt?)
    (← d.optional "easing" "linear" asText?)

end UiBinding.Document
