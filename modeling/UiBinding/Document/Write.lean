import UiBinding.Document
import UiBinding.Expr
import UiBinding.Settings
import UiBinding.Text.Quoted
import UiBinding.Value

namespace UiBinding.Document

def node (kind : String) (fields : List (String × Document)) : Document :=
  record (("kind", text kind) :: fields)

def pair (key : String) (d : Document) : Document := list [text key, d]

mutual

def ofExpr : Expr → Document
  | .invalid => node "invalid" []
  | .uncompiled source => node "uncompiled" [("source", text source)]
  | .foreign kind => node kind []
  | .string s => node "string_literal" [("value", text s)]
  | .number n => node "number_literal" [("value", number n)]
  | .bool b => node "bool_literal" [("value", bool b)]
  | .file location => node "resource_reference" [("absolute_source_path", text location)]
  | .property element name =>
    node "property_reference" [("element", integer element), ("name", text name)]
  | .signal element name =>
    node "signal_reference" [("element", integer element), ("name", text name)]
  | .rowIndex element => node "repeater_index" [("element", integer element)]
  | .rowModel element => node "repeater_model" [("element", integer element)]
  | .field base name => node "object_access" [("base", ofExpr base), ("name", text name)]
  | .cast source target => node "cast" [("source", ofExpr source), ("to", text target.name)]
  | .block body => node "code_block" [("expressions", list (ofExprs body))]
  | .call callee args =>
    node "function_call" [("function", ofExpr callee), ("args", list (ofExprs args))]
  | .assign target op operand =>
    node "self_assignment"
      [("lhs", ofExpr target), ("rhs", ofExpr operand), ("op", text op.sign)]
  | .binary op left right =>
    node "binary" [("op", text op.sign), ("lhs", ofExpr left), ("rhs", ofExpr right)]
  | .unary op operand => node "unary" [("op", text op.sign), ("sub", ofExpr operand)]
  | .condition test yes no =>
    node "condition"
      [("condition", ofExpr test), ("true_expr", ofExpr yes), ("false_expr", ofExpr no)]
  | .array elementType items =>
    node "array"
      [("element_type", match elementType with | some t => text t.name | none => null),
        ("values", list (ofExprs items))]
  | .object fields => node "object" [("values", list (ofBindings fields))]
  | .path segments => node "path_elements" [("elements", list (ofSegments segments))]

def ofExprs : List Expr → List Document
  | [] => []
  | e :: es => ofExpr e :: ofExprs es

def ofBindings : List (String × Expr) → List Document
  | [] => []
  | (key, e) :: bs => pair key (ofExpr e) :: ofBindings bs

def ofSegments : List (String × List (String × Expr)) → List Document
  | [] => []
  | (shape, bindings) :: ss =>
    record [("element_type", text shape), ("bindings", list (ofBindings bindings))] ::
      ofSegments ss

end

def ofColor (c : Color) : Document :=
  list ([c.red, c.green, c.blue, c.alpha].map fun channel => integer channel.toNat)

def hexText (data : List UInt8) : String :=
  String.ofList (data.flatMap fun b => Text.hex 2 b.toNat)

def ofResource (r : Resource) : Document :=
  node r.kind
    (match r with
    | .none => []
    | .file path => [("path", text path)]
    | .embedded data => [("data", text (hexText data))])

def ofSegment (s : Segment) : Document :=
  node s.kind
    (match s with
    | .lineTo l => [("x", number l.x), ("y", number l.y)]
    | .arcTo a =>
      [("x", number a.x), ("y", number a.y), ("radius_x", number a.radiusX),
        ("radius_y", number a.radiusY), ("x_rotation", number a.xRotation),
        ("large_arc", bool a.largeArc), ("sweep", bool a.sweep)])

mutual

def ofValue : Value → Document
  | .void => node "void" []
  | .number n => node "number" [("value", number n)]
  | .string s => node "string" [("value", text s)]
  | .bool b => node "bool" [("value", bool b)]
  | .resource r => node "resource" [("resource", ofResource r)]
  | .array items => node "array" [("values", list (ofValues items))]
  | .object fields => node "object" [("fields", list (ofFields fields))]
  | .color c => node "color" [("color", ofColor c)]
  | .path segments => node "path_elements" [("elements", list (segments.map ofSegment))]

def ofValues : List Value → List Document
  | [] => []
  | v :: vs => ofValue v :: ofValues vs

def ofFields : List (String × Value) → List Document
  | [] => []
  | (key, v) :: fs => pair key (ofValue v) :: ofFields fs

end

def ofSettings (s : Settings) : Document :=
  record [("max_context_depth", integer s.maxContextDepth), ("log_errors", bool s.logErrors)]

def ofAnimation (a : Animation) : Document :=
  record [("duration_ms", integer a.durationMs), ("loop_count", integer a.loopCount),
    ("easing", text a.easing)]

end UiBinding.Document
