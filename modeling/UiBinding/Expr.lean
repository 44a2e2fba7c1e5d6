import UiBinding.Binary64
import UiBinding.Types

namespace UiBinding

inductive AssignOp
  | add
  | sub
  | mul
  | div
  deriving DecidableEq

inductive BinaryOp
  | add
  | sub
  | mul
  | div
  | lt
  | gt
  | le
  | ge
  | eq
  | ne
  | and
  | or
  deriving DecidableEq

inductive UnaryOp
  | plus
  | minus
  | not
  deriving DecidableEq

namespace AssignOp

def all : List AssignOp := [add, sub, mul, div]

def sign : AssignOp → String
  | add => "+"
  | sub => "-"
  | mul => "*"
  | div => "/"

def ofSign? (s : String) : Option AssignOp := all.find? (·.sign == s)

end AssignOp

namespace BinaryOp

def all : List BinaryOp := [add, sub, mul, div, lt, gt, le, ge, eq, ne, and, or]

def sign : BinaryOp → String
  | add => "+"
  | sub => "-"
  | mul => "*"
  | div => "/"
  | lt => "<"
  | gt => ">"
  | le => "≤"
  | ge => "≥"
  | eq => "="
  | ne => "!"
  | and => "&"
  | or => "|"

def ofSign? (s : String) : Option BinaryOp := all.find? (·.sign == s)

end BinaryOp

namespace UnaryOp

def all : List UnaryOp := [plus, minus, not]

def sign : UnaryOp → String
  | plus => "+"
  | minus => "-"
  | not => "!"

def ofSign? (s : String) : Option UnaryOp := all.find? (·.sign == s)

end UnaryOp

/-- Expressions of the binding language. An element is named by its index in the
element tree; an index may name no element. -/
inductive Expr
  | invalid
  | uncompiled (source : String)
  /-- A node of which only the kind is known, as the language does not have it. -/
  | foreign (kind : String)
  | string (s : String)
  | number (n : Binary64)
  | bool (b : Bool)
  | file (location : String)
  | property (element : Int) (name : String)
  | signal (element : Int) (name : String)
  | rowIndex (element : Int)
  | rowModel (element : Int)
  | field (base : Expr) (name : String)
  | cast (source : Expr) (target : DeclaredType)
  | block (body : List Expr)
  | call (callee : Expr) (args : List Expr)
  | assign (target : Expr) (op : AssignOp) (operand : Expr)
  | binary (op : BinaryOp) (left right : Expr)
  | unary (op : UnaryOp) (operand : Expr)
  | condition (test yes no : Expr)
  | array (elementType : Option DeclaredType) (items : List Expr)
  | object (fields : List (String × Expr))
  | path (segments : List (String × List (String × Expr)))

namespace Expr

instance : Inhabited Expr := ⟨invalid⟩

def ofKind (kind : String) : Expr := if kind = "invalid" then invalid else foreign kind

def kind : Expr → String
  | invalid => "invalid"
  | uncompiled _ => "uncompiled"
  | foreign kind => kind
  | string _ => "string_literal"
  | number _ => "number_literal"
  | bool _ => "bool_literal"
  | file _ => "resource_reference"
  | property .. => "property_reference"
  | signal .. => "signal_reference"
  | rowIndex _ => "repeater_index"
  | rowModel _ => "repeater_model"
  | field .. => "object_access"
  | cast .. => "cast"
  | block _ => "code_block"
  | call .. => "function_call"
  | assign .. => "self_assignment"
  | binary .. => "binary"
  | unary .. => "unary"
  | condition .. => "condition"
  | array .. => "array"
  | object _ => "object"
  | path _ => "path_elements"

end Expr

end UiBinding
