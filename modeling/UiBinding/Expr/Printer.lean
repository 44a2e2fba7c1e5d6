import UiBinding.Decimal
import UiBinding.Expr
import UiBinding.Text.Quoted

namespace UiBinding.Expr

def symbol : BinaryOp → String
  | .add => "+"
  | .sub => "-"
  | .mul => "*"
  | .div => "/"
  | .lt => "<"
  | .gt => ">"
  | .le => "<="
  | .ge => ">="
  | .eq => "=="
  | .ne => "!="
  | .and => "&&"
  | .or => "||"

def precedence : BinaryOp → Nat
  | .or => 1
  | .and => 2
  | .eq | .ne => 3
  | .lt | .gt | .le | .ge => 4
  | .add | .sub => 5
  | .mul | .div => 6

def operandPrecedence : Nat := 10

def parenthesize (needed : Bool) (s : String) : String :=
  if needed then "(" ++ s ++ ")" else s

def braces (parts : List String) (separator : String) : String :=
  "\x7b " ++ separator.intercalate parts ++ " \x7d"

def bareText (kind : String) : String :=
  if kind = "repeater_index" then "index"
  else if kind = "repeater_model" then "model_data"
  else "/* " ++ kind ++ " */"

mutual

/-- Source text of an expression that stands where operators of precedence `around` or
higher need no parentheses. -/
def render (name : Int → String) (around : Nat) : Expr → String
  | invalid => "/* invalid */"
  | uncompiled source => "/* uncompiled: " ++ source ++ " */"
  | foreign kind => bareText kind
  | string s => Text.literal s
  | number n => n.text
  | bool b => if b then "true" else "false"
  | file location => "img!" ++ Text.asciiLiteral location
  | property element member => name element ++ "." ++ member
  | signal element member => name element ++ "." ++ member
  | rowIndex _ => "index"
  | rowModel _ => "model_data"
  | field base member => render name operandPrecedence base ++ "." ++ member
  | cast source target => target.name ++ "(" ++ render name 0 source ++ ")"
  | block [] => "\x7b \x7d"
  | block (e :: es) => braces (renderStatements name (e :: es)) " "
  | call callee args =>
    render name operandPrecedence callee ++ "(" ++ ", ".intercalate (renderItems name args) ++ ")"
  | assign target op operand =>
    render name 0 target ++ " " ++ op.sign ++ "= " ++ render name 0 operand
  | binary op left right =>
    parenthesize (precedence op < around)
      (render name (precedence op) left ++ " " ++ symbol op ++ " " ++
        render name (precedence op + 1) right)
  | unary op operand => op.sign ++ render name operandPrecedence operand
  | condition test yes no =>
    parenthesize (0 < around)
      (render name 1 test ++ " ? " ++ render name 0 yes ++ " : " ++ render name 0 no)
  | array _ items => "[" ++ ", ".intercalate (renderItems name items) ++ "]"
  | object [] => "\x7b\x7d"
  | object (f :: fs) => braces (renderFields name (f :: fs)) ", "
  | path segments => "[" ++ ", ".intercalate (renderSegments name segments) ++ "]"

def renderItems (name : Int → String) : List Expr → List String
  | [] => []
  | e :: es => render name 0 e :: renderItems name es

def renderStatements (name : Int → String) : List Expr → List String
  | [] => []
  | e :: es => (render name 0 e ++ ";") :: renderStatements name es

def renderFields (name : Int → String) : List (String × Expr) → List String
  | [] => []
  | (key, e) :: fs => (key ++ ": " ++ render name 0 e) :: renderFields name fs

def renderBindings (name : Int → String) : List (String × Expr) → List String
  | [] => []
  | (key, e) :: fs => (key ++ ": " ++ render name 0 e ++ ";") :: renderBindings name fs

def renderSegments (name : Int → String) : List (String × List (String × Expr)) → List String
  | [] => []
  | (shape, []) :: segments => (shape ++ " \x7b \x7d") :: renderSegments name segments
  | (shape, b :: bs) :: segments =>
    (shape ++ " " ++ braces (renderBindings name (b :: bs)) " ") :: renderSegments name segments

end

/-- An element without a known name prints as its index, which may have any number of digits: a
limit that a host may set on them is left out. -/
def indexName (element : Int) : String := "#" ++ toString element

def text (e : Expr) : String := e.render indexName 0

end UiBinding.Expr
