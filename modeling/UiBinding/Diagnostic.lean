import UiBinding.Expr.Printer

namespace UiBinding

inductive Category
  | evaluation
  | invalidExpression
  | unresolvedReference
  | contextChain
  | unsupportedOperation
  | notASignal
  | invalidAssignmentTarget
  | unimplemented
  | propertyType
  deriving DecidableEq

namespace Category

def all : List Category :=
  [evaluation, invalidExpression, unresolvedReference, contextChain, unsupportedOperation,
    notASignal, invalidAssignmentTarget, unimplemented, propertyType]

def name : Category → String
  | evaluation => "EvaluationError"
  | invalidExpression => "InvalidExpressionError"
  | unresolvedReference => "UnresolvedReferenceError"
  | contextChain => "ContextChainError"
  | unsupportedOperation => "UnsupportedOperationError"
  | notASignal => "NotASignalError"
  | invalidAssignmentTarget => "InvalidAssignmentTargetError"
  | unimplemented => "UnimplementedError"
  | propertyType => "PropertyTypeError"

def ofName? (s : String) : Option Category := all.find? (·.name == s)

end Category

/-- What is known of a fatal error: its kind, its bare message, and where it arose. -/
structure Diagnostic where
  category : Category
  message : String
  element : Option String
  name : Option String
  op : Option String
  expression : Option Expr

namespace Diagnostic

def detail (label : String) (s : Option String) : List String :=
  match s with
  | none => []
  | some s => [label ++ "=" ++ Text.quoted s]

def expressionText (d : Diagnostic) : Option String := d.expression.map Expr.text

def details (d : Diagnostic) : List String :=
  detail "element" d.element ++ detail "name" d.name ++ detail "op" d.op ++
    detail "expression" d.expressionText

def text (d : Diagnostic) : String :=
  match d.details with
  | [] => d.message
  | details => d.message ++ " (" ++ ", ".intercalate details ++ ")"

end Diagnostic

end UiBinding
