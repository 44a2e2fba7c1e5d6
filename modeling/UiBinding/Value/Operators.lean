import UiBinding.Conversion
import UiBinding.Expr

namespace UiBinding

namespace AssignOp

def apply : AssignOp → Binary64 → Binary64 → Binary64
  | add, a, b => a.add b
  | sub, a, b => a.sub b
  | mul, a, b => a.mul b
  | div, a, b => a.div b

end AssignOp

namespace BinaryOp

def onNumbers? : BinaryOp → Binary64 → Binary64 → Option Value
  | add, a, b => some (.number (a.add b))
  | sub, a, b => some (.number (a.sub b))
  | mul, a, b => some (.number (a.mul b))
  | div, a, b => some (.number (a.div b))
  | lt, a, b => some (.bool (a.lt b))
  | gt, a, b => some (.bool (b.lt a))
  | le, a, b => some (.bool (a.le b))
  | ge, a, b => some (.bool (b.le a))
  | _, _, _ => none

def onBools? : BinaryOp → Bool → Bool → Option Value
  | and, a, b => some (.bool (a && b))
  | or, a, b => some (.bool (a || b))
  | _, _, _ => none

/-- The value of an operator on two evaluated operands, if it supports them. Equality
supports all. -/
def result? (op : BinaryOp) (a b : Native) : Option Value :=
  match op with
  | eq => some (.bool (a.eq b))
  | ne => some (.bool !(a.eq b))
  | op =>
    match a, b with
    | .value (.number m), .value (.number n) => op.onNumbers? m n
    | .value (.bool p), .value (.bool q) => op.onBools? p q
    | _, _ => none

end BinaryOp

namespace UnaryOp

def result? : UnaryOp → Native → Option Value
  | plus, .value (.number n) => some (.number n)
  | minus, .value (.number n) => some (.number n.neg)
  | not, .value (.bool b) => some (.bool !b)
  | _, _ => none

end UnaryOp

namespace Value

/-- Numbers become integers, texts or colours; everything else stays as it is. -/
def cast (v : Value) (target : DeclaredType) : Value :=
  match v, target with
  | number n, .int32 => number n.roundHalfAway
  | number n, .string => string n.text
  | number n, .color => color (Color.ofArgb (n.saturate 0 0xFFFFFFFF))
  | v, _ => v

end Value

namespace Native

def cast (n : Native) (target : DeclaredType) : Native :=
  match n with
  | value v => value (v.cast target)
  | n => n

def verdict? : Native → Option Bool
  | value (.bool b) => some b
  | _ => none

end Native

end UiBinding
