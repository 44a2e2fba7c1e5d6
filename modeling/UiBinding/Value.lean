import UiBinding.Assoc
import UiBinding.Binary64
import UiBinding.Color
import UiBinding.Resource
import UiBinding.Segment

namespace UiBinding

inductive Value
  | void
  | number (n : Binary64)
  | string (s : String)
  | bool (b : Bool)
  | resource (r : Resource)
  | array (items : List Value)
  | object (fields : List (String × Value))
  | color (c : Color)
  | path (segments : List Segment)

namespace Value

instance : Inhabited Value := ⟨void⟩

def kind : Value → String
  | void => "void"
  | number _ => "number"
  | string _ => "string"
  | bool _ => "bool"
  | resource _ => "resource"
  | array _ => "array"
  | object _ => "object"
  | color _ => "color"
  | path _ => "path_elements"

def eqSegments : List Segment → List Segment → Bool
  | [], [] => true
  | s :: ss, t :: ts => s.eq t && eqSegments ss ts
  | _, _ => false

mutual

/-- Structural equality. Values of different kinds differ, and objects are compared
without regard to the order of their fields. Of the identity of NaN objects it knows just what
`Binary64.same` does. -/
def eq : Value → Value → Bool
  | void, void => true
  | number a, number b => a.same b
  | string a, string b => a == b
  | bool a, bool b => a == b
  | resource a, resource b => a == b
  | array as, array bs => eqItems as bs
  | object as, object bs => as.length == bs.length && eqFields as bs
  | color a, color b => a == b
  | path as, path bs => eqSegments as bs
  | _, _ => false

def eqItems : List Value → List Value → Bool
  | [], [] => true
  | a :: as, b :: bs => eq a b && eqItems as bs
  | _, _ => false

def eqFields : List (String × Value) → List (String × Value) → Bool
  | [], _ => true
  | (key, a) :: as, bs =>
    (match Assoc.get? bs key with
    | some b => eq a b
    | none => false) && eqFields as bs

end

end Value

end UiBinding
