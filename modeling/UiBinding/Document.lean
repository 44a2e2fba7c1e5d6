import UiBinding.Assoc
import UiBinding.Binary64

namespace UiBinding

/-- Structured data in which expressions, trees and values are written down. Ordered maps
are lists of pairs. -/
inductive Document
  | null
  | bool (b : Bool)
  | integer (n : Int)
  | number (x : Binary64)
  | text (s : String)
  | list (items : List Document)
  | record (fields : List (String × Document))

namespace Document

instance : Inhabited Document := ⟨null⟩

mutual

def depth : Document → Nat
  | list items => depthItems items + 1
  | record fields => depthFields fields + 1
  | _ => 0

def depthItems : List Document → Nat
  | [] => 0
  | d :: ds => max (depth d) (depthItems ds)

def depthFields : List (String × Document) → Nat
  | [] => 0
  | (_, d) :: fs => max (depth d) (depthFields fs)

end

def field? (d : Document) (key : String) : Option Document :=
  match d with
  | record fields => Assoc.get? fields key
  | _ => none

def isRecord : Document → Bool
  | record _ => true
  | _ => false

def asBool? : Document → Option Bool
  | bool b => some b
  | _ => none

def asInt? : Document → Option Int
  | integer n => some n
  | _ => none

def asNumber? : Document → Option Binary64
  | integer n => Binary64.ofInt? n
  | number x => some x
  | _ => none

def asText? : Document → Option String
  | text s => some s
  | _ => none

def asList? : Document → Option (List Document)
  | list items => some items
  | _ => none

def asPair? : Document → Option (String × Document)
  | list [text key, d] => some (key, d)
  | _ => none

def asPairs? (d : Document) : Option (List (String × Document)) := do
  (← d.asList?).mapM asPair?

def required {α : Type} (d : Document) (key : String) (read : Document → Option α) : Option α := do
  read (← d.field? key)

def optional {α : Type} (d : Document) (key : String) (default : α) (read : Document → Option α) :
    Option α :=
  match d.field? key with
  | none => some default
  | some f => read f

def nullable {α : Type} (d : Document) (key : String) (read : Document → Option α) :
    Option (Option α) :=
  match d.field? key with
  | none | some null => some none
  | some f => (read f).map some

end Document

end UiBinding
