import UiBinding.Description

namespace UiBinding

structure Instance where
  number : Nat
  description : Nat
  deriving DecidableEq

/-- An instance together with the contexts of the instances that enclose it. Contexts are
told apart by their numbers, also where they share an instance. -/
inductive Context
  | outermost (number : Nat) (self : Instance)
  | nested (number : Nat) (self : Instance) (parent : Context)
  deriving DecidableEq

namespace Context

def number : Context → Nat
  | outermost number _ => number
  | nested number _ _ => number

def self : Context → Instance
  | outermost _ self => self
  | nested _ self _ => self

def parent? : Context → Option Context
  | outermost .. => none
  | nested _ _ parent => some parent

def chain : Context → List Context
  | outermost number self => [outermost number self]
  | nested number self parent => nested number self parent :: parent.chain

def depth : Context → Nat
  | outermost .. => 0
  | nested _ _ parent => parent.depth + 1

def make (number : Nat) (self : Instance) : Option Context → Context
  | none => outermost number self
  | some parent => nested number self parent

instance : Inhabited Context := ⟨outermost 0 ⟨0, 0⟩⟩

end Context

inductive Event
  | resolved (element component : String) (hops : Nat)
  | outward (element component : String)
  | emitting (signal component : String)
  | writing (component property : String) (x : Binary64)
  | fatal (component : String) (d : Diagnostic)

namespace Event

def message : Event → String
  | resolved element component hops =>
    "Resolved " ++ Text.quoted element ++ " to component " ++ Text.quoted component ++
      " after " ++ toString hops ++ " hop(s)"
  | outward element component =>
    "Element " ++ Text.quoted element ++ " not owned by " ++ Text.quoted component ++
      ", moving to parent context"
  | emitting signal component =>
    "Emitting signal " ++ Text.quoted signal ++ " of " ++ Text.quoted component
  | writing component property x =>
    "Writing " ++ Text.quoted component ++ "." ++ Text.quoted property ++ " = " ++
      x.diagnosticText
  | fatal component d =>
    "Fatal evaluation error in component " ++ Text.quoted component ++ ": " ++ d.text

end Event

namespace Context

/-- Looks for an instance of the component that encloses an element, at most `budget`
contexts outward. The names of the components passed on the way are in `visited`. -/
def search (types : Catalog) (limit : Int) (e : Element) (owner : String) (blame : Option Expr) :
    Nat → List String → Context → List Event × Except Fault Context
  | 0, _, _ => ([], .error (.chainTooDeep limit e.id blame))
  | budget + 1, visited, c =>
    let d := types.find c.self.description
    if d.component = e.enclosing then
      (if visited.isEmpty then [] else [.resolved e.id d.id visited.length], .ok c)
    else
      match c with
      | outermost .. => ([], .error (.noOwner e.id owner (visited ++ [d.id]) blame))
      | nested _ _ parent =>
        let (events, found) := search types limit e owner blame budget (visited ++ [d.id]) parent
        (.outward e.id d.id :: events, found)

/-- The innermost context around `c` whose instance owns an element, at most `limit` hops
away. -/
def resolve (types : Catalog) (limit : Int) (element : Int) (blame : Option Expr) (c : Context) :
    List Event × Except Fault Context :=
  let tree := (types.find c.self.description).tree
  match tree.element? element with
  | none => ([], .error (.unknownElement element blame))
  | some e =>
    let owner := ((tree.component? e.enclosing).map Component.id).getD ""
    search types limit e owner blame (limit + 1).toNat [] c

end Context

end UiBinding
