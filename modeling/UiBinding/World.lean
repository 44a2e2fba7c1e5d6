import UiBinding.Instantiation

namespace UiBinding

/-- All component descriptions and everything that was instantiated from them. -/
structure World where
  types : Catalog
  state : State

namespace World

def empty : World := ⟨[], .empty⟩

/-- How deeply evaluations may run inside each other; bindings that read themselves are
stopped there. -/
def evaluationDepth : Nat := 1000

def describe (w : World) (tree : Tree) (component : Int)
    (customs : List (String × Option DeclaredType)) (signals : List String)
    (repeated checked : Bool) : Except Error (Nat × World) := do
  let d ← Description.build tree component customs signals repeated checked
  return (w.types.length, { w with types := w.types ++ [d] })

def modifyDescription (w : World) (number : Nat) (f : Description → Description) : World :=
  { w with types := w.types.modify number f }

def run {α : Type} (w : World) (m : Catalog → Run α) : Except Stop α × World :=
  let (result, state) := (m w.types).run w.state
  (result, { w with state })

end World

end UiBinding
