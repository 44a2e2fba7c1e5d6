import UiBinding.Evaluation

namespace UiBinding

/-- Installs the bindings of an element of a fresh instance. A sub-component is bound
through its own root element only. -/
def bindElement (types : Catalog) (settings : Settings) (c : Context) (index : Nat)
    (e : Element) : Run Unit :=
  match e.base, e.bindings with
  | .component _, (name, _) :: _ => Run.fault (.componentBindings e.id name)
  | _, bindings =>
    bindings.forM fun b => bindMember types settings index b.1 b.2 c

/-- Makes an instance of a component inside an enclosing context, and installs the
bindings of its elements. -/
def instantiate (types : Catalog) (settings : Settings) (description : Nat)
    (parent : Option Context) : Run Context := do
  let self ← Run.newInstance types description
  let c ← Run.newContext self parent
  let d := types.find description
  (d.tree.elementsOf d.component).forM fun e => bindElement types settings c e.1 e.2
  return c

def instantiateRow (types : Catalog) (settings : Settings) (description : Nat)
    (parent : Context) (indexSlot modelSlot : Nat) (position : Nat) (entry : Native) :
    Run Context := do
  let c ← instantiate types settings description (some parent)
  let holder := c.self.number
  (Accessor.custom Description.rowIndexName 0).set ⟨holder, indexSlot, none⟩
    (.value (.number (Binary64.ofInt position))) none
  let v ← Run.ofExcept (entry.toValue.mapError .native)
  (Accessor.custom Description.rowModelName 0).set ⟨holder, modelSlot, none⟩ (.value v) none
  return c

def missing (d : Description) : List String :=
  [Description.rowIndexName, Description.rowModelName].filter fun name =>
    (d.customProperties.get? name).isNone

def instantiateRows (types : Catalog) (settings : Settings) (description : Nat)
    (parent : Context) (model : List Native) : Run (List Context) :=
  let d := types.find description
  match d.customProperties.get? Description.rowIndexName,
    d.customProperties.get? Description.rowModelName with
  | some index, some entry =>
    model.zipIdx.mapM fun p =>
      instantiateRow types settings description parent index.offset entry.offset p.2 p.1
  | _, _ => Run.fail (.notRepeated d.id (missing d))

end UiBinding
