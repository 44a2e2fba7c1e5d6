import UiBinding.Store

namespace UiBinding

structure ItemView where
  holder : Nat
  base : Int
  item : Option String
  deriving DecidableEq

/-- Evaluation of expressions, as bindings need it when they are read. The outcome is a
value, unless a property was read whose slot holds other data. -/
abbrev Evaluator := Scope → Expr → Run Native

inductive Accessor
  | custom (name : String) (offset : Int)
  | native (p : ItemProperty)

namespace ItemProperty

def convert (p : ItemProperty) : Native → Except Fault Native
  | .value v =>
    match v.unwrap p.type p.checked with
    | .ok n => .ok n
    | .error failure => .error (.rejected p.owner p.name p.type failure)
  | n =>
    if p.type = .value then .ok n
    else .error (.rejected p.owner p.name p.type ⟨n.kind, p.type.name, none⟩)

end ItemProperty

namespace BindingSource

def run (eval : Evaluator) (c : Context) : BindingSource → Run Native
  | constant v => pure (.value v)
  | expression body maxDepth description => eval ⟨maxDepth, description, c⟩ body

end BindingSource

namespace Binding

def store (b : Binding) (n : Native) : Except Fault Native :=
  match b.conversion with
  | none => .ok n
  | some p => p.convert n

def run (eval : Evaluator) (c : Context) (b : Binding) : Run Native := do
  let n ← b.source.run eval c
  Run.ofFault (b.store n)

end Binding

namespace Accessor

def name : Accessor → String
  | custom name _ => name
  | native p => p.name

def offset : Accessor → Int
  | custom _ offset => offset
  | native p => p.offset

def display : Accessor → String
  | custom name offset =>
    "ValueProperty(" ++ Text.quoted name ++ ", offset=" ++ toString offset ++ ")"
  | native p => p.display

def check (a : Accessor) (item : ItemView) : Except Fault Unit :=
  match a with
  | custom .. => .ok ()
  | native p =>
    if item.item = some p.owner then .ok () else .error (.wrongItem p.owner p.name item.item)

def property (a : Accessor) (item : ItemView) : Run (Property Binding) := do
  Run.ofFault (a.check item)
  match ← Run.cell item.holder (item.base + a.offset) with
  | .property p => return p
  | c => Run.fault (.notAProperty (item.base + a.offset) c.typeName item.item a.name)

def put (a : Accessor) (item : ItemView) (p : Property Binding) : Run Unit :=
  Run.setCell item.holder (item.base + a.offset) (.property p)

/-- What reading gives for stored or bound data: its value, where the accessor has a
storage type, or else the data itself. -/
def present (a : Accessor) (n : Native) : Run Native :=
  match a with
  | custom .. => pure n
  | native p => Run.ofExcept (((n.wrap p.type).mapError .native).map .value)

def get (eval : Evaluator) (a : Accessor) (item : ItemView) (c : Context) : Run Native := do
  let p ← a.property item
  let n ← p.get (Binding.run eval c)
  a.present n

/-- Stores data and drops the binding. Nothing changes unless the data is accepted. -/
def set (a : Accessor) (item : ItemView) (n : Native) (animation : Option Animation) :
    Run Unit :=
  match a, n with
  | custom .., .value v => do
    let p ← a.property item
    a.put item (p.set (.value v) animation)
  | custom name _, n => Run.fault (.notStorable n.typeName name)
  | native accepts, n => do
    let p ← a.property item
    let m ← Run.ofFault (accepts.convert n)
    a.put item (p.set m animation)

def conversion : Accessor → Option ItemProperty
  | custom .. => none
  | native p => some p

def bind (a : Accessor) (item : ItemView) (source : BindingSource)
    (animation : Option Animation) : Run Unit := do
  let p ← a.property item
  a.put item (p.bind ⟨source, a.conversion⟩ animation)

end Accessor

namespace Description

/-- The property that a name denotes on an element of an instance: a custom property, if
the element is the root of its component, or else a property of the element's item. -/
def locate (d : Description) (holder : Nat) (element : Int) (name : String) (e : Expr) :
    Except Error (Accessor × ItemView) :=
  match d.tree.element? element with
  | none => .error (.noElement element)
  | some elem =>
    match if d.tree.isRoot element then d.customProperties.get? name else none with
    | some custom => .ok (.custom name 0, ⟨holder, custom.offset, none⟩)
    | none =>
      match d.items.get? elem.id with
      | none => .error (.fault (.notAnItem d.id elem.id name e))
      | some block =>
        match block.item.property? block.checked name with
        | none => .error (.fault (.unknownProperty block.item.name elem.id name e))
        | some p => .ok (.native p, ⟨holder, block.offset, some block.item.name⟩)

end Description

def signalOf (types : Catalog) (owner : Context) (element : Int) (name : String) :
    Run (Option (Nat × Signal Handler)) := do
  let d := types.find owner.self.description
  match d.tree.element? element with
  | none => Run.fail (.noElement element)
  | some elem =>
    match d.signalSlot? elem.id name with
    | none => return none
    | some slot =>
      match ← Run.cell owner.self.number slot with
      | .unset => return none
      | .property _ => Run.fault (.propertyAsSignal elem.id name)
      | .signal s => return some (slot, s)

end UiBinding
