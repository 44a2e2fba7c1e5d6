import UiBinding.Fault
import UiBinding.Item

namespace UiBinding

structure CustomSlot where
  offset : Nat
  type : Option DeclaredType
  deriving DecidableEq

namespace CustomSlot

def start (p : CustomSlot) : Value :=
  match p.type with
  | some t => t.start
  | none => .void

end CustomSlot

structure ItemBlock where
  item : Item
  checked : Bool
  offset : Nat
  deriving DecidableEq

/-- The layout of one component of a tree: which slot of an instance holds what. -/
structure Description where
  tree : Tree
  component : Int
  customProperties : Assoc CustomSlot
  customSignals : Assoc Nat
  items : Assoc ItemBlock
  slotCount : Nat

namespace Description

def empty : Description := ⟨.empty, 0, [], [], [], 0⟩

instance : Inhabited Description := ⟨empty⟩

def id (d : Description) : String := ((d.tree.component? d.component).map Component.id).getD ""

def rowIndexName : String := "index"

def rowModelName : String := "model_data"

/-- Custom properties in slot order. What a repeated component gets for each row comes
first, also where the component declares it again. -/
def declared (repeated : Bool) (customs : List (String × Option DeclaredType)) :
    Assoc (Option DeclaredType) :=
  Assoc.ofPairs
    ((if repeated then [(rowIndexName, some .int32), (rowModelName, none)] else []) ++ customs)

def placeProperties (types : Assoc (Option DeclaredType)) : Assoc CustomSlot :=
  types.zipIdx.map fun p => (p.1.1, ⟨p.2, p.1.2⟩)

def placeSignals : List String → Nat → Assoc Nat → Except Error (Assoc Nat)
  | [], _, placed => .ok placed
  | name :: names, offset, placed =>
    if (placed.get? name).isSome then .error (.duplicateSignal name)
    else placeSignals names (offset + 1) (placed ++ [(name, offset)])

def placeItems (component : String) (checked : Bool) :
    List (Nat × Element) → Nat → Assoc ItemBlock → Except Error (Assoc ItemBlock × Nat)
  | [], offset, placed => .ok (placed, offset)
  | (_, e) :: elements, offset, placed =>
    match e.base with
    | .component _ => placeItems component checked elements offset placed
    | .builtin type =>
      match Item.ofName? type with
      | none => .error (.unknownItem e.id type)
      | some item =>
        if (placed.get? e.id).isSome then
          .error (.duplicateElement e.id component)
        else
          placeItems component checked elements (offset + item.slotCount)
            (placed ++ [(e.id, ⟨item, checked, offset⟩)])

def build (tree : Tree) (component : Int) (customs : List (String × Option DeclaredType))
    (signals : List String) (repeated checked : Bool) : Except Error Description := do
  let some c := tree.component? component | throw (.noComponent component)
  let properties := placeProperties (declared repeated customs)
  let signals ← placeSignals signals properties.length []
  let (items, slotCount) ←
    placeItems c.id checked (tree.elementsOf component)
      (properties.length + signals.length) []
  return ⟨tree, component, properties, signals, items, slotCount⟩

variable {β η : Type}

def fill (slots : List (Slot β η)) (offset : Nat) (s : Slot β η) :
    Except Error (List (Slot β η)) :=
  if offset < slots.length then .ok (slots.set offset s) else .error .noSlotToFill

def fillBlock (slots : List (Slot β η)) (offset : Nat) (block : List (Slot β η)) :
    List (Slot β η) :=
  slots.take offset ++ block ++ slots.drop (offset + block.length)

def allocate (d : Description) : Except Error (List (Slot β η)) := do
  let slots := List.replicate d.slotCount .unset
  let slots ← d.customProperties.foldlM
    (fun slots p => fill slots p.2.offset (.property (.start (.value p.2.start)))) slots
  let slots ← d.customSignals.foldlM (fun slots p => fill slots p.2 (.signal .start)) slots
  return d.items.foldl (fun slots p => fillBlock slots p.2.offset p.2.item.allocate) slots

/-- Moves a custom signal to another slot, counted from the end where negative. -/
def moveSignal (d : Description) (name : String) (offset : Int) : Description :=
  let position :=
    if 0 ≤ offset then offset.toNat
    else if -offset ≤ d.slotCount then (d.slotCount + offset).toNat
    else d.slotCount
  { d with customSignals := d.customSignals.insert name position }

def display (d : Description) : String :=
  "ComponentDescription(" ++ Text.quoted d.id ++ ", slots=" ++ toString d.slotCount ++ ")"

def instanceDisplay (d : Description) : String :=
  "ComponentInstance(" ++ Text.quoted d.id ++ ")"

/-- The slot of a signal of an element: a signal of the element's item, or else a custom
signal of the component. -/
def signalSlot? (d : Description) (element name : String) : Option Nat :=
  match d.items.get? element with
  | none => d.customSignals.get? name
  | some block =>
    match block.item.signals.get? name with
    | some offset => some (block.offset + offset)
    | none => d.customSignals.get? name

end Description

/-- Descriptions by number. A number without an entry means the empty description. -/
abbrev Catalog := List Description

namespace Catalog

def find (types : Catalog) (number : Nat) : Description := types[number]?.getD .empty

end Catalog

end UiBinding
