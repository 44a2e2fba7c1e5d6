import UiBinding.Assoc
import UiBinding.Expr
import UiBinding.Text.Quoted

namespace UiBinding

inductive ElementBase
  | builtin (name : String)
  | component (index : Int)
  deriving DecidableEq

structure Element where
  id : String
  base : ElementBase
  enclosing : Int
  children : List Int
  bindings : Assoc Expr

structure Component where
  id : String
  root : Int
  parent : Option Int
  deriving DecidableEq

inductive TreeDefect
  | enclosing (position : Nat) (id : String) (component : Int) (count : Nat)
  | child (position : Nat) (id : String) (child : Int)
  | base (position : Nat) (id : String) (component : Int)
  | root (position : Nat) (id : String) (element : Int)
  | rootEnclosure (element component : String) (owner : Int)
  | parent (position : Nat) (id : String) (element : Int)
  deriving DecidableEq

namespace TreeDefect

def subject (noun : String) (position : Nat) (id : String) : String :=
  noun ++ " " ++ toString position ++ " (" ++ Text.quoted id ++ ")"

def message : TreeDefect → String
  | enclosing position id component count =>
    subject "element" position id ++ " has enclosing_component " ++ toString component ++
      " out of range (0.." ++ toString ((count : Int) - 1) ++ ")"
  | child position id index =>
    subject "element" position id ++ " has child " ++ toString index ++ " out of range"
  | base position id component =>
    subject "element" position id ++ " instantiates unknown component " ++ toString component
  | root position id element =>
    subject "component" position id ++ " has root_element " ++ toString element ++ " out of range"
  | rootEnclosure element component owner =>
    "root element " ++ Text.quoted element ++ " of component " ++ Text.quoted component ++
      " is enclosed by component " ++ toString owner
  | parent position id element =>
    subject "component" position id ++ " has parent_element " ++ toString element ++
      " out of range"

end TreeDefect

def at? {α : Type} (l : List α) (index : Int) : Option α :=
  if 0 ≤ index then l[index.toNat]? else none

def InRange {α : Type} (l : List α) (index : Int) : Prop := 0 ≤ index ∧ index < l.length

instance {α : Type} (l : List α) (index : Int) : Decidable (InRange l index) :=
  inferInstanceAs (Decidable (_ ∧ _))

theorem at?_eq_some_of_inRange {α : Type} {l : List α} {index : Int} (h : InRange l index) :
    ∃ a, at? l index = some a ∧ a ∈ l := by
  have hlt : index.toNat < l.length := by have := h.1; have := h.2; omega
  exact ⟨l[index.toNat], by simp [at?, h.1, hlt], List.getElem_mem hlt⟩

theorem at?_eq_none_iff {α : Type} {l : List α} {index : Int} :
    at? l index = none ↔ ¬ InRange l index := by
  unfold at? InRange
  split
  · rw [List.getElem?_eq_none_iff]; omega
  · simp; omega

namespace Element

def Sound (elements : List Element) (components : List Component) (e : Element) : Prop :=
  InRange components e.enclosing ∧ (∀ child ∈ e.children, InRange elements child) ∧
    ∀ component, e.base = .component component → InRange components component

def defect? (elements : List Element) (components : List Component) (position : Nat)
    (e : Element) : Option TreeDefect :=
  if ¬ InRange components e.enclosing then
    some (.enclosing position e.id e.enclosing components.length)
  else
    match e.children.find? (fun child => ¬ InRange elements child) with
    | some child => some (.child position e.id child)
    | none =>
      match e.base with
      | .builtin _ => none
      | .component component =>
        if InRange components component then none else some (.base position e.id component)

theorem defect?_eq_none_iff {elements : List Element} {components : List Component}
    {position : Nat} {e : Element} :
    e.defect? elements components position = none ↔ e.Sound elements components := by
  unfold defect? Sound
  split
  · simp_all
  · rename_i h
    have h := Decidable.not_not.1 h
    cases hf : e.children.find? (fun child => ¬ InRange elements child) with
    | some child =>
        have hm := List.mem_of_find?_eq_some hf
        have hc := List.find?_some hf
        simp only [reduceCtorEq, false_iff]
        exact fun hs => (decide_eq_true_eq.mp hc) (hs.2.1 child hm)
    | none =>
        have hc : ∀ child ∈ e.children, InRange elements child := by simpa using hf
        cases hb : e.base with
        | builtin name => simpa [h] using hc
        | component index => simpa [h] using fun _ => hc

end Element

namespace Component

def Sound (elements : List Element) (position : Nat) (c : Component) : Prop :=
  (∃ root, at? elements c.root = some root ∧ root.enclosing = position) ∧
    ∀ parent, c.parent = some parent → InRange elements parent

def defect? (elements : List Element) (position : Nat) (c : Component) : Option TreeDefect :=
  match at? elements c.root with
  | none => some (.root position c.id c.root)
  | some root =>
    if root.enclosing ≠ position then some (.rootEnclosure root.id c.id root.enclosing)
    else
      match c.parent with
      | none => none
      | some parent =>
        if InRange elements parent then none else some (.parent position c.id parent)

theorem defect?_eq_none_iff {elements : List Element} {position : Nat} {c : Component} :
    c.defect? elements position = none ↔ c.Sound elements position := by
  unfold defect? Sound
  cases at? elements c.root with
  | none => simp
  | some root =>
      by_cases h : root.enclosing = position
      · cases c.parent <;> simp [h]
      · simp [h]

end Component

/-- Elements and components in two flat lists that name each other by index. -/
structure Tree where
  elements : List Element
  components : List Component
  elements_sound : ∀ e ∈ elements, e.Sound elements components
  components_sound : ∀ p ∈ components.zipIdx, p.1.Sound elements p.2

namespace Tree

def defect? (elements : List Element) (components : List Component) : Option TreeDefect :=
  (elements.zipIdx.findSome? fun p => p.1.defect? elements components p.2).or
    (components.zipIdx.findSome? fun p => p.1.defect? elements p.2)

theorem sound_of_defect?_eq_none {elements : List Element} {components : List Component}
    (h : defect? elements components = none) :
    (∀ e ∈ elements, e.Sound elements components) ∧
      ∀ p ∈ components.zipIdx, p.1.Sound elements p.2 := by
  obtain ⟨he, hc⟩ := Option.or_eq_none_iff.1 h
  rw [List.findSome?_eq_none_iff] at he hc
  refine ⟨fun e hm => ?_, fun p hp => Component.defect?_eq_none_iff.1 (hc p hp)⟩
  obtain ⟨i, hi, rfl⟩ := List.getElem_of_mem hm
  exact Element.defect?_eq_none_iff.1 (he (elements[i], i) (by simp [List.mem_zipIdx_iff_getElem?]))

def ofParts (elements : List Element) (components : List Component) : Except TreeDefect Tree :=
  match h : defect? elements components with
  | some d => .error d
  | none =>
    .ok ⟨elements, components, (sound_of_defect?_eq_none h).1, (sound_of_defect?_eq_none h).2⟩

def empty : Tree := ⟨[], [], by simp, by simp⟩

instance : Inhabited Tree := ⟨empty⟩

def element? (t : Tree) (index : Int) : Option Element := at? t.elements index

def component? (t : Tree) (index : Int) : Option Component := at? t.components index

def isRoot (t : Tree) (index : Int) : Bool :=
  match t.element? index with
  | none => false
  | some e => (t.component? e.enclosing).any (·.root == index)

def elementsOf (t : Tree) (component : Int) : List (Nat × Element) :=
  (t.elements.zipIdx.filter (·.1.enclosing == component)).map fun p => (p.2, p.1)

def elementName (t : Tree) (index : Int) : String :=
  match t.element? index with
  | some e => e.id
  | none => "#" ++ toString index

end Tree

end UiBinding
