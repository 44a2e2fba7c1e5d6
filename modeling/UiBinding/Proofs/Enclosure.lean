import UiBinding.Proofs.Separation
import UiBinding.Proofs.Session

namespace UiBinding

def Expr.named? : Expr → Option Int
  | property element _ | signal element _ | rowIndex element | rowModel element => some element
  | _ => none

namespace Tree

variable {elements : List Element} {components : List Component} {t : Tree} {index : Int}

/-- Every index in two lists of elements and components is in range, and the root of each
component is an element of the component itself. -/
structure Consistent (elements : List Element) (components : List Component) : Prop where
  enclosing : ∀ e ∈ elements, InRange components e.enclosing
  child : ∀ e ∈ elements, ∀ child ∈ e.children, InRange elements child
  base : ∀ e ∈ elements, ∀ component, e.base = .component component → InRange components component
  root : ∀ c ∈ components, InRange elements c.root
  parent : ∀ c ∈ components, ∀ parent, c.parent = some parent → InRange elements parent
  ownRoot : ∀ (k : Nat) c root, components[k]? = some c → at? elements c.root = some root →
    root.enclosing = k

theorem Consistent.of_sound (he : ∀ e ∈ elements, e.Sound elements components)
    (hc : ∀ p ∈ components.zipIdx, p.1.Sound elements p.2) : Consistent elements components := by
  have hcomponent (k : Nat) (c : Component) (hk : components[k]? = some c) : c.Sound elements k :=
    hc (c, k) (List.mem_zipIdx_iff_getElem?.2 hk)
  have hmem (c : Component) (h : c ∈ components) : ∃ k, c.Sound elements k := by
    obtain ⟨k, hk⟩ := List.mem_iff_getElem?.1 h
    exact ⟨k, hcomponent k c hk⟩
  constructor
  · exact fun e h => (he e h).1
  · exact fun e h => (he e h).2.1
  · exact fun e h => (he e h).2.2
  · intro c h
    obtain ⟨k, ⟨root, hroot, -⟩, -⟩ := hmem c h
    by_contra hout
    rw [at?_eq_none_iff.2 hout] at hroot
    cases hroot
  · intro c h
    obtain ⟨k, -, hparent⟩ := hmem c h
    exact hparent
  · intro k c root hk hroot
    obtain ⟨⟨root', hroot', howner⟩, -⟩ := hcomponent k c hk
    cases hroot.symm.trans hroot'
    exact howner

theorem Consistent.element_sound (h : Consistent elements components) :
    ∀ e ∈ elements, e.Sound elements components :=
  fun e he => ⟨h.enclosing e he, h.child e he, h.base e he⟩

theorem Consistent.component_sound (h : Consistent elements components) :
    ∀ p ∈ components.zipIdx, p.1.Sound elements p.2 := by
  intro p hp
  have hk := List.mem_zipIdx_iff_getElem?.1 hp
  have hmem := List.mem_of_getElem? hk
  obtain ⟨root, hroot, -⟩ := at?_eq_some_of_inRange (h.root p.1 hmem)
  exact ⟨⟨root, hroot, h.ownRoot p.2 p.1 root hk hroot⟩, h.parent p.1 hmem⟩

theorem defect?_eq_none_of_consistent (h : Consistent elements components) :
    defect? elements components = none := by
  refine Option.or_eq_none_iff.2 ⟨?_, ?_⟩
  · refine List.findSome?_eq_none_iff.2 fun p hp => Element.defect?_eq_none_iff.2 ?_
    exact h.element_sound p.1 (List.mem_of_getElem? (List.mem_zipIdx_iff_getElem?.1 hp))
  · exact List.findSome?_eq_none_iff.2 fun p hp =>
      Component.defect?_eq_none_iff.2 (h.component_sound p hp)

theorem ofParts_ok (h : ofParts elements components = .ok t) :
    t.elements = elements ∧ t.components = components := by
  rw [ofParts] at h
  split at h
  · cases h
  · cases h
    exact ⟨rfl, rfl⟩

theorem exists_ofParts_iff :
    (∃ t, ofParts elements components = .ok t) ↔ Consistent elements components := by
  constructor
  · rintro ⟨t, h⟩
    obtain ⟨rfl, rfl⟩ := ofParts_ok h
    exact .of_sound t.elements_sound t.components_sound
  · intro h
    have hnone := defect?_eq_none_of_consistent h
    rw [ofParts]
    split
    · rename_i d hd
      cases hnone.symm.trans hd
    · exact ⟨_, rfl⟩

theorem consistent (t : Tree) : Consistent t.elements t.components :=
  .of_sound t.elements_sound t.components_sound

def isRoot? (t : Tree) (index : Int) : Option Bool :=
  (t.element? index).bind fun e => (t.component? e.enclosing).map (·.root == index)

theorem isRoot_eq (t : Tree) (index : Int) : t.isRoot index = (t.isRoot? index).getD false := by
  rw [isRoot, isRoot?]
  cases t.element? index with
  | none => rfl
  | some e => cases hc : t.component? e.enclosing <;> simp [hc]

def indicesOf (t : Tree) (component : Int) : List Nat := (t.elementsOf component).map Prod.fst

/-- The element indices by which the entries of a tree refer to each other. -/
inductive NamesElement (t : Tree) : Int → Prop
  | child {e : Element} {index : Int} (he : e ∈ t.elements) (h : index ∈ e.children) :
      NamesElement t index
  | root {c : Component} (hc : c ∈ t.components) : NamesElement t c.root
  | parent {c : Component} {index : Int} (hc : c ∈ t.components) (h : c.parent = some index) :
      NamesElement t index

/-- All element indices in a tree, also those in the expressions of bindings. These are looked for
when they are evaluated. -/
inductive StoresElement (t : Tree) : Int → Prop
  | entry {index : Int} (h : t.NamesElement index) : StoresElement t index
  | binding {e : Element} {name : String} {x : Expr} {index : Int} (he : e ∈ t.elements)
      (hx : (name, x) ∈ e.bindings) (h : ¬ x.Everywhere fun y => y.named? ≠ some index) :
      StoresElement t index

/-- The component indices by which the entries of a tree refer to each other. -/
inductive NamesComponent (t : Tree) : Int → Prop
  | enclosing {e : Element} (he : e ∈ t.elements) : NamesComponent t e.enclosing
  | base {e : Element} {index : Int} (he : e ∈ t.elements) (h : e.base = .component index) :
      NamesComponent t index

/-- The components share out the elements, each with one root, and what the entries refer to is
there. -/
structure Partitioned (t : Tree) : Prop where
  ascending : ∀ c : Nat, (t.indicesOf c).Pairwise (· < ·)
  nonempty : ∀ c : Nat, c < t.components.length → t.indicesOf c ≠ []
  disjoint : ∀ c d : Nat, c ≠ d → (t.indicesOf c).Disjoint (t.indicesOf d)
  covers : ∀ i : Nat, i < t.elements.length ↔ ∃ c : Nat, c < t.components.length ∧ i ∈ t.indicesOf c
  oneRoot : ∀ (c : Nat) component, t.components[c]? = some component →
    ∃ root : Nat, component.root = root ∧
      (t.indicesOf c).filter (fun i : Nat => t.isRoot i) = [root]
  rootsDiffer : ∀ (c d : Nat) a b, t.components[c]? = some a → t.components[d]? = some b →
    a.root = b.root → c = d
  elementThere : ∀ i, t.NamesElement i →
    (∃ e, t.element? i = some e) ∧ t.isRoot? i = some (t.isRoot i)
  componentThere : ∀ c, t.NamesComponent c → ∃ component, t.component? c = some component

theorem mem_indicesOf {component : Int} {i : Nat} :
    i ∈ t.indicesOf component ↔ ∃ e, t.elements[i]? = some e ∧ e.enclosing = component := by
  rw [indicesOf, List.mem_map]
  constructor
  · rintro ⟨⟨i, e⟩, hmem, rfl⟩
    obtain ⟨he, hc⟩ := mem_elementsOf.1 hmem
    rw [element?, at?_natCast] at he
    exact ⟨e, he, hc⟩
  · rintro ⟨e, he, hc⟩
    refine ⟨(i, e), mem_elementsOf.2 ⟨?_, hc⟩, rfl⟩
    rwa [element?, at?_natCast]

theorem pairwise_indicesOf (t : Tree) (component : Int) :
    (t.indicesOf component).Pairwise (· < ·) := by
  have hsub : (t.indicesOf component).Sublist (t.elements.zipIdx.map Prod.snd) := by
    rw [indicesOf, elementsOf, List.map_map]
    exact List.filter_sublist.map Prod.snd
  rw [List.zipIdx_map_snd] at hsub
  exact List.Pairwise.sublist hsub List.pairwise_lt_range'

theorem exists_root {c : Nat} {component : Component} (hc : t.components[c]? = some component) :
    ∃ (r : Nat) (e : Element), component.root = r ∧ t.elements[r]? = some e ∧ e.enclosing = c := by
  have hrange := t.consistent.root component (List.mem_of_getElem? hc)
  obtain ⟨e, he, -⟩ := at?_eq_some_of_inRange hrange
  obtain ⟨r, hr⟩ := Int.eq_ofNat_of_zero_le hrange.1
  refine ⟨r, e, hr, ?_, t.consistent.ownRoot c component e hc he⟩
  rwa [hr, at?_natCast] at he

theorem isRoot_natCast {c i : Nat} {component : Component} {e : Element}
    (hc : t.components[c]? = some component) (he : t.elements[i]? = some e)
    (howner : e.enclosing = c) : t.isRoot i = (component.root == (i : Int)) := by
  simp only [isRoot, element?, component?, at?_natCast, he, howner, hc, Option.any_some]

theorem filter_isRoot {c : Nat} {component : Component}
    (hc : t.components[c]? = some component) :
    ∃ root : Nat, component.root = root ∧
      (t.indicesOf c).filter (fun i : Nat => t.isRoot i) = [root] := by
  obtain ⟨r, e, hr, he, howner⟩ := exists_root hc
  refine ⟨r, hr, ?_⟩
  have hroot {i : Nat} (hi : i ∈ t.indicesOf c) : t.isRoot i = (i == r) := by
    obtain ⟨x, hx, hxc⟩ := mem_indicesOf.1 hi
    rw [isRoot_natCast hc hx hxc, hr, Bool.eq_iff_iff, beq_iff_eq, beq_iff_eq, Int.ofNat_inj]
    exact eq_comm
  have hnodup : (t.indicesOf c).Nodup := (t.pairwise_indicesOf c).imp Nat.ne_of_lt
  have hmem : r ∈ t.indicesOf c := mem_indicesOf.2 ⟨e, he, howner⟩
  rw [List.filter_congr fun i hi => hroot hi, List.filter_beq, hnodup.count, if_pos hmem]
  rfl

theorem exists_element (h : t.NamesElement index) : ∃ e, t.element? index = some e := by
  have hrange : InRange t.elements index := by
    cases h with
    | child he h => exact t.consistent.child _ he _ h
    | root hc => exact t.consistent.root _ hc
    | parent hc h => exact t.consistent.parent _ hc _ h
  obtain ⟨e, he, -⟩ := at?_eq_some_of_inRange hrange
  exact ⟨e, he⟩

theorem exists_component (h : t.NamesComponent index) : ∃ c, t.component? index = some c := by
  have hrange : InRange t.components index := by
    cases h with
    | enclosing he => exact t.consistent.enclosing _ he
    | base he h => exact t.consistent.base _ he _ h
  obtain ⟨c, hc, -⟩ := at?_eq_some_of_inRange hrange
  exact ⟨c, hc⟩

theorem mem_of_element? {e : Element} (h : t.element? index = some e) : e ∈ t.elements := by
  rw [element?, at?] at h
  split at h
  · exact List.mem_of_getElem? h
  · cases h

theorem isRoot?_eq_some {e : Element} (he : t.element? index = some e) :
    t.isRoot? index = some (t.isRoot index) := by
  obtain ⟨c, hc⟩ := exists_component (.enclosing (mem_of_element? he))
  rw [isRoot_eq]
  simp [isRoot?, he, hc]

theorem partitioned (t : Tree) : t.Partitioned where
  ascending c := t.pairwise_indicesOf c
  nonempty c hc := by
    obtain ⟨r, e, -, he, howner⟩ := exists_root (List.getElem?_eq_getElem hc)
    exact List.ne_nil_of_mem (mem_indicesOf.2 ⟨e, he, howner⟩)
  disjoint c d hne i hc hd := by
    obtain ⟨x, hx, hxc⟩ := mem_indicesOf.1 hc
    obtain ⟨y, hy, hyd⟩ := mem_indicesOf.1 hd
    cases hx.symm.trans hy
    exact hne (Int.ofNat_inj.1 (hxc.symm.trans hyd))
  covers i := by
    constructor
    · intro hi
      obtain ⟨hlow, hhigh⟩ := t.consistent.enclosing _ (List.getElem_mem hi)
      obtain ⟨c, hc⟩ := Int.eq_ofNat_of_zero_le hlow
      refine ⟨c, by omega, mem_indicesOf.2 ⟨_, List.getElem?_eq_getElem hi, hc⟩⟩
    · rintro ⟨c, -, hi⟩
      obtain ⟨e, he, -⟩ := mem_indicesOf.1 hi
      exact (List.getElem?_eq_some_iff.1 he).1
  oneRoot c component := filter_isRoot
  rootsDiffer c d a b hc hd hroot := by
    obtain ⟨r, x, hr, hx, hxc⟩ := exists_root hc
    obtain ⟨q, y, hq, hy, hyd⟩ := exists_root hd
    obtain rfl : r = q := Int.ofNat_inj.1 (hr.symm.trans (hroot.trans hq))
    cases hx.symm.trans hy
    exact Int.ofNat_inj.1 (hxc.symm.trans hyd)
  elementThere i h := by
    obtain ⟨e, he⟩ := exists_element h
    exact ⟨⟨e, he⟩, isRoot?_eq_some he⟩
  componentThere c h := exists_component h

/-- Elements and components are accepted as a tree exactly if they are consistent, and then the
components share out the elements. -/
theorem ofParts_partitions (elements : List Element) (components : List Component) :
    ((∃ t, ofParts elements components = .ok t) ↔ Consistent elements components) ∧
      ∀ t, ofParts elements components = .ok t →
        t.elements = elements ∧ t.components = components ∧ t.Partitioned := by
  refine ⟨exists_ofParts_iff, fun t h => ?_⟩
  obtain ⟨he, hc⟩ := ofParts_ok h
  exact ⟨he, hc, t.partitioned⟩

end Tree

namespace Sample

theorem frame_and_row_partitioned :
    tree.indicesOf 0 = [0, 1] ∧ tree.indicesOf 1 = [2] ∧ tree.Partitioned := by
  have h : Tree.ofParts elements components = .ok tree := rfl
  exact ⟨rfl, rfl, ((Tree.ofParts_partitions elements components).2 tree h).2.2⟩

def danglingElements : List Element :=
  [⟨"frame", .builtin "Rectangle", 0, [], [("x", .property 9 "x")]⟩]

/-- A binding refers to an element that there is not, in a tree that is accepted. -/
theorem dangling_accepted :
    ∃ t, Tree.ofParts danglingElements [⟨"Frame", 0, none⟩] = .ok t ∧ t.StoresElement 9 ∧
      t.element? 9 = none ∧ t.isRoot? 9 = none ∧
      ¬ ∀ i, t.StoresElement i → ∃ e, t.element? i = some e := by
  have hstores (t : Tree) (h : t.elements = danglingElements) : t.StoresElement 9 :=
    .binding (by rw [h]; exact List.mem_singleton_self _) (List.mem_singleton_self _)
      fun hall => hall.here rfl
  refine ⟨_, rfl, hstores _ rfl, rfl, rfl, fun h => ?_⟩
  obtain ⟨e, he⟩ := h 9 (hstores _ rfl)
  cases he

end Sample

end UiBinding
