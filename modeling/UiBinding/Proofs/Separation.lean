import Mathlib.Data.List.Pairwise
import UiBinding.Proofs.Access
import UiBinding.Proofs.Members

namespace UiBinding

theorem Tree.mem_elementsOf {t : Tree} {component : Int} {i : Nat} {e : Element} :
    (i, e) ∈ t.elementsOf component ↔ t.element? i = some e ∧ e.enclosing = component := by
  rw [elementsOf, element?, at?_natCast]
  constructor
  · intro h
    obtain ⟨⟨e', j⟩, hmem, he⟩ := List.mem_map.1 h
    cases he
    obtain ⟨hmem, hc⟩ := List.mem_filter.1 hmem
    exact ⟨List.mem_zipIdx_iff_getElem?.1 hmem, by simpa using hc⟩
  · rintro ⟨he, hc⟩
    refine List.mem_map.2 ⟨(e, i), List.mem_filter.2 ⟨?_, by simpa using hc⟩, rfl⟩
    exact List.mem_zipIdx_iff_getElem?.2 he

namespace Description

variable {d : Description} {tree : Tree} {component : Int}
  {customs : List (String × Option DeclaredType)} {signals : List String}
  {repeated checked : Bool} {holder : Nat} {element : Int} {name : String} {x : Expr}

theorem placeItems_known {id : String} {checked : Bool} {elements : List (Nat × Element)}
    {offset : Nat} {placed : Assoc ItemBlock} {m : Assoc ItemBlock × Nat}
    (h : placeItems id checked elements offset placed = .ok m) :
    ∀ e ∈ elements, (∃ i, e.2.item? = some i) ∨ ∃ k, e.2.base = .component k := by
  induction elements generalizing offset placed with
  | nil => nofun
  | cons e elements ih =>
      obtain ⟨n, e⟩ := e
      rw [placeItems] at h
      split at h
      · rename_i k hb
        exact List.forall_mem_cons.2 ⟨.inr ⟨k, hb⟩, ih h⟩
      rename_i type hb
      split at h
      · cases h
      rename_i i hi
      split at h
      · cases h
      refine List.forall_mem_cons.2 ⟨.inl ⟨i, ?_⟩, ih h⟩
      rw [Element.item?, hb]
      exact hi

theorem known_of_build (h : build tree component customs signals repeated checked = .ok d) :
    ∀ e ∈ tree.elementsOf component, (∃ i, e.2.item? = some i) ∨ ∃ k, e.2.base = .component k := by
  obtain ⟨c, placed, m, -, hm, rfl⟩ := build_ok h
  exact placeItems_known hm

theorem mem_itemEntries {elements : List (Nat × Element)} {id : String} {i : Item} :
    (id, i) ∈ itemEntries elements ↔ ∃ e ∈ elements, e.2.item? = some i ∧ e.2.id = id := by
  simp [itemEntries]

theorem exists_block_iff (h : build tree component customs signals repeated checked = .ok d)
    {id : String} : (∃ b, d.items.get? id = some b) ↔
      ∃ e ∈ tree.elementsOf component, (∃ i, e.2.item? = some i) ∧ e.2.id = id := by
  constructor
  · rintro ⟨b, hb⟩
    have hmem : (id, b.item) ∈ itemEntries (tree.elementsOf component) := by
      rw [← items_of_build h]
      exact List.mem_map.2 ⟨_, Assoc.mem_of_get? hb, rfl⟩
    obtain ⟨e, he, hi, hid⟩ := mem_itemEntries.1 hmem
    exact ⟨e, he, ⟨_, hi⟩, hid⟩
  · rintro ⟨e, he, ⟨i, hi⟩, hid⟩
    have hmem := mem_itemEntries.2 ⟨e, he, hi, hid⟩
    rw [← items_of_build h] at hmem
    obtain ⟨⟨id', b⟩, hb, heq⟩ := List.mem_map.1 hmem
    cases heq
    exact ⟨b, Assoc.get?_of_mem (keyed_of_build h).items hb⟩

theorem id_ne_of_item? (h : build tree component customs signals repeated checked = .ok d)
    {p q : Nat × Element} (hp : p ∈ tree.elementsOf component)
    (hq : q ∈ tree.elementsOf component) (hne : p ≠ q) {i j : Item} (hi : p.2.item? = some i)
    (hj : q.2.item? = some j) : p.2.id ≠ q.2.id := by
  have hkeys : ((itemEntries (tree.elementsOf component)).map Prod.fst).Nodup := by
    rw [← items_of_build h, List.map_map]
    exact (keyed_of_build h).items
  have hpair := List.pairwise_filterMap.1 (List.pairwise_map.1 hkeys)
  have hsymm : Std.Symm fun a b : Nat × Element =>
      ∀ s, (a.2.item?.map fun i => (a.2.id, i)) = some s →
        ∀ t, (b.2.item?.map fun i => (b.2.id, i)) = some t → s.1 ≠ t.1 :=
    ⟨fun a b hab s hs t ht => (hab t ht s hs).symm⟩
  exact hpair.forall hp hq hne (p.2.id, i) (by rw [hi]; rfl) (q.2.id, j) (by rw [hj]; rfl)

theorem slotOf?_of_locate {p : ItemProperty} {v : ItemView}
    (h : d.locate holder element name x = .ok (.native p, v)) :
    ∃ e, d.tree.element? element = some e ∧
      d.slotOf? (.itemProperty e.id name) = some (v.base + p.offset) := by
  rw [locate] at h
  split at h
  · cases h
  rename_i e he
  split at h
  · cases h
  split at h
  · cases h
  rename_i b hb
  split at h
  · cases h
  · rename_i q hq
    cases h
    exact ⟨e, he, by simp [slotOf?, hb, hq]⟩

theorem locate_eq_notAnItem_iff {e : Element} (he : d.tree.element? element = some e)
    (hcustom : d.tree.isRoot element = true → d.customProperties.get? name = none) :
    d.locate holder element name x = .error (.fault (.notAnItem d.id e.id name x)) ↔
      d.items.get? e.id = none := by
  have hnone : (if d.tree.isRoot element then d.customProperties.get? name else none) = none := by
    split
    · exact hcustom ‹_›
    · rfl
  simp only [locate, he, hnone]
  cases hb : d.items.get? e.id with
  | none => simp
  | some b =>
      dsimp only
      cases b.item.property? b.checked name <;> simp

theorem slot_eq_iff (hd : d.Laid) (hk : d.Keyed) {i j : Int} {e f : Element} {m n : String}
    {x y : Expr} {p q : ItemProperty} {v w : ItemView} (he : d.tree.element? i = some e)
    (hf : d.tree.element? j = some f) (hp : d.locate holder i m x = .ok (.native p, v))
    (hq : d.locate holder j n y = .ok (.native q, w)) :
    v.base + p.offset = w.base + q.offset ↔ e.id = f.id ∧ m = n := by
  obtain ⟨e', he', hm⟩ := slotOf?_of_locate hp
  obtain ⟨f', hf', hn⟩ := slotOf?_of_locate hq
  obtain rfl : e' = e := Option.some.inj (he'.symm.trans he)
  obtain rfl : f' = f := Option.some.inj (hf'.symm.trans hf)
  constructor
  · intro hslot
    have hat := (slotOf?_eq_some_iff hd hk).1 hm
    rw [hslot, (slotOf?_eq_some_iff hd hk).1 hn] at hat
    obtain ⟨hid, hname⟩ := Member.itemProperty.inj (Option.some.inj hat)
    exact ⟨hid.symm, hname.symm⟩
  · rintro ⟨hid, rfl⟩
    rw [hid, hn] at hm
    exact (Option.some.inj hm).symm

/-- A reference to an element that instantiates a component is refused exactly if no built-in
element of the component carries the id of that element. -/
theorem locate_eq_notAnItem_iff_ids
    (h : build tree component customs signals repeated checked = .ok d) {e : Element} {i : Int}
    (he : d.tree.element? i = some e)
    (hcustom : d.tree.isRoot i = true → d.customProperties.get? name = none) :
    d.locate holder i name x = .error (.fault (.notAnItem d.id e.id name x)) ↔
      ∀ q ∈ tree.elementsOf component, q.2.id = e.id → ∃ k, q.2.base = .component k := by
  rw [locate_eq_notAnItem_iff he hcustom]
  constructor
  · intro hnone q hq hid
    obtain ⟨item, hitem⟩ | hk := known_of_build h q hq
    · obtain ⟨b, hb⟩ := (exists_block_iff h).2 ⟨q, hq, ⟨item, hitem⟩, hid⟩
      rw [hnone] at hb
      cases hb
    · exact hk
  · intro hids
    by_contra hsome
    obtain ⟨q, hq, ⟨item, hitem⟩, hid⟩ :=
      (exists_block_iff h).1 (Option.ne_none_iff_exists'.1 hsome)
    obtain ⟨k, hk⟩ := hids q hq hid
    rw [Element.item?, hk] at hitem
    cases hitem

/-- Two elements of a component reach one slot only by one name and one id, which two built-in
elements never share; and a property of an element that instantiates a component is refused,
where no custom property applies, exactly if no built-in element carries its id. -/
theorem build_separates (h : build tree component customs signals repeated checked = .ok d)
    (holder : Nat) :
    (∀ p ∈ tree.elementsOf component, ∀ q ∈ tree.elementsOf component, p.1 ≠ q.1 →
      (∀ (m n : String) (x y : Expr) (a b : ItemProperty) (v w : ItemView),
        d.locate holder p.1 m x = .ok (.native a, v) →
        d.locate holder q.1 n y = .ok (.native b, w) →
          (v.base + a.offset = w.base + b.offset ↔ p.2.id = q.2.id ∧ m = n)) ∧
      (p.2.id = q.2.id → (∃ k, p.2.base = .component k) ∨ ∃ k, q.2.base = .component k)) ∧
    ∀ p ∈ tree.elementsOf component, ∀ (k : Int) (name : String), p.2.base = .component k →
      (tree.isRoot p.1 = true → d.customProperties.get? name = none) →
      ((∀ x, d.locate holder p.1 name x = .error (.fault (.notAnItem d.id p.2.id name x))) ↔
        ∀ q ∈ tree.elementsOf component, q.2.id = p.2.id → ∃ k, q.2.base = .component k) ∧
      ((∀ q ∈ tree.elementsOf component, q.2.id = p.2.id → ∃ k, q.2.base = .component k) →
        ∀ (types : Catalog) (s : State) (scope : Scope) (o : Context) (depth : Nat),
          (scope.context.resolve types scope.maxDepth p.1 none).2 = .ok o →
          types.find o.self.description = d →
          ((Evaluation.eval types (depth + 1) scope (.property p.1 name)).run s).1 =
            .error (.error (.fault (.notAnItem d.id p.2.id name (.property p.1 name))))) := by
  obtain ⟨rfl, -⟩ := tree_of_build h
  refine ⟨fun p hp q hq hne => ⟨?_, fun hid => ?_⟩, fun p hp k name _ hcustom => ?_⟩
  · intro m n x y a b v w ha hb
    exact slot_eq_iff (laid_of_build h) (keyed_of_build h) (Tree.mem_elementsOf.1 hp).1
      (Tree.mem_elementsOf.1 hq).1 ha hb
  · obtain ⟨i, hi⟩ | hk := known_of_build h p hp
    · obtain ⟨j, hj⟩ | hk := known_of_build h q hq
      · have hpq : p ≠ q := fun he => hne (congrArg Prod.fst he)
        exact absurd hid (id_ne_of_item? h hp hq hpq hi hj)
      · exact .inr hk
    · exact .inl hk
  · have he := (Tree.mem_elementsOf.1 hp).1
    have hrefused (n : Nat) (x : Expr) :
        d.locate n p.1 name x = .error (.fault (.notAnItem d.id p.2.id name x)) ↔
          ∀ q ∈ d.tree.elementsOf component, q.2.id = p.2.id → ∃ k, q.2.base = .component k :=
      locate_eq_notAnItem_iff_ids h he hcustom
    refine ⟨⟨fun hall => (hrefused holder .invalid).1 (hall .invalid),
      fun hids x => (hrefused holder x).2 hids⟩, ?_⟩
    intro hids types s scope o depth hr hfind
    have hl := (hrefused o.self.number (.property p.1 name)).2 hids
    change ((Evaluation.readProperty types (Evaluation.eval types depth) scope
      (.property p.1 name) p.1 name).run s).1 = _
    rw [Run.run_readProperty (Context.resolve_blame _ hr), hfind, hl]

end Description

namespace Sample

theorem panel_separates :
    Description.build panelTree 0 [("title", some .string), ("index", some .color)]
      ["clicked", "title"] true true = .ok panel ∧
    panel.locate 0 1 "text" (.property 1 "text") =
      .error (.fault (.notAnItem "Panel" "cells" "text" (.property 1 "text"))) := by
  have hids : ∀ q ∈ panelTree.elementsOf 0, q.2.id = "cells" → ∃ k, q.2.base = .component k := by
    intro q hq hid
    obtain rfl | hq := List.mem_cons.1 hq
    · exact absurd hid (by decide)
    obtain rfl | hq := List.mem_cons.1 hq
    · exact ⟨1, rfl⟩
    · rw [List.mem_singleton.1 hq] at hid
      exact absurd hid (by decide)
  refine ⟨panel_built, ?_⟩
  obtain ⟨-, hrefused⟩ := Description.build_separates panel_built 0
  exact (hrefused (1, ⟨"cells", .component 1, 0, [], []⟩) (Tree.mem_elementsOf.2 ⟨rfl, rfl⟩) 1
    "text" rfl nofun).1.2 hids _

def twinElements : List Element :=
  [⟨"box", .builtin "Rectangle", 0, [1], []⟩, ⟨"box", .component 1, 0, [], []⟩,
    ⟨"row", .builtin "Rectangle", 1, [], []⟩]

def twinComponents : List Component := [⟨"Box", 0, none⟩, ⟨"Row", 2, some 1⟩]

theorem twin_sound : (∀ e ∈ twinElements, e.Sound twinElements twinComponents) ∧
    ∀ p ∈ twinComponents.zipIdx, p.1.Sound twinElements p.2 :=
  Tree.sound_of_defect?_eq_none (by decide)

def twinTree : Tree := ⟨twinElements, twinComponents, twin_sound.1, twin_sound.2⟩

def twin : Description :=
  ⟨twinTree, 0, [], [], [("box", ⟨.rectangle, false, 0⟩)], 5⟩

/-- The builder accepts the two, and a reference to the element for rows reaches the box. -/
theorem twin_aliased :
    Description.build twinTree 0 [] [] false false = .ok twin ∧
    (twinTree.element? 1).map Element.base = some (.component 1) ∧
    (∃ p v, twin.locate 0 0 "x" (.property 0 "x") = .ok (.native p, v) ∧
      twin.locate 0 1 "x" (.property 1 "x") = .ok (.native p, v)) ∧
    ((Evaluation.eval [twin] 1 ⟨64, 0, .outermost 0 ⟨0, 0⟩⟩ (.property 1 "x")).run
      ⟨[twin.roles.map Role.start], 1, []⟩).1 = .ok (.value (.number .zero)) :=
  ⟨rfl, rfl, ⟨_, _, rfl, rfl⟩, rfl⟩

end Sample

end UiBinding
