import Mathlib.Data.List.Forall2
import Mathlib.Data.List.Nodup
import UiBinding.Proofs.Layout

namespace UiBinding

/-- What names a slot of an instance: a custom property or signal of its component, or a
property or signal of the item of an element. -/
inductive Member
  | property (name : String)
  | signal (name : String)
  | itemProperty (element name : String)
  | itemSignal (element name : String)
  deriving DecidableEq

def Member.element? : Member → Option String
  | itemProperty element _ | itemSignal element _ => some element
  | _ => none

/-- A property or signal that is declared for a component or comes with one of its items. -/
inductive Declaration
  | property (name : String) (type : Option DeclaredType)
  | signal (name : String)
  | itemProperty (element name : String) (type : StorageType)
  | itemSignal (element name : String)

namespace Declaration

def member : Declaration → Member
  | property name _ => .property name
  | signal name => .signal name
  | itemProperty element name _ => .itemProperty element name
  | itemSignal element name => .itemSignal element name

def start {β η : Type} : Declaration → Slot β η
  | property _ type => .property (.start (.value (type.elim .void DeclaredType.start)))
  | itemProperty _ _ type => .property (.start type.start)
  | signal _ | itemSignal _ _ => .signal .start

end Declaration

/-- The zero of a storage type, and the value that it is read as. -/
inductive StorageType.Zero : StorageType → Native → Value → Prop
  | integer {t : StorageType} (h : t.bounds?.isSome) :
    Zero t (.int 0) (.number ⟨false, 0, by decide⟩)
  | single : Zero .f32 (.float ⟨false, 0, by decide⟩) (.number ⟨false, 0, by decide⟩)
  | double : Zero .f64 (.float ⟨false, 0, by decide⟩) (.number ⟨false, 0, by decide⟩)
  | bool : Zero .bool (.bool false) (.bool false)
  | string : Zero .string (.string "") (.string "")
  | resource : Zero .resource (.resource .none) (.resource .none)
  | object : Zero .object (.dict []) (.object [])
  | color : Zero .color (.color ⟨0, 0, 0, 0⟩) (.color ⟨0, 0, 0, 0⟩)
  | pathElements : Zero .pathElements (.tuple []) (.path [])
  | value : Zero .value (.value .void) .void

theorem StorageType.zero_start (t : StorageType) :
    ∃ v, t.Zero t.start v ∧ t.start.wrap t = .ok v := by
  cases t with
  | i32 | i64 | u32 | u64 | isize | usize =>
      refine ⟨_, .integer rfl, ?_⟩
      change (Native.ofInt 0).map Value.number = _
      rw [show Native.ofInt 0 = .ok .zero by decide +kernel]
      rfl
  | f32 => exact ⟨_, .single, rfl⟩
  | f64 => exact ⟨_, .double, rfl⟩
  | bool => exact ⟨_, .bool, rfl⟩
  | string => exact ⟨_, .string, rfl⟩
  | resource => exact ⟨_, .resource, rfl⟩
  | object => exact ⟨_, .object, rfl⟩
  | color => exact ⟨_, .color, rfl⟩
  | pathElements => exact ⟨_, .pathElements, rfl⟩
  | value => exact ⟨_, .value, rfl⟩

inductive DeclaredType.Zero : DeclaredType → Value → Prop
  | number {t : DeclaredType} (h : t ∈ [int32, float32, length, duration]) :
    Zero t (.number ⟨false, 0, by decide⟩)
  | string : Zero .string (.string "")
  | bool : Zero .bool (.bool false)
  | color : Zero .color (.color ⟨0, 0, 0, 0⟩)
  | resource : Zero .resource (.resource .none)
  | array : Zero .array (.array [])
  | object : Zero .object (.object [])
  | pathElements : Zero .pathElements (.path [])
  | none {t : DeclaredType} (h : t ∈ [void, signal]) : Zero t .void

theorem DeclaredType.zero_start (t : DeclaredType) : t.Zero t.start := by
  cases t with
  | int32 | float32 | length | duration => exact .number (by decide)
  | void | signal => exact .none (by decide)
  | string => exact .string
  | bool => exact .bool
  | color => exact .color
  | resource => exact .resource
  | array => exact .array
  | object => exact .object
  | pathElements => exact .pathElements

/-- What is declared, in the cell of an instance that nothing was done to: a stored zero that is
neither bound nor animated, or a signal without handlers. -/
inductive Declaration.Fresh {β η : Type} : Declaration → Slot β η → Prop
  | untyped (name : String) :
    Fresh (.property name none) (.property ⟨.value .void, none, none⟩)
  | typed (name : String) {t : DeclaredType} {v : Value} (h : t.Zero v) :
    Fresh (.property name (some t)) (.property ⟨.value v, none, none⟩)
  | signal (name : String) : Fresh (.signal name) (.signal ⟨[]⟩)
  | itemProperty (element name : String) {t : StorageType} {n : Native} {v : Value}
    (h : t.Zero n v) (hwrap : n.wrap t = .ok v) :
    Fresh (.itemProperty element name t) (.property ⟨n, none, none⟩)
  | itemSignal (element name : String) : Fresh (.itemSignal element name) (.signal ⟨[]⟩)

theorem Declaration.fresh_start {β η : Type} (x : Declaration) :
    x.Fresh (x.start : Slot β η) := by
  cases x with
  | property name type =>
      cases type with
      | none => exact .untyped name
      | some t => exact .typed name t.zero_start
  | signal name => exact .signal name
  | itemProperty element name t =>
      obtain ⟨v, hzero, hwrap⟩ := t.zero_start
      exact .itemProperty element name hzero hwrap
  | itemSignal element name => exact .itemSignal element name

namespace Item

def declarations (i : Item) (element : String) : List Declaration :=
  i.types.map (fun p => .itemProperty element p.1 p.2) ++ i.signalNames.map (.itemSignal element)

variable {i : Item} {element : String}

theorem length_declarations (i : Item) (element : String) :
    (i.declarations element).length = i.slotCount := by
  simp [declarations, slotCount]

theorem start_declarations {β η : Type} (i : Item) (element : String) :
    (i.declarations element).map Declaration.start = (i.allocate : List (Slot β η)) := by
  rw [declarations, allocate, List.map_append, List.map_map, List.map_map]
  rfl

theorem element?_of_mem_declarations {x : Declaration} (h : x ∈ i.declarations element) :
    x.member.element? = some element := by
  obtain h | h := List.mem_append.1 h
  · obtain ⟨p, -, rfl⟩ := List.mem_map.1 h
    rfl
  · obtain ⟨name, -, rfl⟩ := List.mem_map.1 h
    rfl

theorem nodup_declarations (i : Item) (element : String) :
    ((i.declarations element).map Declaration.member).Nodup := by
  cases i <;> simp [declarations, types, geometry, signalNames, Declaration.member]

theorem declarations_property {checked : Bool} {name : String} {p : ItemProperty}
    (h : i.property? checked name = some p) :
    ∃ k : Nat, p.offset = k ∧
      (i.declarations element)[k]? = some (.itemProperty element name p.type) := by
  have hname : p.name = name := by simpa using List.find?_some h
  obtain ⟨⟨⟨n, t⟩, k⟩, hmem, rfl⟩ := List.mem_map.1 (List.mem_of_find?_eq_some h)
  rw [List.mem_zipIdx_iff_getElem?] at hmem
  obtain rfl : n = name := hname
  refine ⟨k, rfl, ?_⟩
  have hlt := (List.getElem?_eq_some_iff.1 hmem).1
  rw [declarations, List.getElem?_append_left (by rwa [List.length_map]), List.getElem?_map, hmem]
  rfl

theorem declarations_signal {name : String} {k : Nat} (h : i.signals.get? name = some k) :
    (i.declarations element)[k]? = some (.itemSignal element name) := by
  obtain ⟨⟨n, j⟩, hmem, he⟩ := List.mem_map.1 (Assoc.mem_of_get? h)
  rw [List.mem_zipIdx_iff_getElem?] at hmem
  cases he
  rw [declarations, List.getElem?_append_right (by simp), List.length_map,
    Nat.add_sub_cancel_left, List.getElem?_map, hmem]
  rfl

theorem isSome_property? {name : String} {t : StorageType} (h : (name, t) ∈ i.types)
    (checked : Bool) : (i.property? checked name).isSome := by
  obtain ⟨k, hk⟩ := List.mem_iff_getElem?.1 h
  refine List.find?_isSome.2 ⟨⟨i.name, name, t, k, checked⟩, ?_, by simp⟩
  exact List.mem_map.2 ⟨((name, t), k), List.mem_zipIdx_iff_getElem?.2 hk, rfl⟩

theorem isSome_signals {name : String} (h : name ∈ i.signalNames) :
    (i.signals.get? name).isSome := by
  obtain ⟨k, hk⟩ := List.mem_iff_getElem?.1 h
  refine Assoc.isSome_get?.2 (List.mem_map.2 ⟨(name, i.types.length + k), ?_, rfl⟩)
  exact List.mem_map.2 ⟨(name, k), List.mem_zipIdx_iff_getElem?.2 hk, rfl⟩

end Item

namespace Element

def item? (e : Element) : Option Item :=
  match e.base with
  | .builtin type => Item.ofName? type
  | .component _ => none

def declarations (e : Element) : List Declaration :=
  e.item?.elim [] fun i => i.declarations e.id

end Element

theorem at?_natCast {α : Type} (l : List α) (k : Nat) : at? l k = l[k]? := by simp [at?]

theorem at?_inj {α : Type} {l : List α} (h : l.Nodup) {i j : Int} {a : α} (hi : at? l i = some a)
    (hj : at? l j = some a) : i = j := by
  unfold at? at hi hj
  split at hi
  · split at hj
    · have hlt := (List.getElem?_eq_some_iff.1 hi).1
      have := (List.getElem?_inj hlt h).1 (hi.trans hj.symm)
      omega
    · cases hj
  · cases hi

namespace Description

/-- The slot that the tables of a description give to a member. -/
def slotOf? (d : Description) : Member → Option Int
  | .property name => (d.customProperties.get? name).map fun p => p.offset
  | .signal name => (d.customSignals.get? name).map Nat.cast
  | .itemProperty element name =>
    (d.items.get? element).bind fun b =>
      (b.item.property? b.checked name).map fun p => b.offset + p.offset
  | .itemSignal element name =>
    (d.items.get? element).bind fun b =>
      (b.item.signals.get? name).map fun k => ((b.offset + k : Nat) : Int)

def customDeclarations (p : String × CustomSlot) : List Declaration := [.property p.1 p.2.type]

def signalDeclarations (p : String × Nat) : List Declaration := [.signal p.1]

def itemDeclarations (p : String × ItemBlock) : List Declaration := p.2.item.declarations p.1

def declarations (d : Description) : List Declaration :=
  d.customProperties.flatMap customDeclarations ++ d.customSignals.flatMap signalDeclarations ++
    d.items.flatMap itemDeclarations

/-- No table of a description has two entries for one name. -/
structure Keyed (d : Description) : Prop where
  customs : d.customProperties.keys.Nodup
  signals : d.customSignals.keys.Nodup
  items : d.items.keys.Nodup

variable {d : Description}

theorem length_itemDeclarations (p : String × ItemBlock) :
    (itemDeclarations p).length = (itemRoles p).length :=
  (Item.length_declarations _ _).trans p.2.length_roles.symm

theorem start_declarations {β η : Type} (d : Description) :
    (d.declarations.map Declaration.start : List (Slot β η)) = d.roles.map Role.start := by
  have hcustom (p : String × CustomSlot) : (customDeclarations p).map Declaration.start =
      ((customRoles p).map Role.start : List (Slot β η)) := by
    obtain ⟨name, offset, type⟩ := p
    cases type <;> rfl
  have hitem (p : String × ItemBlock) : (itemDeclarations p).map Declaration.start =
      ((itemRoles p).map Role.start : List (Slot β η)) :=
    (Item.start_declarations _ _).trans (Item.allocate_eq p.2)
  simp only [declarations, roles, List.map_append, List.map_flatMap, hcustom, hitem]
  rfl

namespace Laid

theorem declared_custom (h : d.Laid) {name : String} {p : CustomSlot}
    (hp : (name, p) ∈ d.customProperties) :
    d.declarations[p.offset]? = some (.property name p.type) := by
  have := h.customs.getElem?_append customDeclarations []
    (d.customSignals.flatMap signalDeclarations ++ d.items.flatMap itemDeclarations)
    (fun _ _ => rfl) hp (i := 0) rfl
  simpa [declarations] using this

theorem declared_signal (h : d.Laid) {name : String} {k : Nat}
    (hk : (name, k) ∈ d.customSignals) : d.declarations[k]? = some (.signal name) := by
  have hlen : (d.customProperties.flatMap customDeclarations).length =
      (d.customProperties.flatMap customRoles).length := by
    simp [customDeclarations, customRoles]
  have hs := h.signals
  rw [← hlen] at hs
  exact hs.getElem?_append signalDeclarations _ (d.items.flatMap itemDeclarations) (fun _ _ => rfl)
    hk (i := 0) rfl

theorem declared_item (h : d.Laid) {element : String} {b : ItemBlock}
    (hb : (element, b) ∈ d.items) {j : Nat} {x : Declaration}
    (hj : (b.item.declarations element)[j]? = some x) :
    d.declarations[b.offset + j]? = some x := by
  have hlen : (d.customProperties.flatMap customDeclarations ++
        d.customSignals.flatMap signalDeclarations).length =
      (d.customProperties.flatMap customRoles ++ d.customSignals.flatMap signalRoles).length := by
    simp [customDeclarations, customRoles, signalDeclarations, signalRoles]
  have hi := h.items
  rw [← hlen] at hi
  have := hi.getElem?_append itemDeclarations _ [] (fun p _ => length_itemDeclarations p) hb hj
  rwa [List.append_nil] at this

theorem at?_of_slotOf? (h : d.Laid) {m : Member} {i : Int} (hm : d.slotOf? m = some i) :
    at? (d.declarations.map Declaration.member) i = some m := by
  cases m with
  | property name =>
      obtain ⟨p, hp, rfl⟩ := Option.map_eq_some_iff.1 hm
      rw [at?_natCast, List.getElem?_map, h.declared_custom (Assoc.mem_of_get? hp)]
      rfl
  | signal name =>
      obtain ⟨k, hk, rfl⟩ := Option.map_eq_some_iff.1 hm
      rw [at?_natCast, List.getElem?_map, h.declared_signal (Assoc.mem_of_get? hk)]
      rfl
  | itemProperty element name =>
      obtain ⟨b, hb, hm⟩ := Option.bind_eq_some_iff.1 hm
      obtain ⟨p, hp, rfl⟩ := Option.map_eq_some_iff.1 hm
      obtain ⟨k, hk, hget⟩ := Item.declarations_property hp
      rw [hk, ← Int.natCast_add, at?_natCast, List.getElem?_map,
        h.declared_item (Assoc.mem_of_get? hb) hget]
      rfl
  | itemSignal element name =>
      obtain ⟨b, hb, hm⟩ := Option.bind_eq_some_iff.1 hm
      obtain ⟨k, hk, rfl⟩ := Option.map_eq_some_iff.1 hm
      rw [at?_natCast, List.getElem?_map,
        h.declared_item (Assoc.mem_of_get? hb) (Item.declarations_signal hk)]
      rfl

end Laid

namespace Keyed

theorem exists_slot (h : d.Keyed) {x : Declaration} (hx : x ∈ d.declarations) :
    ∃ i, d.slotOf? x.member = some i := by
  obtain hx | hx := List.mem_append.1 hx
  · obtain hx | hx := List.mem_append.1 hx
    · obtain ⟨p, hp, hx⟩ := List.mem_flatMap.1 hx
      obtain rfl := List.mem_singleton.1 hx
      exact ⟨_, congrArg (Option.map _) (Assoc.get?_of_mem h.customs hp)⟩
    · obtain ⟨p, hp, hx⟩ := List.mem_flatMap.1 hx
      obtain rfl := List.mem_singleton.1 hx
      exact ⟨_, congrArg (Option.map _) (Assoc.get?_of_mem h.signals hp)⟩
  · obtain ⟨⟨element, b⟩, hb, hx⟩ := List.mem_flatMap.1 hx
    have hget : d.items.get? element = some b := Assoc.get?_of_mem h.items hb
    obtain hx | hx := List.mem_append.1 hx
    · obtain ⟨⟨name, t⟩, ht, rfl⟩ := List.mem_map.1 hx
      obtain ⟨p, hp⟩ := Option.isSome_iff_exists.1 (Item.isSome_property? ht b.checked)
      exact ⟨b.offset + p.offset, by simp [Declaration.member, slotOf?, hget, hp]⟩
    · obtain ⟨name, hname, rfl⟩ := List.mem_map.1 hx
      obtain ⟨k, hk⟩ := Option.isSome_iff_exists.1 (Item.isSome_signals hname)
      exact ⟨(b.offset + k : Nat), by simp [Declaration.member, slotOf?, hget, hk]⟩

theorem nodup_items (h : d.Keyed) :
    ((d.items.flatMap itemDeclarations).map Declaration.member).Nodup := by
  rw [List.map_flatMap, List.nodup_flatMap]
  refine ⟨fun p _ => Item.nodup_declarations _ _, ?_⟩
  refine (List.pairwise_map.1 h.items).imp fun {p q} hne => ?_
  intro m hp hq
  obtain ⟨x, hx, rfl⟩ := List.mem_map.1 hp
  obtain ⟨y, hy, he⟩ := List.mem_map.1 hq
  have hpq := Item.element?_of_mem_declarations hx
  rw [← he, Item.element?_of_mem_declarations hy] at hpq
  exact hne (Option.some.inj hpq).symm

theorem nodup_members (h : d.Keyed) : (d.declarations.map Declaration.member).Nodup := by
  have hcustoms : (d.customProperties.flatMap customDeclarations).map Declaration.member =
      d.customProperties.keys.map .property := by
    rw [List.map_flatMap, Assoc.keys, List.map_map, List.map_eq_flatMap]
    rfl
  have hsignals : (d.customSignals.flatMap signalDeclarations).map Declaration.member =
      d.customSignals.keys.map .signal := by
    rw [List.map_flatMap, Assoc.keys, List.map_map, List.map_eq_flatMap]
    rfl
  have hof (m : Member) (hm : m ∈ (d.items.flatMap itemDeclarations).map Declaration.member) :
      ∃ element, m.element? = some element := by
    obtain ⟨x, hx, rfl⟩ := List.mem_map.1 hm
    obtain ⟨p, -, hx⟩ := List.mem_flatMap.1 hx
    exact ⟨_, Item.element?_of_mem_declarations hx⟩
  rw [declarations, List.map_append, List.map_append, hcustoms, hsignals]
  refine List.nodup_append.2 ⟨List.nodup_append.2 ⟨?_, ?_, ?_⟩, h.nodup_items, ?_⟩
  · exact h.customs.map fun _ _ he => Member.property.inj he
  · exact h.signals.map fun _ _ he => Member.signal.inj he
  · intro m hm n hn he
    obtain ⟨_, -, rfl⟩ := List.mem_map.1 hm
    obtain ⟨_, -, rfl⟩ := List.mem_map.1 hn
    cases he
  · rintro m hm n hn rfl
    obtain ⟨element, he⟩ := hof m hn
    obtain hm | hm := List.mem_append.1 hm
    · obtain ⟨_, -, rfl⟩ := List.mem_map.1 hm
      cases he
    · obtain ⟨_, -, rfl⟩ := List.mem_map.1 hm
      cases he

end Keyed

theorem slotOf?_eq_some_iff (hd : d.Laid) (hk : d.Keyed) {m : Member} {i : Int} :
    d.slotOf? m = some i ↔ at? (d.declarations.map Declaration.member) i = some m := by
  refine ⟨hd.at?_of_slotOf?, fun h => ?_⟩
  have hmem : m ∈ d.declarations.map Declaration.member := by
    rw [at?] at h
    split at h
    · exact List.mem_of_getElem? h
    · cases h
  obtain ⟨x, hx, rfl⟩ := List.mem_map.1 hmem
  obtain ⟨j, hj⟩ := hk.exists_slot hx
  rw [at?_inj hk.nodup_members h (hd.at?_of_slotOf? hj), hj]

/-- Custom properties in the order in which they are given: what a repeated component has for
each row, and then what is declared. -/
def given (repeated : Bool) (customs : List (String × Option DeclaredType)) :
    List (String × Option DeclaredType) :=
  (if repeated then [(rowIndexName, some .int32), (rowModelName, none)] else []) ++ customs

/-- What a component is declared to have: its custom properties in the order in which they
are given first, with the type that is given last; its signals; and item by item what its
elements bring along. -/
def declare (tree : Tree) (component : Int) (customs : List (String × Option DeclaredType))
    (signals : List String) (repeated : Bool) : List Declaration :=
  ((given repeated customs).map Prod.fst).eraseDups.map (fun name =>
      .property name (Assoc.get? (given repeated customs).reverse name).join) ++
    signals.map .signal ++
    (tree.elementsOf component).flatMap fun e => e.2.declarations

theorem declarations_placeProperties (types : Assoc (Option DeclaredType)) :
    (placeProperties types).flatMap customDeclarations =
      types.map fun p => .property p.1 p.2 := by
  have ht : types = types.zipIdx.map Prod.fst := (List.zipIdx_map_fst 0 _).symm
  rw [placeProperties, List.flatMap_map]
  conv => rhs; rw [ht, List.map_map, List.map_eq_flatMap]
  rfl

theorem declared_eq (repeated : Bool) (customs : List (String × Option DeclaredType)) :
    (declared repeated customs).map (fun p => Declaration.property p.1 p.2) =
      ((given repeated customs).map Prod.fst).eraseDups.map fun name =>
        .property name (Assoc.get? (given repeated customs).reverse name).join := by
  rw [← Assoc.keys_ofPairs, Assoc.keys, List.map_map]
  refine List.map_congr_left fun p hp => ?_
  have hget := Assoc.get?_of_mem (Assoc.nodup_keys_ofPairs (given repeated customs)) hp
  rw [Assoc.get?_ofPairs] at hget
  rw [Function.comp_apply, hget]
  rfl

theorem keys_placeProperties (types : Assoc (Option DeclaredType)) :
    (placeProperties types).keys = types.keys := by
  have ht : types = types.zipIdx.map Prod.fst := (List.zipIdx_map_fst 0 _).symm
  rw [placeProperties, Assoc.keys, List.map_map]
  conv => rhs; rw [ht, Assoc.keys, List.map_map]
  rfl

theorem keys_placeSignals {names : List String} {offset : Nat} {placed m : Assoc Nat}
    (h : placeSignals names offset placed = .ok m) (hp : placed.keys.Nodup) :
    m.keys = placed.keys ++ names ∧ m.keys.Nodup := by
  induction names generalizing offset placed with
  | nil => cases h; exact ⟨(List.append_nil _).symm, hp⟩
  | cons name names ih =>
      rw [placeSignals] at h
      split at h
      · cases h
      rename_i hname
      have hfresh : name ∉ placed.keys := fun hm => hname (Assoc.isSome_get?.2 hm)
      obtain ⟨hm, hn⟩ := ih h (Assoc.nodup_keys_append_singleton hp hfresh offset)
      rw [Assoc.keys_append_singleton, List.append_assoc] at hm
      exact ⟨hm, hn⟩

def itemEntries (elements : List (Nat × Element)) : List (String × Item) :=
  elements.filterMap fun e => e.2.item?.map fun i => (e.2.id, i)

theorem placeItems_entries {component : String} {checked : Bool} {elements : List (Nat × Element)}
    {offset : Nat} {placed : Assoc ItemBlock} {m : Assoc ItemBlock × Nat}
    (h : placeItems component checked elements offset placed = .ok m) (hp : placed.keys.Nodup) :
    m.1.map (fun p => (p.1, p.2.item)) =
      placed.map (fun p => (p.1, p.2.item)) ++ itemEntries elements ∧ m.1.keys.Nodup := by
  induction elements generalizing offset placed with
  | nil => cases h; exact ⟨(List.append_nil _).symm, hp⟩
  | cons e elements ih =>
      obtain ⟨n, e⟩ := e
      rw [placeItems] at h
      split at h
      · rename_i k hb
        have hitem : e.item? = none := by rw [Element.item?, hb]
        simpa [itemEntries, hitem] using ih h hp
      rename_i type hb
      split at h
      · cases h
      rename_i i hi
      split at h
      · cases h
      rename_i hid
      have hitem : e.item? = some i := by rw [Element.item?, hb]; exact hi
      have hfresh : e.id ∉ placed.keys := fun hm => hid (Assoc.isSome_get?.2 hm)
      obtain ⟨hm, hn⟩ := ih h (Assoc.nodup_keys_append_singleton hp hfresh _)
      rw [List.map_append, List.append_assoc] at hm
      refine ⟨hm.trans ?_, hn⟩
      simp [itemEntries, hitem]

theorem declarations_itemEntries (elements : List (Nat × Element)) :
    ((itemEntries elements).flatMap fun p => p.2.declarations p.1) =
      elements.flatMap fun e => e.2.declarations := by
  induction elements with
  | nil => rfl
  | cons e elements ih =>
      rw [List.flatMap_cons, ← ih, itemEntries, Element.declarations]
      cases hi : e.2.item? <;> simp [itemEntries, hi]

section Build

variable {tree : Tree} {component : Int} {customs : List (String × Option DeclaredType)}
  {signals : List String} {repeated checked : Bool}

theorem tree_of_build (h : build tree component customs signals repeated checked = .ok d) :
    d.tree = tree ∧ d.component = component := by
  obtain ⟨c, placed, m, -, -, rfl⟩ := build_ok h
  exact ⟨rfl, rfl⟩

theorem items_of_build (h : build tree component customs signals repeated checked = .ok d) :
    d.items.map (fun p => (p.1, p.2.item)) = itemEntries (tree.elementsOf component) := by
  obtain ⟨c, placed, m, -, hm, rfl⟩ := build_ok h
  exact (placeItems_entries hm List.nodup_nil).1

theorem keyed_of_build (h : build tree component customs signals repeated checked = .ok d) :
    d.Keyed := by
  obtain ⟨c, placed, m, hs, hm, rfl⟩ := build_ok h
  constructor
  · rw [keys_placeProperties]
    exact Assoc.nodup_keys_ofPairs _
  · exact (keys_placeSignals hs List.nodup_nil).2
  · exact (placeItems_entries hm List.nodup_nil).2

theorem declarations_of_build
    (h : build tree component customs signals repeated checked = .ok d) :
    d.declarations = declare tree component customs signals repeated := by
  have hitems : d.items.flatMap itemDeclarations =
      (tree.elementsOf component).flatMap fun e => e.2.declarations := by
    rw [← declarations_itemEntries, ← items_of_build h, List.flatMap_map]
    rfl
  obtain ⟨c, placed, m, hs, hm, rfl⟩ := build_ok h
  have hsignals : placed.flatMap signalDeclarations = signals.map .signal := by
    rw [show signals = placed.keys from (keys_placeSignals hs List.nodup_nil).1.symm, Assoc.keys,
      List.map_map, List.map_eq_flatMap]
    rfl
  rw [declarations, declare, hitems, ← declared_eq, ← declarations_placeProperties, ← hsignals]

/-- The slots of a component are shared out among what it declares: each of its properties and
signals has the slot of its place in the declaration and each slot is that of one of them, a
fresh instance holds in every slot what is declared for it, which is the zero of its type or a
signal without handlers, and the block of an item holds members of its own element only. -/
theorem build_shares_out {β η : Type}
    (h : build tree component customs signals repeated checked = .ok d) :
    let declared := declare tree component customs signals repeated
    (declared.map Declaration.member).Nodup ∧ declared.length = d.slotCount ∧
    (∀ m i, d.slotOf? m = some i ↔ at? (declared.map Declaration.member) i = some m) ∧
    d.allocate = .ok (declared.map Declaration.start : List (Slot β η)) ∧
    List.Forall₂ Declaration.Fresh declared
      (declared.map Declaration.start : List (Slot β η)) ∧
    ∀ element b m (k : Nat), d.items.get? element = some b → b.offset ≤ k →
      k < b.offset + b.item.slotCount → d.slotOf? m = some (k : Int) →
        m.element? = some element := by
  have hd := laid_of_build h
  have hk := keyed_of_build h
  intro declared
  have hdeclared : d.declarations = declared := declarations_of_build h
  rw [← hdeclared]
  refine ⟨hk.nodup_members, ?_, fun m i => slotOf?_eq_some_iff hd hk, ?_, ?_, ?_⟩
  · rw [hd.slotCount_eq, ← List.length_map (f := (Role.start : Role → Slot β η)),
      ← start_declarations, List.length_map]
  · rw [hd.allocate_eq, start_declarations]
  · rw [List.forall₂_map_right_iff, List.forall₂_same]
    exact fun x _ => x.fresh_start
  · intro element b m k hb hle hlt hm
    obtain ⟨j, rfl⟩ := Nat.exists_eq_add_of_le hle
    have hj : j < (b.item.declarations element).length := by
      rw [Item.length_declarations]
      omega
    have hget := hd.declared_item (Assoc.mem_of_get? hb) (List.getElem?_eq_getElem hj)
    have hat := hd.at?_of_slotOf? hm
    rw [at?_natCast, List.getElem?_map, hget] at hat
    cases hat
    exact Item.element?_of_mem_declarations (List.getElem_mem hj)

end Build

end Description

namespace Sample

def panelElements : List Element :=
  [⟨"panel", .builtin "TouchArea", 0, [1, 2], []⟩, ⟨"cells", .component 1, 0, [], []⟩,
    ⟨"title", .builtin "Text", 0, [], []⟩, ⟨"cell", .builtin "Rectangle", 1, [], []⟩]

def panelComponents : List Component := [⟨"Panel", 0, none⟩, ⟨"Cell", 3, some 1⟩]

theorem panel_sound : (∀ e ∈ panelElements, e.Sound panelElements panelComponents) ∧
    ∀ p ∈ panelComponents.zipIdx, p.1.Sound panelElements p.2 :=
  Tree.sound_of_defect?_eq_none (by decide)

def panelTree : Tree := ⟨panelElements, panelComponents, panel_sound.1, panel_sound.2⟩

def panel : Description :=
  ⟨panelTree, 0,
    [("index", ⟨0, some .color⟩), ("model_data", ⟨1, none⟩), ("title", ⟨2, some .string⟩)],
    [("clicked", 3), ("title", 4)],
    [("panel", ⟨.touchArea, true, 5⟩), ("title", ⟨.text, true, 13⟩)], 19⟩

theorem panel_built :
    Description.build panelTree 0 [("title", some .string), ("index", some .color)]
      ["clicked", "title"] true true = .ok panel := rfl

/-- The index of the rows is declared again, as a colour, and keeps its place. The place and the
state of the touch area and the text and the colour of the title start as zeros. -/
theorem panel_shared_out :
    Description.build panelTree 0 [("title", some .string), ("index", some .color)]
      ["clicked", "title"] true true = .ok panel ∧
    panel.slotOf? (.property "index") = some 0 ∧ panel.slotOf? (.signal "title") = some 4 ∧
    panel.slotOf? (.itemSignal "panel" "clicked") = some 12 ∧
    panel.slotOf? (.itemProperty "title" "color") = some 18 ∧
    ∃ cells : List (Slot Unit Unit), panel.allocate = .ok cells ∧ cells.length = 19 ∧
      cells[0]? = some (.property (.start (.value (.color .clear)))) ∧
      cells[5]? = some (.property ⟨.float ⟨false, 0, by decide⟩, none, none⟩) ∧
      cells[9]? = some (.property ⟨.bool false, none, none⟩) ∧
      cells[12]? = some (.signal ⟨[]⟩) ∧
      cells[15]? = some (.property ⟨.string "", none, none⟩) ∧
      cells[18]? = some (.property ⟨.color ⟨0, 0, 0, 0⟩, none, none⟩) := by
  obtain ⟨-, -, hslot, halloc, -⟩ :=
    Description.build_shares_out (β := Unit) (η := Unit) panel_built
  exact ⟨panel_built, (hslot _ _).2 rfl, (hslot _ _).2 rfl, (hslot _ _).2 rfl, (hslot _ _).2 rfl,
    _, halloc, rfl, rfl, rfl, rfl, rfl, rfl, rfl⟩

end Sample

end UiBinding
