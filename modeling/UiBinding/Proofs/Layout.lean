import UiBinding.Description

namespace UiBinding

theorem bind_eq_ok {ε α β : Type} {x : Except ε α} {f : α → Except ε β} {b : β}
    (h : x >>= f = .ok b) : ∃ a, x = .ok a ∧ f a = .ok b := by
  cases x with
  | error e => cases h
  | ok a => exact ⟨a, rfl, h⟩

/-- What a slot of an instance is laid out for. -/
inductive Role
  | custom (p : CustomSlot)
  | signal
  | item (p : ItemProperty)

namespace Role

def start {β η : Type} : Role → Slot β η
  | custom p => .property (.start (.value p.start))
  | signal => .signal .start
  | item p => .property (.start p.type.start)

end Role

def ItemBlock.roles (b : ItemBlock) : List Role :=
  (b.item.properties b.checked).map .item ++ b.item.signalNames.map fun _ => .signal

theorem ItemBlock.length_roles (b : ItemBlock) : b.roles.length = b.item.slotCount := by
  simp [roles, Item.properties, Item.slotCount]

variable {α β η : Type}

/-- The entries of a table own the slots from `n` on, each the ones after its predecessor's. -/
def Consecutive (offset : α → Nat) (roles : α → List Role) : Nat → List α → Prop
  | _, [] => True
  | n, a :: l => offset a = n ∧ Consecutive offset roles (n + (roles a).length) l

namespace Consecutive

variable {offset : α → Nat} {roles : α → List Role}

theorem append_singleton {n : Nat} {l : List α} {a : α} (h : Consecutive offset roles n l)
    (ha : offset a = n + (l.flatMap roles).length) : Consecutive offset roles n (l ++ [a]) := by
  induction l generalizing n with
  | nil => exact ⟨ha, trivial⟩
  | cons b l ih =>
      refine ⟨h.1, ih h.2 ?_⟩
      rw [ha, List.flatMap_cons, List.length_append, Nat.add_assoc]

theorem getElem?_append {γ : Type} (parts : α → List γ) (pre post : List γ) {l : List α}
    (hparts : ∀ a ∈ l, (parts a).length = (roles a).length)
    (h : Consecutive offset roles pre.length l) {a : α} (ha : a ∈ l) {i : Nat} {r : γ}
    (hi : (parts a)[i]? = some r) : (pre ++ l.flatMap parts ++ post)[offset a + i]? = some r := by
  induction l generalizing pre with
  | nil => cases ha
  | cons b l ih =>
      rw [List.flatMap_cons, ← List.append_assoc]
      obtain rfl | hmem := List.mem_cons.1 ha
      · have hlt := (List.getElem?_eq_some_iff.1 hi).1
        rw [h.1, List.append_assoc, List.append_assoc, List.getElem?_append_right (by omega),
          Nat.add_sub_cancel_left, List.getElem?_append_left hlt, hi]
      · refine ih (pre ++ parts b) (fun c hc => hparts c (List.mem_cons_of_mem _ hc)) ?_ hmem
        rw [List.length_append, hparts b List.mem_cons_self]
        exact h.2

/-- Filling the slots of each entry fills the slots of the table. -/
theorem foldlM_fill {fill : List (Slot β η) → α → Except Error (List (Slot β η))}
    (hfill : ∀ pre rest a, offset a = pre.length → (roles a).length ≤ rest.length →
      fill (pre ++ rest) a = .ok (pre ++ (roles a).map Role.start ++ rest.drop (roles a).length))
    (pre rest : List (Slot β η)) {l : List α} (h : Consecutive offset roles pre.length l)
    (hl : (l.flatMap roles).length ≤ rest.length) :
    l.foldlM fill (pre ++ rest) =
      .ok (pre ++ (l.flatMap roles).map Role.start ++ rest.drop (l.flatMap roles).length) := by
  induction l generalizing pre rest with
  | nil => simp; rfl
  | cons a l ih =>
      rw [List.flatMap_cons, List.length_append] at hl
      rw [List.foldlM_cons, hfill pre rest a h.1 (by omega)]
      refine (ih (pre ++ (roles a).map Role.start) _ ?_ ?_).trans ?_
      · rw [List.length_append, List.length_map]; exact h.2
      · rw [List.length_drop]; omega
      · rw [List.flatMap_cons, List.map_append, List.length_append, List.drop_drop,
          List.append_assoc pre]

end Consecutive

theorem Item.allocate_eq (b : ItemBlock) :
    (b.item.allocate : List (Slot β η)) = b.roles.map Role.start := by
  have ht : b.item.types = b.item.types.zipIdx.map Prod.fst := (List.zipIdx_map_fst 0 _).symm
  rw [allocate, ItemBlock.roles, properties, List.map_append, List.map_map, List.map_map,
    List.map_map]
  congr 1
  conv => lhs; rw [ht, List.map_map]
  rfl

theorem Item.exists_of_mem_properties {i : Item} {checked : Bool} {p : ItemProperty}
    (h : p ∈ i.properties checked) :
    p.owner = i.name ∧ (p.name, p.type) ∈ i.types ∧
      ∃ k : Nat, p.offset = k ∧ (i.properties checked)[k]? = some p := by
  obtain ⟨⟨⟨n, t⟩, k⟩, hmem, rfl⟩ := List.mem_map.1 h
  rw [List.mem_zipIdx_iff_getElem?] at hmem
  refine ⟨rfl, List.mem_of_getElem? hmem, k, rfl, ?_⟩
  simp [properties, hmem]

theorem Item.storage_of_mem {i : Item} {name : String} {t : StorageType} (h : (name, t) ∈ i.types) :
    t.bounds? = none ∧ t ≠ .value := by
  have hall : ∀ p ∈ i.types, p.2.bounds? = none ∧ p.2 ≠ .value := by
    cases i <;> simp [Item.types, Item.geometry, StorageType.bounds?]
  exact hall _ h

theorem Item.exists_of_mem_signals {i : Item} {name : String} {offset : Nat}
    (h : (name, offset) ∈ i.signals) :
    ∃ k, offset = i.types.length + k ∧ k < i.signalNames.length := by
  obtain ⟨⟨n, k⟩, hmem, he⟩ := List.mem_map.1 h
  rw [List.mem_zipIdx_iff_getElem?] at hmem
  simp only [Prod.mk.injEq] at he
  exact ⟨k, he.2.symm, (List.getElem?_eq_some_iff.1 hmem).1⟩

namespace Description

def customRoles (p : String × CustomSlot) : List Role := [.custom p.2]

def signalRoles (_ : String × Nat) : List Role := [.signal]

def itemRoles (p : String × ItemBlock) : List Role := p.2.roles

def roles (d : Description) : List Role :=
  d.customProperties.flatMap customRoles ++ d.customSignals.flatMap signalRoles ++
    d.items.flatMap itemRoles

/-- The tables of a description share out all of its slots. -/
structure Laid (d : Description) : Prop where
  customs : Consecutive (fun p => p.2.offset) customRoles 0 d.customProperties
  signals : Consecutive Prod.snd signalRoles (d.customProperties.flatMap customRoles).length
    d.customSignals
  items : Consecutive (fun p => p.2.offset) itemRoles
    (d.customProperties.flatMap customRoles ++ d.customSignals.flatMap signalRoles).length d.items
  slotCount_eq : d.slotCount = d.roles.length

namespace Laid

variable {d : Description}

theorem empty : empty.Laid := ⟨trivial, trivial, trivial, rfl⟩

theorem custom (h : d.Laid) {name : String} {p : CustomSlot}
    (hp : (name, p) ∈ d.customProperties) : d.roles[p.offset]? = some (.custom p) := by
  have := h.customs.getElem?_append customRoles []
    (d.customSignals.flatMap signalRoles ++ d.items.flatMap itemRoles) (fun _ _ => rfl) hp
    (i := 0) rfl
  simpa [roles] using this

theorem customSignal (h : d.Laid) {name : String} {k : Nat} (hk : (name, k) ∈ d.customSignals) :
    d.roles[k]? = some .signal :=
  h.signals.getElem?_append signalRoles _ (d.items.flatMap itemRoles) (fun _ _ => rfl) hk (i := 0) rfl

theorem itemRole (h : d.Laid) {id : String} {b : ItemBlock} (hb : (id, b) ∈ d.items)
    {i : Nat} {r : Role} (hi : b.roles[i]? = some r) : d.roles[b.offset + i]? = some r := by
  have := h.items.getElem?_append itemRoles _ [] (fun _ _ => rfl) hb hi
  rwa [List.append_nil] at this

theorem itemProperty (h : d.Laid) {id : String} {b : ItemBlock} {p : ItemProperty}
    (hb : (id, b) ∈ d.items) (hp : p ∈ b.item.properties b.checked) :
    ∃ k : Nat, (b.offset : Int) + p.offset = k ∧ d.roles[k]? = some (.item p) := by
  obtain ⟨-, -, k, hk, hget⟩ := Item.exists_of_mem_properties hp
  refine ⟨b.offset + k, by rw [hk, Int.natCast_add], h.itemRole hb ?_⟩
  have hlt := (List.getElem?_eq_some_iff.1 hget).1
  rw [ItemBlock.roles, List.getElem?_append_left (by rwa [List.length_map]), List.getElem?_map,
    hget]
  rfl

theorem itemSignal (h : d.Laid) {id name : String} {b : ItemBlock} {k : Nat}
    (hb : (id, b) ∈ d.items) (hk : (name, k) ∈ b.item.signals) :
    d.roles[b.offset + k]? = some .signal := by
  obtain ⟨j, rfl, hj⟩ := Item.exists_of_mem_signals hk
  apply h.itemRole hb
  have hl : ((b.item.properties b.checked).map Role.item).length = b.item.types.length := by
    rw [List.length_map, Item.properties, List.length_map, List.length_zipIdx]
  rw [ItemBlock.roles, List.getElem?_append_right (by omega), hl, Nat.add_sub_cancel_left,
    List.getElem?_map, List.getElem?_eq_getElem hj]
  rfl

theorem signalSlot? (h : d.Laid) {element name : String} {k : Nat}
    (hk : d.signalSlot? element name = some k) : d.roles[k]? = some .signal := by
  rw [Description.signalSlot?] at hk
  split at hk
  · exact h.customSignal (Assoc.mem_of_get? hk)
  · rename_i b hb
    split at hk
    · rename_i j hj
      cases hk
      exact h.itemSignal (Assoc.mem_of_get? hb) (Assoc.mem_of_get? hj)
    · exact h.customSignal (Assoc.mem_of_get? hk)

theorem fill_append (pre rest : List (Slot β η)) (r : Role) {offset : Nat}
    (ho : offset = pre.length) (hr : 1 ≤ rest.length) :
    fill (pre ++ rest) offset r.start = .ok (pre ++ [r].map Role.start ++ rest.drop 1) := by
  cases rest with
  | nil => cases hr
  | cons c rest =>
      rw [ho, fill, if_pos (by simp)]
      simp

theorem fillBlock_append (pre rest : List (Slot β η)) (b : ItemBlock) {offset : Nat}
    (ho : offset = pre.length) :
    fillBlock (pre ++ rest) offset b.item.allocate =
      pre ++ b.roles.map Role.start ++ rest.drop b.roles.length := by
  rw [ho, Item.allocate_eq, fillBlock, List.take_left, List.length_map, List.drop_append]
  simp

theorem fill_customs (h : d.Laid) (rest : List (Slot β η))
    (hl : (d.customProperties.flatMap customRoles).length ≤ rest.length) :
    d.customProperties.foldlM
        (fun slots p => fill slots p.2.offset (.property (.start (.value p.2.start)))) rest =
      .ok ((d.customProperties.flatMap customRoles).map Role.start ++
        rest.drop (d.customProperties.flatMap customRoles).length) :=
  h.customs.foldlM_fill (fun pre rest p => fill_append pre rest (.custom p.2)) [] rest hl

theorem fill_signals (h : d.Laid) (rest : List (Slot β η))
    (hl : (d.customSignals.flatMap signalRoles).length ≤ rest.length) :
    d.customSignals.foldlM (fun slots p => fill slots p.2 (.signal .start))
        ((d.customProperties.flatMap customRoles).map Role.start ++ rest) =
      .ok ((d.customProperties.flatMap customRoles).map Role.start ++
        (d.customSignals.flatMap signalRoles).map Role.start ++
          rest.drop (d.customSignals.flatMap signalRoles).length) :=
  Consecutive.foldlM_fill (fun pre rest _ => fill_append pre rest .signal) _ rest
    (by rw [List.length_map]; exact h.signals) hl

theorem fill_items (h : d.Laid) (rest : List (Slot β η))
    (hl : (d.items.flatMap itemRoles).length ≤ rest.length) :
    d.items.foldl (fun slots p => fillBlock slots p.2.offset p.2.item.allocate)
        ((d.customProperties.flatMap customRoles).map Role.start ++
          (d.customSignals.flatMap signalRoles).map Role.start ++ rest) =
      d.roles.map Role.start ++ rest.drop (d.items.flatMap itemRoles).length := by
  let fillItem (slots : List (Slot β η)) (p : String × ItemBlock) :=
    fillBlock slots p.2.offset p.2.item.allocate
  let laid : List (Slot β η) :=
    (d.customProperties.flatMap customRoles ++ d.customSignals.flatMap signalRoles).map Role.start
  have hpure : d.items.foldlM (fun slots p => pure (fillItem slots p)) (laid ++ rest) =
      (Except.ok (d.items.foldl fillItem (laid ++ rest)) : Except Error _) := List.foldlM_pure
  have hfill : d.items.foldlM (fun slots p => pure (fillItem slots p)) (laid ++ rest) =
      (Except.ok (laid ++ (d.items.flatMap itemRoles).map Role.start ++
        rest.drop (d.items.flatMap itemRoles).length) : Except Error _) :=
    Consecutive.foldlM_fill (fun pre rest p hp _ => congrArg Except.ok
      (fillBlock_append pre rest p.2 hp)) laid rest (by rw [List.length_map]; exact h.items) hl
  have := Except.ok.inj (hpure.symm.trans hfill)
  simpa only [laid, fillItem, roles, List.map_append] using this

theorem allocate_eq (h : d.Laid) :
    (d.allocate : Except Error (List (Slot β η))) = .ok (d.roles.map Role.start) := by
  have hlen := h.slotCount_eq
  simp only [roles, List.length_append] at hlen
  let unset : List (Slot β η) := List.replicate d.slotCount .unset
  have hunset : unset.length = d.slotCount := List.length_replicate
  let rest : List (Slot β η) := unset.drop (d.customProperties.flatMap customRoles).length
  have hrest : rest.length = d.slotCount - (d.customProperties.flatMap customRoles).length := by
    rw [List.length_drop, hunset]
  let last : List (Slot β η) := rest.drop (d.customSignals.flatMap signalRoles).length
  have hlast : last.length = (d.items.flatMap itemRoles).length := by
    rw [List.length_drop, hrest]; omega
  calc d.allocate
    _ = (do
        let slots ← d.customSignals.foldlM (fun slots p => fill slots p.2 (.signal .start))
          ((d.customProperties.flatMap customRoles).map Role.start ++ rest)
        return d.items.foldl (fun slots p => fillBlock slots p.2.offset p.2.item.allocate)
          slots) := by
        rw [allocate, h.fill_customs unset (by omega)]; rfl
    _ = .ok (d.items.foldl (fun slots p => fillBlock slots p.2.offset p.2.item.allocate)
          ((d.customProperties.flatMap customRoles).map Role.start ++
            (d.customSignals.flatMap signalRoles).map Role.start ++ last)) := by
        rw [h.fill_signals rest (by omega)]; rfl
    _ = .ok (d.roles.map Role.start) := by
        rw [h.fill_items last (by omega), ← hlast, List.drop_length, List.append_nil]

end Laid

theorem consecutive_zipIdx (types : Assoc (Option DeclaredType)) (n : Nat) :
    Consecutive (fun p => p.2.offset) customRoles n
      ((types.zipIdx n).map fun p => (p.1.1, ⟨p.2, p.1.2⟩)) := by
  induction types generalizing n with
  | nil => trivial
  | cons p types ih => exact ⟨rfl, ih (n + 1)⟩

theorem consecutive_placeSignals {names : List String} {n offset : Nat} {placed m : Assoc Nat}
    (h : placeSignals names offset placed = .ok m)
    (hp : Consecutive Prod.snd signalRoles n placed)
    (ho : offset = n + (placed.flatMap signalRoles).length) :
    Consecutive Prod.snd signalRoles n m := by
  induction names generalizing offset placed with
  | nil => cases h; exact hp
  | cons name names ih =>
      rw [placeSignals] at h
      split at h
      · cases h
      · refine ih h (hp.append_singleton ho) ?_
        rw [List.flatMap_append, List.length_append, ← Nat.add_assoc, ← ho]
        rfl

theorem consecutive_placeItems {component : String} {checked : Bool}
    {elements : List (Nat × Element)} {n offset : Nat} {placed : Assoc ItemBlock}
    {m : Assoc ItemBlock × Nat} (h : placeItems component checked elements offset placed = .ok m)
    (hp : Consecutive (fun p => p.2.offset) itemRoles n placed)
    (ho : offset = n + (placed.flatMap itemRoles).length) :
    Consecutive (fun p => p.2.offset) itemRoles n m.1 ∧
      m.2 = n + (m.1.flatMap itemRoles).length := by
  induction elements generalizing offset placed with
  | nil => cases h; exact ⟨hp, ho⟩
  | cons e elements ih =>
      rw [placeItems] at h
      split at h
      · exact ih h hp ho
      split at h
      · cases h
      split at h
      · cases h
      · refine ih h (hp.append_singleton ho) ?_
        rw [List.flatMap_append, List.length_append, ← Nat.add_assoc, ← ho, List.flatMap_singleton]
        exact congrArg _ (ItemBlock.length_roles ⟨_, checked, offset⟩).symm

theorem build_ok {tree : Tree} {component : Int}
    {customs : List (String × Option DeclaredType)} {signals : List String}
    {repeated checked : Bool} {d : Description}
    (h : build tree component customs signals repeated checked = .ok d) :
    ∃ c placed m,
      placeSignals signals (placeProperties (declared repeated customs)).length [] = .ok placed ∧
      placeItems c checked (tree.elementsOf component)
        ((placeProperties (declared repeated customs)).length + placed.length) [] = .ok m ∧
      d = ⟨tree, component, placeProperties (declared repeated customs), placed, m.1, m.2⟩ := by
  rw [build] at h
  split at h
  · rename_i c _
    obtain ⟨placed, hs, h⟩ := bind_eq_ok h
    obtain ⟨m, hm, h⟩ := bind_eq_ok h
    cases h
    exact ⟨c.id, placed, m, hs, hm, rfl⟩
  · cases h

theorem laid_of_build {tree : Tree} {component : Int}
    {customs : List (String × Option DeclaredType)} {signals : List String}
    {repeated checked : Bool} {d : Description}
    (h : build tree component customs signals repeated checked = .ok d) : d.Laid := by
  obtain ⟨c, placed, m, hs, hm, rfl⟩ := build_ok h
  have hcustoms (l : Assoc CustomSlot) : (l.flatMap customRoles).length = l.length := by
    simp [customRoles, List.map_const']
  have hsignals (l : Assoc Nat) : (l.flatMap signalRoles).length = l.length := by
    simp [signalRoles, List.map_const']
  obtain ⟨hitems, hend⟩ := consecutive_placeItems (n := _) hm trivial (Nat.add_zero _).symm
  refine ⟨consecutive_zipIdx _ 0, ?_, ?_, ?_⟩
  · rw [hcustoms]
    exact consecutive_placeSignals hs trivial (Nat.add_zero _).symm
  · rwa [List.length_append, hcustoms, hsignals]
  · simp only [roles, List.length_append, hcustoms, hsignals]
    exact hend

end Description

end UiBinding
