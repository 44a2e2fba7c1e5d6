import UiBinding.Proofs.Installation

namespace UiBinding

/-- Descriptions of components, as they are laid out for a world. -/
def Description.Built (d : Description) : Prop :=
  ∃ tree component customs signals repeated checked,
    build tree component customs signals repeated checked = .ok d

theorem Reaches.built {w : World} {cs : List Context} (h : Reaches w cs) :
    ∀ d ∈ w.types, d.Built := by
  induction h with
  | empty => nofun
  | describe h hd ih =>
      obtain ⟨d, hb, he⟩ := bind_eq_ok hd
      cases he
      intro x hx
      obtain hx | hx := List.mem_append.1 hx
      · exact ih x hx
      · rw [List.mem_singleton.1 hx]
        exact ⟨_, _, _, _, _, _, hb⟩
  | call call h hv ih => exact ih

theorem Reaches.built_find {w : World} {cs : List Context} (h : Reaches w cs) {n : Nat}
    (hn : n < w.types.length) : (w.types.find n).Built := by
  refine h.built _ ?_
  rw [Catalog.find, List.getElem?_eq_getElem hn]
  exact List.getElem_mem hn

namespace Description

variable {d : Description}

theorem slotOf?_inj (hd : d.Laid) {m n : Member} {i : Int} (hm : d.slotOf? m = some i)
    (hn : d.slotOf? n = some i) : m = n :=
  Option.some.inj ((hd.at?_of_slotOf? hm).symm.trans (hd.at?_of_slotOf? hn))

theorem member_of_locate {holder : Nat} {element : Int} {name : String} {x : Expr} {a : Accessor}
    {item : ItemView} (h : d.locate holder element name x = .ok (a, item)) :
    (d.tree.isRoot element = true ∧ d.slotOf? (.property name) = some (item.base + a.offset)) ∨
      ∃ e, d.tree.element? element = some e ∧
        d.slotOf? (.itemProperty e.id name) = some (item.base + a.offset) := by
  cases a with
  | native p => exact .inr (slotOf?_of_locate h)
  | custom n offset =>
      refine .inl ?_
      rw [locate] at h
      split at h
      · cases h
      split at h
      · rename_i p hp
        cases h
        split at hp
        · rename_i hroot
          exact ⟨hroot, by simp [slotOf?, hp, Accessor.offset]⟩
        · cases hp
      split at h
      · cases h
      split at h <;> cases h

theorem root_inj {i j : Nat} {component : Int} {x y : Element}
    (hi : (i, x) ∈ d.tree.elementsOf component) (hj : (j, y) ∈ d.tree.elementsOf component)
    (hroot : d.tree.isRoot i = true) (hroot' : d.tree.isRoot j = true) : i = j := by
  obtain ⟨hx, hxc⟩ := Tree.mem_elementsOf.1 hi
  obtain ⟨hy, hyc⟩ := Tree.mem_elementsOf.1 hj
  simp only [Tree.isRoot, hx, hy, hxc, hyc] at hroot hroot'
  cases hc : d.tree.component? component with
  | none => rw [hc] at hroot; cases hroot
  | some c =>
      rw [hc] at hroot hroot'
      have hi := beq_iff_eq.1 hroot
      have hj := beq_iff_eq.1 hroot'
      omega

theorem locate_inj (hd : d.Built) {i j : Nat} {x y : Element}
    (hi : (i, x) ∈ d.tree.elementsOf d.component) (hj : (j, y) ∈ d.tree.elementsOf d.component)
    (hx : ∃ item, x.item? = some item) (hy : ∃ item, y.item? = some item) {holder : Nat}
    {m n : String} {e f : Expr} {a b : Accessor} {v w : ItemView}
    (hm : d.locate holder i m e = .ok (a, v)) (hn : d.locate holder j n f = .ok (b, w))
    (hslot : v.base + a.offset = w.base + b.offset) : i = j ∧ m = n := by
  obtain ⟨tree, component, customs, signals, repeated, checked, hb⟩ := hd
  have hlaid := laid_of_build hb
  have hnone {s t id : String} {k : Int} (h : d.slotOf? (.property s) = some k)
      (h' : d.slotOf? (.itemProperty id t) = some k) : False := by
    cases slotOf?_inj hlaid h h'
  obtain ⟨hroot, hm⟩ | ⟨x', hx', hm⟩ := member_of_locate hm
  · obtain ⟨hroot', hn⟩ | ⟨y', hy', hn⟩ := member_of_locate hn
    · rw [← hslot] at hn
      exact ⟨root_inj hi hj hroot hroot', Member.property.inj (slotOf?_inj hlaid hm hn)⟩
    · rw [← hslot] at hn
      exact (hnone hm hn).elim
  · obtain ⟨hroot', hn⟩ | ⟨y', hy', hn⟩ := member_of_locate hn
    · rw [← hslot] at hn
      exact (hnone hn hm).elim
    · rw [← hslot] at hn
      obtain ⟨hid, hname⟩ := Member.itemProperty.inj (slotOf?_inj hlaid hm hn)
      obtain rfl := Option.some.inj (hx'.symm.trans (Tree.mem_elementsOf.1 hi).1)
      obtain rfl := Option.some.inj (hy'.symm.trans (Tree.mem_elementsOf.1 hj).1)
      refine ⟨?_, hname⟩
      by_contra hne
      obtain ⟨p, hp⟩ := hx
      obtain ⟨q, hq⟩ := hy
      obtain ⟨rfl, rfl⟩ := tree_of_build hb
      exact id_ne_of_item? hb hi hj (fun he => hne (congrArg Prod.fst he)) hp hq hid

theorem exists_element_of_binding {b : MemberBinding} (h : b ∈ d.bindings) :
    ∃ e ∈ d.tree.elementsOf d.component, b.element = e.1 ∧ e.2.bindings ≠ [] := by
  obtain ⟨e, he, hb⟩ := List.mem_flatMap.1 h
  obtain ⟨p, hp, rfl⟩ := List.mem_map.1 hb
  exact ⟨e, he, rfl, List.ne_nil_of_mem hp⟩

end Description

section Installed

variable {types : Catalog} {limit : Nat} {c : Context} {bs before after : List MemberBinding}
  {b : MemberBinding} {cells done : List Cell} {k : Nat}

theorem Installed.split (h : Installed types limit c (before ++ b :: after) cells done) :
    ∃ (k : Nat) (old new : Cell) (mid : List Cell), Installs types limit c b c k old new ∧
      mid[k]? = some old ∧ Installed types limit c after (mid.set k new) done := by
  induction before generalizing cells with
  | nil =>
      cases h with
      | cons h hk rest => exact ⟨_, _, _, _, h, hk, rest⟩
  | cons b' before ih =>
      cases h with
      | cons _ _ rest => exact ih rest

theorem Installed.keeps_handler (h : Installed types limit c bs cells done)
    {signal : Signal Handler} (hs : cells[k]? = some (.signal signal)) {handler : Handler}
    (hmem : handler ∈ signal.handlers) :
    ∃ signal', done[k]? = some (.signal signal') ∧ handler ∈ signal'.handlers := by
  induction h generalizing signal with
  | nil => exact ⟨signal, hs, hmem⟩
  | @cons b bs j old new cells done h hj rest ih =>
      by_cases hk : j = k
      · subst hk
        have hlt := (List.getElem?_eq_some_iff.1 hj).1
        cases h with
        | handler hd signal' =>
            cases hs.symm.trans hj
            exact ih (List.getElem?_set_self hlt) (List.mem_append_left _ hmem)
        | binding => cases hs.symm.trans hj
      · exact ih ((List.getElem?_set_ne hk).trans hs) hmem

theorem Installed.keeps_property (h : Installed types limit c bs cells done)
    {p : Property Binding} (hp : cells[k]? = some (.property p))
    (hne : ∀ b ∈ bs, ¬ (c.scope limit).Denotes types (.property b.element b.name) c k) :
    done[k]? = some (.property p) := by
  induction h with
  | nil => exact hp
  | @cons b bs j old new cells done h hj rest ih =>
      have hk : j ≠ k := by
        rintro rfl
        cases h with
        | handler hd => cases hp.symm.trans hj
        | binding hd => exact hne b (by simp) hd
      exact ih ((List.getElem?_set_ne hk).trans hp) fun x hx => hne x (by simp [hx])

end Installed

namespace Run

theorem forM_ok {α : Type} {f : α → Run Unit} {l : List α} {s t : State}
    (h : (l.forM f).run s = (.ok (), t)) : ∀ x ∈ l, ∃ s t, (f x).run s = (.ok (), t) := by
  induction l generalizing s with
  | nil => nofun
  | cons x l ih =>
      change (f x >>= fun _ => l.forM f).run s = _ at h
      rw [run_bind] at h
      split at h
      · rename_i u hx
        exact List.forall_mem_cons.2 ⟨⟨s, u, hx⟩, ih h⟩
      · cases h

theorem mapM_appends {α : Type} {f : α → Run Context} {post : α → Nat → Context → List Cell → Prop}
    (l : List α) (hf : ∀ x ∈ l, ∀ s c t, (f x).run s = (.ok c, t) →
      ∃ row, t.instances = s.instances ++ [row] ∧ post x s.instances.length c row)
    {s t : State} {cs : List Context} (h : (l.mapM f).run s = (.ok cs, t)) :
    cs.length = l.length ∧ ∃ rows, t.instances = s.instances ++ rows ∧
      ∀ (i : Nat) c, cs[i]? = some c → ∃ x row, l[i]? = some x ∧ rows[i]? = some row ∧
        post x (s.instances.length + i) c row := by
  induction l generalizing s cs with
  | nil =>
      cases h
      exact ⟨rfl, [], (List.append_nil _).symm, nofun⟩
  | cons x l ih =>
      rw [List.mapM_cons, run_bind] at h
      split at h
      swap
      · cases h
      rename_i c u hx
      rw [run_bind] at h
      split at h
      swap
      · cases h
      rename_i cs' v hl
      cases h
      obtain ⟨row, hu, hpost⟩ := hf x (by simp) s c u hx
      obtain ⟨hlen, rows, hv, hrows⟩ := ih (fun y hy => hf y (by simp [hy])) hl
      have hnext (i : Nat) : u.instances.length + i = s.instances.length + (i + 1) := by
        rw [hu, List.length_append, List.length_singleton]
        omega
      refine ⟨congrArg (· + 1) hlen, row :: rows, ?_, fun i c' hc => ?_⟩
      · rw [hv, hu, List.append_assoc, List.singleton_append]
      · cases i with
        | zero => cases hc; exact ⟨x, row, rfl, rfl, hpost⟩
        | succ i =>
            obtain ⟨y, row', hy, hrow', hpost'⟩ := hrows i c' hc
            rw [hnext] at hpost'
            exact ⟨y, row', hy, hrow', hpost'⟩

end Run

section Instantiate

variable {types : Catalog} {settings : Settings} {description : Nat} {parent : Option Context}
  {s t : State} {c : Context}

theorem builtin_of_instantiate
    (h : (instantiate types settings description parent).run s = (.ok c, t)) :
    ∀ e ∈ (types.find description).tree.elementsOf (types.find description).component,
      e.2.bindings ≠ [] → ∀ k, e.2.base ≠ .component k := by
  have hfresh : ∃ fresh : List Cell, (types.find description).allocate = .ok fresh := by
    cases hd : ((types.find description).allocate : Except Error (List Cell)) with
    | ok fresh => exact ⟨fresh, rfl⟩
    | error err =>
        rw [instantiate, Run.run_bind, Run.newInstance, hd] at h
        cases h
  obtain ⟨fresh, hfresh⟩ := hfresh
  rw [run_instantiate hfresh, bindElements, Run.run_bind] at h
  split at h
  swap
  · cases h
  rename_i hloop
  intro e he hne k hk
  obtain ⟨s', t', hrun⟩ := Run.forM_ok hloop e he
  rw [bindElement, hk] at hrun
  cases hb : e.2.bindings with
  | nil => exact hne hb
  | cons => rw [hb] at hrun; cases hrun

theorem instantiate_ok
    (h : (instantiate types settings description parent).run s = (.ok c, t)) :
    c.self = ⟨s.instances.length, description⟩ ∧ c.parent? = parent ∧
      ∃ cells, Furnished types settings.maxContextDepth (types.find description).bindings c cells ∧
        t.instances = s.instances ++ [cells] := by
  have hadded := added_instantiate types settings description parent s
  rw [h] at hadded
  cases hadded with
  | made hself hparent hcells ht => exact ⟨hself, hparent, _, hcells, ht⟩

/-- The cells of a row that is ready: all bindings of the tree were made, and then its position
and its entry were stored. -/
structure Ready (types : Catalog) (limit indexSlot modelSlot : Nat) (position : Nat) (v : Value)
    (c : Context) (row : List Cell) : Prop where
  builtin : ∀ e ∈ (types.find c.self.description).tree.elementsOf
      (types.find c.self.description).component,
    e.2.bindings ≠ [] → ∀ k, e.2.base ≠ .component k
  exists_cells : ∃ cells p q,
    Furnished types limit (types.find c.self.description).bindings c cells ∧
      cells[indexSlot]? = some (.property p) ∧ cells[modelSlot]? = some (.property q) ∧
      row = (cells.set indexSlot (.property (.start (.value (.number
        (Binary64.ofInt position)))))).set modelSlot (.property (.start (.value v)))

namespace Ready

variable {limit indexSlot modelSlot position : Nat} {v : Value} {row : List Cell}

theorem index (h : Ready types limit indexSlot modelSlot position v c row)
    (hne : indexSlot ≠ modelSlot) : row[indexSlot]? =
      some (.property (.start (.value (.number (Binary64.ofInt position))))) := by
  obtain ⟨cells, p, q, -, hp, -, rfl⟩ := h.exists_cells
  rw [List.getElem?_set_ne hne.symm, List.getElem?_set_self (List.getElem?_eq_some_iff.1 hp).1]

theorem model (h : Ready types limit indexSlot modelSlot position v c row) :
    row[modelSlot]? = some (.property (.start (.value v))) := by
  obtain ⟨cells, p, q, -, -, hq, rfl⟩ := h.exists_cells
  refine List.getElem?_set_self ?_
  rw [List.length_set]
  exact (List.getElem?_eq_some_iff.1 hq).1

/-- A binding of the tree that none of the later ones replaces stands in the row: its expression
handles the signal of its name, or else is what the property of its name is bound to, unless that
is where the position or the entry is stored. -/
theorem stands (h : Ready types limit indexSlot modelSlot position v c row)
    (hd : (types.find c.self.description).Built) {before after : List MemberBinding}
    {b : MemberBinding}
    (hb : (types.find c.self.description).bindings = before ++ b :: after)
    (hlast : ∀ later ∈ after, later.element = b.element → later.name ≠ b.name) :
    (∃ x k signal, (types.find c.self.description).tree.element? b.element = some x ∧
      (types.find c.self.description).signalSlot? x.id b.name = some k ∧
      row[k]? = some (.signal signal) ∧ ⟨c.scope limit, b.body⟩ ∈ signal.handlers) ∨
    ∃ a item, ∃ k : Nat, (types.find c.self.description).locate c.self.number b.element b.name
        (.property b.element b.name) = .ok (a, item) ∧
      item.base + a.offset = k ∧ (k ≠ indexSlot → k ≠ modelSlot → ∃ p conversion,
        row[k]? = some (.property p) ∧
        p.binding = some ⟨.expression b.body limit c.self.description, conversion⟩) := by
  have hitem {x : MemberBinding} (hx : x ∈ (types.find c.self.description).bindings) :
      ∃ i y, x.element = (i : Nat) ∧ (i, y) ∈ (types.find c.self.description).tree.elementsOf
        (types.find c.self.description).component ∧ ∃ item, y.item? = some item := by
    obtain ⟨⟨i, y⟩, he, hi, hne⟩ := Description.exists_element_of_binding hx
    obtain ⟨tree, component, customs, signals, repeated, checked, hbuild⟩ := hd
    obtain ⟨htree, hcomponent⟩ := Description.tree_of_build hbuild
    have hknown := Description.known_of_build hbuild (i, y) (by rwa [← htree, ← hcomponent])
    obtain hitem | ⟨k, hk⟩ := hknown
    · exact ⟨i, y, hi, he, hitem⟩
    · exact absurd hk (h.builtin _ he hne k)
  obtain ⟨cells, p, q, ⟨fresh, -, hinstalled⟩, hp, hq, rfl⟩ := h.exists_cells
  rw [hb] at hinstalled
  obtain ⟨k, old, new, mid, hinstalls, hold, hrest⟩ := hinstalled.split
  have hlt := (List.getElem?_eq_some_iff.1 hold).1
  cases hinstalls with
  | handler hdenotes signal =>
      obtain ⟨signal', hs, hmem⟩ := hrest.keeps_handler (List.getElem?_set_self hlt)
        (List.mem_append_right _ (List.mem_singleton.2 rfl))
      cases hdenotes with
      | signal hr hx hk =>
          refine .inl ⟨_, k, signal', hx, hk, ?_, hmem⟩
          have hne {j : Nat} {p : Property Binding} (hj : cells[j]? = some (.property p)) :
              j ≠ k := by
            rintro rfl
            cases hs.symm.trans hj
          rw [List.getElem?_set_ne (hne hq), List.getElem?_set_ne (hne hp), hs]
  | binding hdenotes p conversion =>
      cases hdenotes with
      | @property _ _ _ a item _ hr hl hk =>
          refine .inr ⟨a, item, k, hl, hk, fun hi hm => ?_⟩
          have hkept := hrest.keeps_property (List.getElem?_set_self hlt) fun later hlater hlate => by
            cases hlate with
            | property _ hl' hk' =>
                obtain ⟨i, x, hbi, hx, hxi⟩ := hitem (x := b) (by simp [hb])
                obtain ⟨j, y, hlj, hy, hyi⟩ := hitem (x := later) (by simp [hb, hlater])
                rw [hbi] at hl
                rw [hlj] at hl'
                obtain ⟨rfl, hname⟩ :=
                  Description.locate_inj hd hx hy hxi hyi hl hl' (hk.trans hk'.symm)
                exact hlast later hlater (hlj.trans hbi.symm) hname.symm
          rw [List.getElem?_set_ne (Ne.symm hm), List.getElem?_set_ne (Ne.symm hi)]
          exact ⟨_, conversion, hkept, rfl⟩

end Ready

theorem set_last {name : String} {slot : Nat} {v : Value} {base : List (List Cell)}
    {cells : List Cell} (hs : s.instances = base ++ [cells])
    (h : ((Accessor.custom name 0).set ⟨base.length, slot, none⟩ (.value v) none).run s =
      (.ok (), t)) :
    ∃ p, cells[slot]? = some (.property p) ∧
      t.instances = base ++ [cells.set slot (.property (.start (.value v)))] := by
  obtain ⟨p, hcell, rfl⟩ := Accessor.set_custom_ok h
  have hslots : s.slots base.length = cells := by simp [State.slots, hs]
  rw [Int.add_zero] at hcell ⊢
  have hp := State.getElem?_of_cell? hcell
  refine ⟨p, hslots ▸ hp, ?_⟩
  rw [State.setCell_instances hp, hslots, hs]
  simp [Property.set, Property.start]

/-- A row for an entry of a model and its position, in the instance of a number. -/
structure MadeRow (types : Catalog) (limit description : Nat) (parent : Context)
    (indexSlot modelSlot : Nat) (p : Native × Nat) (number : Nat) (c : Context)
    (row : List Cell) : Prop where
  self : c.self = ⟨number, description⟩
  parent : c.parent? = some parent
  ready : ∃ v, p.1.toValue = .ok v ∧ Ready types limit indexSlot modelSlot p.2 v c row

theorem instantiateRow_ok {parent : Context} {indexSlot modelSlot position : Nat} {entry : Native}
    (h : (instantiateRow types settings description parent indexSlot modelSlot position entry).run
      s = (.ok c, t)) :
    ∃ row, t.instances = s.instances ++ [row] ∧
      MadeRow types settings.maxContextDepth description parent indexSlot modelSlot
        (entry, position) s.instances.length c row := by
  rw [instantiateRow, Run.run_bind] at h
  split at h
  swap
  · cases h
  rename_i c' u hc
  obtain ⟨hself, hparent, cells, hcells, hu⟩ := instantiate_ok hc
  have hbuiltin := builtin_of_instantiate hc
  dsimp only at h
  rw [Run.run_bind] at h
  split at h
  swap
  · cases h
  rename_i u₁ hindex
  cases hv : entry.toValue with
  | error e =>
      rw [hv, Run.run_bind] at h
      cases h
  | ok v =>
      rw [hv, Run.run_bind] at h
      change ((Accessor.custom Description.rowModelName 0).set ⟨c'.self.number, modelSlot, none⟩
        (.value v) none >>= fun _ => pure c').run u₁ = _ at h
      rw [Run.run_bind] at h
      split at h
      swap
      · cases h
      rename_i u₂ hmodel
      cases h
      rw [hself] at hindex hmodel
      obtain ⟨p, hp, hu₁⟩ := set_last hu hindex
      obtain ⟨q, hq, hu₂⟩ := set_last hu₁ hmodel
      have hmodelCell : ∃ q, cells[modelSlot]? = some (.property q) := by
        by_cases he : indexSlot = modelSlot
        · exact ⟨p, he ▸ hp⟩
        · exact ⟨q, by rwa [List.getElem?_set_ne he] at hq⟩
      obtain ⟨q, hq⟩ := hmodelCell
      refine ⟨_, hu₂, hself, hparent, v, hv, ?_, cells, p, q, ?_, hp, hq, rfl⟩
      · rwa [hself]
      · rwa [hself]

theorem instantiateRows_ok {parent : Context} {model : List Native} {rows : List Context}
    (h : (instantiateRows types settings description parent model).run s = (.ok rows, t)) :
    ∃ index entry,
      (types.find description).customProperties.get? Description.rowIndexName = some index ∧
      (types.find description).customProperties.get? Description.rowModelName = some entry ∧
      rows.length = model.length ∧ ∀ (i : Nat) c, rows[i]? = some c → ∃ n, model[i]? = some n ∧
        MadeRow types settings.maxContextDepth description parent index.offset entry.offset (n, i)
          (s.instances.length + i) c (t.slots c.self.number) := by
  simp only [instantiateRows] at h
  split at h
  swap
  · cases h
  rename_i index entry hi hm
  obtain ⟨hlen, cells, ht, hrows⟩ :=
    Run.mapM_appends model.zipIdx (fun _ _ _ _ _ hrun => instantiateRow_ok hrun) h
  rw [List.length_zipIdx] at hlen
  refine ⟨index, entry, hi, hm, hlen, fun i c hc => ?_⟩
  obtain ⟨x, row, hx, hrow, hmade⟩ := hrows i c hc
  obtain ⟨n, hn, rfl⟩ : ∃ n, model[i]? = some n ∧ x = (n, i) := by
    rw [List.getElem?_zipIdx, Option.map_eq_some_iff] at hx
    obtain ⟨n, hn, rfl⟩ := hx
    exact ⟨n, hn, by rw [Nat.zero_add]⟩
  have hslots : t.slots c.self.number = row := by
    rw [hmade.self, State.slots, ht, List.getElem?_append_right (Nat.le_add_right _ _),
      Nat.add_sub_cancel_left, hrow]
    rfl
  exact ⟨n, hn, hslots ▸ hmade⟩

end Instantiate

end UiBinding
