import UiBinding.Proofs.Session

namespace UiBinding

def BindingSource.RowsIn (rows : Int → Prop) : BindingSource → Prop
  | constant _ => True
  | expression body _ _ => body.RowsIn rows

def CodeRowsIn (rows : Int → Prop) : Cell → Prop
  | .unset => True
  | .property p => ∀ b, p.binding = some b → b.source.RowsIn rows
  | .signal s => ∀ h ∈ s.handlers, h.body.RowsIn rows

variable {rows : Int → Prop}

theorem CodeRowsIn.meets {owner : Context} {role : Role} {c : Cell} (h : CodeRowsIn rows c) :
    Meets (.rows rows) owner role c := by
  cases c with
  | unset => trivial
  | property p =>
      refine ⟨fun _ _ _ _ => trivial, fun b body depth n hb hsource => ?_⟩
      have hrows := h b hb
      rwa [hsource] at hrows
  | signal s => exact h

/-- Stops that evaluation may come to in a sound tree: only faults, and none about the kind
of a slot. -/
def FaultsOnly (stop : Stop) : Prop :=
  stop = .exhausted ∨ ∃ f, stop = .error (.fault f) ∧ f.isSlotKind = false

theorem tolerates_faultsOnly {types : Catalog} {near : Context → Prop} {tree : Tree}
    (htree : ∀ d ∈ types, d.tree = tree)
    (hnear : ∀ c, near c → c.self.description < types.length) :
    Tolerates types near (· < types.length) (InRange tree.elements) FaultsOnly := by
  have hfind {n : Nat} (hn : n < types.length) : (types.find n).tree = tree := by
    rw [Catalog.find, List.getElem?_eq_getElem hn]
    exact htree _ (List.getElem_mem hn)
  constructor
  · exact hnear
  · exact .inl rfl
  · exact fun f hf => .inr ⟨f, rfl, hf⟩
  · intro n i hn hi hnone
    rw [hfind hn] at hnone
    exact (at?_eq_none_iff.1 hnone hi).elim
  · intro c o i hc ho hsome hnone
    rw [hfind (hnear c hc)] at hsome
    rw [hfind (hnear o ho)] at hnone
    exact (hsome hnone).elim

/-- Over descriptions of one tree, and with references to rows of its elements only,
evaluation gives a value or a fault, and never a fault about the kind of a slot. -/
theorem Reaches.evaluate_closed {w : World} {cs : List Context} (h : Reaches w cs) {tree : Tree}
    (htree : ∀ d ∈ w.types, d.tree = tree) {c : Context} (hc : c ∈ cs)
    (hcode : ∀ o ∈ c.chain, ∀ cell ∈ w.state.slots o.self.number,
      CodeRowsIn (InRange tree.elements) cell)
    {e : Expr} (he : e.RowsIn (InRange tree.elements)) {description : Nat}
    (hd : description < w.types.length) (depth : Nat) (settings : Settings) :
    (∃ v, (w.run fun types => evaluate types depth settings e description c).1 = .ok (.value v)) ∨
      (∃ f, (w.run fun types => evaluate types depth settings e description c).1 =
        .error (.error (.fault f)) ∧ f.isSlotKind = false) ∨
      (w.run fun types => evaluate types depth settings e description c).1 =
        .error .exhausted := by
  obtain ⟨made, hsub, hk⟩ := h.kept
  have ha := hk.aligned_chain (hsub hc) fun o ho _ _ cell _ hget =>
    (hcode o ho cell (List.mem_of_getElem? hget)).meets
  have ht := tolerates_faultsOnly htree fun o ho =>
    hk.described o (hk.chain_subset (hsub hc) ho)
  obtain ⟨-, -, hends⟩ := settles_evaluate (hk.region_chain (hsub hc)) ht depth settings
    c.self_mem_chain hd he _ _ ha
  change Run.Ends FaultsOnly IsValue
    (w.run fun types => evaluate types depth settings e description c).1 at hends
  cases hres : (w.run fun types => evaluate types depth settings e description c).1 with
  | ok n =>
      rw [hres] at hends
      obtain ⟨v, rfl⟩ := hends
      exact .inl ⟨v, rfl⟩
  | error stop =>
      rw [hres] at hends
      obtain rfl | ⟨f, rfl, hf⟩ := hends
      · exact .inr (.inr rfl)
      · exact .inr (.inl ⟨f, rfl, hf⟩)

namespace Sample

theorem codeRowsIn_rowCells (hrows : rows 1) (position : Int) (entry : String) :
    ∀ cell ∈ rowCells position entry, CodeRowsIn rows cell := by
  have hbody : (Expr.rowModel 1).RowsIn rows := by
    constructor
    · rintro i ⟨⟩
      exact hrows
    · exact nofun
  have hstart (n : Native) : CodeRowsIn rows (.property (.start n)) := nofun
  simp only [rowCells, List.forall_mem_cons, List.not_mem_nil]
  refine ⟨hstart _, hstart _, hstart _, hstart _, ?_, hstart _, hstart _, hstart _, nofun⟩
  rintro b ⟨⟩
  exact hbody

theorem codeRowsIn_inner : ∀ o ∈ (inner 1).chain, ∀ cell ∈ world.state.slots o.self.number,
    CodeRowsIn (InRange tree.elements) cell := by
  intro o ho cell hcell
  obtain rfl | ho := List.mem_cons.1 ho
  · change cell ∈ world.state.slots 1 at hcell
    rw [inner_slots] at hcell
    exact codeRowsIn_rowCells (by decide) 0 "a" cell hcell
  · rw [List.mem_singleton.1 ho] at hcell
    change cell ∈ world.state.slots 0 at hcell
    rw [outer_slots] at hcell
    obtain ⟨role, -, rfl⟩ := List.mem_map.1 hcell
    cases role <;> exact nofun

def unfit : Expr := .binary .add (.rowIndex 1) (.string "a")

theorem unfit_rowsIn : unfit.RowsIn (InRange tree.elements) := by
  refine .intro _ nofun fun x hx => ?_
  obtain rfl | hx := List.mem_cons.1 hx
  · refine .intro _ ?_ nofun
    rintro i ⟨⟩
    decide
  · rw [List.mem_singleton.1 hx]
    exact .intro _ nofun nofun

theorem unfit_closed :
    (∃ v, (world.run fun types => evaluate types 5 .standard unfit 1 (inner 1)).1 =
        .ok (.value v)) ∨
      (∃ f, (world.run fun types => evaluate types 5 .standard unfit 1 (inner 1)).1 =
        .error (.error (.fault f)) ∧ f.isSlotKind = false) ∨
      (world.run fun types => evaluate types 5 .standard unfit 1 (inner 1)).1 =
        .error .exhausted := by
  have htree : ∀ d ∈ world.types, d.tree = tree := by
    intro d hd
    obtain rfl | hd := List.mem_cons.1 hd
    · rfl
    · rw [List.mem_singleton.1 hd]; rfl
  exact reaches_world.evaluate_closed htree (by simp) codeRowsIn_inner unfit_rowsIn (by decide) 5
    .standard

end Sample

end UiBinding
