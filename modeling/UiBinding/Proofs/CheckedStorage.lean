import UiBinding.Proofs.SelfAssignment
import UiBinding.Proofs.SlotTyping
import UiBinding.Proofs.Soundness

namespace UiBinding

theorem Item.single_of_mem {i : Item} {checked : Bool} {p : ItemProperty}
    (h : p ∈ i.properties checked) (ht : p.type.tag? = some .number) : p.type = .f32 := by
  have hall : ∀ q ∈ i.types, q.2.tag? = some .number → q.2 = .f32 := by
    cases i <;> decide
  exact hall _ (Item.exists_of_mem_properties h).2.1 ht

theorem Item.checked_of_mem {i : Item} {checked : Bool} {p : ItemProperty}
    (h : p ∈ i.properties checked) : p.checked = checked := by
  obtain ⟨q, -, rfl⟩ := List.mem_map.1 h
  rfl

namespace Description

theorem checked_of_placeItems {component : String} {checked : Bool}
    {elements : List (Nat × Element)} {offset : Nat} {placed : Assoc ItemBlock}
    {m : Assoc ItemBlock × Nat} (h : placeItems component checked elements offset placed = .ok m)
    (hp : ∀ q ∈ placed, q.2.checked = checked) : ∀ q ∈ m.1, q.2.checked = checked := by
  induction elements generalizing offset placed with
  | nil => cases h; exact hp
  | cons e elements ih =>
      rw [placeItems] at h
      split at h
      · exact ih h hp
      split at h
      · cases h
      split at h
      · cases h
      · refine ih h fun q hq => ?_
        obtain hq | hq := List.mem_append.1 hq
        · exact hp q hq
        · rw [List.mem_singleton.1 hq]

theorem checked_of_build {d : Description} {tree : Tree} {component : Int}
    {customs : List (String × Option DeclaredType)} {signals : List String}
    {repeated checked : Bool}
    (h : build tree component customs signals repeated checked = .ok d) {id : String}
    {b : ItemBlock} (hb : (id, b) ∈ d.items) : b.checked = checked := by
  obtain ⟨c, placed, m, -, hm, rfl⟩ := build_ok h
  exact checked_of_placeItems hm nofun _ hb

end Description

/-- What a computation that stores a number makes of a property: it is read as an equal number
then, or the number is refused and every slot is as it was. -/
def ItemProperty.Lossless {α : Type} (p : ItemProperty) (item : ItemView) (x : Binary64)
    (s : State) (out : Except Stop α × State) : Prop :=
  (∃ a, out.1 = .ok a ∧ ∀ eval o, ∃ y, ((Accessor.native p).get eval item o).run out.2 =
      (.ok (.value (.number y)), out.2) ∧ y.eq x = true) ∨
    ∃ failure, out.1 = .error (.error (.fault (.rejected p.owner p.name p.type failure))) ∧
      out.2.instances = s.instances

section Store

variable {p : ItemProperty} {item : ItemView} {s t : State} {q : Property Binding}

theorem ItemProperty.convert_single (ht : p.type = .f32) (hc : p.checked = true) (x : Binary64) :
    p.convert (.value (.number x)) =
      if x.exceedsSingle then
        .error (.rejected p.owner p.name p.type ⟨"number", "f32", some .outOfRange⟩)
      else .ok (.float x.toSingle) := by
  cases hx : x.exceedsSingle with
  | true =>
      simp only [convert, Value.unwrap, ht, hc, StorageType.ofNumber?, Binary64.narrowSingle, hx]
      rfl
  | false =>
      simp only [convert, Value.unwrap, ht, hc, StorageType.ofNumber?, Binary64.narrowSingle, hx]
      rfl

theorem Accessor.run_get_single {eval : Evaluator} {o : Context} {y : Binary64}
    (ht : p.type = .f32) (hcheck : (native p).check item = .ok ())
    (hcell : s.cell? item.holder (item.base + p.offset) = some (.property q))
    (hq : q.stored = .float y ∧ q.binding = none) :
    ((native p).get eval item o).run s = (.ok (.value (.number y)), s) := by
  rw [run_get_stored hcheck hcell hq.2, hq.1]
  simp only [present, ht]
  rfl

theorem lossless_set_iff {α : Type} {a : α} {animation : Option Animation} (ht : p.type = .f32)
    (hc : p.checked = true) (hcheck : (Accessor.native p).check item = .ok ())
    (hcell : t.cell? item.holder (item.base + p.offset) = some (.property q))
    (hs : t.instances = s.instances) {x : Binary64} (hx : x.isNaN = false) :
    p.Lossless item x s (((Accessor.native p).set item (.value (.number x)) animation >>= fun _ =>
        pure a).run t) ↔ x.IsSingle ∨ x.exceedsSingle = true := by
  rw [Run.run_bind, Accessor.run_set_native hcheck hcell, p.convert_single ht hc]
  cases hexceeds : x.exceedsSingle with
  | true => exact iff_of_true (.inr ⟨_, rfl, hs⟩) (.inr rfl)
  | false =>
      let stored := t.setCell item.holder (item.base + p.offset)
        (.property (q.set (.float x.toSingle) animation))
      have hread (eval : Evaluator) (o : Context) :
          ((Accessor.native p).get eval item o).run stored =
            (.ok (.value (.number x.toSingle)), stored) :=
        Accessor.run_get_single ht hcheck (State.cell?_setCell hcell) ⟨rfl, rfl⟩
      change p.Lossless item x s (.ok a, stored) ↔ _
      rw [← Binary64.toSingle_eq_iff hx]
      constructor
      · rintro (⟨_, -, hget⟩ | ⟨failure, hstop, -⟩)
        · obtain ⟨y, hy, heq⟩ := hget (fun _ _ => throw .exhausted) default
          cases (hread _ _).symm.trans hy
          exact .inl heq
        · cases hstop
      · rintro (heq | hfalse)
        · exact .inl ⟨a, rfl, fun eval o => ⟨x.toSingle, hread eval o, heq⟩⟩
        · cases hfalse

end Store

theorem Evaluation.run_assign {types : Catalog} {depth : Nat} {scope : Scope} {element : Int}
    {name : String} {op : AssignOp} {operand : Expr} {o : Context} {a : Accessor}
    {item : ItemView} {m n : Binary64} {s s₁ s₂ : State}
    (hr : (scope.context.resolve types scope.maxDepth element none).2 = .ok o)
    (hl : (types.find o.self.description).locate o.self.number element name
      (.property element name) = .ok (a, item))
    (hread : (eval types (depth + 1) scope (.property element name)).run s =
      (.ok (.value (.number m)), s₁))
    (hoperand : (eval types depth scope operand).run s₁ = (.ok (.value (.number n)), s₂)) :
    (eval types (depth + 1) scope (.assign (.property element name) op operand)).run s =
      (a.set item (.value (.number (op.apply m n))) none >>= fun _ =>
          pure (Native.value .void)).run
        (s₂.logged [.writing (types.find o.self.description).id name (op.apply m n)]) := by
  rw [run_assign_located ⟨hr, hl⟩, Run.run_bind, hread]
  dsimp only
  rw [Run.run_bind, hoperand]
  rfl

namespace Kept

variable {types : Catalog} {made : List Context} {s : State} {c : Context}

theorem eval (h : Kept types made s) (depth : Nat) {scope : Scope} (hc : scope.context ∈ made)
    (e : Expr) : Kept types made ((Evaluation.eval types depth scope e).run s).2 :=
  (h.of_respects (settles_eval h.region .all depth scope e hc trivial e.rowsIn_all)).1

theorem exists_itemCell (h : Kept types made s) (hc : c ∈ made) {id : String} {b : ItemBlock}
    {p : ItemProperty} (hb : (id, b) ∈ (types.find c.self.description).items)
    (hp : p ∈ b.item.properties b.checked) :
    ∃ q, s.cell? c.self.number (b.offset + p.offset) = some (.property q) := by
  have htyped := (h.suits c hc).slotsTyped (h.laid_find _)
  obtain ⟨k, q, hk, hq, -⟩ := htyped.itemProperty id b p hb hp
  rw [hk]
  exact ⟨q, State.cell?_natCast hq⟩

end Kept

/-- Where conversions are checked, storing a number that is not NaN in a property of an item, or
assigning it to the property through itself, loses nothing just if single precision has the number,
or it is finite and beyond all finite numbers that single precision has. -/
theorem Reaches.checked_lossless_iff {w : World} {cs : List Context} (h : Reaches w cs)
    {c : Context} (hc : c ∈ cs) {tree : Tree} {component : Int}
    {customs : List (String × Option DeclaredType)} {signals : List String} {repeated : Bool}
    (hd : Description.build tree component customs signals repeated true =
      .ok (w.types.find c.self.description))
    {id : String} {b : ItemBlock} {p : ItemProperty}
    (hb : (id, b) ∈ (w.types.find c.self.description).items)
    (hp : p ∈ b.item.properties b.checked) (ht : p.type.tag? = some .number) {x : Binary64}
    (hx : x.isNaN = false) :
    let item : ItemView := ⟨c.self.number, b.offset, some b.item.name⟩
    (∀ animation, p.Lossless item x w.state
        (((Accessor.native p).set item (.value (.number x)) animation).run w.state) ↔
      x.IsSingle ∨ x.exceedsSingle = true) ∧
    ∀ (depth : Nat) (scope : Scope) (element : Int) (name : String) (op : AssignOp)
      (operand : Expr) (m n : Binary64) (s₁ s₂ : State), scope.context ∈ cs →
      (scope.context.resolve w.types scope.maxDepth element none).2 = .ok c →
      (w.types.find c.self.description).locate c.self.number element name
        (.property element name) = .ok (.native p, item) →
      (Evaluation.eval w.types (depth + 1) scope (.property element name)).run w.state =
        (.ok (.value (.number m)), s₁) →
      (Evaluation.eval w.types depth scope operand).run s₁ = (.ok (.value (.number n)), s₂) →
      op.apply m n = x →
      (p.Lossless item x s₂ ((Evaluation.eval w.types (depth + 1) scope
          (.assign (.property element name) op operand)).run w.state) ↔
        x.IsSingle ∨ x.exceedsSingle = true) := by
  intro item
  obtain ⟨made, hsub, hk⟩ := h.kept
  have htype := Item.single_of_mem hp ht
  have hchecked : p.checked = true :=
    (Item.checked_of_mem hp).trans (Description.checked_of_build hd hb)
  have hcheck : (Accessor.native p).check item = .ok () :=
    if_pos (congrArg some (Item.exists_of_mem_properties hp).1.symm)
  constructor
  · intro animation
    obtain ⟨q, hq⟩ := hk.exists_itemCell (hsub hc) hb hp
    rw [← bind_pure_unit (x := (Accessor.native p).set item (.value (.number x)) animation)]
    exact lossless_set_iff htype hchecked hcheck hq rfl hx
  · rintro depth scope element name op operand m n s₁ s₂ hscope hr hl hread hoperand rfl
    have hk₁ : Kept w.types made s₁ := by
      have hkept := hk.eval (depth + 1) (hsub hscope) (.property element name)
      rwa [hread] at hkept
    have hk₂ : Kept w.types made s₂ := by
      have hkept := hk₁.eval depth (hsub hscope) operand
      rwa [hoperand] at hkept
    obtain ⟨q, hq⟩ := hk₂.exists_itemCell (hsub hc) hb hp
    rw [Evaluation.run_assign hr hl hread hoperand]
    exact lossless_set_iff htype hchecked hcheck (State.cell?_logged.trans hq) rfl hx

namespace Sample

def frameX : ItemProperty := ⟨"Rectangle", "x", .f32, 0, true⟩

def frameView : ItemView := ⟨0, 2, some "Rectangle"⟩

def threeHalves : Binary64 := ⟨false, 0x3FF8000000000000, by decide⟩

def tenth : Binary64 := ⟨false, 0x3FB999999999999A, by decide⟩

theorem checkedFrame_built :
    Description.build tree 0 [("scale", some .float32)] ["done"] false true = .ok checkedFrame := rfl

theorem frameX_widened :
    frameX.Lossless frameView threeHalves checkedWorld.state
      ((Evaluation.eval checkedWorld.types 2 ⟨64, 0, outer⟩
        (.assign (.property 0 "x") .add (.number threeHalves))).run checkedWorld.state) := by
  have hb : ("frame", (⟨.rectangle, true, 2⟩ : ItemBlock)) ∈
      (checkedWorld.types.find outer.self.description).items := List.mem_singleton.2 rfl
  have hp : frameX ∈ Item.rectangle.properties true := List.mem_cons_self
  have hsingle : threeHalves.IsSingle := (Binary64.toSingle_eq_iff rfl).1 (by decide +kernel)
  have hsum : AssignOp.add.apply .zero threeHalves = threeHalves := by decide +kernel
  have hread : (Evaluation.eval checkedWorld.types 2 ⟨64, 0, outer⟩ (.property 0 "x")).run
      checkedWorld.state = (.ok (.value (.number .zero)), checkedWorld.state) := rfl
  exact ((reaches_checkedWorld.checked_lossless_iff (by simp) checkedFrame_built hb hp rfl rfl).2 1
    ⟨64, 0, outer⟩ 0 "x" .add (.number threeHalves) .zero threeHalves checkedWorld.state
    checkedWorld.state (by simp) rfl rfl hread rfl hsum).2 (.inl hsingle)

/-- One tenth is in the range of single precision and is rounded there. -/
theorem tenth_rounded :
    Reaches checkedWorld [outer] ∧
      Description.build tree 0 [("scale", some .float32)] ["done"] false true =
        .ok checkedFrame ∧
      ∃ t y, ((Accessor.native frameX).set frameView (.value (.number tenth)) none).run
          checkedWorld.state = (.ok (), t) ∧
        (∀ eval o, ((Accessor.native frameX).get eval frameView o).run t =
          (.ok (.value (.number y)), t)) ∧
        y.eq tenth = false := by
  have hcell : checkedWorld.state.cell? frameView.holder (frameView.base + frameX.offset) =
      some (.property (.start (.float .zero))) := rfl
  have hexceeds : tenth.exceedsSingle = false := by decide +kernel
  have hset : ((Accessor.native frameX).set frameView (.value (.number tenth)) none).run
      checkedWorld.state = _ := Accessor.run_set_native rfl hcell
  rw [frameX.convert_single rfl rfl, hexceeds] at hset
  refine ⟨reaches_checkedWorld, checkedFrame_built, _, tenth.toSingle, hset, fun eval o => ?_,
    by decide +kernel⟩
  exact Accessor.run_get_single rfl rfl (State.cell?_setCell hcell) ⟨rfl, rfl⟩

end Sample

end UiBinding
