import UiBinding.Proofs.Access
import UiBinding.Proofs.SlotTyping

namespace UiBinding

namespace Kept

variable {types : Catalog} {made : List Context} {s : State} {c owner : Context}
  {settings : Settings} {element : Int} {name : String} {x : Element} {a : Accessor}
  {item : ItemView}

theorem exists_property (h : Kept types made s) (ho : owner ∈ made) {role : Role}
    (ha : Located (types.find owner.self.description) owner.self.number a item role) :
    ∃ (j : Nat) (p : Property Binding), item.base + a.offset = j ∧
      (s.slots owner.self.number)[j]? = some (.property p) := by
  obtain ⟨j, hj, hrole⟩ := ha.exists_slot
  obtain ⟨p, hp, -⟩ := (h.suits owner ho).exists_property hrole ha.ne_signal
  exact ⟨j, p, hj, hp⟩

theorem bindMember_installs (h : Kept types made s) (ho : owner ∈ made)
    (hr : (c.resolve types settings.maxContextDepth element none).2 = .ok owner)
    (hx : (types.find owner.self.description).tree.element? element = some x)
    (hk : (types.find owner.self.description).signalSlot? x.id name = none)
    (hl : (types.find owner.self.description).locate owner.self.number element name
      (.property element name) = .ok (a, item)) (body : Expr) :
    ∃ t p, (bindMember types settings element name body c).run s = (.ok (), t) ∧
      s.cell? item.holder (item.base + a.offset) = some (.property p) ∧
      t = (s.logged (c.resolve types settings.maxContextDepth element (some body)).1).setCell
        item.holder (item.base + a.offset) (.property (p.bind
          (a.binding owner settings.maxContextDepth body) none)) ∧
      t.cell? item.holder (item.base + a.offset) = some (.property (p.bind
        (a.binding owner settings.maxContextDepth body) none)) := by
  obtain ⟨role, ha⟩ := (h.laid_find _).locate_ok hl
  obtain ⟨j, p, hj, hp⟩ := h.exists_property ho ha
  have hcell : s.cell? item.holder (item.base + a.offset) = some (.property p) := by
    rw [hj, ha.holder_eq]
    exact State.cell?_natCast hp
  rw [Run.run_bindMember (Context.resolve_blame _ hr) (Run.run_signalOf_none hx hk),
    Description.locate_blame body hl]
  exact ⟨_, p, Accessor.run_bind ha.check_eq hcell, hcell, rfl, State.cell?_setCell hcell⟩

theorem bindMember_connects (h : Kept types made s) (ho : owner ∈ made)
    (hr : (c.resolve types settings.maxContextDepth element none).2 = .ok owner)
    (hx : (types.find owner.self.description).tree.element? element = some x) {k : Nat}
    (hk : (types.find owner.self.description).signalSlot? x.id name = some k)
    (hl : (types.find owner.self.description).locate owner.self.number element name
      (.property element name) = .ok (a, item)) (body : Expr) :
    ∃ t signal, (bindMember types settings element name body c).run s = (.ok (), t) ∧
      s.cell? owner.self.number k = some (.signal signal) ∧
      t = (s.logged (c.resolve types settings.maxContextDepth element (some body)).1).setCell
        owner.self.number k
        (.signal (signal.connect ⟨owner.scope settings.maxContextDepth, body⟩)) ∧
      t.cell? item.holder (item.base + a.offset) = s.cell? item.holder (item.base + a.offset) := by
  obtain ⟨role, ha⟩ := (h.laid_find _).locate_ok hl
  obtain ⟨j, p, hj, hp⟩ := h.exists_property ho ha
  obtain ⟨signal, hsignal⟩ := (h.suits owner ho).exists_signal ((h.laid_find _).signalSlot? hk)
  have hcell := State.cell?_natCast hsignal
  have hne : k ≠ j := by
    rintro rfl
    cases hsignal.symm.trans hp
  rw [Run.run_bindMember_signal (Context.resolve_blame _ hr) (Run.run_signalOf_some hx hk hcell),
    hj, ha.holder_eq, State.cell?_natCast hp]
  refine ⟨_, signal, rfl, hcell, rfl, ?_⟩
  exact State.cell?_setCell_of_ne (List.getElem?_eq_some_iff.1 hsignal).1 hp hne

end Kept

/-- Where a reference denotes a property, binding its name succeeds. If no signal has the name,
all that changes is that the slot of that property gets the expression, which any reference to
the property then evaluates. Otherwise the expression becomes a handler of the signal, and the
property stays as it was. -/
theorem Reaches.bind_denotes {w : World} {cs : List Context} (h : Reaches w cs) {c : Context}
    (hc : c ∈ cs) {settings : Settings} {element : Int} {name : String} {owner : Context}
    {a : Accessor} {item : ItemView}
    (hr : (c.resolve w.types settings.maxContextDepth element none).2 = .ok owner)
    (hl : (w.types.find owner.self.description).locate owner.self.number element name
      (.property element name) = .ok (a, item)) (body : Expr) :
    ∃ x t, (w.types.find owner.self.description).tree.element? element = some x ∧
      (bindMember w.types settings element name body c).run w.state = (.ok (), t) ∧
      ((w.types.find owner.self.description).signalSlot? x.id name = none →
        (∃ p, w.state.cell? item.holder (item.base + a.offset) = some (.property p) ∧
          t = (w.state.logged
              (c.resolve w.types settings.maxContextDepth element (some body)).1).setCell
            item.holder (item.base + a.offset) (.property (p.bind
              (a.binding owner settings.maxContextDepth body) none))) ∧
        ∀ (scope : Scope) (depth : Nat),
          (scope.context.resolve w.types scope.maxDepth element none).2 = .ok owner →
          let made :=
            (Evaluation.eval w.types depth (owner.scope settings.maxContextDepth) body).run
              (t.logged (scope.hops w.types element name))
          (Evaluation.eval w.types (depth + 1) scope (.property element name)).run t =
            (made.1.bind a.deliver, made.2)) ∧
      ∀ k, (w.types.find owner.self.description).signalSlot? x.id name = some k →
        (∃ signal, w.state.cell? owner.self.number k = some (.signal signal) ∧
          t = (w.state.logged
              (c.resolve w.types settings.maxContextDepth element (some body)).1).setCell
            owner.self.number k
            (.signal (signal.connect ⟨owner.scope settings.maxContextDepth, body⟩))) ∧
        t.cell? item.holder (item.base + a.offset) =
          w.state.cell? item.holder (item.base + a.offset) := by
  obtain ⟨made, hsub, hkept⟩ := h.kept
  have ho : owner ∈ made := hkept.chain_subset (hsub hc) (Context.resolve_ok hr).1
  obtain ⟨x, hx⟩ := Description.locate_element hl
  obtain ⟨role, ha⟩ := (hkept.laid_find _).locate_ok hl
  cases hs : (w.types.find owner.self.description).signalSlot? x.id name with
  | none =>
      obtain ⟨t, p, hrun, hcell, ht, hbound⟩ := hkept.bindMember_installs ho hr hx hs hl body
      refine ⟨x, t, hx, hrun, fun _ => ⟨⟨p, hcell, ht⟩, fun scope depth hscope => ?_⟩, ?_⟩
      · exact Evaluation.run_reference hscope hl ha.check_eq hbound rfl depth
      · intro k hk
        cases hs.symm.trans hk
  | some k =>
      obtain ⟨t, signal, hrun, hcell, ht, hsame⟩ :=
        hkept.bindMember_connects ho hr hx hs hl body
      refine ⟨x, t, hx, hrun, fun hnone => ?_, fun j hj => ?_⟩
      · cases hs.symm.trans hnone
      · cases hs.symm.trans hj
        exact ⟨⟨signal, hcell, ht⟩, hsame⟩

namespace Sample

theorem text_bound :
    ∃ t, (bindMember [frame, row] .standard 2 "text" (.string "hi") (inner 1)).run world.state =
        (.ok (), t) ∧
      ((Evaluation.eval [frame, row] 3 ⟨64, 1, inner 1⟩ (.property 2 "text")).run t).1 =
        .ok (.value (.string "hi")) := by
  have hr : ((inner 1).resolve [frame, row] Settings.standard.maxContextDepth 2 none).2 =
      .ok (inner 1) := rfl
  have hl : row.locate 1 2 "text" (.property 2 "text") =
      .ok (.native ⟨"Text", "text", .string, 2, false⟩, ⟨1, 2, some "Text"⟩) := rfl
  obtain ⟨x, t, hx, hrun, hbound, -⟩ :=
    reaches_world.bind_denotes (c := inner 1) (by simp) hr hl (.string "hi")
  cases hx
  refine ⟨t, hrun, ?_⟩
  have hread := (hbound rfl).2 ⟨64, 1, inner 1⟩ 2 rfl
  exact congrArg Prod.fst hread

def captionElements : List Element :=
  [⟨"frame", .builtin "Rectangle", 0, [1], []⟩, ⟨"label", .builtin "Text", 0, [], []⟩]

def captionComponents : List Component := [⟨"Frame", 0, none⟩]

theorem caption_sound : (∀ e ∈ captionElements, e.Sound captionElements captionComponents) ∧
    ∀ p ∈ captionComponents.zipIdx, p.1.Sound captionElements p.2 :=
  Tree.sound_of_defect?_eq_none (by decide)

def captionTree : Tree :=
  ⟨captionElements, captionComponents, caption_sound.1, caption_sound.2⟩

def caption : Description :=
  ⟨captionTree, 0, [], [("text", 0)],
    [("frame", ⟨.rectangle, false, 1⟩), ("label", ⟨.text, false, 6⟩)], 12⟩

def captioned : World :=
  (World.run ⟨[caption], .empty⟩ (Call.instantiate .standard 0 none).run).2

/-- Binding the text of the label succeeds, and the label is read as before. -/
theorem text_connected :
    Description.build captionTree 0 [] ["text"] false false = .ok caption ∧
    (∃ item, caption.locate 0 1 "text" (.property 1 "text") =
      .ok (.native ⟨"Text", "text", .string, 2, false⟩, item)) ∧
    ∃ t, (bindMember [caption] .standard 1 "text" (.string "hi") outer).run captioned.state =
        (.ok (), t) ∧
      t.cell? 0 0 = some (.signal ⟨[⟨outer.scope 64, .string "hi"⟩]⟩) ∧
      ((Evaluation.eval [caption] 3 ⟨64, 0, outer⟩ (.property 1 "text")).run t).1 =
        .ok (.value (.string "")) :=
  ⟨rfl, ⟨_, rfl⟩, _, rfl, rfl, rfl⟩

end Sample

end UiBinding
