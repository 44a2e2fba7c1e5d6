import UiBinding.Proofs.Session

namespace UiBinding

namespace Context

def isOf (types : Catalog) (component : Int) (c : Context) : Bool :=
  (types.find c.self.description).component == component

variable {types : Catalog} {limit element : Int} {c o : Context} {e : Element}
  {owner : String} {blame : Option Expr}

/-- A search finds the first context within its budget that is of the component, and knows
nothing of trees. -/
theorem search_ok_iff {budget : Nat} {visited : List String} :
    (search types limit e owner blame budget visited c).2 = .ok o ↔
      (c.chain.take budget).find? (isOf types e.enclosing) = some o := by
  induction budget generalizing visited c with
  | zero => simp [search]
  | succ budget ih =>
      rw [search_succ]
      by_cases hc : (types.find c.self.description).component = e.enclosing
      · have hof : c.isOf types e.enclosing = true := by simpa [isOf] using hc
        rw [if_pos hc]
        cases c <;> simp [chain, hof]
      · have hof : c.isOf types e.enclosing = false := by simpa [isOf] using hc
        rw [if_neg hc]
        cases c with
        | outermost number self => simp [chain, parent?, hof]
        | nested number self parent => simpa [chain, parent?, hof] using ih

theorem resolve_ok_iff : (c.resolve types limit element blame).2 = .ok o ↔
    ∃ e, (types.find c.self.description).tree.element? element = some e ∧
      (c.chain.take (limit + 1).toNat).find? (isOf types e.enclosing) = some o := by
  rw [resolve_snd]
  cases he : (types.find c.self.description).tree.element? element with
  | none => simp
  | some e => simp [search_ok_iff]

theorem exists_resolve_ok
    (he : (types.find c.self.description).tree.element? element = some e)
    (ho : c.chain.find? (isOf types e.enclosing) = some o) :
    (c.resolve types c.chain.length element none).2 = .ok o := by
  refine resolve_ok_iff.2 ⟨e, he, ?_⟩
  rwa [List.take_of_length_le (by omega)]

end Context

theorem Description.locate_ne_noElement {d : Description} {holder : Nat} {element : Int}
    {name : String} {x : Expr} {e : Element} (he : d.tree.element? element = some e) :
    d.locate holder element name x ≠ .error (.noElement element) := by
  intro h
  obtain ⟨-, hnone⟩ | ⟨f, hf, -⟩ := locate_error h
  · rw [he] at hnone
    cases hnone
  · cases hf

theorem signalOf_ne_noElement {types : Catalog} {o : Context} {element : Int} {name : String}
    {e : Element} (he : (types.find o.self.description).tree.element? element = some e)
    (s : State) :
    ((signalOf types o element name).run s).1 ≠ .error (.error (.noElement element)) := by
  intro h
  cases hk : (types.find o.self.description).signalSlot? e.id name with
  | none =>
      simp only [signalOf, he, hk] at h
      cases h
  | some k =>
      simp only [signalOf, he, hk] at h
      rw [Run.run_bind, Run.run_cell] at h
      cases hc : s.cell? o.self.number k with
      | none => rw [hc] at h; cases h
      | some c => rw [hc] at h; cases c <;> cases h

/-- The instance that a reference to an element resolves to is one of the tree of the starting
context, and the element is found there, whatever the hop limit, exactly if the innermost instance
of a component with the right index is of that tree. -/
theorem Context.resolve_owns_iff (types : Catalog) (c : Context) (element : Int) :
    (∀ limit blame o, (c.resolve types limit element blame).2 = .ok o →
      (types.find o.self.description).tree = (types.find c.self.description).tree ∧
      (∃ e, (types.find c.self.description).tree.element? element = some e ∧
        (types.find o.self.description).tree.element? element = some e ∧
        e.enclosing = (types.find o.self.description).component) ∧
      ∀ name x s,
        (types.find o.self.description).locate o.self.number element name x ≠
          .error (.noElement element) ∧
        ((signalOf types o element name).run s).1 ≠ .error (.error (.noElement element))) ↔
    ∀ e o, (types.find c.self.description).tree.element? element = some e →
      c.chain.find? (isOf types e.enclosing) = some o →
      (types.find o.self.description).tree = (types.find c.self.description).tree := by
  constructor
  · intro h e o he ho
    exact (h _ _ o (exists_resolve_ok he ho)).1
  · intro h limit blame o hr
    obtain ⟨e, he, hfound⟩ := resolve_ok_iff.1 hr
    have htree := h e o he ((List.take_prefix _ _).find?_eq_some hfound)
    have ho : (types.find o.self.description).tree.element? element = some e := by
      rw [htree, he]
    have hcomponent : (types.find o.self.description).component = e.enclosing := by
      simpa [isOf] using List.find?_some hfound
    refine ⟨htree, ⟨e, he, ho, hcomponent.symm⟩, fun name x s => ⟨?_, ?_⟩⟩
    · exact Description.locate_ne_noElement ho
    · exact signalOf_ne_noElement ho s

namespace Sample

theorem row_owned :
    ((inner 1).resolve world.types 64 0 none).2 = .ok outer ∧
      (world.types.find outer.self.description).tree = tree := by
  have hr : ((inner 1).resolve world.types 64 0 none).2 = .ok outer := rfl
  refine ⟨hr, ?_⟩
  refine ((Context.resolve_owns_iff world.types (inner 1) 0).2 ?_ 64 none outer hr).1
  intro e o _ ho
  have hmem := List.mem_of_find?_eq_some ho
  obtain rfl | hmem := List.mem_cons.1 hmem
  · rfl
  · rw [List.mem_singleton.1 hmem]
    rfl

def pageElements : List Element :=
  [⟨"page", .builtin "Rectangle", 0, [1], []⟩, ⟨"title", .builtin "Text", 0, [], []⟩,
    ⟨"note", .builtin "Rectangle", 1, [], []⟩]

def pageComponents : List Component := [⟨"Page", 0, none⟩, ⟨"Note", 2, none⟩]

theorem page_sound : (∀ e ∈ pageElements, e.Sound pageElements pageComponents) ∧
    ∀ p ∈ pageComponents.zipIdx, p.1.Sound pageElements p.2 :=
  Tree.sound_of_defect?_eq_none (by decide)

def pageTree : Tree := ⟨pageElements, pageComponents, page_sound.1, page_sound.2⟩

def insertElements : List Element := [⟨"insert", .builtin "Rectangle", 0, [], []⟩]

def insertComponents : List Component := [⟨"Insert", 0, none⟩]

theorem insert_sound : (∀ e ∈ insertElements, e.Sound insertElements insertComponents) ∧
    ∀ p ∈ insertComponents.zipIdx, p.1.Sound insertElements p.2 :=
  Tree.sound_of_defect?_eq_none (by decide)

def insertTree : Tree := ⟨insertElements, insertComponents, insert_sound.1, insert_sound.2⟩

def pageLayout : Description :=
  ⟨pageTree, 0, [], [], [("page", ⟨.rectangle, false, 0⟩), ("title", ⟨.text, false, 5⟩)], 11⟩

def insertLayout : Description :=
  ⟨insertTree, 0, [], [], [("insert", ⟨.rectangle, false, 0⟩)], 5⟩

def noteLayout : Description :=
  ⟨pageTree, 1, [], [], [("note", ⟨.rectangle, false, 0⟩)], 5⟩

def onPage : Context := .outermost 0 ⟨0, 0⟩

def onInsert : Context := .nested 1 ⟨1, 1⟩ onPage

def onNote : Context := .nested 2 ⟨2, 2⟩ onInsert

def laidOut : World := ⟨[pageLayout, insertLayout, noteLayout], .empty⟩

def pasted : World :=
  (((laidOut.run (Call.instantiate .standard 0 none).run).2.run
    (Call.instantiate .standard 1 onPage).run).2.run
    (Call.instantiate .standard 2 onInsert).run).2

theorem page_described :
    World.empty.describe pageTree 0 [] [] false false = .ok (0, ⟨[pageLayout], .empty⟩) := rfl

theorem insert_described :
    World.describe ⟨[pageLayout], .empty⟩ insertTree 0 [] [] false false =
      .ok (1, ⟨[pageLayout, insertLayout], .empty⟩) := rfl

theorem note_described :
    World.describe ⟨[pageLayout, insertLayout], .empty⟩ pageTree 1 [] [] false false =
      .ok (2, laidOut) := rfl

theorem reaches_pasted : Reaches pasted [onPage, onInsert, onNote] := by
  have hd : Reaches laidOut [] :=
    .describe (.describe (.describe .empty page_described) insert_described) note_described
  have hp := Reaches.call (.instantiate .standard 0 none) hd ⟨by decide, nofun⟩
  have hi := Reaches.call (.instantiate .standard 1 onPage) hp
    ⟨by decide, by rintro _ ⟨⟩; exact List.mem_singleton.2 rfl⟩
  exact Reaches.call (.instantiate .standard 2 onInsert) hi
    ⟨by decide, by rintro _ ⟨⟩; exact List.mem_cons_of_mem _ (List.mem_singleton.2 rfl)⟩

/-- From a note in an insert on the page, the title of the page is looked for in the insert,
as both components have the index 0; and the tree of the insert has no such element. -/
theorem title_missed : Reaches pasted [onPage, onInsert, onNote] ∧
    (onNote.resolve pasted.types 64 1 none).2 = .ok onInsert ∧
    (pageTree.element? 1).map Element.id = some "title" ∧
    (pasted.types.find onInsert.self.description).tree.element? 1 = none ∧
    (pasted.run fun types =>
      Evaluation.eval types 2 ⟨64, 2, onNote⟩ (.property 1 "text")).1 =
        .error (.error (.noElement 1)) ∧
    (pasted.run fun types =>
      Evaluation.eval types 2 ⟨64, 2, onPage⟩ (.property 1 "text")).1 =
        .ok (.value (.string "")) :=
  ⟨reaches_pasted, rfl, rfl, rfl, rfl, rfl⟩

end Sample

end UiBinding
