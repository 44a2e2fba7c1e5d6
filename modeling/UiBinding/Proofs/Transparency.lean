import UiBinding.Proofs.Session
import UiBinding.Proofs.Uniformity

namespace UiBinding

/-- Worlds that a program gets to from `w` by calls that leave one slot as it is. -/
inductive Spares (number : Nat) (index : Int) (w : World) : World → Prop
  | refl : Spares number index w w
  | describe {w' w'' : World} {tree : Tree} {component : Int}
      {customs : List (String × Option DeclaredType)} {signals : List String}
      {repeated checked : Bool} {n : Nat} (h : Spares number index w w')
      (hd : w'.describe tree component customs signals repeated checked = .ok (n, w'')) :
      Spares number index w w''
  | call {w' : World} (call : Call) (h : Spares number index w w')
      (hkeep : (w'.run call.run).2.state.cell? number index = w'.state.cell? number index) :
      Spares number index w (w'.run call.run).2

namespace Spares

variable {number : Nat} {index : Int} {w w' : World}

theorem cell?_eq (h : Spares number index w w') :
    w'.state.cell? number index = w.state.cell? number index := by
  induction h with
  | refl => rfl
  | describe h hd ih =>
      obtain ⟨d, -, he⟩ := bind_eq_ok hd
      cases he
      exact ih
  | call call h hkeep ih => exact hkeep.trans ih

theorem types_prefix (h : Spares number index w w') : w.types <+: w'.types := by
  induction h with
  | refl => exact List.prefix_rfl
  | describe h hd ih =>
      obtain ⟨d, -, he⟩ := bind_eq_ok hd
      cases he
      exact ih.trans (List.prefix_append _ _)
  | call call h hkeep ih => exact ih

end Spares

theorem Catalog.find_of_lt {types more : Catalog} (h : types <+: more) {n : Nat}
    (hn : n < types.length) : Catalog.find more n = types.find n := by
  obtain ⟨added, rfl⟩ := h
  simp only [find, List.getElem?_append_left hn]

theorem Catalog.find_of_prefix {types more : Catalog} (h : types <+: more) {n : Nat}
    {element : Int} {x : Element} (hx : (types.find n).tree.element? element = some x) :
    Catalog.find more n = types.find n := by
  refine find_of_lt h ?_
  by_contra hn
  rw [find, List.getElem?_eq_none (Nat.le_of_not_lt hn)] at hx
  simp [Description.empty, Tree.empty, Tree.element?, at?] at hx

/-- States with the same slots and contexts, where the same was logged since `a` and `b`. -/
def Echoes (a b : List Event) (s t : State) : Prop :=
  s.instances = t.instances ∧ s.contexts = t.contexts ∧
    ∃ new, s.log = a ++ new ∧ t.log = b ++ new

theorem uniform_echoes (a b : List Event) : Uniform (Echoes a b) where
  log := by
    rintro s t events ⟨hi, hc, new, hs, ht⟩
    refine ⟨hi, hc, new ++ events, ?_, ?_⟩
    · rw [State.logged, hs, List.append_assoc]
    · rw [State.logged, ht, List.append_assoc]
  cell := by
    rintro s t number index ⟨hi, -, -⟩
    simp only [State.cell?, State.slots, hi]
  setCell := by
    rintro ⟨instances, contexts, log⟩ t number index c ⟨rfl, rfl, new, hs, ht⟩
    simp only [State.setCell, State.slots]
    split
    · exact ⟨rfl, rfl, new, hs, ht⟩
    · exact ⟨rfl, rfl, new, hs, ht⟩

theorem echoes_logged (s : State) (events : List Event) :
    Echoes (s.log ++ events) s.log (s.logged events) s :=
  ⟨rfl, rfl, [], (List.append_nil _).symm, (List.append_nil _).symm⟩

namespace Evaluation

variable {types : Catalog} {s : State} {scope : Scope} {element : Int} {name : String}
  {o : Context} {a : Accessor} {item : ItemView} {p : Property Binding} {body : Expr}
  {maxDepth description : Nat}

theorem reference_echoes (hr : (scope.context.resolve types scope.maxDepth element none).2 = .ok o)
    (hl : (types.find o.self.description).locate o.self.number element name
      (.property element name) = .ok (a, item))
    (hcheck : a.check item = .ok ())
    (hcell : s.cell? item.holder (item.base + a.offset) = some (.property p))
    (hb : p.binding = some ⟨.expression body maxDepth description, a.conversion⟩) (depth : Nat) :
    let read := (eval types (depth + 1) scope (.property element name)).run s
    let made := (eval types depth ⟨maxDepth, description, o⟩ body).run s
    read.1 = made.1.bind a.deliver ∧
      Echoes (s.log ++ scope.hops types element name) s.log read.2 made.2 := by
  intro read made
  have hread := run_reference hr hl hcheck hcell hb depth
  obtain ⟨hresult, hstate, -⟩ := (uniform_echoes _ _).eval types depth
    ⟨maxDepth, description, o⟩ body _ _ (echoes_logged s (scope.hops types element name))
  refine ⟨?_, ?_⟩
  · rw [← hresult]
    exact congrArg Prod.fst hread
  · have hend : read.2 = _ := congrArg Prod.snd hread
    rw [hend]
    exact hstate

end Evaluation

namespace World

theorem run_eq {α : Type} {w w₁ : World} {m : Catalog → Run α} {result : Except Stop α}
    (h : w.run m = (result, w₁)) :
    (m w.types).run w.state = (result, w₁.state) ∧ w₁.types = w.types := by
  obtain ⟨rfl, rfl⟩ := Prod.ext_iff.1 h
  exact ⟨rfl, rfl⟩

theorem bindMember_ok {w w₁ : World} {settings : Settings} {element : Int} {name : String}
    {body : Expr} {c owner : Context}
    (hr : (c.resolve w.types settings.maxContextDepth element none).2 = .ok owner)
    (hs : ((signalOf w.types owner element name).run w.state).1 = .ok none)
    (hb : w.run (fun types => bindMember types settings element name body c) = (.ok (), w₁)) :
    w₁.types = w.types ∧ ∃ a item p,
      (w.types.find owner.self.description).locate owner.self.number element name
        (.property element name) = .ok (a, item) ∧
      a.check item = .ok () ∧
      w₁.state.cell? item.holder (item.base + a.offset) = some (.property p) ∧
      p.binding = some (a.binding owner settings.maxContextDepth body) := by
  obtain ⟨hrun, htypes⟩ := run_eq hb
  refine ⟨htypes, ?_⟩
  rw [Run.run_bindMember (Context.resolve_blame (some body) hr) hs] at hrun
  split at hrun
  · rename_i a item hl
    obtain ⟨p, hcheck, hcell, ht⟩ := Accessor.bind_ok hrun
    have hl' := Description.locate_blame (.property element name) hl
    refine ⟨a, item, p.bind (a.binding owner settings.maxContextDepth body) none, hl', hcheck, ?_,
      rfl⟩
    rw [ht]
    exact State.cell?_setCell hcell
  · cases hrun

end World

/-- A bound property is transparent: as long as its slot is spared, a reference to it gives, from
wherever its element is found in an instance of the owner, what the bound expression evaluates to
there and then. Of the reader, only the search for the element shows, in the log. -/
theorem bind_transparent {w w₁ : World} {settings : Settings} {element : Int} {name : String}
    {body : Expr} {c owner : Context}
    (hr : (c.resolve w.types settings.maxContextDepth element none).2 = .ok owner)
    (hs : ((signalOf w.types owner element name).run w.state).1 = .ok none)
    (hb : w.run (fun types => bindMember types settings element name body c) = (.ok (), w₁)) :
    ∃ a item,
      (w.types.find owner.self.description).locate owner.self.number element name
        (.property element name) = .ok (a, item) ∧
      ∀ w', Spares item.holder (item.base + a.offset) w₁ w' →
        ∀ (scope : Scope) (o : Context) (depth : Nat),
          (scope.context.resolve w'.types scope.maxDepth element none).2 = .ok o →
          o.self = owner.self →
          let read := w'.run fun types =>
            Evaluation.eval types (depth + 1) scope (.property element name)
          let made := w'.run fun types =>
            Evaluation.eval types depth ⟨settings.maxContextDepth, owner.self.description, o⟩ body
          read.1 = made.1.bind a.deliver ∧
          read.2.types = made.2.types ∧
          Echoes (w'.state.log ++ scope.hops w'.types element name) w'.state.log
            read.2.state made.2.state := by
  obtain ⟨htypes, a, item, p, hl, hcheck, hcell, hbound⟩ := World.bindMember_ok hr hs hb
  refine ⟨a, item, hl, ?_⟩
  intro w' hw scope o depth hscope hself read made
  obtain ⟨x, hx⟩ := Description.locate_element hl
  have hfind : w'.types.find owner.self.description = w.types.find owner.self.description := by
    rw [← htypes] at hx ⊢
    exact Catalog.find_of_prefix hw.types_prefix hx
  have hl' : (w'.types.find o.self.description).locate o.self.number element name
      (.property element name) = .ok (a, item) := by
    rw [hself, hfind, hl]
  obtain ⟨hresult, hstate⟩ := Evaluation.reference_echoes hscope hl' hcheck
    (hw.cell?_eq.trans hcell) hbound depth
  exact ⟨hresult, rfl, hstate⟩

namespace Sample

def labelled : World :=
  (world.run fun types =>
    bindMember types .standard 2 "text" (.property 2 "font_family") (inner 1)).2

def restyled : World :=
  (labelled.run (Call.bind .standard 2 "font_family" (.string "serif") (inner 1)).run).2

def fontLabel : Cell :=
  .property ⟨.string "", some ⟨.expression (.property 2 "font_family") 64 1,
    some ⟨"Text", "text", .string, 2, false⟩⟩, none⟩

theorem labelled_text : labelled.state.cell? 1 4 = some fontLabel := rfl

theorem restyled_text : restyled.state.cell? 1 4 = some fontLabel := rfl

theorem text_follows_font :
    (restyled.run fun types =>
      Evaluation.eval types 4 ⟨3, 0, .nested 7 ⟨1, 1⟩ outer⟩ (.property 2 "text")).1 =
        .ok (.value (.string "serif")) := by
  have hr : ((inner 1).resolve world.types Settings.standard.maxContextDepth 2 none).2 =
      .ok (inner 1) := rfl
  have hs : ((signalOf world.types (inner 1) 2 "text").run world.state).1 = .ok none := rfl
  have hb : world.run (fun types => bindMember types .standard 2 "text"
      (.property 2 "font_family") (inner 1)) = (.ok (), labelled) := rfl
  have hl : row.locate 1 2 "text" (.property 2 "text") =
      .ok (.native ⟨"Text", "text", .string, 2, false⟩, ⟨1, 2, some "Text"⟩) := rfl
  obtain ⟨a, item, hfound, hread⟩ := bind_transparent hr hs hb
  cases hl.symm.trans hfound
  have hw : Spares 1 4 labelled restyled := .call _ .refl (restyled_text.trans labelled_text.symm)
  exact (hread restyled hw ⟨3, 0, .nested 7 ⟨1, 1⟩ outer⟩ (.nested 7 ⟨1, 1⟩ outer) 3 rfl rfl).1

end Sample

end UiBinding
