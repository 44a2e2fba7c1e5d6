import UiBinding.Proofs.DepthLimit
import UiBinding.Proofs.Enclosure
import UiBinding.Proofs.Ownership

namespace UiBinding

namespace Context

def componentName (types : Catalog) (c : Context) : String := (types.find c.self.description).id

def NoneOf (types : Catalog) (component : Int) (chain : List Context) : Prop :=
  ∀ o ∈ chain, isOf types component o = false

variable {types : Catalog} {limit : Int} {c : Context} {e : Element} {owner : String}
  {blame : Option Expr} {budget : Nat} {visited : List String}

theorem search_eq_noOwner (hnone : NoneOf types e.enclosing c.chain)
    (hlen : c.chain.length ≤ budget) :
    (search types limit e owner blame budget visited c).2 =
      .error (.noOwner e.id owner (visited ++ c.chain.map (componentName types)) blame) := by
  induction budget generalizing visited c with
  | zero => cases c <;> cases hlen
  | succ budget ih =>
      have hc : (types.find c.self.description).component ≠ e.enclosing := by
        simpa [isOf] using hnone c c.self_mem_chain
      rw [search_succ, if_neg hc]
      cases c with
      | outermost number self => rfl
      | nested number self parent =>
          have hparent : NoneOf types e.enclosing parent.chain :=
            fun o ho => hnone o (List.mem_cons_of_mem _ ho)
          refine (ih hparent (Nat.le_of_succ_le_succ hlen)).trans ?_
          simp [chain, componentName]

theorem search_eq_tooDeep (hnone : NoneOf types e.enclosing (c.chain.take budget))
    (hlen : budget < c.chain.length) :
    (search types limit e owner blame budget visited c).2 =
      .error (.chainTooDeep limit e.id blame) := by
  induction budget generalizing visited c with
  | zero => rfl
  | succ budget ih =>
      cases c with
      | outermost number self => simp [chain] at hlen
      | nested number self parent =>
          have hc : (types.find (nested number self parent).self.description).component ≠
              e.enclosing := by
            simpa [isOf] using hnone _ List.mem_cons_self
          rw [search_succ, if_neg hc]
          have hparent : NoneOf types e.enclosing (parent.chain.take budget) :=
            fun o ho => hnone o (List.mem_cons_of_mem _ ho)
          exact ih hparent (Nat.lt_of_succ_lt_succ hlen)

theorem search_cases (types : Catalog) (component : Int) (budget : Nat) (c : Context) :
    (∃ o, (c.chain.take budget).find? (isOf types component) = some o) ∨
      (NoneOf types component c.chain ∧ c.chain.length ≤ budget) ∨
      (NoneOf types component (c.chain.take budget) ∧ budget < c.chain.length) := by
  cases hfind : (c.chain.take budget).find? (isOf types component) with
  | some o => exact .inl ⟨o, rfl⟩
  | none =>
      have hnone : NoneOf types component (c.chain.take budget) := by
        simpa [NoneOf] using hfind
      obtain hlen | hlen := Nat.lt_or_ge budget c.chain.length
      · exact .inr (.inr ⟨hnone, hlen⟩)
      · rw [List.take_of_length_le hlen] at hnone
        exact .inr (.inl ⟨hnone, hlen⟩)

theorem search_noOwner_iff :
    (search types limit e owner blame budget [] c).2 =
        .error (.noOwner e.id owner (c.chain.map (componentName types)) blame) ↔
      NoneOf types e.enclosing c.chain ∧ c.chain.length ≤ budget := by
  constructor
  · intro h
    obtain ⟨o, ho⟩ | hnone | ⟨hnone, hlen⟩ := search_cases types e.enclosing budget c
    · cases h.symm.trans (search_ok_iff.2 ho)
    · exact hnone
    · cases h.symm.trans (search_eq_tooDeep hnone hlen)
  · rintro ⟨hnone, hlen⟩
    exact search_eq_noOwner hnone hlen

theorem search_tooDeep_iff :
    (search types limit e owner blame budget [] c).2 = .error (.chainTooDeep limit e.id blame) ↔
      NoneOf types e.enclosing (c.chain.take budget) ∧ budget < c.chain.length := by
  constructor
  · intro h
    obtain ⟨o, ho⟩ | ⟨hnone, hlen⟩ | hnone := search_cases types e.enclosing budget c
    · cases h.symm.trans (search_ok_iff.2 ho)
    · cases h.symm.trans (search_eq_noOwner hnone hlen)
    · exact hnone
  · rintro ⟨hnone, hlen⟩
    exact search_eq_tooDeep hnone hlen

theorem length_search_log :
    (search types limit e owner blame budget visited c).1.length ≤ budget := by
  induction budget generalizing visited c with
  | zero => exact Nat.le_refl 0
  | succ budget ih =>
      by_cases hc : (types.find c.self.description).component = e.enclosing
      · simp only [search, if_pos hc]
        split <;> simp
      · cases c with
        | outermost number self => simp [search, if_neg hc]
        | nested number self parent =>
            simp only [search, if_neg hc]
            exact Nat.succ_le_succ ih

theorem search_congr {types' : Catalog}
    (h : ∀ o ∈ c.chain.take budget,
      types'.find o.self.description = types.find o.self.description) :
    search types' limit e owner blame budget visited c =
      search types limit e owner blame budget visited c := by
  induction budget generalizing visited c with
  | zero => rfl
  | succ budget ih =>
      cases c with
      | outermost number self =>
          have hc := h (outermost number self) List.mem_cons_self
          simp only [search, hc]
      | nested number self parent =>
          have hc := h (nested number self parent) List.mem_cons_self
          have hparent (visited : List String) :
              search types' limit e owner blame budget visited parent =
                search types limit e owner blame budget visited parent :=
            ih fun o ho => h o (List.mem_cons_of_mem _ ho)
          simp only [search, hc, hparent]

/-- What comes of looking for an element of a component from a context, at most `limit` hops
outward: the first instance of the component, or one of two errors, which meet where the chain is
as long as the search. -/
structure Resolved (types : Catalog) (c : Context) (limit : Nat) (blame : Option Expr)
    (e : Element) (component : Component) (result : Except Fault Context) : Prop where
  found : ∀ o, result = .ok o ↔
    (c.chain.take (limit + 1)).find? (isOf types e.enclosing) = some o
  noOwner : result =
      .error (.noOwner e.id component.id (c.chain.map (componentName types)) blame) ↔
    NoneOf types e.enclosing c.chain ∧ c.chain.length ≤ limit + 1
  tooDeep : result = .error (.chainTooDeep limit e.id blame) ↔
    NoneOf types e.enclosing (c.chain.take (limit + 1)) ∧ limit + 1 < c.chain.length

theorem resolve_eq_search {element : Int} (limit : Nat) (blame : Option Expr)
    (he : (types.find c.self.description).tree.element? element = some e) :
    ∃ component, (types.find c.self.description).tree.component? e.enclosing = some component ∧
      c.resolve types limit element blame =
        search types limit e component.id blame (limit + 1) [] c := by
  obtain ⟨component, hc⟩ := Tree.exists_component (.enclosing (Tree.mem_of_element? he))
  refine ⟨component, hc, ?_⟩
  have hbudget : ((limit : Int) + 1).toNat = limit + 1 := by omega
  simp only [resolve, he, hc, hbudget, Option.map_some, Option.getD_some]

theorem length_resolve_log {element : Int} {limit : Nat} :
    (c.resolve types limit element blame).1.length ≤ limit + 1 := by
  cases he : (types.find c.self.description).tree.element? element with
  | none => simp [resolve, he]
  | some e =>
      obtain ⟨component, -, hsearch⟩ := resolve_eq_search limit blame he
      rw [hsearch]
      exact length_search_log

theorem resolve_congr {types' : Catalog} {element : Int} {limit : Nat}
    (h : ∀ o ∈ c.chain.take (limit + 1),
      types'.find o.self.description = types.find o.self.description) :
    c.resolve types' limit element blame = c.resolve types limit element blame := by
  have hself : types'.find c.self.description = types.find c.self.description := by
    refine h c ?_
    cases c <;> exact List.mem_cons_self
  have hbudget : ((limit : Int) + 1).toNat = limit + 1 := by omega
  simp only [resolve, hself, hbudget, search_congr h]

/-- Resolving an element is a search outward for an instance of its component that ends at the
innermost one and visits at most `limit + 1` contexts: no other one has a part in the outcome. -/
theorem resolve_outward (types : Catalog) (c : Context) (element : Int) (limit : Nat)
    (blame : Option Expr) :
    let tree := (types.find c.self.description).tree
    let result := c.resolve types limit element blame
    (¬ InRange tree.elements element → result.2 = .error (.unknownElement element blame)) ∧
    (∀ e, tree.element? element = some e → ∃ component,
      tree.component? e.enclosing = some component ∧
        Resolved types c limit blame e component result.2) ∧
    (∀ (limit' : Nat) o, limit ≤ limit' → result.2 = .ok o →
      c.resolve types limit' element blame = result) ∧
    result.1.length ≤ limit + 1 ∧
    (∀ types' : Catalog, (∀ o ∈ c.chain.take (limit + 1),
      types'.find o.self.description = types.find o.self.description) →
        c.resolve types' limit element blame = result) ∧
    (Fault.unknownElement element blame).diagnostic = ⟨.unresolvedReference,
      "Unknown element index " ++ toString element, none, none, none, blame⟩ ∧
    (∀ id owner visited, (Fault.noOwner id owner visited blame).diagnostic = ⟨.contextChain,
      "No enclosing context owns element " ++ Text.quoted id ++ " (component " ++
        Text.quoted owner ++ "); searched " ++ " -> ".intercalate visited,
      some id, none, none, blame⟩) ∧
    ∀ id, (Fault.chainTooDeep limit id blame).diagnostic = ⟨.contextChain,
      "Context chain deeper than " ++ toString (limit : Int) ++ " while resolving element " ++
        Text.quoted id, some id, none, none, blame⟩ := by
  intro tree result
  refine ⟨fun hout => ?_, fun e he => ?_, fun limit' o hle ho => ?_, length_resolve_log,
    fun types' => resolve_congr, rfl, fun _ _ _ => rfl, fun _ => rfl⟩
  · have hnone : (types.find c.self.description).tree.element? element = none :=
      at?_eq_none_iff.2 hout
    simp only [result, resolve, hnone]
  · obtain ⟨component, hc, hsearch⟩ := resolve_eq_search limit blame he
    refine ⟨component, hc, ?_⟩
    change Resolved types c limit blame e component (c.resolve types limit element blame).2
    rw [hsearch]
    exact ⟨fun _ => search_ok_iff, search_noOwner_iff, search_tooDeep_iff⟩
  · obtain ⟨id, hdeep⟩ | hsame := c.resolve_of_le (Int.ofNat_le.2 hle) element blame
    · cases ho.symm.trans hdeep
    · exact hsame

end Context

namespace Sample

theorem frame_within_one_hop :
    ((inner 1).resolve world.types 1 0 none).2 = .ok outer ∧
      ((inner 1).resolve world.types 0 0 none).2 = .error (.chainTooDeep 0 "frame" none) ∧
      (outer.resolve world.types 0 2 none).2 = .error (.noOwner "label" "Row" ["Frame"] none) ∧
      (outer.resolve world.types 0 9 none).2 = .error (.unknownElement 9 none) := by
  have hfound : ((inner 1).chain.take 2).find? (Context.isOf world.types 0) = some outer := rfl
  have hfar : Context.NoneOf world.types 0 ((inner 1).chain.take 1) := by
    intro o ho
    rw [List.mem_singleton.1 ho]
    rfl
  have hnone : Context.NoneOf world.types 1 outer.chain := by
    intro o ho
    rw [List.mem_singleton.1 ho]
    rfl
  obtain ⟨_, -, hone⟩ := (Context.resolve_outward world.types (inner 1) 0 1 none).2.1 _ rfl
  obtain ⟨_, -, hzero⟩ := (Context.resolve_outward world.types (inner 1) 0 0 none).2.1 _ rfl
  obtain ⟨row, hrow, hlabel⟩ := (Context.resolve_outward world.types outer 2 0 none).2.1 _ rfl
  cases hrow
  exact ⟨(hone.found outer).2 hfound, hzero.tooDeep.2 ⟨hfar, by decide⟩,
    hlabel.noOwner.2 ⟨hnone, by decide⟩,
    (Context.resolve_outward world.types outer 9 0 none).1 (by decide)⟩

end Sample

end UiBinding
