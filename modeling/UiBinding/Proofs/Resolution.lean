import UiBinding.Evaluation
import UiBinding.Proofs.Layout

namespace UiBinding

namespace Fault

def isSlotKind : Fault → Bool
  | propertyAsSignal .. | notAProperty .. | wrongItem .. => true
  | _ => false

end Fault

namespace Context

theorem self_make (number : Nat) (self : Instance) (parent : Option Context) :
    (make number self parent).self = self := by
  cases parent <;> rfl

theorem parent?_make (number : Nat) (self : Instance) (parent : Option Context) :
    (make number self parent).parent? = parent := by
  cases parent <;> rfl

theorem self_mem_chain (c : Context) : c ∈ c.chain := by
  cases c <;> exact List.mem_cons_self

theorem parent_mem_chain {c p : Context} (h : c.parent? = some p) : p ∈ c.chain := by
  cases c with
  | outermost => cases h
  | nested number self parent =>
      cases h
      exact List.mem_cons_of_mem _ p.self_mem_chain

theorem chain_subset {c o : Context} (h : o ∈ c.chain) : o.chain ⊆ c.chain := by
  induction c with
  | outermost number self =>
      rw [List.mem_singleton.1 h]
      exact List.Subset.refl _
  | nested number self parent ih =>
      obtain rfl | hp := List.mem_cons.1 h
      · exact List.Subset.refl _
      · exact List.Subset.trans (ih hp) (List.subset_cons_self _ _)

theorem parent_mem_of_mem_chain {c o p : Context} (h : o ∈ c.chain) (hp : o.parent? = some p) :
    p ∈ c.chain :=
  chain_subset h (parent_mem_chain hp)

theorem forall_chain {near : Context → Prop}
    (hnear : ∀ c p, near c → c.parent? = some p → near p) {c : Context} (hc : near c) :
    ∀ o ∈ c.chain, near o := by
  intro o ho
  induction c with
  | outermost number self =>
      rw [List.mem_singleton.1 ho]
      exact hc
  | nested number self parent ih =>
      obtain rfl | hp := List.mem_cons.1 ho
      · exact hc
      · exact ih (hnear _ parent hc rfl) hp

section Resolve

variable {types : Catalog} {limit element : Int} {c o : Context}

section Search

variable {e : Element} {owner : String} {blame : Option Expr} {budget : Nat}
  {visited : List String}

theorem search_succ : (search types limit e owner blame (budget + 1) visited c).2 =
    if (types.find c.self.description).component = e.enclosing then .ok c
    else match c.parent? with
      | none => .error (.noOwner e.id owner (visited ++ [(types.find c.self.description).id]) blame)
      | some parent => (search types limit e owner blame budget
          (visited ++ [(types.find c.self.description).id]) parent).2 := by
  cases c <;> simp only [search, parent?] <;> split <;> rfl

theorem search_ok (h : (search types limit e owner blame budget visited c).2 = .ok o) :
    o ∈ c.chain ∧ (types.find o.self.description).component = e.enclosing := by
  induction budget generalizing visited c with
  | zero => cases h
  | succ budget ih =>
      rw [search_succ] at h
      split at h
      · rename_i hc
        cases h
        exact ⟨self_mem_chain _, hc⟩
      split at h
      · cases h
      · rename_i parent hp
        obtain ⟨ho, he⟩ := ih h
        exact ⟨chain_subset (parent_mem_chain hp) ho, he⟩

theorem search_error {f : Fault}
    (h : (search types limit e owner blame budget visited c).2 = .error f) :
    f.isSlotKind = false := by
  induction budget generalizing visited c with
  | zero => cases h; rfl
  | succ budget ih =>
      rw [search_succ] at h
      split at h
      · cases h
      split at h
      · cases h; rfl
      · exact ih h

theorem search_blame (blame' : Option Expr)
    (h : (search types limit e owner blame budget visited c).2 = .ok o) :
    (search types limit e owner blame' budget visited c).2 = .ok o := by
  induction budget generalizing visited c with
  | zero => cases h
  | succ budget ih =>
      rw [search_succ] at h ⊢
      by_cases hc : (types.find c.self.description).component = e.enclosing
      · rwa [if_pos hc] at h ⊢
      · rw [if_neg hc] at h ⊢
        cases hp : c.parent? with
        | none => rw [hp] at h; cases h
        | some parent => rw [hp] at h; exact ih h

end Search

theorem resolve_snd {blame : Option Expr} : (c.resolve types limit element blame).2 =
    match (types.find c.self.description).tree.element? element with
    | none => .error (.unknownElement element blame)
    | some e => (search types limit e
        ((((types.find c.self.description).tree.component? e.enclosing).map Component.id).getD "")
        blame (limit + 1).toNat [] c).2 := by
  simp only [resolve]
  cases (types.find c.self.description).tree.element? element <;> rfl

theorem resolve_ok {blame : Option Expr} (h : (c.resolve types limit element blame).2 = .ok o) :
    o ∈ c.chain ∧ ∃ e, (types.find c.self.description).tree.element? element = some e ∧
      (types.find o.self.description).component = e.enclosing := by
  rw [resolve_snd] at h
  split at h
  · cases h
  · rename_i e he
    obtain ⟨ho, hc⟩ := search_ok h
    exact ⟨ho, e, he, hc⟩

theorem resolve_error {blame : Option Expr} {f : Fault}
    (h : (c.resolve types limit element blame).2 = .error f) : f.isSlotKind = false := by
  rw [resolve_snd] at h
  split at h
  · cases h; rfl
  · exact search_error h

theorem resolve_blame {blame : Option Expr} (blame' : Option Expr)
    (h : (c.resolve types limit element blame).2 = .ok o) :
    (c.resolve types limit element blame').2 = .ok o := by
  rw [resolve_snd] at h ⊢
  cases he : (types.find c.self.description).tree.element? element with
  | none => rw [he] at h; cases h
  | some e => rw [he] at h; exact search_blame blame' h

end Resolve

end Context

def Role.conversion : Role → Option ItemProperty
  | item q => some q
  | _ => none

/-- Accessors with the views that they are used on and the roles of the slots they reach. -/
inductive Located (d : Description) (holder : Nat) : Accessor → ItemView → Role → Prop
  | custom {name : String} {p : CustomSlot} (h : d.roles[p.offset]? = some (.custom p)) :
      Located d holder (.custom name 0) ⟨holder, p.offset, none⟩ (.custom p)
  | native {q : ItemProperty} {offset k : Nat} (hk : (offset : Int) + q.offset = k)
      (h : d.roles[k]? = some (.item q)) :
      Located d holder (.native q) ⟨holder, offset, some q.owner⟩ (.item q)

namespace Located

variable {d : Description} {holder : Nat} {a : Accessor} {item : ItemView} {role : Role}

theorem holder_eq (h : Located d holder a item role) : item.holder = holder := by
  cases h <;> rfl

theorem ne_signal (h : Located d holder a item role) : role ≠ .signal := by
  cases h <;> nofun

theorem conversion_eq (h : Located d holder a item role) : a.conversion = role.conversion := by
  cases h <;> rfl

theorem check_eq (h : Located d holder a item role) : a.check item = .ok () := by
  cases h with
  | custom => rfl
  | native => exact if_pos rfl

theorem exists_slot (h : Located d holder a item role) :
    ∃ k : Nat, item.base + a.offset = k ∧ d.roles[k]? = some role := by
  cases h with
  | custom h => exact ⟨_, Int.add_zero _, h⟩
  | native hk h => exact ⟨_, hk, h⟩

end Located

namespace Description

variable {d : Description} {holder : Nat} {element : Int} {name : String} {e : Expr}

theorem locate_element {found : Accessor × ItemView}
    (h : d.locate holder element name e = .ok found) : ∃ x, d.tree.element? element = some x := by
  rw [locate] at h
  split at h
  · cases h
  · rename_i x hx
    exact ⟨x, hx⟩

theorem locate_native {q : ItemProperty} {item : ItemView}
    (h : d.locate holder element name e = .ok (.native q, item)) :
    ∃ id b, (id, b) ∈ d.items ∧ q ∈ b.item.properties b.checked ∧
      item = ⟨holder, b.offset, some b.item.name⟩ := by
  rw [locate] at h
  split at h
  · cases h
  split at h
  · cases h
  split at h
  · cases h
  rename_i b hb
  split at h
  · cases h
  · rename_i q' hq
    cases h
    exact ⟨_, b, Assoc.mem_of_get? hb, List.mem_of_find?_eq_some hq, rfl⟩

theorem locate_custom {n : String} {offset : Int} {item : ItemView}
    (h : d.locate holder element name e = .ok (.custom n offset, item)) :
    ∃ p, (name, p) ∈ d.customProperties ∧ n = name ∧ offset = 0 ∧
      item = ⟨holder, p.offset, none⟩ := by
  rw [locate] at h
  split at h
  · cases h
  split at h
  · rename_i p hp
    cases h
    split at hp
    · exact ⟨p, Assoc.mem_of_get? hp, rfl, rfl, rfl⟩
    · cases hp
  split at h
  · cases h
  split at h <;> cases h

theorem Laid.locate_ok (hd : d.Laid) {a : Accessor} {item : ItemView}
    (h : d.locate holder element name e = .ok (a, item)) :
    ∃ role, Located d holder a item role := by
  cases a with
  | custom n offset =>
      obtain ⟨p, hp, rfl, rfl, rfl⟩ := locate_custom h
      exact ⟨_, .custom (hd.custom hp)⟩
  | native q =>
      obtain ⟨id, b, hb, hq, rfl⟩ := locate_native h
      obtain ⟨k, hk, hr⟩ := hd.itemProperty hb hq
      rw [← (Item.exists_of_mem_properties hq).1]
      exact ⟨_, .native hk hr⟩

theorem locate_blame {found : Accessor × ItemView} (e' : Expr)
    (h : d.locate holder element name e = .ok found) :
    d.locate holder element name e' = .ok found := by
  rw [locate] at h ⊢
  repeat' split at h
  all_goals first | exact h | cases h

theorem locate_error {err : Error} (h : d.locate holder element name e = .error err) :
    (err = .noElement element ∧ d.tree.element? element = none) ∨
      ∃ f, err = .fault f ∧ f.isSlotKind = false := by
  rw [locate] at h
  split at h
  · rename_i he
    cases h
    exact .inl ⟨rfl, he⟩
  split at h
  · cases h
  split at h
  · cases h; exact .inr ⟨_, rfl, rfl⟩
  split at h
  · cases h; exact .inr ⟨_, rfl, rfl⟩
  · cases h

end Description

namespace Evaluation

variable {types : Catalog} {scope : Scope} {e : Expr} {element : Int} {name : String}

theorem rowSlot_ok {slot : Nat} (h : rowSlot types scope e element name = .ok slot) :
    scope.context.self.description = scope.description ∧
      ∃ p, (types.find scope.description).customProperties.get? name = some p ∧
        slot = p.offset := by
  simp only [rowSlot] at h
  split at h
  · cases h
  split at h
  · cases h
  split at h
  · cases h
  rename_i hs
  split at h
  · cases h
  · rename_i p hp
    cases h
    exact ⟨Decidable.not_not.1 hs, p, hp, rfl⟩

theorem rowSlot_error {err : Error} (h : rowSlot types scope e element name = .error err) :
    (err = .noElement element ∧ (types.find scope.description).tree.element? element = none) ∨
      ∃ f, err = .fault f ∧ f.isSlotKind = false := by
  simp only [rowSlot] at h
  split at h
  · rename_i he
    cases h
    exact .inl ⟨rfl, he⟩
  split at h
  · cases h; exact .inr ⟨_, rfl, rfl⟩
  split at h
  · cases h; exact .inr ⟨_, rfl, rfl⟩
  split at h
  · cases h; exact .inr ⟨_, rfl, rfl⟩
  · cases h

end Evaluation

end UiBinding
