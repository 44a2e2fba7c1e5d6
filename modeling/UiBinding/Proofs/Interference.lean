import UiBinding.Proofs.Session

namespace UiBinding

namespace Context

theorem depth_le_of_mem_chain {c o : Context} (h : o ∈ c.chain) : o.depth ≤ c.depth := by
  induction c with
  | outermost number self =>
      rw [List.mem_singleton.1 h]
  | nested number self parent ih =>
      obtain rfl | hp := List.mem_cons.1 h
      · exact Nat.le_refl _
      · exact Nat.le_succ_of_le (ih hp)

theorem sibling_not_mem_chain {c o : Context} (hp : o.parent? = c.parent?) (hne : o ≠ c) :
    o ∉ c.chain := by
  intro h
  cases c with
  | outermost number self => exact hne (List.mem_singleton.1 h)
  | nested number self parent =>
      obtain he | hmem := List.mem_cons.1 h
      · exact hne he
      · cases o with
        | outermost => cases hp
        | nested n s p =>
            cases hp
            have : parent.depth + 1 ≤ parent.depth := depth_le_of_mem_chain hmem
            omega

end Context

variable {types : Catalog} {s t : State} {made : List Context}

theorem Kept.not_number_of_not_mem_chain (h : Kept types made s) {c o : Context} (hc : c ∈ made)
    (ho : o ∈ made) (hn : o ∉ c.chain) : ∀ p ∈ c.chain, p.self.number ≠ o.self.number := by
  intro p hp he
  have := h.distinct (h.chain_subset hc hp) ho he
  exact hn (this ▸ hp)

/-- Evaluation in a context changes no slot of an instance that is not around it, in
particular not those of a sibling row, and what it gives and leaves on the instances around it
depends on these alone. -/
theorem Reaches.evaluate_noninterference {cs : List Context} (h : Reaches ⟨types, s⟩ cs)
    {c : Context} (hc : c ∈ cs) (hagree : ∀ o ∈ c.chain, t.slots o.self.number = s.slots o.self.number)
    (depth : Nat) (settings : Settings) (e : Expr) (description : Nat) :
    (∀ n, (∀ o ∈ c.chain, o.self.number ≠ n) →
      ((evaluate types depth settings e description c).run s).2.slots n = s.slots n) ∧
    (∀ o ∈ cs, o.parent? = c.parent? → o ≠ c →
      ((evaluate types depth settings e description c).run s).2.slots o.self.number =
        s.slots o.self.number) ∧
    ((evaluate types depth settings e description c).run t).1 =
      ((evaluate types depth settings e description c).run s).1 ∧
    ∀ o ∈ c.chain,
      ((evaluate types depth settings e description c).run t).2.slots o.self.number =
        ((evaluate types depth settings e description c).run s).2.slots o.self.number := by
  obtain ⟨made, hsub, hk⟩ := h.kept
  have hchain := hk.chain_subset (hsub hc)
  have ha : Aligned types (.rows fun _ => True) (· ∈ c.chain) s t s t :=
    ⟨fun o ho => hk.suits o (hchain ho), hagree, fun _ _ => ⟨rfl, rfl⟩, rfl, rfl⟩
  obtain ⟨hresult, halign, -⟩ := settles_evaluate (hk.region_chain (hsub hc)) .all depth settings
    c.self_mem_chain trivial e.rowsIn_all s t ha
  refine ⟨fun n hn => (halign.frame n hn).1, fun o ho hp hne => ?_, hresult.symm, halign.alike⟩
  exact (halign.frame _ (hk.not_number_of_not_mem_chain (hsub hc) (hsub ho)
    (Context.sibling_not_mem_chain hp hne))).1

namespace Sample

def rebound : World := (world.run (Call.bind .standard 2 "color" (.bool true) (inner 2)).run).2

theorem rebound_outer : rebound.state.slots 0 = frame.roles.map Role.start := rfl

theorem rebound_inner : rebound.state.slots 1 = rowCells 0 "a" := rfl

theorem rows_apart :
    ((evaluate [frame, row] 5 .standard (.property 2 "text") 1 (inner 1)).run rebound.state).1 =
      ((evaluate [frame, row] 5 .standard (.property 2 "text") 1 (inner 1)).run world.state).1 := by
  have hagree : ∀ o ∈ (inner 1).chain,
      rebound.state.slots o.self.number = world.state.slots o.self.number := by
    intro o ho
    obtain rfl | ho := List.mem_cons.1 ho
    · exact rebound_inner.trans inner_slots.symm
    · rw [List.mem_singleton.1 ho]
      exact rebound_outer.trans outer_slots.symm
  have h : Reaches ⟨[frame, row], world.state⟩ [outer, inner 1, inner 2] := reaches_world
  exact (h.evaluate_noninterference (by simp) hagree 5 .standard (.property 2 "text") 1).2.2.1

end Sample

end UiBinding
