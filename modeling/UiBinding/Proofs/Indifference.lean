import UiBinding.Proofs.Congruence
import UiBinding.Proofs.Session

namespace UiBinding

namespace Evaluation

variable {types : Catalog} {maxDepth d d' : Nat} {c : Context} {e : Expr}

theorem step_congr_description {eval : Evaluator}
    (hparts : ∀ x ∈ e.parts, eval ⟨maxDepth, d, c⟩ x = eval ⟨maxDepth, d', c⟩ x)
    (hrow : ∀ i, e.row? = some i →
      step types eval ⟨maxDepth, d, c⟩ e = step types eval ⟨maxDepth, d', c⟩ e) :
    step types eval ⟨maxDepth, d, c⟩ e = step types eval ⟨maxDepth, d', c⟩ e := by
  refine Run.Congruence.eq.step hparts ?_ ?_ ?_ ?_ ?_
  · intro element name _
    rfl
  · rintro element rfl
    exact hrow element rfl
  · rintro element rfl
    exact hrow element rfl
  · intro element name args _
    rfl
  · rintro element name op operand rfl
    have hoperand := hparts operand (by simp [Expr.parts])
    simp only [assignProperty, hoperand]

theorem eval_congr_description
    (h : e.Everywhere fun x => ∀ i, x.row? = some i → ∀ depth,
      eval types depth ⟨maxDepth, d, c⟩ x = eval types depth ⟨maxDepth, d', c⟩ x) (depth : Nat) :
    eval types depth ⟨maxDepth, d, c⟩ e = eval types depth ⟨maxDepth, d', c⟩ e := by
  induction depth generalizing e with
  | zero => rfl
  | succ depth ih =>
      exact step_congr_description (fun x hx => ih (h.inside x hx))
        fun i hi => h.here i hi (depth + 1)

/-- The description that an expression is evaluated under is for its own references to rows. An
expression without any gives the same under every description and leaves the same state, whatever
the bindings and handlers that it runs refer to: these bring the description of their own. -/
theorem eval_indifferent (types : Catalog) (depth maxDepth d d' : Nat) (c : Context) (s : State)
    {e : Expr} (h : e.RowsIn fun _ => False) :
    (eval types depth ⟨maxDepth, d, c⟩ e).run s = (eval types depth ⟨maxDepth, d', c⟩ e).run s := by
  have hrows : e.Everywhere fun x => ∀ i, x.row? = some i → ∀ depth,
      eval types depth ⟨maxDepth, d, c⟩ x = eval types depth ⟨maxDepth, d', c⟩ x :=
    h.imp fun x hx i hi => (hx i hi).elim
  rw [eval_congr_description hrows]

end Evaluation

namespace Sample

theorem text_under_frame :
    (Expr.property 2 "text").RowsIn (fun _ => False) ∧
      ((Evaluation.eval world.types 3 ⟨64, 0, inner 2⟩ (.property 2 "text")).run world.state).1 =
        .ok (.value (.string "b")) ∧
      ((Evaluation.eval world.types 3 ⟨64, 0, inner 2⟩ (.rowModel 1)).run world.state).1 ≠
        ((Evaluation.eval world.types 3 ⟨64, 1, inner 2⟩ (.rowModel 1)).run world.state).1 := by
  have hrows : (Expr.property 2 "text").RowsIn fun _ => False := .intro _ nofun nofun
  refine ⟨hrows, ?_, ?_⟩
  · rw [Evaluation.eval_indifferent world.types 3 64 0 1 (inner 2) world.state hrows]
    rfl
  · have hrow : ((Evaluation.eval world.types 3 ⟨64, 1, inner 2⟩ (.rowModel 1)).run
        world.state).1 = .ok (.value (.string "b")) := rfl
    rw [hrow]
    nofun

end Sample

end UiBinding
