import UiBinding.Proofs.Grouping
import UiBinding.Proofs.Session

namespace UiBinding

namespace Expr

theorem parenthesize_ne_self (s : String) : parenthesize true s ≠ s := by
  intro h
  have hlength := congrArg String.length h
  rw [parenthesize, if_pos rfl, String.length_append, String.length_append] at hlength
  change 1 + s.length + 1 = s.length at hlength
  omega

section Render

variable (name : Int → String)

theorem render_eq_parenthesize {around : Nat} (h : around ≤ operandPrecedence) (e : Expr) :
    render name around e = parenthesize (level e < around) (render name 0 e) := by
  have hbare : parenthesize (operandPrecedence < around) (render name 0 e) = render name 0 e := by
    rw [decide_eq_false (Nat.not_lt.2 h)]
    rfl
  cases e with
  | binary | condition => rfl
  | block body => cases body <;> exact hbare.symm
  | object fields => cases fields <;> exact hbare.symm
  | _ => exact hbare.symm

theorem render_eq_iff {around : Nat} (h : around ≤ operandPrecedence) (e : Expr) :
    render name 0 e = render name around e ↔ around ≤ level e := by
  rw [render_eq_parenthesize name h]
  rcases Nat.lt_or_ge (level e) around with hlt | hge
  · rw [decide_eq_true hlt]
    exact iff_of_false (parenthesize_ne_self _).symm (Nat.not_le.2 hlt)
  · rw [decide_eq_false (Nat.not_lt.2 hge)]
    exact iff_of_true rfl hge

theorem render_field_unary (op : UnaryOp) (e : Expr) (member : String) :
    render name 0 (field (unary op e) member) = render name 0 (unary op (field e member)) := by
  simp only [render, String.append_assoc]

theorem render_call_unary (op : UnaryOp) (e : Expr) (args : List Expr) :
    render name 0 (call (unary op e) args) = render name 0 (unary op (call e args)) := by
  simp only [render, String.append_assoc]

theorem render_binary_assign_iff (op : BinaryOp) (target l r : Expr) (a : AssignOp) :
    render name 0 (binary op (assign target a l) r) =
      render name 0 (assign target a (binary op l r)) ↔ precedence op ≤ level l := by
  rw [← render_eq_iff name (precedence_lt op).le]
  simp only [render, parenthesize, Nat.not_lt_zero, decide_false, Bool.false_eq_true, if_false,
    String.append_assoc, String.append_right_inj, String.append_left_inj]

end Render

/-- A field or a call of a unary operation always prints like the operation on the field or the call.
A binary operation on an assignment prints unlike the assignment of the operation just where the
operand of the assignment is a condition or a looser binary operation. -/
theorem render_ungrouped_iff (name : Int → String) :
    (∀ op e member, render name 0 (field (unary op e) member) =
      render name 0 (unary op (field e member))) ∧
    (∀ op e args, render name 0 (call (unary op e) args) =
      render name 0 (unary op (call e args))) ∧
    ∀ op target a l r, render name 0 (binary op (assign target a l) r) ≠
        render name 0 (assign target a (binary op l r)) ↔
      (∃ test yes no, l = condition test yes no) ∨
        ∃ looser x y, l = binary looser x y ∧ precedence looser < precedence op := by
  refine ⟨render_field_unary name, render_call_unary name, fun op target a l r => ?_⟩
  rw [Ne, render_binary_assign_iff, Nat.not_le]
  cases l with
  | binary looser x y => simp [level]
  | condition => simp [level, precedence_pos]
  | _ => simp [level, (precedence_lt op).le]

end Expr

namespace Sample

def scale : Expr := .property 0 "scale"

/-- The first of the two expressions assigns and then adds to what that yields, the second one
assigns a sum. The first stops, as nothing is added to void. -/
theorem scaled_sum_alike :
    (Expr.field (.unary .minus scale) "x").text = "-#0.scale.x" ∧
      (Expr.unary .minus (.field scale "x")).text = "-#0.scale.x" ∧
      (Expr.call (.unary .not (.signal 0 "done")) []).text = "!#0.done()" ∧
      (Expr.unary .not (.call (.signal 0 "done") [])).text = "!#0.done()" ∧
      (Expr.binary .add (.assign scale .add scale) scale).text = "#0.scale += #0.scale + #0.scale" ∧
      (Expr.assign scale .add (.binary .add scale scale)).text = "#0.scale += #0.scale + #0.scale" ∧
      (∃ f, ((Evaluation.eval world.types 3 ⟨64, 0, outer⟩
        (.binary .add (.assign scale .add scale) scale)).run world.state).1 =
          .error (.error (.fault f))) ∧
      ((Evaluation.eval world.types 3 ⟨64, 0, outer⟩
        (.assign scale .add (.binary .add scale scale))).run world.state).1 = .ok (.value .void) :=
  ⟨by decide +kernel, by decide +kernel, by decide +kernel, by decide +kernel, by decide +kernel,
    by decide +kernel, ⟨_, rfl⟩, rfl⟩

end Sample

end UiBinding
