import UiBinding.Proofs.Walk

namespace UiBinding.Run

/-- A relation between computations that holds of those that only give a result or fail with
themselves, and that sequencing keeps. -/
structure Congruence (R : ∀ α : Type, Run α → Run α → Prop) : Prop where
  pure : ∀ {α : Type} (a : α), R α (Pure.pure a) (Pure.pure a)
  fail : ∀ {α : Type} (e : Error), R α (Run.fail e) (Run.fail e)
  bind : ∀ {α β : Type} {m m' : Run β} {f f' : β → Run α}, R β m m' → (∀ b, R α (f b) (f' b)) →
    R α (m >>= f) (m' >>= f')

namespace Congruence

variable {R : ∀ α : Type, Run α → Run α → Prop} {α β : Type}

theorem fault (h : Congruence R) (f : Fault) : R α (Run.fault f) (Run.fault f) := h.fail (.fault f)

theorem ofExcept (h : Congruence R) (x : Except Error α) : R α (Run.ofExcept x) (Run.ofExcept x) := by
  cases x with
  | ok a => exact h.pure a
  | error e => exact h.fail e

theorem mapM (h : Congruence R) {f f' : α → Run β} (l : List α)
    (hf : ∀ a ∈ l, R β (f a) (f' a)) : R (List β) (l.mapM f) (l.mapM f') := by
  induction l with
  | nil => exact h.pure []
  | cons a l ih =>
      rw [List.mapM_cons, List.mapM_cons]
      refine h.bind (hf a (by simp)) fun b => ?_
      exact h.bind (ih fun x hx => hf x (by simp [hx])) fun bs => h.pure (b :: bs)

theorem foldlM (h : Congruence R) {f f' : β → α → Run β} (l : List α)
    (hf : ∀ b, ∀ a ∈ l, R β (f b a) (f' b a)) (b : β) :
    R β (l.foldlM f b) (l.foldlM f' b) := by
  induction l generalizing b with
  | nil => exact h.pure b
  | cons a l ih =>
      rw [List.foldlM_cons, List.foldlM_cons]
      exact h.bind (hf b a (by simp)) fun c => ih (fun x y hy => hf x y (by simp [hy])) c

section Results

variable {n : Native} {e : Expr}

theorem kindOf (h : Congruence R) : R String (Evaluation.kindOf n) (Evaluation.kindOf n) := by
  rw [Evaluation.kindOf]
  split
  · exact h.pure _
  · exact h.fail _

theorem applyBinary (h : Congruence R) {op : BinaryOp} {a b : Native} :
    R Native (Evaluation.applyBinary e op a b) (Evaluation.applyBinary e op a b) := by
  rw [Evaluation.applyBinary]
  split
  · exact h.pure _
  · exact h.bind h.kindOf fun _ => h.bind h.kindOf fun _ => h.fault _

theorem applyUnary (h : Congruence R) {op : UnaryOp} :
    R Native (Evaluation.applyUnary e op n) (Evaluation.applyUnary e op n) := by
  rw [Evaluation.applyUnary]
  split
  · exact h.pure _
  · exact h.bind h.kindOf fun _ => h.fault _

theorem readField (h : Congruence R) {name : String} :
    R Native (Evaluation.readField e n name) (Evaluation.readField e n name) := by
  rw [Evaluation.readField.eq_def]
  split
  · exact h.pure _
  · exact h.bind h.kindOf fun _ => h.fault _

theorem arrayOf (h : Congruence R) {items : List Native} :
    R Native (Evaluation.arrayOf items) (Evaluation.arrayOf items) := by
  rw [Evaluation.arrayOf]
  split
  · exact h.pure _
  · exact h.fail _

theorem objectOf (h : Congruence R) {fields : List (String × Native)} :
    R Native (Evaluation.objectOf fields) (Evaluation.objectOf fields) := by
  rw [Evaluation.objectOf]
  split
  · exact h.pure _
  · exact h.fail _

end Results

section Nodes

variable {types : Catalog} {eval eval' : Evaluator} {scope scope' : Scope} {e : Expr}

theorem segmentOf (h : Congruence R) (shape : String) {bindings : Assoc Expr}
    (hparts : ∀ x ∈ bindings.map Prod.snd, R Native (eval scope x) (eval' scope' x)) :
    R Segment (UiBinding.segmentOf eval scope shape bindings)
      (UiBinding.segmentOf eval' scope' shape bindings) := by
  rw [UiBinding.segmentOf, UiBinding.segmentOf]
  cases SegmentShape.ofName? shape with
  | none => exact h.fault _
  | some shape =>
      refine h.foldlM _ (fun segment field _ => ?_) _
      cases hb : bindings.get? field.name with
      | none => exact h.pure segment
      | some body =>
          refine h.bind (hparts body (List.mem_map.2 ⟨_, Assoc.mem_of_get? hb, rfl⟩)) fun n => ?_
          cases segment.store field n with
          | ok segment => exact h.pure segment
          | error failure => exact h.fault _

/-- Two evaluators that are related on the parts of a node, each in its scope, and on the slots
that the node denotes are related on the node. -/
theorem step (h : Congruence R)
    (hparts : ∀ x ∈ e.parts, R Native (eval scope x) (eval' scope' x))
    (hproperty : ∀ element name, e = .property element name →
      R Native (Evaluation.readProperty types eval scope e element name)
        (Evaluation.readProperty types eval' scope' e element name))
    (hindex : ∀ element, e = .rowIndex element →
      R Native (Evaluation.readRow types eval scope e element Description.rowIndexName)
        (Evaluation.readRow types eval' scope' e element Description.rowIndexName))
    (hmodel : ∀ element, e = .rowModel element →
      R Native (Evaluation.readRow types eval scope e element Description.rowModelName)
        (Evaluation.readRow types eval' scope' e element Description.rowModelName))
    (hcall : ∀ element name args, e = .call (.signal element name) args →
      R Native (Evaluation.emitSignal types eval scope e element name)
        (Evaluation.emitSignal types eval' scope' e element name))
    (hassign : ∀ element name op operand, e = .assign (.property element name) op operand →
      R Native (Evaluation.assignProperty types eval scope e element name op operand)
        (Evaluation.assignProperty types eval' scope' e element name op operand)) :
    R Native (Evaluation.step types eval scope e) (Evaluation.step types eval' scope' e) := by
  cases e with
  | invalid | uncompiled | foreign | signal => exact h.fault _
  | string | number | bool | file => exact h.pure _
  | property element name => exact hproperty element name rfl
  | rowIndex element => exact hindex element rfl
  | rowModel element => exact hmodel element rfl
  | field base name =>
      exact h.bind (hparts base (by simp [Expr.parts])) fun n => h.readField
  | cast source target =>
      exact h.bind (hparts source (by simp [Expr.parts])) fun n => h.pure _
  | block body => exact h.foldlM _ (fun _ x hx => hparts x hx) _
  | call callee args =>
      cases callee with
      | signal element name => exact hcall element name args rfl
      | _ => exact h.fault _
  | assign target op operand =>
      cases target with
      | property element name => exact hassign element name op operand rfl
      | _ => exact h.fault _
  | binary op left right =>
      refine h.bind (hparts left (by simp [Expr.parts])) fun a => ?_
      exact h.bind (hparts right (by simp [Expr.parts])) fun b => h.applyBinary
  | unary op operand =>
      exact h.bind (hparts operand (by simp [Expr.parts])) fun n => h.applyUnary
  | condition test yes no =>
      refine h.bind (hparts test (by simp [Expr.parts])) fun n => ?_
      cases n.verdict? with
      | none => exact h.fault _
      | some b =>
          cases b with
          | false => exact hparts no (by simp [Expr.parts])
          | true => exact hparts yes (by simp [Expr.parts])
  | array type items =>
      exact h.bind (h.mapM items fun x hx => hparts x hx) fun _ => h.arrayOf
  | object fields =>
      have hfield (f : String × Expr) (hmem : f ∈ fields) :
          R (String × Native) (do return (f.1, ← eval scope f.2))
            (do return (f.1, ← eval' scope' f.2)) :=
        h.bind (hparts f.2 (List.mem_map.2 ⟨f, hmem, rfl⟩)) fun _ => h.pure _
      exact h.bind (h.mapM fields hfield) fun _ => h.objectOf
  | path segments =>
      have hsegments := h.mapM segments fun s hs => h.segmentOf s.1
        fun x hx => hparts x (List.mem_flatMap.2 ⟨s, hs, hx⟩)
      exact h.bind hsegments fun _ => h.pure _

end Nodes

theorem eq : Congruence fun _ m m' => m = m' where
  pure _ := rfl
  fail _ := rfl
  bind hm hf := by rw [hm, funext hf]

end Congruence

end UiBinding.Run
