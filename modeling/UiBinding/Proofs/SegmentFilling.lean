import UiBinding.Proofs.Congruence
import UiBinding.Proofs.Session

namespace UiBinding

namespace Value

end Value

namespace Segment

def data? : Segment → SegmentField → Option Native
  | lineTo l, .x => some (.float l.x)
  | lineTo l, .y => some (.float l.y)
  | lineTo _, _ => none
  | arcTo a, .x => some (.float a.x)
  | arcTo a, .y => some (.float a.y)
  | arcTo a, .radiusX => some (.float a.radiusX)
  | arcTo a, .radiusY => some (.float a.radiusY)
  | arcTo a, .xRotation => some (.float a.xRotation)
  | arcTo a, .largeArc => some (.bool a.largeArc)
  | arcTo a, .sweep => some (.bool a.sweep)

def put (r : Segment) (f : SegmentField) : Native → Segment
  | .float x => r.setNumber f x
  | .bool b => r.setFlag f b
  | _ => r

end Segment

section

variable (eval : Evaluator) (scope : Scope) (shape : SegmentShape) (bindings : Assoc Expr)

/-- How a field gets what stands in it, from one state to the next: what the expression that is
bound to it evaluates to, as data of the type of the field, or else its default. -/
inductive FillsField (f : SegmentField) (s : State) : State → Native → Prop
  | bound {body : Expr} {v : Value} {n : Native} {t : State}
      (hb : bindings.get? f.name = some body) (he : (eval scope body).run s = (.ok (.value v), t))
      (hn : v.unwrap f.type false = .ok n) : FillsField f s t n
  | unbound {n : Native} (hb : bindings.get? f.name = none)
      (hn : shape.start.data? f = some n) : FillsField f s s n

inductive RefusesField (f : SegmentField) (s : State) : Stop → State → Prop
  | unevaluated {body : Expr} {stop : Stop} {t : State} (hb : bindings.get? f.name = some body)
      (he : (eval scope body).run s = (.error stop, t)) : RefusesField f s stop t
  | unconverted {body : Expr} {n : Native} {t : State} (hb : bindings.get? f.name = some body)
      (he : (eval scope body).run s = (.ok n, t))
      (hn : ∀ v m, n = .value v → v.unwrap f.type false ≠ .ok m) :
      RefusesField f s
        (.error (.fault (.segmentField shape ⟨n.kind, f.type.name, none⟩ f.name body))) t

/-- How the turns of some fields end, where `before` are the states before each turn: with a segment
that holds what the turns filled in, or at the first field that refuses. -/
inductive InTurn (fields : List SegmentField) (before : Nat → State) :
    Except Stop Segment × State → Prop
  | completed {r : Segment} (hshape : r.shape = shape)
      (hfills : ∀ k f, fields[k]? = some f → ∃ n, r.data? f = some n ∧
        FillsField eval scope shape bindings f (before k) (before (k + 1)) n) :
      InTurn fields before (.ok r, before fields.length)
  | refused {k : Nat} {f : SegmentField} {stop : Stop} {t : State} (hk : fields[k]? = some f)
      (hfills : ∀ j g, j < k → fields[j]? = some g →
        ∃ n, FillsField eval scope shape bindings g (before j) (before (j + 1)) n)
      (hrefuses : RefusesField eval scope shape bindings f (before k) stop t) :
      InTurn fields before (.error stop, t)

variable {eval scope shape bindings}

theorem InTurn.cons {f : SegmentField} {fields : List SegmentField} {before : Nat → State}
    {s : State} {n : Native} {result : Except Stop Segment × State}
    (hfills : FillsField eval scope shape bindings f s (before 0) n)
    (hn : ∀ r, result.1 = .ok r → r.data? f = some n)
    (h : InTurn eval scope shape bindings fields before result) :
    InTurn eval scope shape bindings (f :: fields) (fun | 0 => s | k + 1 => before k) result := by
  cases h with
  | completed hshape hrest =>
      refine .completed hshape fun k g hk => ?_
      cases k with
      | zero =>
          cases hk
          exact ⟨n, hn _ rfl, hfills⟩
      | succ k => exact hrest k g hk
  | @refused k _ _ _ hk hrest hrefuses =>
      refine .refused (k := k + 1) hk (fun j g hj hg => ?_) hrefuses
      cases j with
      | zero =>
          cases hg
          exact ⟨n, hfills⟩
      | succ j => exact hrest j g (Nat.lt_of_succ_lt_succ hj) hg

variable (eval scope shape bindings)

end

namespace Sample

def raised : Expr :=
  .block [.assign (.property 0 "scale") .add (.number .half), .property 0 "scale"]

end Sample

end UiBinding
