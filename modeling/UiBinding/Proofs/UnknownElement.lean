import UiBinding.Proofs.Access
import UiBinding.Proofs.Session

namespace UiBinding

namespace Expr

def sought? : Expr → Option Int
  | property element _ => some element
  | call (signal element _) _ => some element
  | assign (property element _) _ _ => some element
  | _ => none

end Expr

def SegmentShape.firstBody? (shape : SegmentShape) (bindings : Assoc Expr) : Option Expr :=
  shape.fields.findSome? fun field => bindings.get? field.name

namespace Expr

/-- The part of an expression that is evaluated before all else in it. -/
inductive First (x : Expr) : Expr → Prop
  | field (name : String) : First x (.field x name)
  | cast (target : DeclaredType) : First x (.cast x target)
  | block (rest : List Expr) : First x (.block (x :: rest))
  | binary (op : BinaryOp) (right : Expr) : First x (.binary op x right)
  | unary (op : UnaryOp) : First x (.unary op x)
  | condition (yes no : Expr) : First x (.condition x yes no)
  | array (type : Option DeclaredType) (rest : List Expr) : First x (.array type (x :: rest))
  | object (name : String) (rest : List (String × Expr)) : First x (.object ((name, x) :: rest))
  | path {idle rest : List (String × List (String × Expr))} {name : String} {shape : SegmentShape}
      {bindings : List (String × Expr)}
      (hidle : ∀ segment ∈ idle, ∃ shape, SegmentShape.ofName? segment.1 = some shape ∧
        shape.firstBody? segment.2 = none)
      (hshape : SegmentShape.ofName? name = some shape) (hx : shape.firstBody? bindings = some x) :
      First x (.path (idle ++ (name, bindings) :: rest))

/-- An expression that is evaluated first of all when another one is, at any depth in it. -/
inductive Leads (x : Expr) : Expr → Prop
  | here : Leads x x
  | inside {y e : Expr} (h : Leads x y) (hy : First y e) : Leads x e

end Expr

namespace Run

def Stops {α : Type} (m : Run α) (stop : Stop) (s t : State) : Prop := m.run s = (.error stop, t)

variable {α β : Type} {stop : Stop} {s t : State}

theorem Stops.bind {m : Run β} (h : m.Stops stop s t) (f : β → Run α) :
    (m >>= f).Stops stop s t := by
  rw [Stops, run_bind, h]

theorem stops_mapM_append {f : α → Run β} {l : List α} (hl : ∀ a ∈ l, ∃ b, f a = pure b) {a : α}
    (ha : (f a).Stops stop s t) (rest : List α) : ((l ++ a :: rest).mapM f).Stops stop s t := by
  induction l with
  | nil =>
      rw [List.nil_append, List.mapM_cons]
      exact ha.bind _
  | cons x l ih =>
      obtain ⟨b, hb⟩ := hl x (by simp)
      rw [List.cons_append, List.mapM_cons, hb, pure_bind]
      exact (ih fun y hy => hl y (by simp [hy])).bind _

end Run

section Segments

variable {eval : Evaluator} {scope : Scope} {shape : SegmentShape} {bindings : Assoc Expr}

theorem buildSegment_idle (h : shape.firstBody? bindings = none) :
    buildSegment eval scope shape bindings = pure shape.start := by
  rw [SegmentShape.firstBody?, List.findSome?_eq_none_iff] at h
  rw [buildSegment]
  generalize shape.start = segment
  generalize shape.fields = fields at h
  induction fields with
  | nil => rfl
  | cons field fields ih =>
      rw [List.foldlM_cons, h field (by simp)]
      exact ih fun f hf => h f (by simp [hf])

theorem stops_buildSegment {body : Expr} {stop : Stop} {s t : State}
    (h : shape.firstBody? bindings = some body) (hbody : (eval scope body).Stops stop s t) :
    (buildSegment eval scope shape bindings).Stops stop s t := by
  rw [SegmentShape.firstBody?] at h
  rw [buildSegment]
  generalize shape.start = segment
  generalize shape.fields = fields at h
  induction fields with
  | nil => cases h
  | cons field fields ih =>
      rw [List.foldlM_cons]
      rw [List.findSome?_cons] at h
      cases hb : bindings.get? field.name with
      | none =>
          rw [hb] at h
          exact ih h
      | some found =>
          rw [hb] at h
          obtain rfl := Option.some.inj h
          exact (hbody.bind _).bind _

end Segments

section Evaluate

variable {types : Catalog} {eval : Evaluator} {scope : Scope} {x e : Expr} {stop : Stop}
  {s t : State}

theorem stops_step (h : x.First e) (hx : (eval scope x).Stops stop s t) :
    (Evaluation.step types eval scope e).Stops stop s t := by
  cases h with
  | field | cast | binary | unary | condition => exact hx.bind _
  | block rest =>
      change (Evaluation.sequence eval scope (x :: rest)).Stops stop s t
      rw [Evaluation.sequence, List.foldlM_cons]
      exact hx.bind _
  | array type rest => exact (Run.stops_mapM_append (l := []) nofun hx rest).bind _
  | object name rest =>
      exact (Run.stops_mapM_append (l := []) nofun (a := (name, x)) (hx.bind _) rest).bind _
  | @path idle rest name shape bindings hidle hshape hfirst =>
      have hsegment : (segmentOf eval scope name bindings).Stops stop s t := by
        rw [segmentOf, hshape]
        exact stops_buildSegment hfirst hx
      refine (Run.stops_mapM_append (fun segment hmem => ?_) (a := (name, bindings)) hsegment
        rest).bind _
      obtain ⟨shape, hname, hnone⟩ := hidle segment hmem
      exact ⟨shape.start, by rw [segmentOf, hname]; exact buildSegment_idle hnone⟩

theorem stops_eval (h : x.Leads e)
    (hx : ∀ depth, (Evaluation.eval types (depth + 1) scope x).Stops stop s t) :
    ∃ depth, ∀ more, depth ≤ more → (Evaluation.eval types more scope e).Stops stop s t := by
  induction h with
  | here =>
      refine ⟨1, fun more hmore => ?_⟩
      obtain ⟨more, rfl⟩ : ∃ n, more = n + 1 := ⟨more - 1, by omega⟩
      exact hx more
  | inside _ hy ih =>
      obtain ⟨depth, hdepth⟩ := ih
      refine ⟨depth + 1, fun more hmore => ?_⟩
      obtain ⟨more, rfl⟩ : ∃ n, more = n + 1 := ⟨more - 1, by omega⟩
      exact stops_step hy (hdepth more (by omega))

variable {element : Int}

theorem stops_resolve {limit : Int} {blame : Option Expr} {c : Context}
    (h : ¬ InRange (types.find c.self.description).tree.elements element) :
    (Run.resolve types limit element blame c).Stops
      (.error (.fault (.unknownElement element blame))) s s := by
  have hnone : (types.find c.self.description).tree.element? element = none :=
    at?_eq_none_iff.2 h
  have hfound : c.resolve types limit element blame =
      ([], .error (.unknownElement element blame)) := by
    simp only [Context.resolve, hnone]
  rw [Run.Stops, Run.run_resolve_error (congrArg Prod.snd hfound), hfound]
  simp [State.logged]

theorem stops_sought (hx : x.sought? = some element)
    (h : ¬ InRange (types.find scope.context.self.description).tree.elements element) :
    (Evaluation.step types eval scope x).Stops
      (.error (.fault (.unknownElement element (some x)))) s s := by
  unfold Expr.sought? at hx
  split at hx <;> cases hx
  · exact (stops_resolve h).bind _
  · exact (stops_resolve h).bind _
  · exact (stops_resolve h).bind _

theorem stops_row (hx : x.row? = some element)
    (h : ¬ InRange (types.find scope.description).tree.elements element) :
    (Evaluation.step types eval scope x).Stops (.error (.noElement element)) s s := by
  have hnone : (types.find scope.description).tree.element? element = none := at?_eq_none_iff.2 h
  have hread (name : String) :
      (Evaluation.readRow types eval scope x element name).Stops (.error (.noElement element)) s
        s := by
    rw [Evaluation.readRow, Evaluation.rowSlot, hnone]
    rfl
  unfold Expr.row? at hx
  split at hx <;> cases hx
  · exact hread _
  · exact hread _

theorem stops_evaluate {settings : Settings} {depth description : Nat} {c : Context}
    (h : (Evaluation.eval types depth ⟨settings.maxContextDepth, description, c⟩ e).Stops stop s t) :
    (evaluate types depth settings e description c).Stops stop s
      (t.logged (fatalEvents settings (types.find description).id stop)) := by
  rw [Run.Stops, evaluate, Run.run_tryCatch, h]
  rfl

theorem stops_evaluate_row {settings : Settings} {depth description : Nat} {c : Context}
    (h : (Evaluation.eval types depth ⟨settings.maxContextDepth, description, c⟩ e).Stops
      (.error (.noElement element)) s s) :
    (evaluate types depth settings e description c).Stops (.error (.noElement element)) s s := by
  have hevents : fatalEvents settings (types.find description).id (.error (.noElement element)) =
      [] := rfl
  have hstops := stops_evaluate h
  rwa [hevents, State.logged, List.append_nil] at hstops

end Evaluate

/-- An element that the tree does not have is reported, and logged, as an unresolved reference
wherever the search for its owner is the first thing to do. A reference to a row looks its
element up in the tree itself, and what that raises is no fatal error and not logged. -/
theorem evaluate_unknown_element (types : Catalog) (settings : Settings) {x e : Expr}
    (h : x.Leads e) (description : Nat) (c : Context) (s : State) (element : Int) :
    let out := fun depth => (evaluate types depth settings e description c).run s
    (x.sought? = some element →
      ¬ InRange (types.find c.self.description).tree.elements element →
        ∃ depth, ∀ more, depth ≤ more →
          out more = (.error (.error (.fault (.unknownElement element (some x)))),
            s.logged (if settings.logErrors then
              [.fatal (types.find description).id ⟨.unresolvedReference,
                "Unknown element index " ++ toString element, none, none, none, some x⟩]
            else []))) ∧
    (x.row? = some element → ¬ InRange (types.find description).tree.elements element →
      ∃ depth, ∀ more, depth ≤ more → out more = (.error (.error (.noElement element)), s)) := by
  let scope : Scope := ⟨settings.maxContextDepth, description, c⟩
  refine ⟨fun hx hrange => ?_, fun hx hrange => ?_⟩
  · have hstops (depth : Nat) : (Evaluation.eval types (depth + 1) scope x).Stops
        (.error (.fault (.unknownElement element (some x)))) s s := stops_sought hx hrange
    obtain ⟨depth, hdepth⟩ := stops_eval h hstops
    exact ⟨depth, fun more hmore => stops_evaluate (hdepth more hmore)⟩
  · have hstops (depth : Nat) : (Evaluation.eval types (depth + 1) scope x).Stops
        (.error (.noElement element)) s s := stops_row hx hrange
    obtain ⟨depth, hdepth⟩ := stops_eval h hstops
    exact ⟨depth, fun more hmore => stops_evaluate_row (hdepth more hmore)⟩

namespace Sample

theorem negative_element_reported :
    let x : Expr := .property (-1) "text"
    let e : Expr := .path [("LineTo", []), ("LineTo", [("y", .unary .minus x)])]
    x.Leads e ∧ ¬ InRange tree.elements (-1) ∧ ∃ depth, ∀ more, depth ≤ more →
      (evaluate world.types more .standard e 1 (inner 1)).run world.state =
        (.error (.error (.fault (.unknownElement (-1) (some x)))),
          world.state.logged [.fatal "Row" ⟨.unresolvedReference, "Unknown element index -1", none,
            none, none, some x⟩]) := by
  intro x e
  have hidle : ∀ segment ∈ [(("LineTo", []) : String × List (String × Expr))], ∃ shape,
      SegmentShape.ofName? segment.1 = some shape ∧ shape.firstBody? segment.2 = none := by
    intro segment hmem
    rw [List.mem_singleton.1 hmem]
    exact ⟨.line, rfl, rfl⟩
  have hleads : x.Leads e := .inside (.inside .here (.unary .minus)) (.path hidle rfl rfl)
  have hrange : ¬ InRange tree.elements (-1) := by decide
  exact ⟨hleads, hrange, (evaluate_unknown_element world.types .standard hleads 1 (inner 1)
    world.state (-1)).1 rfl hrange⟩

/-- A repeated component asks for its position in an element that its tree does not have. -/
theorem unknown_row_escapes :
    ¬ InRange tree.elements 9 ∧
      (evaluate world.types 1 .standard (.rowIndex 9) 1 (inner 1)).run world.state =
        (.error (.error (.noElement 9)), world.state) := by
  have hrange : ¬ InRange tree.elements 9 := by decide
  exact ⟨hrange, stops_evaluate_row (stops_row rfl hrange)⟩

end Sample

end UiBinding
