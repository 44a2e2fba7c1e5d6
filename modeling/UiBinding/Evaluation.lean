import UiBinding.Accessor
import UiBinding.Segment.Field
import UiBinding.Value.Operators

namespace UiBinding

/-- Fills the fields of a segment that have a binding, in the order of the shape. Bindings
of other names are not evaluated. -/
def buildSegment (eval : Evaluator) (scope : Scope) (shape : SegmentShape)
    (bindings : Assoc Expr) : Run Segment :=
  shape.fields.foldlM
    (fun segment field =>
      match bindings.get? field.name with
      | none => pure segment
      | some body => do
        let n ← eval scope body
        match segment.store field n with
        | .ok segment => pure segment
        | .error failure => Run.fault (.segmentField shape failure field.name body))
    shape.start

def segmentOf (eval : Evaluator) (scope : Scope) (shape : String) (bindings : Assoc Expr) :
    Run Segment :=
  match SegmentShape.ofName? shape with
  | none => Run.fault (.unknownShape shape)
  | some shape => buildSegment eval scope shape bindings

namespace Evaluation

def kindOf (n : Native) : Run String :=
  match n.kind? with
  | some kind => pure kind
  | none => Run.fail (.noKind n.typeName)

variable (types : Catalog)

section

variable (eval : Evaluator)

def readProperty (scope : Scope) (e : Expr) (element : Int) (name : String) : Run Native := do
  let owner ← Run.resolve types scope.maxDepth element (some e) scope.context
  let d := types.find owner.self.description
  let (accessor, item) ← Run.ofExcept (d.locate owner.self.number element name e)
  accessor.get eval item owner

/-- The slot of a property of the row that the context is in. The element must be one that
repeats the component of the scope, and the context an instance of that component. -/
def rowSlot (scope : Scope) (e : Expr) (element : Int) (name : String) : Except Error Nat :=
  let d := types.find scope.description
  let actual := scope.context.self.description
  match d.tree.element? element with
  | none => .error (.noElement element)
  | some elem =>
    if elem.base ≠ .component d.component then
      .error (.fault (.notRepeating d.id elem.id name e))
    else if actual ≠ scope.description then
      .error (.fault (.wrongInstance (types.find actual).id d.id elem.id name e))
    else
      match d.customProperties.get? name with
      | none => .error (.fault (.notRepeated d.id elem.id name e))
      | some custom => .ok custom.offset

def readRow (scope : Scope) (e : Expr) (element : Int) (name : String) : Run Native := do
  let slot ← Run.ofExcept (rowSlot types scope e element name)
  (Accessor.custom name 0).get eval ⟨scope.context.self.number, slot, none⟩ scope.context

def emitSignal (scope : Scope) (e : Expr) (element : Int) (name : String) : Run Native := do
  let owner ← Run.resolve types scope.maxDepth element (some e) scope.context
  let d := types.find owner.self.description
  match ← signalOf types owner element name with
  | none => Run.fault (.unknownSignal ((d.tree.element? element).elim "" Element.id) name e)
  | some (_, signal) =>
    Run.log [.emitting name d.id]
    signal.emit fun h => do let _ ← eval h.scope h.body
    return .value .void

def assignProperty (scope : Scope) (e : Expr) (element : Int) (name : String) (op : AssignOp)
    (operand : Expr) : Run Native := do
  let owner ← Run.resolve types scope.maxDepth element (some e) scope.context
  let d := types.find owner.self.description
  let (accessor, item) ← Run.ofExcept (d.locate owner.self.number element name e)
  let current ← accessor.get eval item owner
  let change ← eval scope operand
  match current, change with
  | .value (.number m), .value (.number n) =>
    let x := op.apply m n
    Run.log [.writing d.id name x]
    accessor.set item (.value (.number x)) none
    return .value .void
  | a, b => do
    let left ← kindOf a
    let right ← kindOf b
    Run.fault (.assignmentOperands left op right name e)

def sequence (scope : Scope) (body : List Expr) : Run Native :=
  body.foldlM (fun _ e => eval scope e) (.value .void)

def applyBinary (e : Expr) (op : BinaryOp) (a b : Native) : Run Native :=
  match op.result? a b with
  | some v => pure (.value v)
  | none => do
    let left ← kindOf a
    let right ← kindOf b
    Run.fault (.binaryOperands left op right e)

def applyUnary (e : Expr) (op : UnaryOp) (n : Native) : Run Native :=
  match op.result? n with
  | some v => pure (.value v)
  | none => do
    let kind ← kindOf n
    Run.fault (.unaryOperand op kind e)

def readField (e : Expr) (base : Native) (name : String) : Run Native :=
  match base with
  | .value (.object fields) => pure (.value ((Assoc.get? fields name).getD .void))
  | n => do
    let kind ← kindOf n
    Run.fault (.fieldOf kind name e)

def arrayOf (items : List Native) : Run Native :=
  match items.mapM Native.asValue? with
  | some vs => pure (.value (.array vs))
  | none => Run.fail (.native .malformed)

def objectOf (fields : List (String × Native)) : Run Native :=
  match fields.mapM fun f => f.2.asValue?.map fun v => (f.1, v) with
  | some fs => pure (.value (.object fs))
  | none => Run.fail (.native .malformed)

/-- Evaluates one node, where `eval` evaluates its parts and the bindings and handlers that
it runs. -/
def step (scope : Scope) (e : Expr) : Run Native :=
  match e with
  | .invalid => Run.fault (.invalid e)
  | .uncompiled _ => Run.fault (.uncompiled e)
  | .foreign kind => Run.fault (.foreignKind kind e)
  | .string s => pure (.value (.string s))
  | .number n => pure (.value (.number n))
  | .bool b => pure (.value (.bool b))
  | .file location => pure (.value (.resource (.file location)))
  | .property element name => readProperty types eval scope e element name
  | .signal _ name => Run.fault (.signalAsValue name e)
  | .rowIndex element => readRow types eval scope e element Description.rowIndexName
  | .rowModel element => readRow types eval scope e element Description.rowModelName
  | .field base name => do readField e (← eval scope base) name
  | .cast source target => do return (← eval scope source).cast target
  | .block body => sequence eval scope body
  | .call (.signal element name) _ => emitSignal types eval scope e element name
  | .call _ _ => Run.fault (.notASignal e)
  | .assign (.property element name) op operand =>
    assignProperty types eval scope e element name op operand
  | .assign target op _ => Run.fault (.assignmentTarget target.kind op e)
  | .binary op left right => do
    let a ← eval scope left
    let b ← eval scope right
    applyBinary e op a b
  | .unary op operand => do applyUnary e op (← eval scope operand)
  | .condition test yes no => do
    match (← eval scope test).verdict? with
    | some b => eval scope (if b then yes else no)
    | none => Run.fault (.conditionNotBool e)
  | .array _ items => do arrayOf (← items.mapM (eval scope))
  | .object fields => do
    objectOf (← fields.mapM fun f => do return (f.1, ← eval scope f.2))
  | .path segments => do
    return .value (.path (← segments.mapM fun s => segmentOf eval scope s.1 s.2))

end

/-- Evaluates an expression with at most `depth` evaluations inside each other. -/
def eval : Nat → Evaluator
  | 0, _, _ => throw .exhausted
  | depth + 1, scope, e => step types (eval depth) scope e

end Evaluation

def fatalEvents (settings : Settings) (component : String) : Stop → List Event
  | .error (.fault f) => if settings.logErrors then [.fatal component f.diagnostic] else []
  | _ => []

/-- Evaluates an expression for a caller. A fatal error is logged once, here, and passed on. -/
def evaluate (types : Catalog) (depth : Nat) (settings : Settings) (e : Expr)
    (description : Nat) (c : Context) : Run Native :=
  tryCatch (Evaluation.eval types depth ⟨settings.maxContextDepth, description, c⟩ e)
    fun stop => do
      Run.log (fatalEvents settings (types.find description).id stop)
      throw stop

/-- Binds an expression to a property or signal of an element. A signal runs it on each
emission in the scope of its owner; a property evaluates it on each read. -/
def bindMember (types : Catalog) (settings : Settings) (element : Int) (name : String)
    (body : Expr) (c : Context) : Run Unit := do
  let owner ← Run.resolve types settings.maxContextDepth element (some body) c
  let self := owner.self
  match ← signalOf types owner element name with
  | some (slot, signal) =>
    Run.setCell self.number slot
      (.signal (signal.connect ⟨⟨settings.maxContextDepth, self.description, owner⟩, body⟩))
  | none =>
    let (accessor, item) ←
      Run.ofExcept ((types.find self.description).locate self.number element name body)
    accessor.bind item (.expression body settings.maxContextDepth self.description) none

end UiBinding
