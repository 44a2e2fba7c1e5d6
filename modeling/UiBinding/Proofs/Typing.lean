import UiBinding.Proofs.Alignment

namespace UiBinding

def Value.OfTag (v : Value) (t : Option Tag) : Prop := ∀ k, t = some k → v.tag = k

theorem Value.ofTag_some {v : Value} {k : Tag} (h : v.tag = k) : v.OfTag (some k) := by
  rintro _ ⟨⟩
  exact h

def DeclaredType.tag? : DeclaredType → Option Tag
  | void | signal => none
  | t => some t.start.tag

def Role.tag? : Role → Option Tag
  | custom p => p.type.bind DeclaredType.tag?
  | signal => none
  | item q => q.type.tag?

namespace BinaryOp

def operand? : BinaryOp → Option Tag
  | add | sub | mul | div | lt | gt | le | ge => some .number
  | and | or => some .bool
  | eq | ne => none

def tag : BinaryOp → Tag
  | add | sub | mul | div => .number
  | _ => .bool

theorem exists_result? {op : BinaryOp} {a b : Value} (ha : a.OfTag op.operand?)
    (hb : b.OfTag op.operand?) :
    ∃ v, op.result? (.value a) (.value b) = some v ∧ v.tag = op.tag := by
  cases op with
  | eq | ne => exact ⟨_, rfl, rfl⟩
  | and | or =>
      obtain ⟨p, rfl⟩ := Value.exists_bool (ha .bool rfl)
      obtain ⟨q, rfl⟩ := Value.exists_bool (hb .bool rfl)
      exact ⟨_, rfl, rfl⟩
  | _ =>
      obtain ⟨m, rfl⟩ := Value.exists_number (ha .number rfl)
      obtain ⟨n, rfl⟩ := Value.exists_number (hb .number rfl)
      exact ⟨_, rfl, rfl⟩

end BinaryOp

namespace UnaryOp

def tag : UnaryOp → Tag
  | plus | minus => .number
  | not => .bool

theorem exists_result? {op : UnaryOp} {v : Value} (h : v.tag = op.tag) :
    ∃ w, op.result? (.value v) = some w ∧ w.tag = op.tag := by
  cases op with
  | not =>
      obtain ⟨b, rfl⟩ := Value.exists_bool h
      exact ⟨_, rfl, rfl⟩
  | _ =>
      obtain ⟨n, rfl⟩ := Value.exists_number h
      exact ⟨_, rfl, rfl⟩

end UnaryOp

def Tag.cast : Tag → DeclaredType → Tag
  | number, .string => .string
  | number, .color => .color
  | k, _ => k

theorem Value.tag_cast (v : Value) (target : DeclaredType) :
    (v.cast target).tag = v.tag.cast target := by
  cases v <;> cases target <;> rfl

theorem Segment.exists_store {field : SegmentField} {v : Value} (h : v.OfTag field.type.tag?)
    (s : Segment) : ∃ t, s.store field (.value v) = .ok t := by
  cases field with
  | largeArc | sweep =>
      obtain ⟨b, rfl⟩ := Value.exists_bool (h .bool rfl)
      exact ⟨_, rfl⟩
  | _ =>
      obtain ⟨n, rfl⟩ := Value.exists_number (h .number rfl)
      exact ⟨_, rfl⟩

structure Denotes (types : Catalog) (scope : Scope) (element : Int) (name : String)
    (owner : Context) (a : Accessor) (item : ItemView) (role : Role) : Prop where
  resolved : (scope.context.resolve types scope.maxDepth element none).2 = .ok owner
  located : (types.find owner.self.description).locate owner.self.number element name
    (.property element name) = .ok (a, item)
  slot : Located (types.find owner.self.description) owner.self.number a item role

/-- The tags of the values that expressions evaluate to in a scope, as far as they are known.
What stands in a list has the tags that `tags` gives. -/
inductive HasTag (types : Catalog) (scope : Scope) : Expr → Option Tag → Prop
  | string (s : String) : HasTag types scope (.string s) (some .string)
  | number (n : Binary64) : HasTag types scope (.number n) (some .number)
  | bool (b : Bool) : HasTag types scope (.bool b) (some .bool)
  | file (location : String) : HasTag types scope (.file location) (some .resource)
  | property {element : Int} {name : String} {owner : Context} {a : Accessor} {item : ItemView}
      {role : Role} (h : Denotes types scope element name owner a item role) :
      HasTag types scope (.property element name) role.tag?
  | rowIndex {element : Int} {p : CustomSlot}
      (hs : Evaluation.rowSlot types scope (.rowIndex element) element Description.rowIndexName =
        .ok p.offset)
      (hp : (types.find scope.description).roles[p.offset]? = some (.custom p)) :
      HasTag types scope (.rowIndex element) (Role.custom p).tag?
  | rowModel {element : Int} {p : CustomSlot}
      (hs : Evaluation.rowSlot types scope (.rowModel element) element Description.rowModelName =
        .ok p.offset)
      (hp : (types.find scope.description).roles[p.offset]? = some (.custom p)) :
      HasTag types scope (.rowModel element) (Role.custom p).tag?
  | field {base : Expr} (name : String) (h : HasTag types scope base (some .object)) :
      HasTag types scope (.field base name) none
  | cast {source : Expr} {t : Option Tag} (target : DeclaredType)
      (h : HasTag types scope source t) : HasTag types scope (.cast source target) (t.map (·.cast target))
  | block {body : List Expr} (tags : Expr → Option Tag)
      (h : ∀ e ∈ body, HasTag types scope e (tags e)) :
      HasTag types scope (.block body) (body.getLast?.elim (some .void) tags)
  | call {element : Int} {name : String} (args : List Expr) {owner : Context} {x : Element}
      {k : Nat} (hr : (scope.context.resolve types scope.maxDepth element none).2 = .ok owner)
      (hx : (types.find owner.self.description).tree.element? element = some x)
      (hk : (types.find owner.self.description).signalSlot? x.id name = some k) :
      HasTag types scope (.call (.signal element name) args) (some .void)
  | assign {element : Int} {name : String} (op : AssignOp) {operand : Expr} {owner : Context}
      {a : Accessor} {item : ItemView} {role : Role}
      (h : Denotes types scope element name owner a item role) (hr : role.tag? = some .number)
      (ho : HasTag types scope operand (some .number)) :
      HasTag types scope (.assign (.property element name) op operand) (some .void)
  | binary (op : BinaryOp) {left right : Expr} {s t : Option Tag}
      (hl : HasTag types scope left s) (hr : HasTag types scope right t)
      (hs : ∀ k, op.operand? = some k → s = some k ∧ t = some k) :
      HasTag types scope (.binary op left right) (some op.tag)
  | unary (op : UnaryOp) {operand : Expr} (h : HasTag types scope operand (some op.tag)) :
      HasTag types scope (.unary op operand) (some op.tag)
  | condition {test yes no : Expr} {t : Option Tag} (h : HasTag types scope test (some .bool))
      (hy : HasTag types scope yes t) (hn : HasTag types scope no t) :
      HasTag types scope (.condition test yes no) t
  | array (type : Option DeclaredType) {items : List Expr} (tags : Expr → Option Tag)
      (h : ∀ e ∈ items, HasTag types scope e (tags e)) :
      HasTag types scope (.array type items) (some .array)
  | object {fields : List (String × Expr)} (tags : Expr → Option Tag)
      (h : ∀ f ∈ fields, HasTag types scope f.2 (tags f.2)) :
      HasTag types scope (.object fields) (some .object)
  | path {segments : List (String × List (String × Expr))}
      (hshape : ∀ s ∈ segments, ∃ shape, SegmentShape.ofName? s.1 = some shape)
      (h : ∀ s ∈ segments, ∀ shape, SegmentShape.ofName? s.1 = some shape →
        ∀ field ∈ shape.fields, ∀ body, Assoc.get? s.2 field.name = some body →
          HasTag types scope body field.type.tag?) :
      HasTag types scope (.path segments) (some .path)

def Policy.typed (types : Catalog) : Policy where
  value role v := v.OfTag role.tag?
  code role scope body := ∃ t, HasTag types scope body t ∧ ∀ k, role.tag? = some k → t = some k

end UiBinding
