import UiBinding.Proofs.Assignment

namespace UiBinding

/-- What an accessor stores for a value, unless it refuses the value. -/
def Accessor.accept (a : Accessor) (v : Value) : Except Fault Native :=
  match a with
  | .custom .. => .ok (.value v)
  | .native p => p.convert (.value v)

theorem Accessor.run_set {a : Accessor} {item : ItemView} {s : State} {p : Property Binding}
    {animation : Option Animation} (hcheck : a.check item = .ok ())
    (hcell : s.cell? item.holder (item.base + a.offset) = some (.property p)) (v : Value) :
    (a.set item (.value v) animation).run s = match a.accept v with
      | .ok m => (.ok (), s.setCell item.holder (item.base + a.offset)
          (.property (p.set m animation)))
      | .error f => (.error (.error (.fault f)), s) := by
  cases a with
  | native accepts => exact run_set_native hcheck hcell
  | custom name offset =>
      rw [set, Run.run_bind, run_property hcheck hcell]
      rfl

theorem Accessor.get_ok {a : Accessor} {item : ItemView} {eval : Evaluator} {o : Context}
    {s t : State} {n : Native} (h : (a.get eval item o).run s = (.ok n, t)) :
    a.check item = .ok () ∧
      ∃ p, s.cell? item.holder (item.base + a.offset) = some (.property p) := by
  rw [get, Run.run_bind] at h
  split at h
  · rename_i p u hp
    obtain ⟨hcheck, hcell⟩ := property_ok hp
    exact ⟨hcheck, p, hcell⟩
  · cases h

theorem State.Assigned.exists_property {s t : State} (h : s.Assigned t) {number k : Nat}
    {p : Property Binding} (hp : (s.slots number)[k]? = some (.property p)) :
    ∃ q, (t.slots number)[k]? = some (.property q) := by
  have hlt : k < (t.slots number).length := by
    rw [← (h.slots number).length_eq]
    exact (List.getElem?_eq_some_iff.1 hp).1
  have hk := List.getElem?_eq_getElem hlt
  obtain ⟨c, hc, hcell⟩ := Cell.Assigned.exists_left (h.slots number) hk
  cases hp.symm.trans hc
  rw [hk]
  generalize (t.slots number)[k] = d at hcell
  cases hcell with
  | same => exact ⟨p, rfl⟩
  | @stored _ q => exact ⟨q, rfl⟩

/-- What the name of a property stands for on an element that is looked for in a scope. -/
structure Scope.Locates (types : Catalog) (scope : Scope) (element : Int) (name : String)
    (o : Context) (a : Accessor) (item : ItemView) : Prop where
  resolve : (scope.context.resolve types scope.maxDepth element none).2 = .ok o
  locate : (types.find o.self.description).locate o.self.number element name
    (.property element name) = .ok (a, item)

/-- The number that an operator makes of the one that a property has and the one that its operand
gives. -/
inductive AssignOp.Computes : AssignOp → Binary64 → Binary64 → Binary64 → Prop
  | add (current change : Binary64) : Computes .add current change (current.add change)
  | sub (current change : Binary64) : Computes .sub current change (current.sub change)
  | mul (current change : Binary64) : Computes .mul current change (current.mul change)
  | div (current change : Binary64) : Computes .div current change (current.div change)

theorem AssignOp.computes_apply (op : AssignOp) (m n : Binary64) :
    op.Computes m n (op.apply m n) := by
  cases op with
  | add => exact .add m n
  | sub => exact .sub m n
  | mul => exact .mul m n
  | div => exact .div m n

namespace Evaluation

def writeBack (component : String) (a : Accessor) (item : ItemView) (e : Expr) (name : String)
    (op : AssignOp) : Native → Native → Run Native
  | .value (.number m), .value (.number n) => do
    Run.log [.writing component name (op.apply m n)]
    a.set item (.value (.number (op.apply m n))) none
    return .value .void
  | x, y => do
    let left ← kindOf x
    let right ← kindOf y
    Run.fault (.assignmentOperands left op right name e)

variable {types : Catalog} {depth : Nat} {scope : Scope} {element : Int} {name : String}
  {op : AssignOp} {operand : Expr} {o : Context} {a : Accessor} {item : ItemView} {s t : State}

theorem eval_assigned (types : Catalog) (depth : Nat) (scope : Scope) (e : Expr) (s : State) :
    s.Assigned ((eval types depth scope e).run s).2 :=
  ((steady_assigned s).eval (storable_assigned s) depth scope e s s ⟨rfl, .refl s⟩).2.1.2

theorem run_assign_located (h : scope.Locates types element name o a item) :
    (eval types (depth + 1) scope (.assign (.property element name) op operand)).run s =
      (do
        let current ← eval types (depth + 1) scope (.property element name)
        let change ← eval types depth scope operand
        writeBack (types.find o.self.description).id a item
          (.assign (.property element name) op operand) name op current change : Run Native).run s := by
  let e : Expr := .assign (.property element name) op operand
  change (assignProperty types (eval types depth) scope e element name op operand).run s =
    (readProperty types (eval types depth) scope (.property element name) element name >>= _).run s
  rw [assignProperty, Run.run_bind, Run.run_bind,
    Run.run_resolve (Context.resolve_blame (some e) h.resolve),
    Run.run_readProperty (Context.resolve_blame _ h.resolve), h.locate,
    Context.resolve_fst_blame (some e) (some (.property element name))]
  dsimp only
  rw [Description.locate_blame e h.locate]
  change (a.get (eval types depth) item o >>= _).run _ = _
  rw [Run.run_bind]
  rfl

theorem exists_slot {n : Native} (h : scope.Locates types element name o a item)
    (hread : (eval types (depth + 1) scope (.property element name)).run s = (.ok n, t)) :
    a.check item = .ok () ∧ item.holder = o.self.number ∧ ∃ (k : Nat) (p : Property Binding),
      item.base + a.offset = k ∧ (s.slots o.self.number)[k]? = some (.property p) := by
  obtain ⟨hholder, k, hk⟩ := Description.locate_place h.locate
  change (readProperty types (eval types depth) scope (.property element name) element name).run s =
    _ at hread
  rw [Run.run_readProperty (Context.resolve_blame _ h.resolve), h.locate] at hread
  obtain ⟨hcheck, p, hp⟩ := Accessor.get_ok hread
  rw [hholder, hk] at hp
  exact ⟨hcheck, hholder, k, p, hk, State.getElem?_of_cell? hp⟩

section WriteBack

variable {component : String} {e : Expr} {m n : Binary64}

theorem run_writeBack {p : Property Binding} (hcheck : a.check item = .ok ())
    (hcell : s.cell? item.holder (item.base + a.offset) = some (.property p)) :
    (writeBack component a item e name op (.value (.number m)) (.value (.number n))).run s =
      match a.accept (.number (op.apply m n)) with
      | .ok stored => (.ok (.value .void),
          (s.logged [.writing component name (op.apply m n)]).setCell item.holder
            (item.base + a.offset) (.property ⟨stored, none, none⟩))
      | .error f => (.error (.error (.fault f)),
          s.logged [.writing component name (op.apply m n)]) := by
  change (a.set item (.value (.number (op.apply m n))) none >>= fun _ => _).run
    (s.logged [.writing component name (op.apply m n)]) = _
  rw [Run.run_bind, Accessor.run_set hcheck (State.cell?_logged.trans hcell)]
  cases a.accept (.number (op.apply m n)) <;> rfl

end WriteBack

/-- A self-assignment that comes to writing: what its property is and where, the number that was
read there and the number that the operand gave then, and the states that both left. -/
structure Assignment (types : Catalog) (depth : Nat) (scope : Scope) (element : Int)
    (name : String) (operand : Expr) (s : State) where
  owner : Context
  accessor : Accessor
  item : ItemView
  slot : Nat
  current : Binary64
  change : Binary64
  read : State
  done : State
  located : scope.Locates types element name owner accessor item
  place : item.base + accessor.offset = slot
  reads : (eval types (depth + 1) scope (.property element name)).run s =
    (.ok (.value (.number current)), read)
  evaluates : (eval types depth scope operand).run read = (.ok (.value (.number change)), done)

/-- A state that is left by the operand but for one slot of the owner, which held a property and now
holds one that stores what the accessor makes of the result, with no binding or animation. -/
structure Assignment.Stores (w : Assignment types depth scope element name operand s)
    (op : AssignOp) (out : State) : Prop where
  held : ∃ p, (w.done.slots w.owner.self.number)[w.slot]? = some (.property p)
  stored : ∃ result m, op.Computes w.current w.change result ∧
    w.accessor.accept (.number result) = .ok m ∧
    out.instances = w.done.instances.set w.owner.self.number
      ((w.done.slots w.owner.self.number).set w.slot (.property ⟨m, none, none⟩))
  contexts : out.contexts = w.done.contexts

theorem Assignment.run (w : Assignment types depth scope element name operand s) (op : AssignOp) :
    (∃ p, (w.done.slots w.owner.self.number)[w.slot]? = some (.property p)) ∧ ∃ event,
      (eval types (depth + 1) scope (.assign (.property element name) op operand)).run s =
        match w.accessor.accept (.number (op.apply w.current w.change)) with
        | .ok m => (.ok (.value .void), (w.done.logged [event]).setCell w.owner.self.number w.slot
            (.property ⟨m, none, none⟩))
        | .error f => (.error (.error (.fault f)), w.done.logged [event]) := by
  obtain ⟨hcheck, hholder, k, p, hk, hp⟩ := exists_slot w.located w.reads
  obtain rfl : k = w.slot := Int.ofNat_inj.1 (hk.symm.trans w.place)
  have hread : s.Assigned w.read := by
    simpa [w.reads] using eval_assigned types (depth + 1) scope (.property element name) s
  have hdone : w.read.Assigned w.done := by
    simpa [w.evaluates] using eval_assigned types depth scope operand w.read
  obtain ⟨q, hq⟩ := hread.exists_property hp
  obtain ⟨r, hr⟩ := hdone.exists_property hq
  have hcell : w.done.cell? w.item.holder (w.item.base + w.accessor.offset) =
      some (.property r) := by
    rw [hholder, hk]
    exact State.cell?_natCast hr
  refine ⟨⟨r, hr⟩, .writing (types.find w.owner.self.description).id name
    (op.apply w.current w.change), ?_⟩
  rw [run_assign_located w.located, Run.run_bind, w.reads]
  dsimp only
  rw [Run.run_bind, w.evaluates]
  dsimp only
  rw [run_writeBack hcheck hcell, hholder, hk]

theorem Assignment.cases (w : Assignment types depth scope element name operand s)
    (op : AssignOp) :
    let out := (eval types (depth + 1) scope (.assign (.property element name) op operand)).run s
    (∃ stop events, out = (.error stop, w.done.logged events)) ∨
      ∃ w : Assignment types depth scope element name operand s,
        out.1 = .ok (.value .void) ∧ w.Stores op out.2 := by
  intro out
  obtain ⟨hheld, event, hout⟩ := w.run op
  cases haccept : w.accessor.accept (.number (op.apply w.current w.change)) with
  | error f =>
      rw [haccept] at hout
      exact .inl ⟨_, [event], hout⟩
  | ok m =>
      rw [haccept] at hout
      dsimp only at hout
      have hend : out.2 = _ := congrArg Prod.snd hout
      obtain ⟨p, hp⟩ := hheld
      have hlogged : ((w.done.logged [event]).slots w.owner.self.number)[w.slot]? =
          some (.property p) := hp
      refine .inr ⟨w, congrArg Prod.fst hout, ⟨p, hp⟩,
        ⟨_, m, op.computes_apply w.current w.change, haccept, ?_⟩, ?_⟩
      · rw [hend]
        exact State.setCell_instances hlogged _
      · rw [hend]
        exact (State.setCell_counts _).2

end Evaluation

namespace Sample

def one : Binary64 := .ofInt 1

def contested : Expr :=
  .block [.assign (.property 0 "scale") .sub (.number one), .number one]

end Sample

end UiBinding
