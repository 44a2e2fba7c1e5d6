import UiBinding.Proofs.Alignment

namespace UiBinding

namespace State

def logged (s : State) (events : List Event) : State := { s with log := s.log ++ events }

variable {s : State} {events : List Event} {number : Nat} {index : Int}

theorem cell?_logged : (s.logged events).cell? number index = s.cell? number index := rfl

theorem exists_slot {c : Cell} (h : s.cell? number index = some c) :
    ∃ k : Nat, position? (s.slots number).length index = some k ∧ (s.slots number)[k]? = some c ∧
      ∀ c', s.setCell number index c' = s.setCell number k c' := by
  obtain ⟨k, hk, hget⟩ := Option.bind_eq_some_iff.1 h
  refine ⟨k, hk, hget, fun c' => ?_⟩
  simp only [setCell, hk, position?_natCast (List.getElem?_eq_some_iff.1 hget).1]

theorem getElem?_of_cell? {k : Nat} {c : Cell} (h : s.cell? number k = some c) :
    (s.slots number)[k]? = some c := by
  obtain ⟨j, hj, hget, -⟩ := exists_slot h
  rw [position?, if_pos (Int.natCast_nonneg k)] at hj
  split at hj
  · cases hj
    exact hget
  · cases hj

theorem cell?_setCell {c c' : Cell} (h : s.cell? number index = some c) :
    (s.setCell number index c').cell? number index = some c' := by
  obtain ⟨k, hk, hget, hset⟩ := exists_slot h
  have hlt := (List.getElem?_eq_some_iff.1 hget).1
  rw [cell?, hset, slots_setCell hlt, List.length_set, hk]
  exact List.getElem?_set_self hlt

theorem setCell_instances {k : Nat} {c : Cell} (h : (s.slots number)[k]? = some c) (c' : Cell) :
    (s.setCell number k c').instances = s.instances.set number ((s.slots number).set k c') := by
  simp only [setCell, position?_natCast (List.getElem?_eq_some_iff.1 h).1]

theorem cell?_setCell_of_ne {k j : Nat} {c c' : Cell} (hk : k < (s.slots number).length)
    (hj : (s.slots number)[j]? = some c') (hne : k ≠ j) :
    (s.setCell number k c).cell? number j = some c' := by
  apply cell?_natCast
  rwa [slots_setCell hk, List.getElem?_set_ne hne]

end State

namespace Context

variable {types : Catalog} {limit element : Int} {c : Context}

theorem search_fst_blame {e : Element} {owner : String} (blame blame' : Option Expr) {budget : Nat}
    {visited : List String} : (search types limit e owner blame budget visited c).1 =
      (search types limit e owner blame' budget visited c).1 := by
  induction budget generalizing visited c with
  | zero => rfl
  | succ budget ih =>
      by_cases hc : (types.find c.self.description).component = e.enclosing
      · simp only [search, if_pos hc]
      · cases c with
        | outermost => simp only [search, if_neg hc]
        | nested number self parent =>
            simp only [search, if_neg hc]
            rw [ih]

theorem resolve_fst_blame (blame blame' : Option Expr) :
    (c.resolve types limit element blame).1 = (c.resolve types limit element blame').1 := by
  simp only [resolve]
  cases (types.find c.self.description).tree.element? element with
  | none => rfl
  | some e => exact search_fst_blame blame blame'

end Context

namespace Run

variable {types : Catalog} {s : State}

theorem run_resolve {limit element : Int} {blame : Option Expr} {c o : Context}
    (h : (c.resolve types limit element blame).2 = .ok o) :
    (Run.resolve types limit element blame c).run s =
      (.ok o, s.logged (c.resolve types limit element blame).1) := by
  change (ofFault (c.resolve types limit element blame).2).run
    (s.logged (c.resolve types limit element blame).1) = _
  rw [h]
  rfl

theorem run_resolve_error {limit element : Int} {blame : Option Expr} {c : Context} {f : Fault}
    (h : (c.resolve types limit element blame).2 = .error f) :
    (Run.resolve types limit element blame c).run s =
      (.error (.error (.fault f)), s.logged (c.resolve types limit element blame).1) := by
  change (ofFault (c.resolve types limit element blame).2).run
    (s.logged (c.resolve types limit element blame).1) = _
  rw [h]
  rfl

section Signals

variable {owner : Context} {element : Int} {name : String} {x : Element}

theorem run_signalOf_none
    (hx : (types.find owner.self.description).tree.element? element = some x)
    (hk : (types.find owner.self.description).signalSlot? x.id name = none) :
    ((signalOf types owner element name).run s).1 = .ok none := by
  simp only [signalOf, hx, hk]
  rfl

theorem run_signalOf_some
    (hx : (types.find owner.self.description).tree.element? element = some x)
    {k : Nat} (hk : (types.find owner.self.description).signalSlot? x.id name = some k)
    {signal : Signal Handler} (hs : s.cell? owner.self.number k = some (.signal signal)) :
    ((signalOf types owner element name).run s).1 = .ok (some (k, signal)) := by
  simp only [signalOf, hx, hk]
  rw [run_bind, run_cell, hs]
  rfl

theorem run_signalOf_logged (events : List Event) :
    (signalOf types owner element name).run (s.logged events) =
      (((signalOf types owner element name).run s).1, s.logged events) := by
  simp only [signalOf]
  split
  · rfl
  split
  · rfl
  · rw [run_bind, run_bind, run_cell, run_cell, State.cell?_logged]
    cases s.cell? owner.self.number _ with
    | none => rfl
    | some cell => cases cell <;> rfl

end Signals

theorem run_readProperty {eval : Evaluator} {scope : Scope} {e : Expr} {element : Int}
    {name : String} {o : Context}
    (h : (scope.context.resolve types scope.maxDepth element (some e)).2 = .ok o) :
    (Evaluation.readProperty types eval scope e element name).run s =
      match (types.find o.self.description).locate o.self.number element name e with
      | .ok (a, item) => (a.get eval item o).run
          (s.logged (scope.context.resolve types scope.maxDepth element (some e)).1)
      | .error err => (.error (.error err),
          s.logged (scope.context.resolve types scope.maxDepth element (some e)).1) := by
  rw [Evaluation.readProperty, run_bind, run_resolve h]
  dsimp only
  cases (types.find o.self.description).locate o.self.number element name e <;> rfl

theorem run_bindMember {settings : Settings} {element : Int} {name : String} {body : Expr}
    {c o : Context}
    (h : (c.resolve types settings.maxContextDepth element (some body)).2 = .ok o)
    (hs : ((signalOf types o element name).run s).1 = .ok none) :
    (bindMember types settings element name body c).run s =
      match (types.find o.self.description).locate o.self.number element name body with
      | .ok (a, item) =>
        (a.bind item (.expression body settings.maxContextDepth o.self.description) none).run
          (s.logged (c.resolve types settings.maxContextDepth element (some body)).1)
      | .error err => (.error (.error err),
          s.logged (c.resolve types settings.maxContextDepth element (some body)).1) := by
  rw [bindMember, run_bind, run_resolve h]
  dsimp only
  rw [run_bind, run_signalOf_logged, hs]
  dsimp only
  cases (types.find o.self.description).locate o.self.number element name body <;> rfl

theorem run_bindMember_signal {settings : Settings} {element : Int} {name : String} {body : Expr}
    {c o : Context} {k : Nat} {signal : Signal Handler}
    (h : (c.resolve types settings.maxContextDepth element (some body)).2 = .ok o)
    (hs : ((signalOf types o element name).run s).1 = .ok (some (k, signal))) :
    (bindMember types settings element name body c).run s =
      (.ok (), (s.logged (c.resolve types settings.maxContextDepth element (some body)).1).setCell
        o.self.number k
        (.signal (signal.connect ⟨o.scope settings.maxContextDepth, body⟩))) := by
  rw [bindMember, run_bind, run_resolve h]
  dsimp only
  rw [run_bind, run_signalOf_logged, hs]
  rfl

end Run

namespace Accessor

variable {a : Accessor} {item : ItemView} {s : State} {p : Property Binding}

theorem run_property (hcheck : a.check item = .ok ())
    (hcell : s.cell? item.holder (item.base + a.offset) = some (.property p)) :
    (a.property item).run s = (.ok p, s) := by
  rw [property, hcheck]
  change (Run.cell item.holder (item.base + a.offset) >>= _).run s = _
  rw [Run.run_bind, Run.run_cell, hcell]
  rfl

theorem property_ok {t : State} (h : (a.property item).run s = (.ok p, t)) :
    a.check item = .ok () ∧ s.cell? item.holder (item.base + a.offset) = some (.property p) := by
  rw [property] at h
  cases hcheck : a.check item with
  | error f => rw [hcheck] at h; cases h
  | ok _ =>
      rw [hcheck] at h
      change (Run.cell item.holder (item.base + a.offset) >>= _).run s = _ at h
      rw [Run.run_bind, Run.run_cell] at h
      cases hcell : s.cell? item.holder (item.base + a.offset) with
      | none => rw [hcell] at h; cases h
      | some cell =>
          rw [hcell] at h
          cases cell with
          | unset | signal => cases h
          | property q => cases h; exact ⟨rfl, rfl⟩

variable {source : BindingSource} {animation : Option Animation}

theorem run_bind (hcheck : a.check item = .ok ())
    (hcell : s.cell? item.holder (item.base + a.offset) = some (.property p)) :
    (a.bind item source animation).run s = (.ok (), s.setCell item.holder (item.base + a.offset)
      (.property (p.bind ⟨source, a.conversion⟩ animation))) := by
  rw [bind, Run.run_bind, run_property hcheck hcell]
  rfl

theorem bind_ok {t : State} (h : (a.bind item source animation).run s = (.ok (), t)) :
    ∃ p, a.check item = .ok () ∧
      s.cell? item.holder (item.base + a.offset) = some (.property p) ∧
      t = s.setCell item.holder (item.base + a.offset)
        (.property (p.bind ⟨source, a.conversion⟩ animation)) := by
  have hbind := h
  rw [bind, Run.run_bind] at h
  split at h
  · rename_i p t hp
    obtain ⟨hcheck, hcell⟩ := property_ok hp
    rw [run_bind hcheck hcell] at hbind
    exact ⟨p, hcheck, hcell, (Prod.ext_iff.1 hbind).2.symm⟩
  · cases h

theorem run_property_snd (a : Accessor) (item : ItemView) (s : State) :
    ((a.property item).run s).2 = s := by
  rw [property]
  cases a.check item with
  | error f => rfl
  | ok _ =>
      change ((Run.cell item.holder (item.base + a.offset) >>= _).run s).2 = s
      rw [Run.run_bind, Run.run_cell]
      cases s.cell? item.holder (item.base + a.offset) with
      | none => rfl
      | some cell => cases cell <;> rfl

theorem bind_error {stop : Stop} {t : State}
    (h : (a.bind item source animation).run s = (.error stop, t)) : t = s := by
  rw [bind, Run.run_bind] at h
  split at h
  · cases h
  · rename_i hp
    cases h
    exact (congrArg Prod.snd hp).symm.trans (run_property_snd a item s)

def deliver : Accessor → Native → Except Stop Native
  | custom .., n => .ok n
  | native p, n =>
    match p.convert n with
    | .error f => .error (.error (.fault f))
    | .ok m =>
      match m.wrap p.type with
      | .error e => .error (.error (.native e))
      | .ok v => .ok (.value v)

theorem run_deliver (a : Accessor) (source : BindingSource) (n : Native) (s : State) :
    (Run.ofFault (Binding.store ⟨source, a.conversion⟩ n) >>= a.present).run s =
      (a.deliver n, s) := by
  cases a with
  | custom => rfl
  | native p =>
      change (Run.ofFault (p.convert n) >>= fun m =>
        Run.ofExcept (((m.wrap p.type).mapError Error.native).map Native.value)).run s = _
      rw [deliver, Run.run_bind]
      cases p.convert n with
      | error f => rfl
      | ok m =>
          change (Run.ofExcept (((m.wrap p.type).mapError Error.native).map Native.value)).run s = _
          dsimp only
          cases m.wrap p.type <;> rfl

/-- Reading a bound property is evaluating what it is bound to, where it is read. -/
theorem run_get {eval : Evaluator} {o : Context} {body : Expr} {maxDepth description : Nat}
    (hcheck : a.check item = .ok ())
    (hcell : s.cell? item.holder (item.base + a.offset) = some (.property p))
    (hb : p.binding = some ⟨.expression body maxDepth description, a.conversion⟩) :
    let made := (eval ⟨maxDepth, description, o⟩ body).run s
    (a.get eval item o).run s = (made.1.bind a.deliver, made.2) := by
  intro made
  rw [get, Run.run_bind, run_property hcheck hcell]
  simp only [Property.get, hb]
  change ((eval ⟨maxDepth, description, o⟩ body >>= fun n =>
    Run.ofFault (Binding.store ⟨.expression body maxDepth description, a.conversion⟩ n)) >>=
      a.present).run s = _
  rw [bind_assoc, Run.run_bind]
  dsimp only [made]
  rcases (eval ⟨maxDepth, description, o⟩ body).run s with ⟨r, t⟩
  cases r with
  | error stop => rfl
  | ok n => exact run_deliver a _ n t

theorem run_get_stored {eval : Evaluator} {o : Context} (hcheck : a.check item = .ok ())
    (hcell : s.cell? item.holder (item.base + a.offset) = some (.property p))
    (hb : p.binding = none) : (a.get eval item o).run s = (a.present p.stored).run s := by
  rw [get, Run.run_bind, run_property hcheck hcell]
  simp only [Property.get, hb]
  rfl

/-- Native data is converted before it is stored, and nothing changes where that fails. -/
theorem run_set_native {accepts : ItemProperty} {n : Native}
    (hcheck : (native accepts).check item = .ok ())
    (hcell : s.cell? item.holder (item.base + accepts.offset) = some (.property p)) :
    ((native accepts).set item n animation).run s = match accepts.convert n with
      | .ok m => (.ok (), s.setCell item.holder (item.base + accepts.offset)
          (.property (p.set m animation)))
      | .error f => (.error (.error (.fault f)), s) := by
  rw [set, Run.run_bind, run_property hcheck hcell]
  dsimp only
  cases accepts.convert n <;> rfl

theorem set_custom_ok {name : String} {offset : Int} {v : Value} {t : State}
    (h : ((custom name offset).set item (.value v) animation).run s = (.ok (), t)) :
    ∃ p, s.cell? item.holder (item.base + offset) = some (.property p) ∧
      t = s.setCell item.holder (item.base + offset) (.property (p.set (.value v) animation)) := by
  rw [set, Run.run_bind] at h
  split at h
  · rename_i p u hp
    have hu := (congrArg Prod.snd hp).symm.trans (run_property_snd (custom name offset) item s)
    obtain ⟨-, hcell⟩ := property_ok hp
    cases h
    exact ⟨p, hcell, by rw [← hu]; rfl⟩
  · cases h

end Accessor

def Accessor.binding (a : Accessor) (owner : Context) (maxDepth : Nat) (body : Expr) : Binding :=
  ⟨.expression body maxDepth owner.self.description, a.conversion⟩

def Scope.hops (types : Catalog) (scope : Scope) (element : Int) (name : String) : List Event :=
  (scope.context.resolve types scope.maxDepth element (some (.property element name))).1

/-- A reference to a bound property evaluates the bound expression in the context that owns
the property. -/
theorem Evaluation.run_reference {types : Catalog} {s : State} {scope : Scope} {element : Int}
    {name : String} {o : Context} {a : Accessor} {item : ItemView} {p : Property Binding}
    {body : Expr} {maxDepth description : Nat}
    (hr : (scope.context.resolve types scope.maxDepth element none).2 = .ok o)
    (hl : (types.find o.self.description).locate o.self.number element name
      (.property element name) = .ok (a, item))
    (hcheck : a.check item = .ok ())
    (hcell : s.cell? item.holder (item.base + a.offset) = some (.property p))
    (hb : p.binding = some ⟨.expression body maxDepth description, a.conversion⟩) (depth : Nat) :
    let made := (Evaluation.eval types depth ⟨maxDepth, description, o⟩ body).run
      (s.logged (scope.hops types element name))
    (Evaluation.eval types (depth + 1) scope (.property element name)).run s =
      (made.1.bind a.deliver, made.2) := by
  intro made
  change (Evaluation.readProperty types (Evaluation.eval types depth) scope
    (.property element name) element name).run s = _
  rw [Run.run_readProperty (Context.resolve_blame _ hr), hl]
  exact Accessor.run_get hcheck (State.cell?_logged.trans hcell) hb

/-- A call of a signal hands the emission to its handlers. -/
theorem Evaluation.run_call {types : Catalog} {s : State} {scope : Scope} {element : Int}
    {name : String} {o : Context} {x : Element} {k : Nat} {signal : Signal Handler}
    {args : List Expr} (hr : (scope.context.resolve types scope.maxDepth element none).2 = .ok o)
    (hx : (types.find o.self.description).tree.element? element = some x)
    (hk : (types.find o.self.description).signalSlot? x.id name = some k)
    (hs : s.cell? o.self.number k = some (.signal signal)) (depth : Nat) :
    let e : Expr := .call (.signal element name) args
    let hops := (scope.context.resolve types scope.maxDepth element (some e)).1
    (eval types (depth + 1) scope e).run s =
      (signal.emit (fun h : Handler => do let _ ← eval types depth h.scope h.body) >>= fun _ =>
          pure (Native.value .void)).run
        ((s.logged hops).logged [.emitting name (types.find o.self.description).id]) := by
  intro e hops
  change (emitSignal types (eval types depth) scope e element name).run s = _
  rw [emitSignal, Run.run_bind, Run.run_resolve (Context.resolve_blame (some e) hr)]
  dsimp only
  rw [Run.run_bind, Run.run_signalOf_logged, Run.run_signalOf_some hx hk hs]
  rfl

end UiBinding
