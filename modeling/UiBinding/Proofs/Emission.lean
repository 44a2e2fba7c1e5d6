import UiBinding.Proofs.Assignment
import UiBinding.Proofs.Transparency

namespace UiBinding

/-- The signal that a name stands for, seen from a context: the context around it that owns the
element, and the slot. -/
structure Context.FindsSignal (types : Catalog) (limit : Int) (c : Context) (element : Int)
    (name : String) (owner : Context) (slot : Nat) : Prop where
  resolves : (c.resolve types limit element none).2 = .ok owner
  named : ∃ x, (types.find owner.self.description).tree.element? element = some x ∧
    (types.find owner.self.description).signalSlot? x.id name = some slot

theorem Context.FindsSignal.run_signalOf {types : Catalog} {limit : Int} {c : Context}
    {element : Int} {name : String} {owner : Context} {slot : Nat} {signal : Signal Handler}
    {s : State} (h : c.FindsSignal types limit element name owner slot)
    (hs : s.cell? owner.self.number slot = some (.signal signal)) :
    ((signalOf types owner element name).run s).1 = .ok (some (slot, signal)) := by
  obtain ⟨x, hx, hslot⟩ := h.named
  exact Run.run_signalOf_some hx hslot hs

/-- Worlds that a program gets to from `w` when it binds expressions to the signal of one slot,
with the handlers that this connects, and leaves the slot as it is otherwise. -/
inductive Connects (number slot : Nat) (w : World) : List Handler → World → Prop
  | none : Connects number slot w [] w
  | spare {hs : List Handler} {w' w'' : World} (h : Connects number slot w hs w')
      (hw : Spares number slot w' w'') : Connects number slot w hs w''
  | bind {hs : List Handler} {w' : World} {settings : Settings} {element : Int} {name : String}
      {body : Expr} {c owner : Context} (h : Connects number slot w hs w')
      (hf : c.FindsSignal w'.types settings.maxContextDepth element name owner slot)
      (hn : owner.self.number = number) :
      Connects number slot w (hs ++ [⟨owner.scope settings.maxContextDepth, body⟩])
        (w'.run fun types => bindMember types settings element name body c).2

theorem Connects.cell?_eq {number slot : Nat} {w w' : World} {hs : List Handler}
    (h : Connects number slot w hs w')
    (hw : w.state.cell? number slot = some (.signal .start)) :
    w'.state.cell? number slot = some (.signal ⟨hs⟩) := by
  induction h with
  | none => exact hw
  | spare _ hspares ih => exact hspares.cell?_eq.trans ih
  | @bind hs w' settings element name body c owner _ hf hn ih =>
      subst hn
      have hrun := Run.run_bindMember_signal (Context.resolve_blame (some body) hf.resolves)
        (hf.run_signalOf ih)
      have hstate : (w'.run fun types => bindMember types settings element name body c).2.state =
        _ := congrArg Prod.snd hrun
      rw [hstate]
      exact State.cell?_setCell (State.cell?_logged.trans ih)

namespace Evaluation

/-- Evaluates handlers one after the other, each once and in its own scope, until one stops. -/
def inTurn (types : Catalog) (depth : Nat) : List Handler → State → Except Stop Unit × State
  | [], s => (.ok (), s)
  | h :: rest, s =>
    match (eval types depth h.scope h.body).run s with
    | (.ok _, t) => inTurn types depth rest t
    | (.error stop, t) => (.error stop, t)

variable {types : Catalog} {depth : Nat}

theorem inTurn_append (before after : List Handler) (s : State) :
    inTurn types depth (before ++ after) s =
      match inTurn types depth before s with
      | (.ok _, t) => inTurn types depth after t
      | (.error stop, t) => (.error stop, t) := by
  induction before generalizing s with
  | nil => rfl
  | cons h before ih =>
      rw [List.cons_append, inTurn, inTurn]
      rcases (eval types depth h.scope h.body).run s with ⟨r, t⟩
      cases r with
      | ok n => exact ih t
      | error stop => rfl

theorem run_emit (signal : Signal Handler) (s : State) :
    (signal.emit fun h => do let _ ← eval types depth h.scope h.body : Run Unit).run s =
      inTurn types depth signal.handlers s := by
  obtain ⟨hs⟩ := signal
  change (hs.forM _ : Run Unit).run s = _
  induction hs generalizing s with
  | nil => rfl
  | cons h hs ih =>
      change ((eval types depth h.scope h.body >>= fun _ => pure ()) >>= fun _ =>
        (hs.forM _ : Run Unit)).run s = _
      rw [inTurn, Run.run_bind, Run.run_bind]
      rcases (eval types depth h.scope h.body).run s with ⟨r, t⟩
      cases r with
      | ok n => exact ih t
      | error stop => rfl

theorem inTurn_eq_block {scope : Scope} {hs : List Handler} (h : ∀ x ∈ hs, x.scope = scope)
    (s : State) :
    let block := (eval types (depth + 1) scope (.block (hs.map Handler.body))).run s
    inTurn types depth hs s = (block.1.map fun _ => (), block.2) := by
  suffices ∀ (n : Native) (s : State),
      let rest := ((hs.map Handler.body).foldlM (fun _ e => eval types depth scope e) n).run s
      inTurn types depth hs s = (rest.1.map fun _ => (), rest.2) from this (.value .void) s
  induction hs with
  | nil => exact fun _ _ => rfl
  | cons x hs ih =>
      intro n s
      rw [List.map_cons, List.foldlM_cons, inTurn, Run.run_bind, h x List.mem_cons_self]
      rcases (eval types depth scope x.body).run s with ⟨r, t⟩
      cases r with
      | ok m => exact ih (fun y hy => h y (List.mem_cons_of_mem x hy)) m t
      | error stop => rfl

theorem respects_inTurn {rel : State → State → Prop}
    (h : ∀ scope e, Run.Respects rel (fun _ => True) (fun _ => True) (eval types depth scope e))
    (hs : List Handler) {s t : State} (hr : rel s t) :
    (inTurn types depth hs s).1 = (inTurn types depth hs t).1 ∧
      rel (inTurn types depth hs s).2 (inTurn types depth hs t).2 := by
  have hemit := Run.Respects.forM (f := fun x : Handler => do
    let _ ← eval types depth x.scope x.body) hs fun x _ =>
      .bind (h x.scope x.body) fun _ _ => .pure trivial
  obtain ⟨hresult, hstate, -⟩ := hemit s t hr
  rw [← run_emit ⟨hs⟩, ← run_emit ⟨hs⟩]
  exact ⟨hresult, hstate⟩

def announced (types : Catalog) (scope : Scope) (element : Int) (name : String) (owner : Context) :
    List Event :=
  scope.hops types element name ++ [.emitting name (types.find owner.self.description).id]

theorem run_emission {scope : Scope} {element : Int} {name : String} {owner : Context} {slot : Nat}
    {signal : Signal Handler} {s : State} (args : List Expr)
    (hf : scope.context.FindsSignal types scope.maxDepth element name owner slot)
    (hs : s.cell? owner.self.number slot = some (.signal signal)) :
    let ran := inTurn types depth signal.handlers
      (s.logged (announced types scope element name owner))
    (eval types (depth + 1) scope (.call (.signal element name) args)).run s =
      (ran.1.map fun _ => .value .void, ran.2) := by
  intro ran
  obtain ⟨x, hx, hslot⟩ := hf.named
  have hhops : (scope.context.resolve types scope.maxDepth element
      (some (.call (.signal element name) args))).1 = scope.hops types element name :=
    Context.resolve_fst_blame _ _
  have hlogged : (s.logged (scope.hops types element name)).logged
      [.emitting name (types.find owner.self.description).id] =
        s.logged (announced types scope element name owner) := by
    simp only [State.logged, announced, List.append_assoc]
  rw [run_call hf.resolves hx hslot hs depth, hhops, hlogged, Run.run_bind, run_emit]
  dsimp only [ran]
  rcases inTurn types depth signal.handlers _ with ⟨r, t⟩
  cases r <;> rfl

end Evaluation

open Evaluation (inTurn announced)

theorem State.Assigned.inTurn {s₀ s : State} (h : s₀.Assigned s) (types : Catalog) (depth : Nat)
    (hs : List Handler) : s₀.Assigned (inTurn types depth hs s).2 :=
  (Evaluation.respects_inTurn ((steady_assigned s₀).eval (storable_assigned s₀) depth) hs
    (s := s) ⟨rfl, h⟩).2.2

theorem State.Assigned.cell?_signal {s t : State} (h : s.Assigned t) {number slot : Nat}
    {signal : Signal Handler} (hs : s.cell? number slot = some (.signal signal)) :
    t.cell? number slot = some (.signal signal) :=
  State.cell?_natCast ((h.signal_iff signal).2 (State.getElem?_of_cell? hs))

/-- Emitting a signal, also in the middle of another emission, evaluates what was bound to it, in
the order of the binding, each expression in the scope it was bound in, like a code block where
there is one scope: after a failure the rest is not evaluated, and what was done before it remains.
At each point of the emission the signal has the handlers that it had at the start. The caller
shows in the log only. -/
theorem emission_runs_in_turn {number slot : Nat} {w w' : World} {hs : List Handler}
    (hc : Connects number slot w hs w')
    (hw : w.state.cell? number slot = some (.signal .start)) (depth : Nat) {s : State}
    (ha : w'.state.Assigned s) :
    let ran := inTurn w'.types depth hs s
    (∀ before after, hs = before ++ after →
      let reached := inTurn w'.types depth before s
      w'.state.Assigned reached.2 ∧
        reached.2.cell? number slot = some (.signal ⟨hs⟩) ∧
        ran = match reached with
          | (.ok _, t) => inTurn w'.types depth after t
          | (.error stop, t) => (.error stop, t)) ∧
    (∀ scope, (∀ h ∈ hs, h.scope = scope) →
      let block := (Evaluation.eval w'.types (depth + 1) scope
        (.block (hs.map Handler.body))).run s
      ran = (block.1.map fun _ => (), block.2)) ∧
    ∀ (scope : Scope) (element : Int) (name : String) (args : List Expr) (owner : Context),
      scope.context.FindsSignal w'.types scope.maxDepth element name owner slot →
      owner.self.number = number →
      let called := (Evaluation.eval w'.types (depth + 1) scope
        (.call (.signal element name) args)).run s
      called.1 = (ran.1.map fun _ => .value .void) ∧
        Echoes (s.log ++ announced w'.types scope element name owner) s.log called.2 ran.2 := by
  intro ran
  have hcell {t : State} (ht : w'.state.Assigned t) :
      t.cell? number slot = some (.signal ⟨hs⟩) := ht.cell?_signal (hc.cell?_eq hw)
  refine ⟨fun before after hsplit => ?_, fun scope h => Evaluation.inTurn_eq_block h s, ?_⟩
  · have hreached := ha.inTurn w'.types depth before
    refine ⟨hreached, hcell hreached, ?_⟩
    rw [← Evaluation.inTurn_append, ← hsplit]
  · rintro scope element name args owner hf rfl called
    have hrun : called = _ := Evaluation.run_emission args hf (hcell ha)
    obtain ⟨hresult, hstate⟩ := Evaluation.respects_inTurn
      ((uniform_echoes _ _).eval w'.types depth) hs
      (echoes_logged s (announced w'.types scope element name owner))
    rw [hrun]
    exact ⟨congrArg (Except.map fun _ => Native.value .void) hresult, hstate⟩

namespace Sample

def advance : Expr := .assign (.property 0 "scale") .add (.number .half)

def advancing : World :=
  (world.run fun types => bindMember types .standard 0 "done" advance outer).2

def failing : World :=
  (advancing.run fun types =>
    bindMember types ⟨3, true, by decide⟩ 0 "done" .invalid (inner 1)).2

def connected : World :=
  (failing.run fun types => bindMember types .standard 0 "done" advance (inner 2)).2

def doneHandlers : List Handler :=
  [⟨outer.scope 64, advance⟩, ⟨outer.scope 3, .invalid⟩, ⟨outer.scope 64, advance⟩]

theorem finds_done {limit : Int} {c : Context}
    (hr : (c.resolve described.types limit 0 none).2 = .ok outer) :
    c.FindsSignal described.types limit 0 "done" outer 1 :=
  ⟨hr, ⟨"frame", .builtin "Rectangle", 0, [1], []⟩, rfl, rfl⟩

theorem connects_done : Connects 0 1 world doneHandlers connected := by
  have hframe : outer.FindsSignal described.types 64 0 "done" outer 1 := finds_done rfl
  have hrow : (inner 1).FindsSignal described.types 3 0 "done" outer 1 := finds_done rfl
  have hlast : (inner 2).FindsSignal described.types 64 0 "done" outer 1 := finds_done rfl
  have hfirst : Connects 0 1 world _ advancing :=
    @Connects.bind _ _ _ _ world .standard _ _ advance _ _ .none hframe rfl
  have hsecond : Connects 0 1 world _ failing :=
    @Connects.bind _ _ _ _ advancing ⟨3, true, by decide⟩ _ _ .invalid _ _ hfirst hrow rfl
  exact @Connects.bind _ _ _ _ failing .standard _ _ advance _ _ hsecond hlast rfl

theorem done_stops_at_failure :
    let called := (Evaluation.eval connected.types 4 ⟨64, 1, inner 2⟩
      (.call (.signal 0 "done") [.uncompiled "argument"])).run connected.state
    world.state.cell? 0 1 = some (.signal .start) ∧
      called.1 = .error (.error (.fault (.invalid .invalid))) ∧
      called.2.cell? 0 0 = some (.property (.start (.value (.number
        (AssignOp.add.apply .zero .half))))) := by
  intro called
  have hw : world.state.cell? 0 1 = some (.signal .start) := rfl
  obtain ⟨-, -, hcalled⟩ := emission_runs_in_turn connects_done hw 3 (.refl connected.state)
  obtain ⟨hresult, hstate⟩ := hcalled ⟨64, 1, inner 2⟩ 0 "done" [.uncompiled "argument"] outer
    (finds_done rfl) rfl
  refine ⟨hw, hresult.trans rfl, ?_⟩
  rw [(uniform_echoes _ _).cell _ _ 0 0 hstate]
  rfl

end Sample

end UiBinding
