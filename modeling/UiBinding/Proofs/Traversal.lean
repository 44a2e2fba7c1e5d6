import UiBinding.Proofs.Access
import UiBinding.Proofs.Congruence

namespace UiBinding

open Run (Respects Tracks)

/-- The slot that a reference denotes in a scope, with the context whose instance it is in. -/
inductive Scope.Denotes (types : Catalog) (scope : Scope) : Expr → Context → Nat → Prop
  | property {element : Int} {name : String} {o : Context} {a : Accessor} {item : ItemView}
      {k : Nat} (hr : (scope.context.resolve types scope.maxDepth element none).2 = .ok o)
      (hl : (types.find o.self.description).locate o.self.number element name
        (.property element name) = .ok (a, item))
      (hk : item.base + a.offset = k) : Denotes types scope (.property element name) o k
  | signal {element : Int} {name : String} {o : Context} {x : Element} {k : Nat}
      (hr : (scope.context.resolve types scope.maxDepth element none).2 = .ok o)
      (hx : (types.find o.self.description).tree.element? element = some x)
      (hk : (types.find o.self.description).signalSlot? x.id name = some k) :
      Denotes types scope (.signal element name) o k
  | rowIndex {element : Int} {k : Nat}
      (hk : Evaluation.rowSlot types scope (.rowIndex element) element
        Description.rowIndexName = .ok k) : Denotes types scope (.rowIndex element) scope.context k
  | rowModel {element : Int} {k : Nat}
      (hk : Evaluation.rowSlot types scope (.rowModel element) element
        Description.rowModelName = .ok k) : Denotes types scope (.rowModel element) scope.context k

theorem Scope.Denotes.mem_chain {types : Catalog} {scope : Scope} {e : Expr} {o : Context}
    {k : Nat} (h : scope.Denotes types e o k) : o ∈ scope.context.chain := by
  cases h with
  | property hr | signal hr => exact (Context.resolve_ok hr).1
  | rowIndex | rowModel => exact Context.self_mem_chain _

def Context.code (o : Context) : Cell → List (Scope × Expr)
  | .unset => []
  | .property p =>
    match p.binding with
    | some ⟨.expression body maxDepth description, _⟩ => [(⟨maxDepth, description, o⟩, body)]
    | _ => []
  | .signal s => s.handlers.map fun h => (h.scope, h.body)

theorem Description.locate_place {d : Description} {holder : Nat} {element : Int} {name : String}
    {e : Expr} {a : Accessor} {item : ItemView}
    (h : d.locate holder element name e = .ok (a, item)) :
    item.holder = holder ∧ ∃ k : Nat, item.base + a.offset = k := by
  cases a with
  | custom n offset =>
      obtain ⟨p, -, -, rfl, rfl⟩ := locate_custom h
      exact ⟨rfl, p.offset, Int.add_zero _⟩
  | native q =>
      obtain ⟨id, b, -, hq, rfl⟩ := locate_native h
      obtain ⟨-, -, k, hk, -⟩ := Item.exists_of_mem_properties hq
      refine ⟨rfl, b.offset + k, ?_⟩
      rw [Accessor.offset, hk, Int.natCast_add]

/-- A relation of states in which all cells are alike, and that logging keeps. -/
structure Steady (rel : State → State → Prop) : Prop where
  log : ∀ s t events, rel s t → rel (s.logged events) (t.logged events)
  cell : ∀ s t number index, rel s t → s.cell? number index = t.cell? number index

def Always (inv : State → Prop) (s t : State) : Prop := s = t ∧ inv s

theorem Steady.always {inv : State → Prop} (h : ∀ s events, inv s → inv (s.logged events)) :
    Steady (Always inv) where
  log := by
    rintro s _ events ⟨rfl, hs⟩
    exact ⟨rfl, h s events hs⟩
  cell := by
    rintro s _ number index ⟨rfl, -⟩
    rfl

def Storable (rel : State → State → Prop) (number : Nat) : Prop :=
  ∀ s t index p q, rel s t → s.cell? number index = some (.property p) → q.binding = none →
    rel (s.setCell number index (.property q)) (t.setCell number index (.property q))

variable {rel : State → State → Prop} {fails : Stop → Prop} {α : Type}

theorem respects_ofExcept (hf : ∀ err, fails (.error err)) (x : Except Error α) :
    Respects rel fails (fun a => x = .ok a) (Run.ofExcept x) :=
  .ofExcept (fun _ ha => ha) fun _ _ => hf _

theorem respects_ofFault (hf : ∀ err, fails (.error err)) (x : Except Fault α) :
    Respects rel fails (fun a => x = .ok a) (Run.ofFault x) :=
  .ofFault (fun _ ha => ha) fun _ _ => hf _

theorem congruence_tracks (hf : ∀ err, fails (.error err)) :
    Run.Congruence fun _ m m' => Tracks rel fails (fun _ => True) m m' where
  pure _ := .pure trivial
  fail _ := .throw (hf _)
  bind hm hk := .bind hm fun b _ => hk b

namespace Steady

variable {types : Catalog} {element : Int} {name : String} {a : Accessor} {item : ItemView}
  {number : Nat} {index : Int} {c o : Context}

theorem runLog (h : Steady rel) (events : List Event) :
    Respects rel fails (fun _ => True) (Run.log events) :=
  .update trivial fun s t hr => h.log s t events hr

theorem runCell (h : Steady rel) (hf : ∀ err, fails (.error err)) :
    Respects rel fails (fun c => ∃ s t, rel s t ∧ s.cell? number index = some c)
      (Run.cell number index) := by
  intro s t hr
  rw [Run.run_cell, Run.run_cell, ← h.cell s t number index hr]
  cases hc : s.cell? number index with
  | none => exact ⟨rfl, hr, hf _⟩
  | some c => exact ⟨rfl, hr, s, t, hr, hc⟩

theorem resolve (h : Steady rel) (hf : ∀ err, fails (.error err)) {limit : Int}
    {blame : Option Expr} :
    Respects rel fails (fun o => (c.resolve types limit element none).2 = .ok o)
      (Run.resolve types limit element blame c) := by
  refine .bind (h.runLog _) fun _ _ => (respects_ofFault hf _).imp fun o ho => ?_
  exact Context.resolve_blame none ho

theorem property (h : Steady rel) (hf : ∀ err, fails (.error err)) :
    Respects rel fails (fun p => ∃ s t, rel s t ∧
      s.cell? item.holder (item.base + a.offset) = some (.property p)) (a.property item) := by
  refine .bind (respects_ofFault hf _) fun _ _ => .bind (h.runCell hf) fun c hc => ?_
  cases c with
  | property p => exact .pure hc
  | unset | signal => exact .fault (hf _)

theorem present (hf : ∀ err, fails (.error err)) (n : Native) :
    Respects rel fails (fun _ => True) (a.present n) := by
  cases a with
  | custom => exact .pure trivial
  | native p => exact (respects_ofExcept hf _).imp fun _ _ => trivial

theorem signalOf (h : Steady rel) (hf : ∀ err, fails (.error err)) :
    Respects rel fails (fun found => ∀ k signal, found = some (k, signal) →
      (∃ x, (types.find o.self.description).tree.element? element = some x ∧
        (types.find o.self.description).signalSlot? x.id name = some k) ∧
      ∃ s t, rel s t ∧ s.cell? o.self.number k = some (.signal signal))
      (UiBinding.signalOf types o element name) := by
  have hnone {p : Nat → Signal Handler → Prop} :
      ∀ k signal, (none : Option (Nat × Signal Handler)) = some (k, signal) → p k signal := by
    intro k signal h
    cases h
  cases hx : (types.find o.self.description).tree.element? element with
  | none =>
      simp only [UiBinding.signalOf, hx]
      exact .fail (hf _)
  | some x =>
      cases hk : (types.find o.self.description).signalSlot? x.id name with
      | none =>
          simp only [UiBinding.signalOf, hx, hk]
          exact .pure hnone
      | some slot =>
          simp only [UiBinding.signalOf, hx, hk]
          refine .bind (h.runCell hf) fun c hc => ?_
          cases c with
          | unset => exact .pure hnone
          | property p => exact .fault (hf _)
          | signal signal =>
              refine .pure ?_
              rintro _ _ ⟨⟩
              exact ⟨⟨x, rfl, hk⟩, hc⟩

theorem store (h : Steady rel) (hstore : Storable rel item.holder) (hf : ∀ err, fails (.error err))
    (x : Except Fault Native) (animation : Option Animation) :
    Respects rel fails (fun _ => True) (a.property item >>= fun p =>
      Run.ofFault x >>= fun m => a.put item (p.set m animation)) := by
  intro s t hr
  have hproperty : Respects rel fails _ (a.property item) := h.property hf
  obtain ⟨he, hr', hends⟩ := hproperty s t hr
  rw [Run.run_bind, Run.run_bind]
  rcases hs : (a.property item).run s with ⟨r, s'⟩
  rcases ht : (a.property item).run t with ⟨r', t'⟩
  rw [hs, ht] at he hr'
  rw [hs] at hends
  obtain rfl : r = r' := he
  cases r with
  | error stop => exact ⟨rfl, hr', hends⟩
  | ok p =>
      obtain ⟨hcheck, hcell⟩ := Accessor.property_ok hs
      obtain rfl : s = s' := congrArg Prod.snd ((Accessor.run_property hcheck hcell).symm.trans hs)
      cases x with
      | error f => exact ⟨rfl, hr', hf _⟩
      | ok m => exact ⟨rfl, hstore s t' _ p _ hr' hcell rfl, trivial⟩

theorem set (h : Steady rel) (hstore : Storable rel item.holder) (hf : ∀ err, fails (.error err))
    {n : Native} {animation : Option Animation} :
    Respects rel fails (fun _ => True) (a.set item n animation) := by
  cases a with
  | custom name offset =>
      cases n with
      | value v => exact h.store hstore hf (.ok (.value v)) animation
      | _ => exact .fault (hf _)
  | native accepts => exact h.store hstore hf (accepts.convert n) animation

section Nodes

variable {eval eval' : Evaluator} {scope : Scope} {e : Expr}

theorem get (h : Steady rel) (hf : ∀ err, fails (.error err))
    (hcode : ∀ s t p, rel s t →
      s.cell? item.holder (item.base + a.offset) = some (.property p) →
      ∀ q ∈ o.code (.property p), Tracks rel fails (fun _ => True) (eval q.1 q.2) (eval' q.1 q.2)) :
    Tracks rel fails (fun _ => True) (a.get eval item o) (a.get eval' item o) := by
  refine .bind (h.property hf).tracks fun p ⟨s, t, hr, hc⟩ => ?_
  have hget : Tracks rel fails (fun _ => True) (p.get (Binding.run eval o))
      (p.get (Binding.run eval' o)) := by
    rw [Property.get, Property.get]
    cases hb : p.binding with
    | none => exact .pure trivial
    | some b =>
        obtain ⟨source, conversion⟩ := b
        have hsource : Tracks rel fails (fun _ => True) (source.run eval o)
            (source.run eval' o) := by
          cases source with
          | constant v => exact .pure trivial
          | expression body maxDepth description =>
              refine hcode s t p hr hc (⟨maxDepth, description, o⟩, body) ?_
              simp [Context.code, hb]
        exact .bind hsource fun n _ => ((respects_ofFault hf _).imp fun _ _ => trivial).tracks
  exact .bind hget fun n _ => (present hf n).tracks

theorem readProperty (h : Steady rel) (hf : ∀ err, fails (.error err))
    (hcode : ∀ o k, scope.Denotes types (.property element name) o k → ∀ s t p, rel s t →
      s.cell? o.self.number k = some (.property p) → ∀ q ∈ o.code (.property p),
        Tracks rel fails (fun _ => True) (eval q.1 q.2) (eval' q.1 q.2)) :
    Tracks rel fails (fun _ => True) (Evaluation.readProperty types eval scope e element name)
      (Evaluation.readProperty types eval' scope e element name) := by
  refine .bind (h.resolve hf).tracks fun o hr => ?_
  refine .bind (respects_ofExcept hf _).tracks fun ⟨a, item⟩ hl => ?_
  obtain ⟨hholder, k, hk⟩ := Description.locate_place hl
  refine h.get hf fun s t p hrel hc => ?_
  rw [hholder, hk] at hc
  exact hcode o k (.property hr (Description.locate_blame _ hl) hk) s t p hrel hc

theorem readRow (h : Steady rel) (hf : ∀ err, fails (.error err))
    (hcode : ∀ k : Nat, Evaluation.rowSlot types scope e element name = .ok k →
      ∀ s t p, rel s t → s.cell? scope.context.self.number k = some (.property p) →
        ∀ q ∈ scope.context.code (.property p),
          Tracks rel fails (fun _ => True) (eval q.1 q.2) (eval' q.1 q.2)) :
    Tracks rel fails (fun _ => True) (Evaluation.readRow types eval scope e element name)
      (Evaluation.readRow types eval' scope e element name) := by
  refine .bind (respects_ofExcept hf _).tracks fun k hk => h.get hf fun s t p hrel hc => ?_
  exact hcode k hk s t p hrel (by simpa [Accessor.offset] using hc)

theorem emitSignal (h : Steady rel) (hf : ∀ err, fails (.error err))
    (hcode : ∀ o k, scope.Denotes types (.signal element name) o k → ∀ s t signal, rel s t →
      s.cell? o.self.number k = some (.signal signal) → ∀ q ∈ o.code (.signal signal),
        Tracks rel fails (fun _ => True) (eval q.1 q.2) (eval' q.1 q.2)) :
    Tracks rel fails (fun _ => True) (Evaluation.emitSignal types eval scope e element name)
      (Evaluation.emitSignal types eval' scope e element name) := by
  refine .bind (h.resolve hf).tracks fun o hr => ?_
  refine .bind (h.signalOf hf).tracks fun found hfound => ?_
  cases found with
  | none => exact .fault (hf _)
  | some found =>
      obtain ⟨k, signal⟩ := found
      obtain ⟨⟨x, hx, hk⟩, s, t, hrel, hc⟩ := hfound k signal rfl
      have hbodies := hcode o k (.signal hr hx hk) s t signal hrel hc
      refine .bind (h.runLog _).tracks fun _ _ => .bind (.forM _ fun handler hmem => ?_)
        fun _ _ => .pure trivial
      exact .bind (hbodies (handler.scope, handler.body) (List.mem_map.2 ⟨_, hmem, rfl⟩))
        fun _ _ => .pure trivial

theorem assignProperty (h : Steady rel) (hstore : ∀ number, Storable rel number)
    (hf : ∀ err, fails (.error err))
    {op : AssignOp} {operand : Expr}
    (hcode : ∀ o k, scope.Denotes types (.property element name) o k → ∀ s t p, rel s t →
      s.cell? o.self.number k = some (.property p) → ∀ q ∈ o.code (.property p),
        Tracks rel fails (fun _ => True) (eval q.1 q.2) (eval' q.1 q.2))
    (hoperand : Tracks rel fails (fun _ => True) (eval scope operand) (eval' scope operand)) :
    Tracks rel fails (fun _ => True)
      (Evaluation.assignProperty types eval scope e element name op operand)
      (Evaluation.assignProperty types eval' scope e element name op operand) := by
  refine .bind (h.resolve hf).tracks fun o hr => ?_
  refine .bind (respects_ofExcept hf _).tracks fun ⟨a, item⟩ hl => ?_
  obtain ⟨hholder, k, hk⟩ := Description.locate_place hl
  refine .bind (h.get hf fun s t p hrel hc => ?_) fun current _ => ?_
  · rw [hholder, hk] at hc
    exact hcode o k (.property hr (Description.locate_blame _ hl) hk) s t p hrel hc
  refine .bind hoperand fun change _ => ?_
  dsimp only
  split
  · exact .bind (h.runLog _).tracks fun _ _ => .bind (h.set (hstore _) hf).tracks fun _ _ =>
      .pure trivial
  · have hcong : Run.Congruence fun _ m m' => Tracks rel fails (fun _ => True) m m' :=
      congruence_tracks hf
    exact hcong.bind hcong.kindOf fun _ => hcong.bind hcong.kindOf fun _ => hcong.fault _

/-- Two evaluators that go along on the parts of a node, and on the code in all slots that the
node or a part of it denotes, go along on the node. -/
theorem step (h : Steady rel) (hstore : ∀ number, Storable rel number)
    (hf : ∀ err, fails (.error err))
    (hparts : ∀ x ∈ e.parts, Tracks rel fails (fun _ => True) (eval scope x) (eval' scope x))
    (hcode : ∀ x, x = e ∨ x ∈ e.parts → ∀ o k, scope.Denotes types x o k → ∀ s t c, rel s t →
      s.cell? o.self.number k = some c → ∀ q ∈ o.code c,
        Tracks rel fails (fun _ => True) (eval q.1 q.2) (eval' q.1 q.2)) :
    Tracks rel fails (fun _ => True) (Evaluation.step types eval scope e)
      (Evaluation.step types eval' scope e) := by
  refine (congruence_tracks hf).step hparts ?_ ?_ ?_ ?_ ?_
  · rintro element name rfl
    exact h.readProperty hf fun o k hd s t p => hcode _ (.inl rfl) o k hd s t (.property p)
  · rintro element rfl
    exact h.readRow hf fun k hk s t p => hcode _ (.inl rfl) _ k (.rowIndex hk) s t (.property p)
  · rintro element rfl
    exact h.readRow hf fun k hk s t p => hcode _ (.inl rfl) _ k (.rowModel hk) s t (.property p)
  · rintro element name args rfl
    refine h.emitSignal hf fun o k hd s t signal => ?_
    exact hcode _ (.inr (by simp [Expr.parts])) o k hd s t (.signal signal)
  · rintro element name op operand rfl
    refine h.assignProperty hstore hf (fun o k hd s t p => ?_) (hparts _ (by simp [Expr.parts]))
    exact hcode _ (.inr (by simp [Expr.parts])) o k hd s t (.property p)

theorem evaluate (h : Steady rel) {post : Native → Prop} {depth more : Nat} (settings : Settings)
    {description : Nat} (he : Tracks rel fails post
      (Evaluation.eval types depth ⟨settings.maxContextDepth, description, c⟩ e)
      (Evaluation.eval types more ⟨settings.maxContextDepth, description, c⟩ e)) :
    Tracks rel fails post (UiBinding.evaluate types depth settings e description c)
      (UiBinding.evaluate types more settings e description c) :=
  .tryCatch he fun _ hstop => .bind (h.runLog _).tracks fun _ _ => .throw hstop

end Nodes

/-- Evaluation keeps a relation that storing values keeps. -/
theorem eval (h : Steady rel) (hstore : ∀ number, Storable rel number) (depth : Nat)
    (scope : Scope) (e : Expr) :
    Respects rel (fun _ => True) (fun _ => True) (Evaluation.eval types depth scope e) := by
  induction depth generalizing scope e with
  | zero => exact .throw trivial
  | succ depth ih =>
      exact h.step hstore (fun _ => trivial) (fun x _ => ih scope x)
        fun _ _ _ _ _ _ _ _ _ _ q _ => ih q.1 q.2

end Steady

end UiBinding
