import UiBinding.Proofs.Traversal
import UiBinding.Proofs.UnknownElement

namespace UiBinding

open Run (Respects)

def Event.isFatal : Event → Bool
  | fatal .. => true
  | _ => false

def Catalog.HasElement (types : Catalog) (id : String) : Prop :=
  ∃ n i x, (types.find n).tree.element? i = some x ∧ x.id = id

namespace Fault

/-- Whether an error is raised where it is not known what expression is evaluated: by an
accessor, and by the search for the shape of a segment. -/
def isUnplaced : Fault → Bool
  | propertyAsSignal .. | notAProperty .. | wrongItem .. | rejected .. | unknownShape .. => true
  | _ => false

/-- An error names the expression to blame, and elements only by their ids. -/
def Located (types : Catalog) (f : Fault) : Prop :=
  f.diagnostic.expression ≠ none ∧ ∀ id, f.diagnostic.element = some id → types.HasElement id

/-- The errors that evaluation can end in, in any state. -/
def Arises (types : Catalog) (f : Fault) : Prop := f.isUnplaced = true ∨ f.Located types

theorem Arises.located {types : Catalog} {f : Fault} {e : Expr}
    (he : f.diagnostic.expression = some e) (hid : f.diagnostic.element = none) :
    f.Arises types :=
  .inr ⟨by simp [he], by simp [hid]⟩

theorem Arises.named {types : Catalog} {f : Fault} {id : String} {e : Expr}
    (h : types.HasElement id) (he : f.diagnostic.expression = some e)
    (hid : f.diagnostic.element = some id) : f.Arises types :=
  .inr ⟨by simp [he], by simpa [hid] using h⟩

end Fault

def State.Quiet (s t : State) : Prop :=
  ∃ trace, (∀ event ∈ trace, event.isFatal = false) ∧ t.log = s.log ++ trace

theorem State.quiet_refl (s : State) : Always s.Quiet s s :=
  ⟨rfl, [], by simp, (List.append_nil _).symm⟩

def Blames (types : Catalog) (stop : Stop) : Prop :=
  ∀ f, stop = .error (.fault f) → f.Arises types

theorem Blames.exhausted {types : Catalog} : Blames types .exhausted := by
  rintro f ⟨⟩

/-- Run from any state, a computation logs no fatal error and stops with none but those that
evaluation can end in. -/
abbrev Reports {α : Type} (types : Catalog) (s : State) (m : Run α) : Prop :=
  Respects (Always s.Quiet) (Blames types) (fun _ => True) m

namespace Context

variable {types : Catalog} {limit element : Int} {c : Context}

theorem search_events {e : Element} {owner : String} {blame : Option Expr} {budget : Nat}
    {visited : List String} :
    ∀ event ∈ (search types limit e owner blame budget visited c).1, event.isFatal = false := by
  induction budget generalizing visited c with
  | zero => simp [search]
  | succ budget ih =>
      intro event hmem
      simp only [search] at hmem
      split at hmem
      · split at hmem
        · cases hmem
        · rw [List.mem_singleton.1 hmem]
          rfl
      · cases c with
        | outermost => cases hmem
        | nested number self parent =>
            rcases List.mem_cons.1 hmem with rfl | hmem
            · rfl
            · exact ih event hmem

theorem resolve_events {blame : Option Expr} :
    ∀ event ∈ (c.resolve types limit element blame).1, event.isFatal = false := by
  simp only [resolve]
  split
  · simp
  · exact search_events

theorem search_arises {e : Element} {owner : String} {blame : Expr} {budget : Nat}
    {visited : List String} {f : Fault} (he : types.HasElement e.id)
    (h : (search types limit e owner (some blame) budget visited c).2 = .error f) :
    f.Arises types := by
  induction budget generalizing visited c with
  | zero =>
      cases h
      exact .named he rfl rfl
  | succ budget ih =>
      rw [search_succ] at h
      split at h
      · cases h
      split at h
      · cases h
        exact .named he rfl rfl
      · exact ih h

theorem resolve_arises {blame : Expr} {f : Fault}
    (h : (c.resolve types limit element (some blame)).2 = .error f) : f.Arises types := by
  rw [resolve_snd] at h
  split at h
  · cases h
    exact .located rfl rfl
  · next e he => exact search_arises ⟨_, _, e, he, rfl⟩ h

end Context

section Errors

variable {types : Catalog} {element : Int} {name : String} {e : Expr}

theorem locate_arises {number holder : Nat} {f : Fault}
    (h : (types.find number).locate holder element name e = .error (.fault f)) :
    f.Arises types := by
  rw [Description.locate] at h
  split at h
  · cases h
  next x hx =>
    have hid : types.HasElement x.id := ⟨number, element, x, hx, rfl⟩
    split at h
    · cases h
    split at h
    · cases h
      exact .named hid rfl rfl
    split at h
    · cases h
      exact .named hid rfl rfl
    · cases h

theorem rowSlot_arises {scope : Scope} {f : Fault}
    (h : Evaluation.rowSlot types scope e element name = .error (.fault f)) : f.Arises types := by
  simp only [Evaluation.rowSlot] at h
  split at h
  · cases h
  next x hx =>
    have hid : types.HasElement x.id := ⟨_, element, x, hx, rfl⟩
    repeat' split at h
    all_goals first | cases h; exact .named hid rfl rfl | cases h

theorem convert_arises {p : ItemProperty} {n : Native} {f : Fault}
    (h : p.convert n = .error f) : f.Arises types := by
  rw [ItemProperty.convert.eq_def] at h
  repeat' split at h
  all_goals first | cases h; exact .inl rfl | cases h

end Errors

section Calls

variable {types : Catalog} {s : State} {α : Type} {element : Int} {name : String} {e : Expr}
  {a : Accessor} {item : ItemView}

theorem blames_of_not_fault {err : Error} (h : ∀ f, err ≠ .fault f) :
    Blames types (.error err) := by
  rintro f ⟨⟩
  exact absurd rfl (h f)

theorem reports_fault {post : α → Prop} {f : Fault} (h : f.Arises types) :
    Respects (Always s.Quiet) (Blames types) post (Run.fault f) := by
  refine .fault ?_
  rintro _ ⟨⟩
  exact h

theorem reports_ofFault {x : Except Fault α} (h : ∀ f, x = .error f → f.Arises types) :
    Respects (Always s.Quiet) (Blames types) (fun a => x = .ok a) (Run.ofFault x) := by
  refine .ofFault (fun _ ha => ha) fun f hf => ?_
  rintro _ ⟨⟩
  exact h f hf

theorem reports_ofExcept {x : Except Error α}
    (h : ∀ f, x = .error (.fault f) → f.Arises types) :
    Respects (Always s.Quiet) (Blames types) (fun a => x = .ok a) (Run.ofExcept x) := by
  refine .ofExcept (fun _ ha => ha) fun err herr => ?_
  rintro f ⟨⟩
  exact h f herr

theorem reports_log {events : List Event} (h : ∀ event ∈ events, event.isFatal = false) :
    Reports types s (Run.log events) := by
  refine .update trivial ?_
  rintro t _ ⟨rfl, trace, htrace, hlog⟩
  refine ⟨rfl, trace ++ events, ?_, ?_⟩
  · exact List.forall_mem_append.2 ⟨htrace, h⟩
  · rw [hlog, List.append_assoc]

theorem log_setCell (t : State) (number : Nat) (index : Int) (c : Cell) :
    (t.setCell number index c).log = t.log := by
  rw [State.setCell]
  split <;> rfl

theorem reports_setCell {number : Nat} {index : Int} {c : Cell} :
    Reports types s (Run.setCell number index c) := by
  refine .update trivial ?_
  rintro t _ ⟨rfl, htrace⟩
  refine ⟨rfl, ?_⟩
  rwa [State.Quiet, log_setCell]

theorem reports_cell {number : Nat} {index : Int} : Reports types s (Run.cell number index) := by
  rintro t _ ⟨rfl, htrace⟩
  rw [Run.run_cell]
  cases t.cell? number index with
  | none => exact ⟨rfl, ⟨rfl, htrace⟩, blames_of_not_fault (by simp)⟩
  | some c => exact ⟨rfl, ⟨rfl, htrace⟩, trivial⟩

theorem reports_resolve {limit : Int} {c : Context} :
    Reports types s (Run.resolve types limit element (some e) c) :=
  .bind (reports_log Context.resolve_events) fun _ _ =>
    (reports_ofFault fun _ => Context.resolve_arises).imp fun _ _ => trivial

theorem reports_property : Reports types s (a.property item) := by
  have hcheck : ∀ f, a.check item = .error f → f.Arises types := by
    intro f hf
    cases a with
    | custom => cases hf
    | native p =>
        rw [Accessor.check] at hf
        split at hf
        · cases hf
        · cases hf
          exact .inl rfl
  refine .bind (reports_ofFault hcheck) fun _ _ => .bind reports_cell fun c _ => ?_
  cases c with
  | property p => exact .pure trivial
  | unset | signal => exact reports_fault (.inl rfl)

theorem reports_present (n : Native) : Reports types s (a.present n) := by
  cases a with
  | custom => exact .pure trivial
  | native p =>
      refine (reports_ofExcept fun f hf => ?_).imp fun _ _ => trivial
      cases hw : n.wrap p.type <;> rw [hw] at hf <;> cases hf

theorem reports_set {v : Value} {animation : Option Animation} :
    Reports types s (a.set item (.value v) animation) := by
  cases a with
  | custom name offset => exact .bind reports_property fun p _ => reports_setCell
  | native p =>
      refine .bind reports_property fun q _ => ?_
      exact .bind (reports_ofFault fun _ => convert_arises) fun m _ => reports_setCell

theorem reports_signalOf {o : Context} :
    Respects (Always s.Quiet) (Blames types)
      (fun _ => ∃ x, (types.find o.self.description).tree.element? element = some x)
      (signalOf types o element name) := by
  cases hx : (types.find o.self.description).tree.element? element with
  | none =>
      simp only [signalOf, hx]
      exact .fail (blames_of_not_fault (by simp))
  | some x =>
      simp only [signalOf, hx]
      split
      · exact .pure ⟨x, rfl⟩
      · refine .bind reports_cell fun c _ => ?_
        cases c with
        | unset => exact .pure ⟨x, rfl⟩
        | property p => exact reports_fault (.inl rfl)
        | signal signal => exact .pure ⟨x, rfl⟩

theorem reports_kindOf (n : Native) : Reports types s (Evaluation.kindOf n) := by
  rw [Evaluation.kindOf]
  split
  · exact .pure trivial
  · exact .fail (blames_of_not_fault (by simp))

theorem reports_operands {f : String → String → Fault} (a b : Native)
    (h : ∀ left right, (f left right).Arises types) :
    Reports types s (do
      let left ← Evaluation.kindOf a
      let right ← Evaluation.kindOf b
      (Run.fault (f left right) : Run Native)) :=
  .bind (reports_kindOf a) fun _ _ => .bind (reports_kindOf b) fun _ _ => reports_fault (h _ _)

end Calls

section Nodes

variable {types : Catalog} {s : State} {eval : Evaluator} {scope : Scope} {e : Expr}
  {element : Int} {name : String}
  (h : ∀ scope e, Reports types s (eval scope e))

include h

theorem reports_get {a : Accessor} {item : ItemView} {o : Context} :
    Reports types s (a.get eval item o) := by
  refine .bind reports_property fun p _ => ?_
  have hread : Reports types s (p.get (Binding.run eval o)) := by
    rw [Property.get]
    cases p.binding with
    | none => exact .pure trivial
    | some b =>
        have hstore : ∀ n f, b.store n = .error f → f.Arises types := by
          intro n f hf
          rw [Binding.store] at hf
          split at hf
          · cases hf
          · exact convert_arises hf
        have hsource : Reports types s (b.source.run eval o) := by
          cases b.source with
          | constant v => exact .pure trivial
          | expression body maxDepth description => exact h _ body
        exact .bind hsource fun n _ => (reports_ofFault (hstore n)).imp fun _ _ => trivial
  exact .bind hread fun n _ => reports_present n

theorem reports_readProperty :
    Reports types s (Evaluation.readProperty types eval scope e element name) :=
  .bind reports_resolve fun _ _ => .bind (reports_ofExcept fun _ => locate_arises) fun _ _ =>
    reports_get h

theorem reports_readRow : Reports types s (Evaluation.readRow types eval scope e element name) :=
  .bind (reports_ofExcept fun _ => rowSlot_arises) fun _ _ => reports_get h

theorem reports_emitSignal :
    Reports types s (Evaluation.emitSignal types eval scope e element name) := by
  refine .bind reports_resolve fun o _ => .bind reports_signalOf fun found hx => ?_
  obtain ⟨x, hx⟩ := hx
  cases found with
  | none =>
      refine reports_fault (.named ⟨_, element, x, hx, rfl⟩ rfl ?_)
      simp only [hx]
      rfl
  | some found =>
      obtain ⟨slot, signal⟩ := found
      refine .bind (reports_log (by simp [Event.isFatal])) fun _ _ => ?_
      refine .bind (.forM _ fun handler _ => ?_) fun _ _ => .pure trivial
      exact .bind (h _ _) fun _ _ => .pure trivial

theorem reports_assignProperty {op : AssignOp} {operand : Expr} :
    Reports types s (Evaluation.assignProperty types eval scope e element name op operand) := by
  refine .bind reports_resolve fun _ _ => ?_
  refine .bind (reports_ofExcept fun _ => locate_arises) fun _ _ => ?_
  refine .bind (reports_get h) fun current _ => .bind (h _ _) fun change _ => ?_
  dsimp only
  split
  · refine .bind (reports_log (by simp [Event.isFatal])) fun _ _ => ?_
    exact .bind reports_set fun _ _ => .pure trivial
  · exact reports_operands _ _ fun _ _ => .located rfl rfl

theorem reports_segmentOf {shape : String} {bindings : Assoc Expr} :
    Reports types s (segmentOf eval scope shape bindings) := by
  rw [segmentOf]
  split
  · exact reports_fault (.inl rfl)
  · refine .foldlM _ (fun segment _ field _ => ?_) trivial
    cases hb : bindings.get? field.name with
    | none => exact .pure trivial
    | some body =>
        refine .bind (h scope body) fun n _ => ?_
        cases segment.store field n with
        | ok segment => exact .pure trivial
        | error failure => exact reports_fault (.located rfl rfl)

theorem reports_step : Reports types s (Evaluation.step types eval scope e) := by
  cases e with
  | invalid | uncompiled | foreign | signal => exact reports_fault (.located rfl rfl)
  | string | number | bool | file => exact .pure trivial
  | property element name => exact reports_readProperty h
  | rowIndex element | rowModel element => exact reports_readRow h
  | field base name =>
      refine .bind (h scope base) fun n _ => ?_
      rw [Evaluation.readField.eq_def]
      split
      · exact .pure trivial
      · exact .bind (reports_kindOf n) fun _ _ => reports_fault (.located rfl rfl)
  | cast source target => exact .bind (h scope source) fun _ _ => .pure trivial
  | block body => exact .foldlM _ (fun _ _ x _ => h scope x) trivial
  | call callee args =>
      cases callee with
      | signal element name => exact reports_emitSignal h
      | _ => exact reports_fault (.located rfl rfl)
  | assign target op operand =>
      cases target with
      | property element name => exact reports_assignProperty h
      | _ => exact reports_fault (.located rfl rfl)
  | binary op left right =>
      refine .bind (h scope left) fun a _ => .bind (h scope right) fun b _ => ?_
      rw [Evaluation.applyBinary]
      split
      · exact .pure trivial
      · exact reports_operands a b fun _ _ => .located rfl rfl
  | unary op operand =>
      refine .bind (h scope operand) fun n _ => ?_
      rw [Evaluation.applyUnary]
      split
      · exact .pure trivial
      · exact .bind (reports_kindOf n) fun _ _ => reports_fault (.located rfl rfl)
  | condition test yes no =>
      refine .bind (h scope test) fun n _ => ?_
      cases n.verdict? with
      | none => exact reports_fault (.located rfl rfl)
      | some b => exact h scope _
  | array type items =>
      refine .bind (.mapM items fun x _ => h scope x) fun ns _ => ?_
      rw [Evaluation.arrayOf]
      split
      · exact .pure trivial
      · exact .fail (blames_of_not_fault (by simp))
  | object fields =>
      refine .bind (.mapM fields fun f _ => respects_field f.1 (h scope f.2)) fun ns _ => ?_
      rw [Evaluation.objectOf]
      split
      · exact .pure trivial
      · exact .fail (blames_of_not_fault (by simp))
  | path segments =>
      exact .bind (.mapM segments fun x _ => reports_segmentOf h) fun _ _ => .pure trivial

end Nodes

/-- Evaluation reports no fatal error by itself, however deep inside of it one arises. -/
theorem reports_eval (types : Catalog) (depth : Nat) (scope : Scope) (e : Expr) (s : State) :
    Reports types s (Evaluation.eval types depth scope e) := by
  induction depth generalizing scope e with
  | zero => exact .throw .exhausted
  | succ depth ih => exact reports_step ih

section Reports

variable {types : Catalog} {depth : Nat} {settings : Settings} {e : Expr} {description : Nat}
  {c : Context} {s : State}

theorem run_evaluate_fst : ((evaluate types depth settings e description c).run s).1 =
    ((Evaluation.eval types depth ⟨settings.maxContextDepth, description, c⟩ e).run s).1 := by
  rw [evaluate, Run.run_tryCatch]
  rcases (Evaluation.eval types depth ⟨settings.maxContextDepth, description, c⟩ e).run s
    with ⟨r, t⟩
  cases r <;> rfl

theorem fatalEvents_of_not_fault {component : String} {stop : Stop}
    (h : ∀ f, stop ≠ .error (.fault f)) : fatalEvents settings component stop = [] := by
  cases stop with
  | exhausted => rfl
  | error err =>
      cases err with
      | fault f => exact absurd rfl (h f)
      | _ => rfl

theorem run_evaluate_of_not_fault {r : Except Stop Native} {t : State}
    (hr : (Evaluation.eval types depth ⟨settings.maxContextDepth, description, c⟩ e).run s = (r, t))
    (hf : ∀ f, r ≠ .error (.error (.fault f))) :
    (evaluate types depth settings e description c).run s = (r, t) := by
  cases r with
  | ok n => rw [evaluate, Run.run_tryCatch, hr]
  | error stop =>
      have hstop : ∀ f, stop ≠ .error (.fault f) := by
        rintro f rfl
        exact hf f rfl
      rw [stops_evaluate hr, fatalEvents_of_not_fault hstop, State.logged, List.append_nil]

/-- A fatal error is logged once, as the last entry and where evaluation was started, if the
settings ask for it, and nothing else depends on that. What is bound does not keep it, so that
no evaluation inside of another one asks again. -/
theorem evaluate_logs_fatal_once (types : Catalog) (depth : Nat) (settings : Settings) (e : Expr)
    (description : Nat) (c : Context) (s : State) :
    let outcome := ((evaluate types depth settings e description c).run s).1
    (∃ t, s.Quiet t ∧
      (∀ f, outcome = .error (.error (.fault f)) → ∀ logErrors,
        (evaluate types depth { settings with logErrors } e description c).run s =
          (outcome, t.logged
            (if logErrors then [.fatal (types.find description).id f.diagnostic] else []))) ∧
      ((∀ f, outcome ≠ .error (.error (.fault f))) → ∀ logErrors,
        (evaluate types depth { settings with logErrors } e description c).run s =
          (outcome, t))) ∧
    ∀ logErrors element name body o,
      bindMember types { settings with logErrors } element name body o =
        bindMember types settings element name body o := by
  intro outcome
  refine ⟨?_, fun _ _ _ _ _ => rfl⟩
  obtain ⟨-, ⟨-, hquiet⟩, -⟩ := reports_eval types depth
    ⟨settings.maxContextDepth, description, c⟩ e s s s s.quiet_refl
  have houtcome : outcome = _ := run_evaluate_fst
  rcases hr : (Evaluation.eval types depth ⟨settings.maxContextDepth, description, c⟩ e).run s
    with ⟨r, t⟩
  rw [hr] at hquiet houtcome
  rw [houtcome]
  refine ⟨t, hquiet, ?_, fun hf logErrors => run_evaluate_of_not_fault hr hf⟩
  rintro f rfl logErrors
  exact stops_evaluate hr

theorem fault_arises {f : Fault}
    (h : ((evaluate types depth settings e description c).run s).1 = .error (.error (.fault f))) :
    f.Arises types := by
  obtain ⟨-, -, hends⟩ := reports_eval types depth
    ⟨settings.maxContextDepth, description, c⟩ e s s s s.quiet_refl
  rw [run_evaluate_fst] at h
  rw [h] at hends
  exact hends f rfl

end Reports

theorem tolerates_layout {types : Catalog} {near : Context → Prop} :
    Tolerates types near (fun _ => True) (fun _ => True)
      fun stop => ∀ f, stop = .error (.fault f) → f.isSlotKind = false where
  described _ _ := trivial
  exhausted := by rintro f ⟨⟩
  fault f hf := by
    rintro _ ⟨⟩
    exact hf
  row _ _ _ _ _ := by rintro f ⟨⟩
  owned _ _ _ _ _ _ _ := by rintro f ⟨⟩

theorem Reaches.not_isSlotKind {w : World} {cs : List Context} (h : Reaches w cs) {c : Context}
    (hc : c ∈ cs) {depth : Nat} {settings : Settings} {e : Expr} {description : Nat} {f : Fault}
    (hf : (w.run fun types => UiBinding.evaluate types depth settings e description c).1 =
      .error (.error (.fault f))) : f.isSlotKind = false := by
  obtain ⟨made, hsub, hk⟩ := h.kept
  have hsettles : Respects (Aligned w.types (.rows fun _ => True) (· ∈ made) w.state w.state) _ _
      (UiBinding.evaluate w.types depth settings e description c) :=
    settles_evaluate hk.region tolerates_layout depth settings (hsub hc) trivial e.rowsIn_all
  obtain ⟨-, -, hends⟩ := hsettles _ _ hk.aligned
  change Run.Ends _ _
    (w.run fun types => UiBinding.evaluate types depth settings e description c).1 at hends
  rw [hf] at hends
  exact hends f rfl

theorem Catalog.HasElement.mem_elements {types : Catalog} {tree : Tree}
    (htree : ∀ d ∈ types, d.tree = tree) {id : String} (h : types.HasElement id) :
    ∃ x ∈ tree.elements, x.id = id := by
  obtain ⟨n, i, x, hx, hid⟩ := h
  refine ⟨x, ?_, hid⟩
  rw [Catalog.find] at hx
  cases hn : types[n]? with
  | none =>
      rw [hn] at hx
      simp [Tree.element?, at?, Description.empty, Tree.empty] at hx
  | some d =>
      rw [hn, Option.getD_some, htree d (List.mem_of_getElem? hn), Tree.element?, at?] at hx
      split at hx
      · exact List.mem_of_getElem? hx
      · cases hx

/-- The errors that say where they come from are all but those that an accessor and an unknown
shape of a segment raise. Of these, the ones about the kind of a slot arise in no state that a
program gets to. -/
theorem evaluate_located_iff {types : Catalog} {tree : Tree} (htree : ∀ d ∈ types, d.tree = tree)
    {depth : Nat} {settings : Settings} {e : Expr} {description : Nat} {c : Context} {s : State}
    {f : Fault} (hf : ((evaluate types depth settings e description c).run s).1 =
      .error (.error (.fault f))) :
    ((f.diagnostic.expression ≠ none ∧
      ∀ id, f.diagnostic.element = some id → ∃ x ∈ tree.elements, x.id = id) ↔
        f.isUnplaced = false) ∧
      ∀ cs, Reaches ⟨types, s⟩ cs → c ∈ cs → f.isSlotKind = false := by
  refine ⟨⟨?_, ?_⟩, fun cs h hc => h.not_isSlotKind hc hf⟩
  · rintro ⟨hexpr, -⟩
    cases f with
    | propertyAsSignal | notAProperty | wrongItem | rejected | unknownShape =>
        exact absurd rfl hexpr
    | _ => rfl
  · intro hplaced
    obtain hunplaced | ⟨hexpr, hid⟩ := fault_arises hf
    · rw [hplaced] at hunplaced
      cases hunplaced
    · exact ⟨hexpr, fun id he => (hid id he).mem_elements htree⟩

namespace Sample

def misbound : World := (world.run (Call.bind .standard 2 "text" (.number .zero) (inner 1)).run).2

theorem reaches_misbound : Reaches misbound [outer, inner 1, inner 2] :=
  .call (.bind .standard 2 "text" (.number .zero) (inner 1)) reaches_world
    (List.mem_cons_of_mem _ List.mem_cons_self)

def refusal : Fault := .rejected "Text" "text" .string ⟨"number", "string", none⟩

theorem refusal_logged_once :
    ∃ t, misbound.state.Quiet t ∧
      (evaluate misbound.types 5 .standard (.property 2 "text") 1 (inner 1)).run misbound.state =
        (.error (.error (.fault refusal)), t.logged [.fatal "Row" refusal.diagnostic]) ∧
      (evaluate misbound.types 5 { Settings.standard with logErrors := false } (.property 2 "text")
        1 (inner 1)).run misbound.state = (.error (.error (.fault refusal)), t) := by
  obtain ⟨⟨t, hquiet, hfault, -⟩, -⟩ := evaluate_logs_fatal_once misbound.types 5 .standard
    (.property 2 "text") 1 (inner 1) misbound.state
  have hquiet' := hfault refusal rfl false
  rw [if_neg Bool.false_ne_true, State.logged, List.append_nil] at hquiet'
  exact ⟨t, hquiet, hfault refusal rfl true, hquiet'⟩

theorem described_tree : ∀ d ∈ described.types, d.tree = tree := by
  intro d hd
  obtain rfl | hd := List.mem_cons.1 hd
  · rfl
  · rw [List.mem_singleton.1 hd]
    rfl

def misnamed : Expr := .property 2 "hint"

theorem misnamed_located :
    ((evaluate world.types 5 .standard misnamed 1 (inner 1)).run world.state).1 =
        .error (.error (.fault (.unknownProperty "Text" "label" "hint" misnamed))) ∧
      ∃ x ∈ tree.elements, x.id = "label" := by
  have hf : ((evaluate world.types 5 .standard misnamed 1 (inner 1)).run world.state).1 =
      .error (.error (.fault (.unknownProperty "Text" "label" "hint" misnamed))) := rfl
  exact ⟨hf, ((evaluate_located_iff described_tree hf).1.2 rfl).2 "label" rfl⟩

theorem refusal_unlocated :
    (Reaches misbound [outer, inner 1, inner 2] ∧ ∀ d ∈ misbound.types, d.tree = tree) ∧
      ((evaluate misbound.types 5 .standard (.property 2 "text") 1 (inner 1)).run
        misbound.state).1 = .error (.error (.fault refusal)) ∧
      refusal.diagnostic.expression = none ∧ refusal.diagnostic.element = some "Text" ∧
      ¬ ∃ x ∈ tree.elements, x.id = "Text" :=
  ⟨⟨reaches_misbound, described_tree⟩, rfl, rfl, rfl, by decide⟩

end Sample

end UiBinding
