import UiBinding.Proofs.Interference
import UiBinding.Proofs.Rows
import UiBinding.Proofs.Transparency

namespace UiBinding

def Description.repeats (d : Description) (element : Int) : Bool :=
  (d.tree.element? element).map Element.base == some (.component d.component)

/-- A row of a repeated component: its context, its position and its entry of the model, and the
slots that these two were stored in. -/
structure RowEntry where
  context : Context
  indexSlot : Nat
  modelSlot : Nat
  position : Nat
  entry : Value

namespace RowEntry

def index (r : RowEntry) : Value := .number (Binary64.ofInt r.position)

def number (r : RowEntry) : Nat := r.context.self.number

def description (r : RowEntry) : Nat := r.context.self.description

def Intact (r : RowEntry) (s : State) : Prop :=
  s.cell? r.number r.indexSlot = some (.property (.start (.value r.index))) ∧
    s.cell? r.number r.modelSlot = some (.property (.start (.value r.entry)))

def value? (r : RowEntry) (types : Catalog) (scope : Scope) (e : Expr) : Option Value :=
  if scope.description = r.description ∧ scope.context.self = r.context.self then
    match e with
    | .rowIndex element =>
      if (types.find r.description).repeats element then some r.index else none
    | .rowModel element =>
      if (types.find r.description).repeats element then some r.entry else none
    | _ => none
  else none

open Classical in
noncomputable def given (r : RowEntry) (types : Catalog) (scope : Scope) (e : Expr) (s : State) :
    Option Value :=
  if r.Intact s then r.value? types scope e else none

/-- The two slots are those that the component has for its rows. -/
structure Placed (r : RowEntry) (types : Catalog) : Prop where
  index : ∃ p, (types.find r.description).customProperties.get? Description.rowIndexName = some p ∧
    p.offset = r.indexSlot
  model : ∃ p, (types.find r.description).customProperties.get? Description.rowModelName = some p ∧
    p.offset = r.modelSlot

end RowEntry

namespace Evaluation

variable {types : Catalog} {scope : Scope} {e : Expr} {element : Int} {name : String} {s : State}

/-- Evaluation that takes some expressions for given values instead of evaluating them. -/
def evalGiven (types : Catalog) (given : Scope → Expr → State → Option Value) : Nat → Evaluator
  | 0, _, _ => throw .exhausted
  | depth + 1, scope, e => do
    match given scope e (← get) with
    | some v => return .value v
    | none => step types (evalGiven types given depth) scope e

theorem run_evalGiven {given : Scope → Expr → State → Option Value} (depth : Nat) :
    (evalGiven types given (depth + 1) scope e).run s = match given scope e s with
      | some v => (.ok (.value v), s)
      | none => (step types (evalGiven types given depth) scope e).run s := by
  rw [evalGiven, Run.run_bind]
  change ExceptT.run (match given scope e s with
    | some v => pure (.value v)
    | none => step types (evalGiven types given depth) scope e) s = _
  cases given scope e s <;> rfl

theorem eval_eq_evalGiven {given : Scope → Expr → State → Option Value}
    (h : ∀ depth scope e s v, given scope e s = some v →
      (eval types (depth + 1) scope e).run s = (.ok (.value v), s)) (depth : Nat) :
    eval types depth = evalGiven types given depth := by
  induction depth with
  | zero => rfl
  | succ depth ih =>
      funext scope e s
      change (eval types (depth + 1) scope e).run s =
        (evalGiven types given (depth + 1) scope e).run s
      rw [run_evalGiven]
      cases hv : given scope e s with
      | some v => exact h depth scope e s v hv
      | none =>
          dsimp only
          rw [← ih]
          rfl

theorem rowSlot_eq_ok {p : CustomSlot}
    (hself : scope.context.self.description = scope.description)
    (hrow : (types.find scope.description).repeats element = true)
    (hp : (types.find scope.description).customProperties.get? name = some p) :
    rowSlot types scope e element name = .ok p.offset := by
  obtain ⟨x, hx, hbase⟩ := Option.map_eq_some_iff.1 (beq_iff_eq.1 hrow)
  simp only [rowSlot, hx, hbase, hself, hp, ne_eq, not_true_eq_false, if_false]

theorem run_readRow {eval : Evaluator} {p : CustomSlot} {v : Value}
    (hself : scope.context.self.description = scope.description)
    (hrow : (types.find scope.description).repeats element = true)
    (hp : (types.find scope.description).customProperties.get? name = some p)
    (hcell : s.cell? scope.context.self.number p.offset =
      some (.property (.start (.value v)))) :
    (readRow types eval scope e element name).run s = (.ok (.value v), s) := by
  rw [readRow, rowSlot_eq_ok hself hrow hp]
  change ((Accessor.custom name 0).get eval ⟨scope.context.self.number, p.offset, none⟩
    scope.context).run s = _
  rw [Accessor.run_get_stored (p := .start (.value v)) rfl ((Int.add_zero _).symm ▸ hcell) rfl]
  rfl

end Evaluation

/-- A later world that has the descriptions of an earlier one, and in a slot what this had there. -/
structure Retains (number : Nat) (index : Int) (w w' : World) : Prop where
  types : w.types <+: w'.types
  cell : w'.state.cell? number index = w.state.cell? number index

/-- Worlds that a program gets to by evaluating in contexts that are not inside `o`. -/
inductive Bypasses (o : Context) (cs : List Context) (w : World) : World → Prop
  | refl : Bypasses o cs w w
  | evaluate {w' : World} {c : Context} {description : Nat} (h : Bypasses o cs w w') (hc : c ∈ cs)
      (hn : o ∉ c.chain) (hd : description < w'.types.length) (depth : Nat) (settings : Settings)
      (e : Expr) :
      Bypasses o cs w (w'.run fun types => evaluate types depth settings e description c).2

theorem Call.run_evaluate (w : World) (depth : Nat) (settings : Settings) (e : Expr)
    (description : Nat) (c : Context) :
    w.run (Call.evaluate depth settings e description c).run =
      let out := w.run fun types => UiBinding.evaluate types depth settings e description c
      (out.1.map fun _ => [], out.2) := by
  have hbind : (Call.run w.types (.evaluate depth settings e description c)).run w.state = _ :=
    Run.run_bind (UiBinding.evaluate w.types depth settings e description c) (fun _ => pure []) _
  rw [World.run, World.run, hbind]
  rcases (UiBinding.evaluate w.types depth settings e description c).run w.state with ⟨result, t⟩
  cases result <;> rfl

section Elsewhere

variable {w w' : World} {cs made : List Context} {o : Context}

theorem Reaches.evaluate (h : Reaches w cs) {c : Context} (hc : c ∈ cs) {description : Nat}
    (hd : description < w.types.length) (depth : Nat) (settings : Settings) (e : Expr) :
    Reaches (w.run fun types => UiBinding.evaluate types depth settings e description c).2 cs := by
  have hcall := Reaches.call (.evaluate depth settings e description c) h ⟨hd, hc⟩
  rw [Call.run_evaluate] at hcall
  dsimp only at hcall
  have hnone (result : Except Stop Native) :
      (result.map fun _ => ([] : List Context)).toOption.getD [] = [] := by
    cases result <;> rfl
  rwa [hnone, List.append_nil] at hcall

theorem Reaches.slots_elsewhere (h : Reaches w cs) {c : Context} (ho : o ∈ cs) (hc : c ∈ cs)
    (hn : o ∉ c.chain) (depth : Nat) (settings : Settings) (e : Expr) (description : Nat) :
    ((UiBinding.evaluate w.types depth settings e description c).run w.state).2.slots
      o.self.number = w.state.slots o.self.number := by
  obtain ⟨made, hsub, hk⟩ := h.kept
  have ha : Aligned w.types (.rows fun _ => True) (· ∈ c.chain) w.state w.state w.state w.state :=
    hk.aligned_chain (hsub hc) fun p hp => (hk.suits p (hk.chain_subset (hsub hc) hp)).meets
  obtain ⟨-, halign, -⟩ := settles_evaluate (hk.region_chain (hsub hc)) .all depth settings
    c.self_mem_chain trivial e.rowsIn_all w.state w.state ha
  exact (halign.frame _ (hk.not_number_of_not_mem_chain (hsub hc) (hsub ho) hn)).1

theorem Bypasses.retained (h : Reaches w cs) (ho : o ∈ cs) (hb : Bypasses o cs w w') :
    Reaches w' cs ∧ w'.types = w.types ∧
      w'.state.slots o.self.number = w.state.slots o.self.number := by
  induction hb with
  | refl => exact ⟨h, rfl, rfl⟩
  | evaluate hb hc hn hd depth settings e ih =>
      obtain ⟨hreaches, htypes, hslots⟩ := ih
      exact ⟨hreaches.evaluate hc hd depth settings e, htypes,
        (hreaches.slots_elsewhere ho hc hn depth settings e _).trans hslots⟩

theorem Retains.bypass {w₁ : World} {k : Int} (hk : Retains o.self.number k w w')
    (h : Reaches w' cs) (ho : o ∈ cs) (hb : Bypasses o cs w' w₁) :
    Retains o.self.number k w w₁ := by
  obtain ⟨-, htypes, hslots⟩ := hb.retained h ho
  refine ⟨htypes ▸ hk.types, ?_⟩
  rw [← hk.cell, State.cell?, State.cell?, hslots]

theorem Kept.conversion_eq (h : Kept w.types made w.state) (ho : o ∈ made) {a : Accessor}
    {item : ItemView} {role : Role} {k : Nat} {p : Property Binding} {binding : Binding}
    (ha : Located (w.types.find o.self.description) o.self.number a item role)
    (hk : item.base + a.offset = k)
    (hp : (w.state.slots o.self.number)[k]? = some (.property p)) (hb : p.binding = some binding) :
    binding.conversion = a.conversion := by
  obtain ⟨j, hj, hrole⟩ := ha.exists_slot
  obtain rfl : k = j := Int.ofNat_inj.1 (hk.symm.trans hj)
  obtain ⟨cell, hcell, hholds⟩ := (h.suits o ho).exists_cell k role hrole
  cases hp.symm.trans hcell
  exact (hholds.2 binding hb).1.trans ha.conversion_eq.symm

end Elsewhere

namespace RowEntry

variable {r : RowEntry} {types : Catalog} {scope : Scope} {e : Expr} {s : State} {v : Value}

theorem run_value (h : r.Placed types) (hs : r.Intact s) (hv : r.value? types scope e = some v)
    (depth : Nat) : (Evaluation.eval types (depth + 1) scope e).run s = (.ok (.value v), s) := by
  unfold value? at hv
  by_cases hscope : scope.description = r.description ∧ scope.context.self = r.context.self
  swap
  · rw [if_neg hscope] at hv
    cases hv
  rw [if_pos hscope] at hv
  obtain ⟨hd, hself⟩ := hscope
  obtain ⟨⟨p, hp, hindex⟩, ⟨q, hq, hmodel⟩⟩ := h
  have hown : scope.context.self.description = scope.description := by
    rw [hd, hself, description]
  obtain ⟨hi, hm⟩ := hs
  rw [← hd] at hv hp hq
  rw [← hindex, number, ← hself] at hi
  rw [← hmodel, number, ← hself] at hm
  cases e with
  | rowIndex element =>
      obtain ⟨hrow, hentry⟩ := Option.ite_none_right_eq_some.1 hv
      cases hentry
      exact Evaluation.run_readRow hown hrow hp hi
  | rowModel element =>
      obtain ⟨hrow, hentry⟩ := Option.ite_none_right_eq_some.1 hv
      cases hentry
      exact Evaluation.run_readRow hown hrow hq hm
  | _ => cases hv

theorem eval_eq_given (h : r.Placed types) (depth : Nat) :
    Evaluation.eval types depth = Evaluation.evalGiven types (r.given types) depth := by
  refine Evaluation.eval_eq_evalGiven (fun depth scope e s v hv => ?_) depth
  rw [given] at hv
  split at hv
  · rename_i hs
    exact run_value h hs hv depth
  · cases hv

theorem Intact.logged {events : List Event} (h : r.Intact s) : r.Intact (s.logged events) :=
  ⟨State.cell?_logged.trans h.1, State.cell?_logged.trans h.2⟩

theorem run_given (hs : r.Intact s) (hv : r.value? types scope e = some v) (depth : Nat) :
    (Evaluation.evalGiven types (r.given types) (depth + 1) scope e).run s =
      (.ok (.value v), s) := by
  rw [Evaluation.run_evalGiven, given, if_pos hs, hv]

/-- Nothing was written to the two slots. -/
def Unwritten (r : RowEntry) (w w' : World) : Prop :=
  Retains r.number r.indexSlot w w' ∧ Retains r.number r.modelSlot w w'

/-- The expression of a binding handles a signal of the row: wherever the signal is emitted, all
handlers are run, with the references to the row given. -/
def Handles (r : RowEntry) (w : World) (limit : Nat) (b : MemberBinding) : Prop :=
  ∃ x, ∃ k : Nat, ∃ signal : Signal Handler,
    (w.types.find r.description).tree.element? b.element = some x ∧
    (w.types.find r.description).signalSlot? x.id b.name = some k ∧
    (⟨r.context.scope limit, b.body⟩ : Handler) ∈ signal.handlers ∧
    ∀ w', Retains r.number k w w' → ∀ (scope : Scope) (o : Context) (args : List Expr) (depth : Nat),
      (scope.context.resolve w'.types scope.maxDepth b.element none).2 = .ok o →
      o.self = r.context.self →
      let e : Expr := .call (.signal b.element b.name) args
      let hops := (scope.context.resolve w'.types scope.maxDepth b.element (some e)).1
      let run := Evaluation.evalGiven w'.types (r.given w'.types) depth
      (Evaluation.eval w'.types (depth + 1) scope e).run w'.state =
        (signal.emit (fun h : Handler => do let _ ← run h.scope h.body) >>= fun _ =>
            pure (Native.value .void)).run
          ((w'.state.logged hops).logged [.emitting b.name (w.types.find r.description).id])

/-- The expression of a binding is what a property of the row is read as, wherever that is read:
it is evaluated in the context that the search for the element leads to, with the references to the
row given. The slots of the position and the entry are left out. -/
def Reads (r : RowEntry) (w : World) (limit : Nat) (b : MemberBinding) : Prop :=
  ∃ a item, (w.types.find r.description).locate r.number b.element b.name
      (.property b.element b.name) = .ok (a, item) ∧
    (item.base + a.offset ≠ r.indexSlot → item.base + a.offset ≠ r.modelSlot →
      ∀ w', Retains r.number (item.base + a.offset) w w' →
        ∀ (scope : Scope) (o : Context) (depth : Nat),
          (scope.context.resolve w'.types scope.maxDepth b.element none).2 = .ok o →
          o.self = r.context.self →
          let made := (Evaluation.evalGiven w'.types (r.given w'.types) depth
            ⟨limit, r.description, o⟩ b.body).run
              (w'.state.logged (scope.hops w'.types b.element b.name))
          (Evaluation.eval w'.types (depth + 1) scope (.property b.element b.name)).run w'.state =
            (made.1.bind a.deliver, made.2))

/-- How a row that is there in `w` shows its position and its entry in later worlds. -/
structure Shown (r : RowEntry) (w : World) (limit : Nat) : Prop where
  intact : ∀ w', r.Unwritten w w' → r.Intact w'.state
  elsewhere : ∀ w' cs, Reaches w' cs → r.context ∈ cs → ∀ w'', Bypasses r.context cs w' w'' →
    ∀ k, Retains r.number k w w' → Retains r.number k w w''
  direct : ∀ w', r.Unwritten w w' → ∀ element,
    (w'.types.find r.description).repeats element = true →
    ∀ (depth : Nat) (settings : Settings),
      (w'.run fun types =>
        evaluate types (depth + 1) settings (.rowIndex element) r.description r.context) =
          (.ok (.value r.index), w') ∧
      (w'.run fun types =>
        evaluate types (depth + 1) settings (.rowModel element) r.description r.context) =
          (.ok (.value r.entry), w')
  references : ∀ types, w.types <+: types → ∀ depth,
    Evaluation.eval types depth = Evaluation.evalGiven types (r.given types) depth
  bound : ∀ before b after, (w.types.find r.description).bindings = before ++ b :: after →
    (∀ later ∈ after, later.element = b.element → later.name ≠ b.name) →
      r.Handles w limit b ∨ r.Reads w limit b

section Later

variable {w w' : World} {limit : Nat} {cs made : List Context} {b : MemberBinding}

theorem Placed.index_ne_model (h : r.Placed types) (hd : (types.find r.description).Laid) :
    r.indexSlot ≠ r.modelSlot := by
  obtain ⟨⟨p, hp, hindex⟩, ⟨q, hq, hmodel⟩⟩ := h
  intro he
  have hi : (types.find r.description).slotOf? (.property Description.rowIndexName) =
      some (r.indexSlot : Int) := by
    simp [Description.slotOf?, hp, hindex]
  have hm : (types.find r.description).slotOf? (.property Description.rowModelName) =
      some (r.indexSlot : Int) := by
    simp [Description.slotOf?, hq, hmodel, he]
  exact absurd (Description.slotOf?_inj hd hi hm) (by decide)

theorem Placed.of_prefix (h : r.Placed w.types) (hd : r.description < w.types.length)
    {more : Catalog} (hw : w.types <+: more) : r.Placed more := by
  have hfind := Catalog.find_of_lt hw hd
  exact ⟨hfind ▸ h.index, hfind ▸ h.model⟩

theorem Intact.of_unwritten (h : r.Intact w.state) (hw : r.Unwritten w w') : r.Intact w'.state :=
  ⟨hw.1.cell.trans h.1, hw.2.cell.trans h.2⟩

theorem run_evaluate (h : r.Placed w.types) (hs : r.Intact w.state) {settings : Settings}
    (hv : r.value? w.types ⟨settings.maxContextDepth, r.description, r.context⟩ e = some v)
    (depth : Nat) :
    (w.run fun types => evaluate types (depth + 1) settings e r.description r.context) =
      (.ok (.value v), w) := by
  have hrun : (evaluate w.types (depth + 1) settings e r.description r.context).run w.state =
      (.ok (.value v), w.state) := by
    rw [evaluate, Run.run_tryCatch, run_value h hs hv depth]
  rw [World.run, hrun]

theorem handles_of_mem (hr : r.Placed w.types) (hd : r.description < w.types.length) {x : Element}
    {k : Nat} {signal : Signal Handler}
    (hx : (w.types.find r.description).tree.element? b.element = some x)
    (hk : (w.types.find r.description).signalSlot? x.id b.name = some k)
    (hs : w.state.cell? r.number k = some (.signal signal))
    (hmem : (⟨r.context.scope limit, b.body⟩ : Handler) ∈ signal.handlers) :
    r.Handles w limit b := by
  refine ⟨x, k, signal, hx, hk, hmem, fun w' hw scope o args depth hscope hself => ?_⟩
  have hfind : w'.types.find o.self.description = w.types.find r.description := by
    rw [hself]
    exact Catalog.find_of_lt hw.types hd
  have hcell : w'.state.cell? o.self.number k = some (.signal signal) := by
    rw [hself]
    exact hw.cell.trans hs
  rw [← hfind] at hx hk ⊢
  rw [← eval_eq_given (hr.of_prefix hd hw.types) depth]
  exact Evaluation.run_call hscope hx hk hcell depth

theorem reads_of_bound (h : Kept w.types made w.state) (ho : r.context ∈ made)
    (hr : r.Placed w.types) {a : Accessor} {item : ItemView} {k : Nat}
    (hl : (w.types.find r.description).locate r.number b.element b.name
      (.property b.element b.name) = .ok (a, item))
    (hk : item.base + a.offset = k)
    (hbound : k ≠ r.indexSlot → k ≠ r.modelSlot → ∃ p conversion,
      (w.state.slots r.number)[k]? = some (.property p) ∧
        p.binding = some ⟨.expression b.body limit r.description, conversion⟩) :
    r.Reads w limit b := by
  have hd : r.description < w.types.length := h.described _ ho
  obtain ⟨role, ha⟩ := (h.laid_find r.description).locate_ok hl
  refine ⟨a, item, hl, fun hi hm w' hw scope o depth hscope hself => ?_⟩
  rw [hk] at hi hm hw
  obtain ⟨p, conversion, hp, hb⟩ := hbound (mod_cast hi) (mod_cast hm)
  obtain rfl : conversion = a.conversion := h.conversion_eq ho ha hk hp hb
  have hl' : (w'.types.find o.self.description).locate o.self.number b.element b.name
      (.property b.element b.name) = .ok (a, item) := by
    rw [hself]
    exact Catalog.find_of_lt hw.types hd ▸ hl
  have hcell : w'.state.cell? item.holder (item.base + a.offset) = some (.property p) := by
    rw [ha.holder_eq, hk]
    exact hw.cell.trans (State.cell?_natCast hp)
  rw [← eval_eq_given (hr.of_prefix hd hw.types) depth]
  exact Evaluation.run_reference hscope hl' ha.check_eq hcell hb depth

theorem shown_of_ready (h : Reaches w cs) (hr : r.context ∈ cs) (hplaced : r.Placed w.types)
    (hready : Ready w.types limit r.indexSlot r.modelSlot r.position r.entry r.context
      (w.state.slots r.number)) : r.Shown w limit := by
  obtain ⟨made, hsub, hk⟩ := h.kept
  have ho := hsub hr
  have hd : r.description < w.types.length := hk.described _ ho
  have hintact : r.Intact w.state :=
    ⟨State.cell?_natCast (hready.index (hplaced.index_ne_model (hk.laid_find _))),
      State.cell?_natCast hready.model⟩
  constructor
  case intact => exact fun w' hw => hintact.of_unwritten hw
  case elsewhere => exact fun w' cs hw ho w'' hb k hk => hk.bypass hw ho hb
  case direct =>
    intro w' hw element hrow depth settings
    have hplaced' := hplaced.of_prefix hd hw.1.types
    have hvalue {e : Expr} {v : Value}
        (hv : r.value? w'.types ⟨settings.maxContextDepth, r.description, r.context⟩ e = some v) :=
      run_evaluate hplaced' (hintact.of_unwritten hw) hv depth
    exact ⟨hvalue (by simp [value?, hrow]), hvalue (by simp [value?, hrow])⟩
  case references =>
    exact fun types hprefix depth => eval_eq_given (hplaced.of_prefix hd hprefix) depth
  case bound =>
    intro before b after hb hlast
    obtain ⟨x, k, signal, hx, hslot, hs, hmem⟩ | ⟨a, item, k, hl, hslot, hbound⟩ :=
      hready.stands (h.built_find hd) hb hlast
    · exact .inl (handles_of_mem hplaced hd hx hslot (State.cell?_natCast hs) hmem)
    · exact .inr (reads_of_bound hk ho hplaced hl hslot hbound)

end Later

end RowEntry

/-- Each row of a repeated component sees its own entry. Where rows are made for a model, there is
one for each entry, in order, with an instance of its own inside the given context. It is not
around any of the others, so that evaluation in these leaves it alone, and it shows its position
and its entry. -/
theorem Reaches.rows_see_entries {w w₁ : World} {cs : List Context} (h : Reaches w cs)
    {parent : Context} (hp : parent ∈ cs) {settings : Settings} {description : Nat}
    {model : List Native} {rows : List Context}
    (hrun : w.run (fun types => instantiateRows types settings description parent model) =
      (.ok rows, w₁)) :
    rows.length = model.length ∧
    ∀ (i : Nat) row, rows[i]? = some row →
      row.self = ⟨w.state.instances.length + i, description⟩ ∧ row.parent? = some parent ∧
      (∀ other ∈ rows, other ≠ row → row ∉ other.chain) ∧
      ∃ n, ∃ r : RowEntry, model[i]? = some n ∧ n.toValue = .ok r.entry ∧ r.context = row ∧
        r.position = i ∧ r.Placed w₁.types ∧ r.Shown w₁ settings.maxContextDepth := by
  obtain ⟨hstate, htypes⟩ := World.run_eq hrun
  obtain ⟨index, entry, hindex, hentry, hlen, hrows⟩ := instantiateRows_ok hstate
  have hdescribed : description < w.types.length := by
    by_contra hn
    rw [Catalog.find, List.getElem?_eq_none (Nat.le_of_not_lt hn)] at hindex
    cases hindex
  have h₁ : Reaches w₁ (cs ++ rows) := by
    have hcall := Reaches.call (.instantiateRows settings description parent model) h
      ⟨hdescribed, hp⟩
    change Reaches (w.run fun types => instantiateRows types settings description parent model).2
      (cs ++ (w.run fun types => instantiateRows types settings description parent
        model).1.toOption.getD []) at hcall
    rwa [hrun] at hcall
  refine ⟨hlen, fun i row hrow => ?_⟩
  obtain ⟨n, hn, hself, hparent, v, hv, hready⟩ := hrows i row hrow
  have hplaced : RowEntry.Placed ⟨row, index.offset, entry.offset, i, v⟩ w₁.types := by
    rw [htypes]
    refine ⟨⟨index, ?_, rfl⟩, ⟨entry, ?_, rfl⟩⟩
    · rwa [RowEntry.description, hself]
    · rwa [RowEntry.description, hself]
  refine ⟨hself, hparent, fun other hother hne => ?_, n, _, hn, hv, rfl, rfl, hplaced, ?_⟩
  · obtain ⟨j, hj, hother⟩ := List.getElem_of_mem hother
    obtain ⟨m, -, hmade⟩ := hrows j other (List.getElem?_eq_some_iff.2 ⟨hj, hother⟩)
    exact Context.sibling_not_mem_chain (hparent.trans hmade.parent.symm) hne.symm
  · refine RowEntry.shown_of_ready h₁ (List.mem_append_right _ (List.mem_of_getElem? hrow))
      hplaced ?_
    rw [htypes]
    exact hready

namespace Sample

def framed : World := (described.run (Call.instantiate .standard 0 none).run).2

theorem reaches_framed : Reaches framed [outer] :=
  .call (.instantiate .standard 0 none)
    (.describe (.describe .empty frame_described) row_described) ⟨by decide, nofun⟩

def shift : Expr := .assign (.property 2 "x") .add (.number (Binary64.ofInt 3))

def moved : World := (world.run fun types => evaluate types 5 .standard shift 1 (inner 1)).2

def secondRow : RowEntry := ⟨inner 2, 0, 1, 1, .string "b"⟩

theorem second_row_sees_b :
    (framed.run fun types => instantiateRows types .standard 1 outer [.string "a", .string "b"]) =
      (.ok [inner 1, inner 2], world) ∧
    secondRow.Unwritten world moved ∧
    (moved.run fun types => evaluate types 1 .standard (.rowModel 1) 1 (inner 2)) =
      (.ok (.value (.string "b")), moved) ∧
    ((Evaluation.eval moved.types 3 ⟨3, 0, .nested 7 ⟨0, 0⟩ (inner 2)⟩ (.property 2 "text")).run
      moved.state).1 = .ok (.value (.string "b")) := by
  have hrun : (framed.run fun types => instantiateRows types .standard 1 outer
      [.string "a", .string "b"]) = (.ok [inner 1, inner 2], world) := rfl
  obtain ⟨-, hrows⟩ := reaches_framed.rows_see_entries (List.mem_singleton.2 rfl) hrun
  obtain ⟨-, -, hapart, n, ⟨c, indexSlot, modelSlot, position, v⟩, hn, hv, hr, hi,
    ⟨⟨p, hp, hindex⟩, ⟨q, hq, hmodel⟩⟩, hshown⟩ := hrows 1 (inner 2) rfl
  cases hr
  cases hi
  cases hn
  cases hv
  cases hp
  cases hq
  cases hindex
  cases hmodel
  change secondRow.Shown world 64 at hshown
  have hbypass : Bypasses (inner 2) [outer, inner 1, inner 2] world moved :=
    .evaluate .refl (by simp) (hapart (inner 1) (by simp) (by decide)) (by decide) 5 .standard shift
  have hretains (k : Int) : Retains 2 k world moved :=
    hshown.elsewhere world _ reaches_world (by simp [secondRow]) moved hbypass k
      ⟨List.prefix_rfl, rfl⟩
  have hunwritten : secondRow.Unwritten world moved := ⟨hretains 0, hretains 1⟩
  refine ⟨hrun, hunwritten, (hshown.direct moved hunwritten 1 rfl 0 .standard).2, ?_⟩
  obtain ⟨x, k, signal, hx, hk, -⟩ | ⟨a, item, hl, hread⟩ :=
    hshown.bound [] ⟨2, "text", .rowModel 1⟩ [] rfl nofun
  · cases hx
    cases hk
  · cases hl
    rw [hread nofun nofun moved (hretains 4) ⟨3, 0, .nested 7 ⟨0, 0⟩ (inner 2)⟩ (inner 2) 2 rfl rfl,
      RowEntry.run_given (v := .string "b") (hshown.intact moved hunwritten).logged rfl 1]
    rfl

end Sample

end UiBinding
