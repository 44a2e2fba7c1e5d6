import UiBinding.Instantiation
import UiBinding.Proofs.Alignment

namespace UiBinding

open Run (Respects)

namespace Expr

def parts : Expr → List Expr
  | field base _ => [base]
  | cast source _ => [source]
  | block body => body
  | call callee args => callee :: args
  | assign target _ operand => [target, operand]
  | binary _ left right => [left, right]
  | unary _ operand => [operand]
  | condition test yes no => [test, yes, no]
  | array _ items => items
  | object fields => fields.map Prod.snd
  | path segments => segments.flatMap fun s => s.2.map Prod.snd
  | _ => []

/-- A property of an expression and of all expressions inside it. -/
inductive Everywhere (p : Expr → Prop) : Expr → Prop
  | intro (e : Expr) (here : p e) (inside : ∀ x ∈ e.parts, Everywhere p x) : Everywhere p e

namespace Everywhere

variable {p : Expr → Prop} {e : Expr}

theorem here (h : Everywhere p e) : p e := by
  cases h
  assumption

theorem inside (h : Everywhere p e) : ∀ x ∈ e.parts, Everywhere p x := by
  cases h
  assumption

theorem imp {q : Expr → Prop} (h : Everywhere p e) (hpq : ∀ x, p x → q x) : Everywhere q e := by
  induction h with
  | intro e here _ ih => exact .intro e (hpq e here) ih

theorem sizeOf_lt_of_mem_parts {e x : Expr} (h : x ∈ e.parts) : sizeOf x < sizeOf e := by
  have hpair {l : List (String × Expr)} (hx : x ∈ l.map Prod.snd) : sizeOf x < sizeOf l := by
    obtain ⟨⟨name, y⟩, hmem, rfl⟩ := List.mem_map.1 hx
    have := List.sizeOf_lt_of_mem hmem
    simp only [Prod.mk.sizeOf_spec] at this ⊢
    omega
  cases e with
  | block l | array _ l =>
      have := List.sizeOf_lt_of_mem (show x ∈ l from h)
      simp only [block.sizeOf_spec, array.sizeOf_spec]
      omega
  | call callee args =>
      obtain rfl | h := List.mem_cons.1 h
      · simp only [call.sizeOf_spec]; omega
      · have := List.sizeOf_lt_of_mem h
        simp only [call.sizeOf_spec]; omega
  | object fields =>
      have := hpair h
      simp only [object.sizeOf_spec]; omega
  | path segments =>
      obtain ⟨⟨name, fields⟩, hmem, hx⟩ := List.mem_flatMap.1 h
      have hfields := hpair hx
      have := List.sizeOf_lt_of_mem hmem
      simp only [Prod.mk.sizeOf_spec, path.sizeOf_spec] at *
      omega
  | field | cast | assign | binary | unary | condition =>
      simp only [parts, List.mem_cons, List.not_mem_nil, or_false] at h
      simp only [field.sizeOf_spec, cast.sizeOf_spec, assign.sizeOf_spec, binary.sizeOf_spec,
        unary.sizeOf_spec, condition.sizeOf_spec]
      rcases h with rfl | rfl | rfl <;> omega
  | _ => cases h

theorem of_forall (h : ∀ e, p e) (e : Expr) : Everywhere p e :=
  .intro e (h e) fun x hx => have := sizeOf_lt_of_mem_parts hx; of_forall h x
termination_by sizeOf e

end Everywhere

def row? : Expr → Option Int
  | rowIndex element | rowModel element => some element
  | _ => none

def RowsIn (rows : Int → Prop) : Expr → Prop := Everywhere fun e => ∀ i, e.row? = some i → rows i

end Expr

theorem Expr.rowsIn_all (e : Expr) : e.RowsIn fun _ => True :=
  Everywhere.of_forall (fun _ _ _ => trivial) e

def Policy.rows (rows : Int → Prop) : Policy := ⟨fun _ _ => True, fun _ _ body => body.RowsIn rows⟩

/-- The stops to expect in a region where rows of some elements are referred to: exhaustion,
faults but those about the kind of a slot, and elements that are missing in a tree. -/
structure Tolerates (types : Catalog) (near : Context → Prop) (known : Nat → Prop)
    (rows : Int → Prop) (fails : Stop → Prop) : Prop where
  described : ∀ c, near c → known c.self.description
  exhausted : fails .exhausted
  fault : ∀ f : Fault, f.isSlotKind = false → fails (.error (.fault f))
  row : ∀ n i, known n → rows i → (types.find n).tree.element? i = none →
    fails (.error (.noElement i))
  owned : ∀ c o i, near c → near o → (types.find c.self.description).tree.element? i ≠ none →
    (types.find o.self.description).tree.element? i = none → fails (.error (.noElement i))

def IsValue (n : Native) : Prop := ∃ v, n = .value v

/-- Everything that an evaluator is given in a region gives a value or an expected stop. -/
def Settles (types : Catalog) (near : Context → Prop) (known : Nat → Prop) (rows : Int → Prop)
    (fails : Stop → Prop) (s₀ t₀ : State) (eval : Evaluator) : Prop :=
  ∀ scope e, near scope.context → known scope.description → e.RowsIn rows →
    Respects (Aligned types (.rows rows) near s₀ t₀) fails IsValue (eval scope e)

theorem Native.asValue?_value (v : Value) : (Native.value v).asValue? = some v := by
  rw [asValue?]
  cases depth (.value v) <;> rfl

theorem exists_arrayOf {items : List Native} (h : ∀ n ∈ items, IsValue n) :
    ∃ vs, Evaluation.arrayOf items = pure (.value (.array vs)) := by
  have hvs : ∃ vs, items.mapM Native.asValue? = some vs := by
    induction items with
    | nil => exact ⟨[], rfl⟩
    | cons n items ih =>
        obtain ⟨v, rfl⟩ := h n (by simp)
        obtain ⟨vs, hvs⟩ := ih fun m hm => h m (by simp [hm])
        exact ⟨v :: vs, by simp [List.mapM_cons, hvs, Native.asValue?_value]⟩
  obtain ⟨vs, hvs⟩ := hvs
  exact ⟨vs, by simp only [Evaluation.arrayOf, hvs]⟩

theorem exists_objectOf {fields : List (String × Native)} (h : ∀ f ∈ fields, IsValue f.2) :
    ∃ fs, Evaluation.objectOf fields = pure (.value (.object fs)) := by
  have hfs : ∃ fs, (fields.mapM fun f => f.2.asValue?.map fun v => (f.1, v)) = some fs := by
    induction fields with
    | nil => exact ⟨[], rfl⟩
    | cons f fields ih =>
        obtain ⟨name, n⟩ := f
        obtain ⟨v, rfl⟩ := h (name, n) (by simp)
        obtain ⟨fs, hfs⟩ := ih fun g hg => h g (by simp [hg])
        exact ⟨(name, v) :: fs, by simp [List.mapM_cons, hfs, Native.asValue?_value]⟩
  obtain ⟨fs, hfs⟩ := hfs
  exact ⟨fs, by simp only [Evaluation.objectOf, hfs]⟩

section Operands

variable {rel : State → State → Prop} {fails : Stop → Prop}

theorem respects_kindOf {n : Native} (hn : IsValue n) :
    Respects rel fails (fun _ => True) (Evaluation.kindOf n) := by
  obtain ⟨v, rfl⟩ := hn
  exact .pure trivial

theorem respects_applyBinary
    (hfails : ∀ f : Fault, f.isSlotKind = false → fails (.error (.fault f))) {e : Expr}
    {op : BinaryOp} {a b : Native} (ha : IsValue a) (hb : IsValue b) :
    Respects rel fails IsValue (Evaluation.applyBinary e op a b) := by
  rw [Evaluation.applyBinary]
  split
  · exact .pure ⟨_, rfl⟩
  · refine .bind (respects_kindOf ha) fun _ _ => .bind (respects_kindOf hb) fun _ _ => ?_
    exact .fault (hfails _ rfl)

theorem respects_applyUnary
    (hfails : ∀ f : Fault, f.isSlotKind = false → fails (.error (.fault f))) {e : Expr}
    {op : UnaryOp} {n : Native} (hn : IsValue n) :
    Respects rel fails IsValue (Evaluation.applyUnary e op n) := by
  rw [Evaluation.applyUnary]
  split
  · exact .pure ⟨_, rfl⟩
  · exact .bind (respects_kindOf hn) fun _ _ => .fault (hfails _ rfl)

theorem respects_readField
    (hfails : ∀ f : Fault, f.isSlotKind = false → fails (.error (.fault f))) {e : Expr}
    {n : Native} (hn : IsValue n) {name : String} :
    Respects rel fails IsValue (Evaluation.readField e n name) := by
  simp only [Evaluation.readField]
  split
  · exact .pure ⟨_, rfl⟩
  · exact .bind (respects_kindOf hn) fun _ _ => .fault (hfails _ rfl)

theorem respects_field {post : Native → Prop} {m : Run Native} (name : String)
    (hm : Respects rel fails post m) :
    Respects rel fails (fun f => post f.2) (do return (name, ← m)) :=
  .bind hm fun _ hn => .pure hn

end Operands

section Steps

variable {types : Catalog} {near : Context → Prop} {known : Nat → Prop} {rows : Int → Prop}
  {fails : Stop → Prop} {s₀ t₀ : State} {eval : Evaluator} {scope : Scope} {e : Expr}
  {element : Int} {name : String}

theorem tolerates_resolve {P : Policy} (hn : Region types near)
    (ht : Tolerates types near known rows fails) {c : Context} (hc : near c) {limit : Int}
    {blame : Option Expr} :
    Respects (Aligned types P near s₀ t₀) fails
      (fun o => near o ∧ (c.resolve types limit element blame).2 = .ok o)
      (Run.resolve types limit element blame c) :=
  respects_resolve hn hc fun f hf => ht.fault f (Context.resolve_error hf)

theorem tolerates_locate {P : Policy} (ht : Tolerates types near known rows fails) {c o : Context}
    (hc : near c) (ho : near o) {limit : Int} {blame : Option Expr}
    (hr : (c.resolve types limit element blame).2 = .ok o) :
    Respects (Aligned types P near s₀ t₀) fails
      (fun found => (types.find o.self.description).locate o.self.number element name e =
        .ok found)
      (Run.ofExcept ((types.find o.self.description).locate o.self.number element name e)) := by
  refine .ofExcept (fun found hf => hf) fun err herr => ?_
  obtain ⟨rfl, hnone⟩ | ⟨f, rfl, hf⟩ := Description.locate_error herr
  · obtain ⟨-, x, hx, -⟩ := Context.resolve_ok hr
    exact ht.owned c o element hc ho (by rw [hx]; nofun) hnone
  · exact ht.fault f hf

theorem convert_error {q : ItemProperty} {v : Value} {f : Fault}
    (h : q.convert (.value v) = .error f) : f.isSlotKind = false := by
  simp only [ItemProperty.convert] at h
  split at h
  · cases h
  · cases h; rfl

theorem isValue_of_yields {P : Policy} {role : Role} {n : Native} (h : role.Yields P n) :
    IsValue n := by
  obtain ⟨v, rfl, -⟩ := h
  exact ⟨v, rfl⟩

theorem settles_get (ht : Tolerates types near known rows fails)
    (h : Settles types near known rows fails s₀ t₀ eval) {o : Context} (ho : near o)
    {a : Accessor} {item : ItemView} {role : Role}
    (ha : Located (types.find o.self.description) o.self.number a item role) :
    Respects (Aligned types (.rows rows) near s₀ t₀) fails (role.Yields (.rows rows))
      (a.get eval item o) := by
  refine respects_get ho ha (fun body depth hbody => ?_) fun q v f _ _ hf => ?_
  · refine (h (o.scope depth) body ho (ht.described o ho) hbody).imp ?_
    rintro _ ⟨v, rfl⟩
    exact ⟨v, rfl, trivial⟩
  · exact ht.fault f (convert_error hf)

theorem settles_readProperty (hn : Region types near) (ht : Tolerates types near known rows fails)
    (h : Settles types near known rows fails s₀ t₀ eval) (hc : near scope.context) :
    Respects (Aligned types (.rows rows) near s₀ t₀) fails IsValue
      (Evaluation.readProperty types eval scope e element name) := by
  refine .bind (tolerates_resolve hn ht hc) fun o ⟨ho, hr⟩ => ?_
  refine .bind (tolerates_locate ht hc ho hr) fun ⟨a, item⟩ hl => ?_
  obtain ⟨role, ha⟩ := (hn.laid o ho).locate_ok hl
  exact (settles_get ht h ho ha).imp fun _ => isValue_of_yields

theorem settles_readRow (hn : Region types near) (ht : Tolerates types near known rows fails)
    (h : Settles types near known rows fails s₀ t₀ eval) (hc : near scope.context)
    (hk : known scope.description) (hrow : rows element) :
    Respects (Aligned types (.rows rows) near s₀ t₀) fails IsValue
      (Evaluation.readRow types eval scope e element name) := by
  refine .bind (.ofExcept (fun slot hs => Evaluation.rowSlot_ok hs) fun err herr => ?_)
    fun slot hs => ?_
  · obtain ⟨rfl, hnone⟩ | ⟨f, rfl, hf⟩ := Evaluation.rowSlot_error herr
    · exact ht.row _ element hk hrow hnone
    · exact ht.fault f hf
  · obtain ⟨hd, p, hp, rfl⟩ := hs
    rw [← hd] at hp
    have ha : Located (types.find scope.context.self.description) scope.context.self.number
        (.custom name 0) ⟨scope.context.self.number, p.offset, none⟩ (.custom p) :=
      .custom ((hn.laid _ hc).custom (Assoc.mem_of_get? hp))
    exact (settles_get ht h hc ha).imp fun _ => isValue_of_yields

theorem settles_emitSignal (hn : Region types near) (ht : Tolerates types near known rows fails)
    (h : Settles types near known rows fails s₀ t₀ eval) (hc : near scope.context) :
    Respects (Aligned types (.rows rows) near s₀ t₀) fails IsValue
      (Evaluation.emitSignal types eval scope e element name) := by
  refine .bind (tolerates_resolve hn ht hc) fun o ⟨ho, hr⟩ => ?_
  obtain ⟨-, x, hx, -⟩ := Context.resolve_ok hr
  refine .bind (respects_signalOf hn ho fun hnone => ?_) fun found hfound => ?_
  · exact ht.owned _ o element hc ho (by rw [hx]; nofun) hnone
  cases found with
  | none => exact .fault (ht.fault _ rfl)
  | some found =>
      obtain ⟨k, signal⟩ := found
      obtain ⟨-, -, hhandlers⟩ := hfound k signal rfl
      refine .bind (respects_log _) fun _ _ => .bind (.forM _ fun handler hmem => ?_) fun _ _ => ?_
      · obtain ⟨depth, hscope, hbody⟩ := hhandlers handler hmem
        rw [hscope]
        exact .bind (h _ _ ho (ht.described o ho) hbody) fun _ _ => .pure trivial
      · exact .pure ⟨_, rfl⟩

theorem settles_assignProperty (hn : Region types near)
    (ht : Tolerates types near known rows fails)
    (h : Settles types near known rows fails s₀ t₀ eval) (hc : near scope.context)
    (hk : known scope.description) {op : AssignOp} {operand : Expr}
    (hoperand : operand.RowsIn rows) :
    Respects (Aligned types (.rows rows) near s₀ t₀) fails IsValue
      (Evaluation.assignProperty types eval scope e element name op operand) := by
  refine .bind (tolerates_resolve hn ht hc) fun o ⟨ho, hr⟩ => ?_
  refine .bind (tolerates_locate ht hc ho hr) fun ⟨a, item⟩ hl => ?_
  obtain ⟨role, ha⟩ := (hn.laid o ho).locate_ok hl
  refine .bind (settles_get ht h ho ha) fun current hcurrent => ?_
  refine .bind (h scope operand hc hk hoperand) fun change hchange => ?_
  dsimp only
  split
  · refine .bind (respects_log _) fun _ _ => .bind (respects_set hn ho ha trivial ?_ none)
      fun _ _ => .pure ⟨_, rfl⟩
    exact fun q f _ hf => ht.fault f (convert_error hf)
  · refine .bind (respects_kindOf (isValue_of_yields hcurrent)) fun _ _ => ?_
    exact .bind (respects_kindOf hchange) fun _ _ => .fault (ht.fault _ rfl)

theorem settles_buildSegment (ht : Tolerates types near known rows fails)
    (h : Settles types near known rows fails s₀ t₀ eval) (hc : near scope.context)
    (hk : known scope.description) {shape : SegmentShape} {bindings : Assoc Expr}
    (hbindings : ∀ x ∈ bindings.map Prod.snd, x.RowsIn rows) :
    Respects (Aligned types (.rows rows) near s₀ t₀) fails (fun _ => True)
      (buildSegment eval scope shape bindings) := by
  refine .foldlM _ (fun segment _ field _ => ?_) trivial
  cases hb : bindings.get? field.name with
  | none => exact .pure trivial
  | some body =>
      have hbody := hbindings body (List.mem_map.2 ⟨_, Assoc.mem_of_get? hb, rfl⟩)
      refine .bind (h scope body hc hk hbody) fun n _ => ?_
      cases segment.store field n with
      | ok segment => exact .pure trivial
      | error failure => exact .fault (ht.fault _ rfl)

theorem settles_segmentOf (ht : Tolerates types near known rows fails)
    (h : Settles types near known rows fails s₀ t₀ eval) (hc : near scope.context)
    (hk : known scope.description) (shape : String) {bindings : Assoc Expr}
    (hbindings : ∀ x ∈ bindings.map Prod.snd, x.RowsIn rows) :
    Respects (Aligned types (.rows rows) near s₀ t₀) fails (fun _ => True)
      (segmentOf eval scope shape bindings) := by
  rw [segmentOf]
  split
  · exact .fault (ht.fault _ rfl)
  · exact settles_buildSegment ht h hc hk hbindings

theorem settles_step (hn : Region types near) (ht : Tolerates types near known rows fails)
    (h : Settles types near known rows fails s₀ t₀ eval) :
    Settles types near known rows fails s₀ t₀ (Evaluation.step types eval) := by
  intro scope e hc hk he
  have hpart x (hx : x ∈ e.parts) := h scope x hc hk (he.inside x hx)
  have hfault (f : Fault) (hf : f.isSlotKind = false) :
      Respects (Aligned types (.rows rows) near s₀ t₀) fails IsValue (Run.fault f) :=
    .fault (ht.fault f hf)
  cases e with
  | invalid | uncompiled | foreign | signal => exact hfault _ rfl
  | string | number | bool | file => exact .pure ⟨_, rfl⟩
  | property element name => exact settles_readProperty hn ht h hc
  | rowIndex element | rowModel element =>
      -- The one node that asks for an element before any context was searched for it.
      exact settles_readRow hn ht h hc hk (he.here element rfl)
  | field base name =>
      exact .bind (hpart base (by simp [Expr.parts])) fun n hv => respects_readField ht.fault hv
  | cast source target =>
      refine .bind (hpart source (by simp [Expr.parts])) fun n hv => .pure ?_
      obtain ⟨v, rfl⟩ := hv
      exact ⟨v.cast target, rfl⟩
  | block body => exact .foldlM _ (fun _ _ x hx => hpart x hx) ⟨.void, rfl⟩
  | call callee args =>
      cases callee with
      | signal element name => exact settles_emitSignal hn ht h hc
      | _ => exact hfault _ rfl
  | assign target op operand =>
      cases target with
      | property element name =>
          exact settles_assignProperty hn ht h hc hk (he.inside operand (by simp [Expr.parts]))
      | _ => exact hfault _ rfl
  | binary op left right =>
      refine .bind (hpart left (by simp [Expr.parts])) fun a ha => ?_
      refine .bind (hpart right (by simp [Expr.parts])) fun b hb => ?_
      exact respects_applyBinary ht.fault ha hb
  | unary op operand =>
      exact .bind (hpart operand (by simp [Expr.parts])) fun n hv =>
        respects_applyUnary ht.fault hv
  | condition test yes no =>
      refine .bind (hpart test (by simp [Expr.parts])) fun n _ => ?_
      cases n.verdict? with
      | none => exact hfault _ rfl
      | some b =>
          cases b with
          | false => exact hpart no (by simp [Expr.parts])
          | true => exact hpart yes (by simp [Expr.parts])
  | array type items =>
      refine .bind (.mapM items fun x hx => hpart x hx) fun ns hns => ?_
      obtain ⟨vs, hvs⟩ := exists_arrayOf hns
      rw [hvs]
      exact .pure ⟨_, rfl⟩
  | object fields =>
      have hfields := Respects.mapM fields fun f hf =>
        respects_field f.1 (hpart f.2 (List.mem_map.2 ⟨f, hf, rfl⟩))
      refine .bind hfields fun ns hns => ?_
      obtain ⟨fs, hfs⟩ := exists_objectOf hns
      rw [hfs]
      exact .pure ⟨_, rfl⟩
  | path segments =>
      have hsegments := Respects.mapM segments fun s hs => settles_segmentOf ht h
        hc hk s.1 fun x hx => he.inside x (List.mem_flatMap.2 ⟨s, hs, hx⟩)
      exact .bind hsegments fun _ _ => .pure ⟨_, rfl⟩

theorem settles_eval (hn : Region types near) (ht : Tolerates types near known rows fails)
    (depth : Nat) : Settles types near known rows fails s₀ t₀ (Evaluation.eval types depth) := by
  induction depth with
  | zero => exact fun _ _ _ _ _ => .throw ht.exhausted
  | succ depth ih => exact settles_step hn ht ih

theorem settles_evaluate (hn : Region types near) (ht : Tolerates types near known rows fails)
    (depth : Nat) (settings : Settings) {description : Nat} {c : Context} (hc : near c)
    (hk : known description) (he : e.RowsIn rows) :
    Respects (Aligned types (.rows rows) near s₀ t₀) fails IsValue
      (evaluate types depth settings e description c) :=
  .tryCatch (settles_eval hn ht depth ⟨settings.maxContextDepth, description, c⟩ e hc hk he)
    fun _ hstop => .bind (respects_log _) fun _ _ => .throw hstop

theorem settles_bindMember (hn : Region types near) (ht : Tolerates types near known rows fails)
    {settings : Settings} {c : Context} (hc : near c) (he : e.RowsIn rows) :
    Respects (Aligned types (.rows rows) near s₀ t₀) fails (fun _ => True)
      (bindMember types settings element name e c) := by
  refine .bind (tolerates_resolve hn ht hc) fun o ⟨ho, hr⟩ => ?_
  obtain ⟨-, x, hx, -⟩ := Context.resolve_ok hr
  refine .bind (respects_signalOf hn ho fun hnone => ?_) fun found hfound => ?_
  · exact ht.owned _ o element hc ho (by rw [hx]; nofun) hnone
  cases found with
  | some found =>
      obtain ⟨k, signal⟩ := found
      obtain ⟨hrole, hsignal⟩ := hfound k signal rfl
      exact respects_connect hn ho hrole hsignal he
  | none =>
      refine .bind (tolerates_locate ht hc ho hr) fun ⟨a, item⟩ hl => ?_
      obtain ⟨role, ha⟩ := (hn.laid o ho).locate_ok hl
      exact respects_bind hn ho ha he none

end Steps

end UiBinding
