import UiBinding.Proofs.Session
import UiBinding.Proofs.Typing

namespace UiBinding

open Run (Respects)

theorem Description.exists_block {d : Description} {q : ItemProperty} {k : Nat}
    (h : d.roles[k]? = some (.item q)) :
    ∃ id b, (id, b) ∈ d.items ∧ q ∈ b.item.properties b.checked := by
  have hmem := List.mem_of_getElem? h
  simp only [roles, List.mem_append, List.mem_flatMap, customRoles, signalRoles, itemRoles,
    ItemBlock.roles, List.mem_map, List.mem_singleton, reduceCtorEq, and_false, exists_false,
    false_or, or_false] at hmem
  obtain ⟨⟨id, b⟩, hb, q', hq, he⟩ := hmem
  cases he
  exact ⟨id, b, hb, hq⟩

theorem Value.unwrap_error {v : Value} {t : StorageType} {checked : Bool}
    {failure : ConversionFailure} (ht : t.bounds? = none ∧ t ≠ .value) (hv : v.OfTag t.tag?)
    (h : v.unwrap t checked = .error failure) :
    checked = true ∧ t = .f32 ∧ failure = ⟨"number", "f32", some .outOfRange⟩ := by
  cases t with
  | i32 | i64 | u32 | u64 | isize | usize => cases ht.1
  | value => exact (ht.2 rfl).elim
  | f32 =>
      obtain ⟨x, rfl⟩ := exists_number (hv .number rfl)
      simp only [unwrap, StorageType.ofNumber?, Binary64.narrowSingle] at h
      split at h
      · cases h
      · rename_i reason hr
        cases h
        split at hr
        · rename_i hc
          cases hr
          exact ⟨(Bool.and_eq_true_iff.1 hc).1, rfl, rfl⟩
        · cases hr
      · rename_i hr
        cases hr
  | f64 => obtain ⟨x, rfl⟩ := exists_number (hv .number rfl); cases h
  | bool => obtain ⟨b, rfl⟩ := exists_bool (hv .bool rfl); cases h
  | object => obtain ⟨fs, rfl⟩ := exists_object (hv .object rfl); cases h
  | string | resource | color | pathElements =>
      have htag := hv _ rfl
      cases v <;> first | cases htag; done | cases h

/-- A number that a checked property of a region refuses as too large for it. -/
def Overflows (types : Catalog) (near : Context → Prop) (stop : Stop) : Prop :=
  ∃ o id b q, near o ∧ (id, b) ∈ (types.find o.self.description).items ∧ b.checked = true ∧
    q ∈ b.item.properties true ∧ q.type = .f32 ∧
      stop = .error (.fault (.rejected q.owner q.name .f32 ⟨"number", "f32", some .outOfRange⟩))

def TypedStop (types : Catalog) (near : Context → Prop) (stop : Stop) : Prop :=
  stop = .exhausted ∨ Overflows types near stop

def OfTag (t : Option Tag) (n : Native) : Prop := ∃ v, n = .value v ∧ v.OfTag t

theorem OfTag.isValue {t : Option Tag} {n : Native} (h : OfTag t n) : IsValue n := by
  obtain ⟨v, rfl, -⟩ := h
  exact ⟨v, rfl⟩

/-- Typed code in a region evaluates to values of its tag and keeps the slots well typed. -/
def Sound (types : Catalog) (near : Context → Prop) (s₀ t₀ : State) (eval : Evaluator) : Prop :=
  ∀ scope e t, near scope.context → HasTag types scope e t →
    Respects (Aligned types (.typed types) near s₀ t₀) (TypedStop types near) (OfTag t)
      (eval scope e)

theorem ofTag_of_yields {types : Catalog} {role : Role} {n : Native}
    (h : role.Yields (.typed types) n) : OfTag role.tag? n := by
  obtain ⟨v, rfl, hv⟩ := h
  refine ⟨v, rfl, ?_⟩
  cases role with
  | custom p => exact hv
  | signal => nofun
  | item q => exact hv.1

section Steps

variable {types : Catalog} {near : Context → Prop} {s₀ t₀ : State} {eval : Evaluator}
  {scope : Scope} {e : Expr} {element : Int} {name : String} {owner : Context} {a : Accessor}
  {item : ItemView} {role : Role}

theorem typedStop_of_convert (ho : near owner)
    (ha : Located (types.find owner.self.description) owner.self.number a item role)
    {q : ItemProperty} {v : Value} {f : Fault} (hq : role = .item q) (hv : v.OfTag role.tag?)
    (h : q.convert (.value v) = .error f) : TypedStop types near (.error (.fault f)) := by
  subst hq
  obtain ⟨k, -, hk⟩ := ha.exists_slot
  obtain ⟨id, b, hb, hmem⟩ := Description.exists_block hk
  obtain ⟨-, htype, -⟩ := Item.exists_of_mem_properties hmem
  simp only [ItemProperty.convert] at h
  split at h
  · cases h
  · rename_i failure hu
    cases h
    obtain ⟨hchecked, hf, rfl⟩ := Value.unwrap_error (Item.storage_of_mem htype) hv hu
    have hb' : q.checked = b.checked := by
      obtain ⟨p, -, rfl⟩ := List.mem_map.1 hmem
      rfl
    rw [hb'] at hchecked
    rw [hchecked] at hmem
    exact .inr ⟨owner, id, b, q, ho, hb, hchecked, hmem, hf, by rw [hf]⟩

theorem sound_resolve (hn : Region types near) (hc : near scope.context) {blame : Option Expr}
    (hr : (scope.context.resolve types scope.maxDepth element none).2 = .ok owner) :
    Respects (Aligned types (.typed types) near s₀ t₀) (TypedStop types near)
      (fun o => o = owner ∧ near owner)
      (Run.resolve types scope.maxDepth element blame scope.context) := by
  have hr' := Context.resolve_blame blame hr
  refine (respects_resolve hn hc fun f hf => ?_).imp ?_
  · cases hf.symm.trans hr'
  · rintro o ⟨ho, he⟩
    cases he.symm.trans hr'
    exact ⟨rfl, ho⟩

theorem sound_locate (h : Denotes types scope element name owner a item role) (e : Expr) :
    Respects (Aligned types (.typed types) near s₀ t₀) (TypedStop types near)
      (fun found => found = (a, item))
      (Run.ofExcept ((types.find owner.self.description).locate owner.self.number element name
        e)) := by
  rw [Description.locate_blame e h.located]
  exact .pure rfl

theorem sound_get (hs : Sound types near s₀ t₀ eval) (ho : near owner)
    (ha : Located (types.find owner.self.description) owner.self.number a item role) :
    Respects (Aligned types (.typed types) near s₀ t₀) (TypedStop types near) (OfTag role.tag?)
      (a.get eval item owner) := by
  refine (respects_get ho ha (fun body depth hbody => ?_) fun q v f hq hv hf => ?_).imp
    fun _ => ofTag_of_yields
  · obtain ⟨t, ht, hrole⟩ := hbody
    refine (hs _ _ t ho ht).imp ?_
    rintro _ ⟨v, rfl, hv⟩
    exact ⟨v, rfl, fun k hk => hv k (hrole k hk)⟩
  · exact typedStop_of_convert ho ha hq hv hf

theorem sound_readProperty (hn : Region types near) (hs : Sound types near s₀ t₀ eval)
    (hc : near scope.context) (h : Denotes types scope element name owner a item role) :
    Respects (Aligned types (.typed types) near s₀ t₀) (TypedStop types near) (OfTag role.tag?)
      (Evaluation.readProperty types eval scope e element name) := by
  refine .bind (sound_resolve hn hc h.resolved) fun o ⟨he, ho⟩ => ?_
  subst he
  refine .bind (sound_locate h e) fun found hfound => ?_
  subst hfound
  exact sound_get hs ho h.slot

theorem sound_readRow (hs : Sound types near s₀ t₀ eval) (hc : near scope.context)
    {p : CustomSlot} (hslot : Evaluation.rowSlot types scope e element name = .ok p.offset)
    (hp : (types.find scope.description).roles[p.offset]? = some (.custom p)) :
    Respects (Aligned types (.typed types) near s₀ t₀) (TypedStop types near)
      (OfTag (Role.custom p).tag?) (Evaluation.readRow types eval scope e element name) := by
  rw [← (Evaluation.rowSlot_ok hslot).1] at hp
  have hread : Evaluation.readRow types eval scope e element name =
      (Accessor.custom name 0).get eval ⟨scope.context.self.number, p.offset, none⟩
        scope.context := by
    rw [Evaluation.readRow, hslot]
    rfl
  rw [hread]
  exact sound_get hs hc (.custom hp)

theorem sound_emitSignal (hn : Region types near) (hs : Sound types near s₀ t₀ eval)
    (hc : near scope.context) {x : Element} {k : Nat}
    (hr : (scope.context.resolve types scope.maxDepth element none).2 = .ok owner)
    (hx : (types.find owner.self.description).tree.element? element = some x)
    (hk : (types.find owner.self.description).signalSlot? x.id name = some k) :
    Respects (Aligned types (.typed types) near s₀ t₀) (TypedStop types near)
      (OfTag (some .void)) (Evaluation.emitSignal types eval scope e element name) := by
  refine .bind (sound_resolve hn hc hr) fun o ⟨he, ho⟩ => ?_
  subst he
  refine .bind (respects_signalOf_slot hn ho hx hk) fun found hfound => ?_
  obtain ⟨signal, rfl, -, hhandlers⟩ := hfound
  refine .bind (respects_log _) fun _ _ => .bind (.forM _ fun handler hmem => ?_) fun _ _ =>
    .pure ⟨.void, rfl, Value.ofTag_some rfl⟩
  obtain ⟨depth, hscope, t, ht, -⟩ := hhandlers handler hmem
  rw [hscope] at ht ⊢
  exact .bind (hs _ _ t ho ht) fun _ _ => .pure trivial

theorem sound_assignProperty (hn : Region types near) (hs : Sound types near s₀ t₀ eval)
    (hc : near scope.context) {op : AssignOp} {operand : Expr}
    (h : Denotes types scope element name owner a item role) (hrole : role.tag? = some .number)
    (hoperand : HasTag types scope operand (some .number)) :
    Respects (Aligned types (.typed types) near s₀ t₀) (TypedStop types near)
      (OfTag (some .void)) (Evaluation.assignProperty types eval scope e element name op operand) := by
  refine .bind (sound_resolve hn hc h.resolved) fun o ⟨he, ho⟩ => ?_
  subst he
  refine .bind (sound_locate h e) fun found hfound => ?_
  subst hfound
  refine .bind (sound_get hs ho h.slot) fun current hcurrent => ?_
  refine .bind (hs scope operand _ hc hoperand) fun change hchange => ?_
  obtain ⟨v, rfl, hv⟩ := hcurrent
  obtain ⟨m, rfl⟩ := Value.exists_number (hv .number hrole)
  obtain ⟨w, rfl, hw⟩ := hchange
  obtain ⟨n, rfl⟩ := Value.exists_number (hw .number rfl)
  have hvalue : (Value.number (op.apply m n)).OfTag role.tag? := by
    rw [hrole]
    exact Value.ofTag_some rfl
  refine .bind (respects_log _) fun _ _ => .bind (respects_set hn ho h.slot hvalue ?_ none)
    fun _ _ => .pure ⟨.void, rfl, Value.ofTag_some rfl⟩
  exact fun q f hq hf => typedStop_of_convert ho h.slot hq hvalue hf

theorem sound_sequence (hs : Sound types near s₀ t₀ eval) (hc : near scope.context)
    {body : List Expr} (tags : Expr → Option Tag)
    (h : ∀ e ∈ body, HasTag types scope e (tags e)) {t : Option Tag} {n : Native}
    (hn : OfTag t n) :
    Respects (Aligned types (.typed types) near s₀ t₀) (TypedStop types near)
      (OfTag (body.getLast?.elim t tags)) (body.foldlM (fun _ e => eval scope e) n) := by
  induction body generalizing t n with
  | nil => exact .pure hn
  | cons x body ih =>
      rw [List.foldlM_cons]
      refine .bind (hs scope x _ hc (h x (by simp))) fun m hm => ?_
      refine (ih (fun y hy => h y (by simp [hy])) hm).imp fun r hr => ?_
      rw [List.getLast?_cons]
      cases hl : body.getLast? with
      | none => rw [hl] at hr; exact hr
      | some y => rw [hl] at hr; exact hr

theorem sound_buildSegment (hs : Sound types near s₀ t₀ eval) (hc : near scope.context)
    {shape : SegmentShape} {bindings : Assoc Expr}
    (h : ∀ field ∈ shape.fields, ∀ body, bindings.get? field.name = some body →
      HasTag types scope body field.type.tag?) :
    Respects (Aligned types (.typed types) near s₀ t₀) (TypedStop types near) (fun _ => True)
      (buildSegment eval scope shape bindings) := by
  refine .foldlM _ (fun segment _ field hfield => ?_) trivial
  cases hb : bindings.get? field.name with
  | none => exact .pure trivial
  | some body =>
      refine .bind (hs scope body _ hc (h field hfield body hb)) fun n hn => ?_
      obtain ⟨v, rfl, hv⟩ := hn
      obtain ⟨t, ht⟩ := Segment.exists_store hv segment
      rw [ht]
      exact .pure trivial

theorem sound_segmentOf (hs : Sound types near s₀ t₀ eval) (hc : near scope.context)
    {shape : String} {bindings : Assoc Expr}
    (hshape : ∃ s, SegmentShape.ofName? shape = some s)
    (h : ∀ s, SegmentShape.ofName? shape = some s → ∀ field ∈ s.fields, ∀ body,
      bindings.get? field.name = some body → HasTag types scope body field.type.tag?) :
    Respects (Aligned types (.typed types) near s₀ t₀) (TypedStop types near) (fun _ => True)
      (segmentOf eval scope shape bindings) := by
  obtain ⟨s, hshape⟩ := hshape
  simp only [segmentOf, hshape]
  exact sound_buildSegment hs hc (h s hshape)

theorem sound_step (hn : Region types near) (hs : Sound types near s₀ t₀ eval) :
    Sound types near s₀ t₀ (Evaluation.step types eval) := by
  intro scope e t hc ht
  cases ht with
  | string s | number n | bool b | file location => exact .pure ⟨_, rfl, Value.ofTag_some rfl⟩
  | property h => exact sound_readProperty hn hs hc h
  | rowIndex hslot hp | rowModel hslot hp => exact sound_readRow hs hc hslot hp
  | field name h =>
      refine .bind (hs scope _ _ hc h) fun n hv => ?_
      obtain ⟨v, rfl, hv⟩ := hv
      obtain ⟨fields, rfl⟩ := Value.exists_object (hv .object rfl)
      exact .pure ⟨_, rfl, nofun⟩
  | @cast source t target h =>
      refine .bind (hs scope source t hc h) fun n hv => .pure ?_
      obtain ⟨v, rfl, hv⟩ := hv
      refine ⟨v.cast target, rfl, fun k hk => ?_⟩
      obtain ⟨k', rfl, rfl⟩ := Option.map_eq_some_iff.1 hk
      rw [Value.tag_cast, hv k' rfl]
  | block tags h => exact sound_sequence hs hc tags h ⟨.void, rfl, Value.ofTag_some rfl⟩
  | call args hr hx hk => exact sound_emitSignal hn hs hc hr hx hk
  | assign op h hr ho => exact sound_assignProperty hn hs hc h hr ho
  | binary op hl hr htags =>
      refine .bind (hs scope _ _ hc hl) fun m hm => .bind (hs scope _ _ hc hr) fun n hv => ?_
      obtain ⟨v, rfl, hv₁⟩ := hm
      obtain ⟨w, rfl, hv₂⟩ := hv
      obtain ⟨r, hres, hr⟩ := BinaryOp.exists_result? (fun k hk => hv₁ k (htags k hk).1)
        (fun k hk => hv₂ k (htags k hk).2)
      simp only [Evaluation.applyBinary, hres]
      exact .pure ⟨r, rfl, Value.ofTag_some hr⟩
  | unary op h =>
      refine .bind (hs scope _ _ hc h) fun n hv => ?_
      obtain ⟨v, rfl, hv⟩ := hv
      obtain ⟨r, hres, hr⟩ := UnaryOp.exists_result? (hv _ rfl)
      simp only [Evaluation.applyUnary, hres]
      exact .pure ⟨r, rfl, Value.ofTag_some hr⟩
  | condition h hy hno =>
      refine .bind (hs scope _ _ hc h) fun n hv => ?_
      obtain ⟨v, rfl, hv⟩ := hv
      obtain ⟨b, rfl⟩ := Value.exists_bool (hv .bool rfl)
      cases b with
      | false => exact hs scope _ _ hc hno
      | true => exact hs scope _ _ hc hy
  | @array type items tags h =>
      have hitems := Respects.mapM items fun x hx =>
        (hs scope x _ hc (h x hx)).imp fun _ => OfTag.isValue
      refine .bind hitems fun ns hns => ?_
      obtain ⟨vs, hvs⟩ := exists_arrayOf hns
      rw [hvs]
      exact .pure ⟨_, rfl, Value.ofTag_some rfl⟩
  | @object fields tags h =>
      have hfields := Respects.mapM fields fun f hf =>
        respects_field f.1 ((hs scope f.2 _ hc (h f hf)).imp fun _ => OfTag.isValue)
      refine .bind hfields fun ns hns => ?_
      obtain ⟨fs, hfs⟩ := exists_objectOf hns
      rw [hfs]
      exact .pure ⟨_, rfl, Value.ofTag_some rfl⟩
  | @path segments hshape h =>
      have hsegments := Respects.mapM segments fun s hmem =>
        sound_segmentOf hs hc (hshape s hmem) (h s hmem)
      exact .bind hsegments fun _ _ => .pure ⟨_, rfl, Value.ofTag_some rfl⟩

theorem sound_eval (hn : Region types near) (depth : Nat) :
    Sound types near s₀ t₀ (Evaluation.eval types depth) := by
  induction depth with
  | zero => exact fun _ _ _ _ _ => .throw (.inl rfl)
  | succ depth ih => exact sound_step hn ih

theorem sound_evaluate (hn : Region types near) (depth : Nat) (settings : Settings)
    {description : Nat} {c : Context} {t : Option Tag} (hc : near c)
    (ht : HasTag types ⟨settings.maxContextDepth, description, c⟩ e t) :
    Respects (Aligned types (.typed types) near s₀ t₀) (TypedStop types near) (OfTag t)
      (evaluate types depth settings e description c) :=
  .tryCatch (sound_eval hn depth _ e t hc ht)
    fun _ hstop => .bind (respects_log _) fun _ _ => .throw hstop

theorem sound_bindMember (hn : Region types near) {settings : Settings} {c : Context} (hc : near c)
    (hr : (c.resolve types settings.maxContextDepth element none).2 = .ok owner) {t : Option Tag}
    (ht : HasTag types (owner.scope settings.maxContextDepth) e t)
    (hslot : ∀ a item role, (types.find owner.self.description).locate owner.self.number element
      name e = .ok (a, item) → Located (types.find owner.self.description) owner.self.number a
        item role → ∀ k, role.tag? = some k → t = some k) :
    Respects (Aligned types (.typed types) near s₀ t₀) (fun _ => True) (fun _ => True)
      (bindMember types settings element name e c) := by
  refine .bind (respects_resolve hn hc fun _ _ => trivial) fun o ⟨ho, hro⟩ => ?_
  obtain rfl : o = owner := Except.ok.inj ((Context.resolve_blame none hro).symm.trans hr)
  refine .bind (respects_signalOf hn ho fun _ => trivial) fun found hfound => ?_
  cases found with
  | some found =>
      obtain ⟨k, signal⟩ := found
      obtain ⟨hrole, hsignal⟩ := hfound k signal rfl
      exact respects_connect hn ho hrole hsignal ⟨t, ht, nofun⟩
  | none =>
      refine .bind (.ofExcept (fun _ hl => hl) fun _ _ => trivial) fun ⟨a, item⟩ hl => ?_
      obtain ⟨role, ha⟩ := (hn.laid o ho).locate_ok hl
      have hcode : (Policy.typed types).code role (o.scope settings.maxContextDepth) e :=
        ⟨t, ht, hslot a item role hl ha⟩
      exact respects_bind hn ho ha hcode none

end Steps

/-- The slots of a context store and run what their roles are declared for. -/
def WellTyped (types : Catalog) (s : State) (o : Context) : Prop :=
  ∀ (k : Nat) role cell, (types.find o.self.description).roles[k]? = some role →
    (s.slots o.self.number)[k]? = some cell → Meets (.typed types) o role cell

theorem DeclaredType.start_ofTag (t : DeclaredType) : t.start.OfTag t.tag? := by
  cases t with
  | void | signal => exact nofun
  | _ => exact Value.ofTag_some rfl

theorem wellTyped_start {types : Catalog} {s : State} {o : Context}
    (h : s.slots o.self.number = (types.find o.self.description).roles.map Role.start) :
    WellTyped types s o := by
  rw [WellTyped, h]
  refine (Suits.start (fun p => ?_) o _).meets
  obtain ⟨offset, type⟩ := p
  cases type with
  | none => exact nofun
  | some t => exact t.start_ofTag

namespace Reaches

variable {w : World} {cs : List Context} {c : Context} {settings : Settings} {e : Expr}
  {t : Option Tag}

theorem bindMember_wellTyped (h : Reaches w cs) (hc : c ∈ cs)
    (hw : ∀ o ∈ c.chain, WellTyped w.types w.state o) {element : Int} {name : String}
    {owner : Context}
    (hr : (c.resolve w.types settings.maxContextDepth element none).2 = .ok owner)
    (ht : HasTag w.types (owner.scope settings.maxContextDepth) e t)
    (hslot : ∀ a item role, (w.types.find owner.self.description).locate owner.self.number element
      name e = .ok (a, item) → Located (w.types.find owner.self.description) owner.self.number a
        item role → ∀ k, role.tag? = some k → t = some k) :
    ∀ o ∈ c.chain, WellTyped w.types
      (w.run fun types => bindMember types settings element name e c).2.state o := by
  obtain ⟨made, hsub, hk⟩ := h.kept
  obtain ⟨-, halign, -⟩ := sound_bindMember (hk.region_chain (hsub hc)) c.self_mem_chain hr ht
    hslot _ _ (hk.aligned_chain (hsub hc) hw)
  exact fun o ho => (halign.suits o ho).meets

/-- Type soundness: where the slots around a context are well typed, an expression of a tag
evaluates to a value of the tag, unless a checked property refuses a number as too large for
it. In each case the slots stay well typed. -/
theorem evaluate_sound (h : Reaches w cs) (hc : c ∈ cs)
    (hw : ∀ o ∈ c.chain, WellTyped w.types w.state o) {description : Nat}
    (ht : HasTag w.types ⟨settings.maxContextDepth, description, c⟩ e t) (depth : Nat) :
    (∀ o ∈ c.chain, WellTyped w.types
      (w.run fun types => evaluate types depth settings e description c).2.state o) ∧
    ((∃ v, (w.run fun types => evaluate types depth settings e description c).1 = .ok (.value v) ∧
        v.OfTag t) ∨
      (w.run fun types => evaluate types depth settings e description c).1 = .error .exhausted ∨
      ∃ stop, (w.run fun types => evaluate types depth settings e description c).1 = .error stop ∧
        Overflows w.types (· ∈ c.chain) stop) := by
  obtain ⟨made, hsub, hk⟩ := h.kept
  obtain ⟨-, halign, hends⟩ := sound_evaluate (hk.region_chain (hsub hc)) depth settings
    c.self_mem_chain ht _ _ (hk.aligned_chain (hsub hc) hw)
  refine ⟨fun o ho => (halign.suits o ho).meets, ?_⟩
  change Run.Ends (TypedStop w.types (· ∈ c.chain)) (OfTag t)
    (w.run fun types => evaluate types depth settings e description c).1 at hends
  cases hr : (w.run fun types => evaluate types depth settings e description c).1 with
  | ok n =>
      rw [hr] at hends
      obtain ⟨v, rfl, hv⟩ := hends
      exact .inl ⟨v, rfl, hv⟩
  | error stop =>
      rw [hr] at hends
      obtain rfl | hstop := hends
      · exact .inr (.inl rfl)
      · exact .inr (.inr ⟨stop, rfl, hstop⟩)

end Reaches

namespace Sample

def huge : Binary64 := ⟨false, 0x7e37e43c8800759c, by decide⟩

def widen : Expr := .assign (.property 0 "x") .add (.number huge)

def widenAndCompare : Expr := .block [widen, .binary .lt (.property 0 "x") (.number huge)]

theorem wellTyped_outer : ∀ o ∈ outer.chain, WellTyped world.types world.state o := by
  intro o ho
  rw [List.mem_singleton.1 ho]
  exact wellTyped_start outer_slots

theorem widenAndCompare_hasTag :
    HasTag world.types ⟨Settings.standard.maxContextDepth, 0, outer⟩ widenAndCompare
      (some .bool) := by
  have hx : Denotes world.types ⟨Settings.standard.maxContextDepth, 0, outer⟩ 0 "x" outer
      (.native ⟨"Rectangle", "x", .f32, 0, false⟩) ⟨0, 2, some "Rectangle"⟩
      (.item ⟨"Rectangle", "x", .f32, 0, false⟩) :=
    ⟨rfl, rfl, .native rfl rfl⟩
  have hwiden := HasTag.assign .add hx rfl (.number huge)
  have hless := HasTag.binary .lt (.property hx) (.number huge) fun _ hk => ⟨hk, hk⟩
  refine .block (fun e => if e.kind = "self_assignment" then some .void else some .bool) ?_
  simp only [List.forall_mem_cons, List.not_mem_nil]
  exact ⟨hwiden, hless, nofun⟩

theorem widenAndCompare_sound :
    (∀ o ∈ outer.chain, WellTyped world.types
      (world.run fun types => evaluate types 6 .standard widenAndCompare 0 outer).2.state o) ∧
    ((∃ v, (world.run fun types => evaluate types 6 .standard widenAndCompare 0 outer).1 =
        .ok (.value v) ∧ v.OfTag (some .bool)) ∨
      (world.run fun types => evaluate types 6 .standard widenAndCompare 0 outer).1 =
        .error .exhausted ∨
      ∃ stop, (world.run fun types => evaluate types 6 .standard widenAndCompare 0 outer).1 =
        .error stop ∧ Overflows world.types (· ∈ outer.chain) stop) :=
  reaches_world.evaluate_sound (by simp) wellTyped_outer widenAndCompare_hasTag 6

def checkedFrame : Description :=
  ⟨tree, 0, [("scale", ⟨0, some .float32⟩)], [("done", 1)], [("frame", ⟨.rectangle, true, 2⟩)], 7⟩

def checkedWorld : World :=
  ((⟨[checkedFrame], .empty⟩ : World).run (Call.instantiate .standard 0 none).run).2

theorem reaches_checkedWorld : Reaches checkedWorld [outer] :=
  have hd : World.empty.describe tree 0 [("scale", some .float32)] ["done"] false true =
    .ok (0, ⟨[checkedFrame], .empty⟩) := rfl
  .call (.instantiate .standard 0 none) (.describe .empty hd) ⟨by decide, nofun⟩

theorem widen_hasTag :
    HasTag checkedWorld.types ⟨Settings.standard.maxContextDepth, 0, outer⟩ widen (some .void) := by
  have hx : Denotes checkedWorld.types ⟨Settings.standard.maxContextDepth, 0, outer⟩ 0 "x" outer
      (.native ⟨"Rectangle", "x", .f32, 0, true⟩) ⟨0, 2, some "Rectangle"⟩
      (.item ⟨"Rectangle", "x", .f32, 0, true⟩) :=
    ⟨rfl, rfl, .native rfl rfl⟩
  exact .assign .add hx rfl (.number huge)

def refused : Except Stop Native → Bool
  | .error (.error (.fault (.rejected ..))) => true
  | _ => false

theorem exists_fault_of_refused {r : Except Stop Native} (h : refused r) :
    ∃ f, r = .error (.error (.fault f)) := by
  simp only [refused] at h
  split at h
  · exact ⟨_, rfl⟩
  · cases h

/-- Well typed code can fail at a checked property. -/
theorem widen_refused :
    Reaches checkedWorld [outer] ∧
      (∀ o ∈ outer.chain, WellTyped checkedWorld.types checkedWorld.state o) ∧
      HasTag checkedWorld.types ⟨Settings.standard.maxContextDepth, 0, outer⟩ widen (some .void) ∧
      ∃ f, (checkedWorld.run fun types => evaluate types 3 .standard widen 0 outer).1 =
        .error (.error (.fault f)) := by
  refine ⟨reaches_checkedWorld, fun o ho => ?_, widen_hasTag,
    exists_fault_of_refused (by decide +kernel)⟩
  rw [List.mem_singleton.1 ho]
  exact wellTyped_start rfl

end Sample

end UiBinding
