import UiBinding.Proofs.SelfAssignment

namespace UiBinding

open Run (Respects)

/-- The accessors of a description with the views of an instance that they belong to: its custom
properties, and the properties of its items. -/
inductive Own (d : Description) (holder : Nat) : Accessor → ItemView → Prop
  | custom {name : String} {p : CustomSlot} (h : (name, p) ∈ d.customProperties) :
      Own d holder (.custom name 0) ⟨holder, p.offset, none⟩
  | native {id : String} {b : ItemBlock} {p : ItemProperty} (hb : (id, b) ∈ d.items)
      (hp : p ∈ b.item.properties b.checked) :
      Own d holder (.native p) ⟨holder, b.offset, some b.item.name⟩

theorem Own.located {d : Description} {holder : Nat} {a : Accessor} {item : ItemView}
    (h : Own d holder a item) (hd : d.Laid) : ∃ role, Located d holder a item role := by
  cases h with
  | custom h => exact ⟨_, .custom (hd.custom h)⟩
  | native hb hp =>
      obtain ⟨k, hk, hr⟩ := hd.itemProperty hb hp
      rw [← (Item.exists_of_mem_properties hp).1]
      exact ⟨_, .native hk hr⟩

/-- Worlds that a program gets to which also goes to properties through their accessors, and shares
instances between contexts. What it binds may be a value, and it may read in any context. -/
inductive Attains : World → List Context → Prop
  | empty : Attains .empty []
  | describe {w w' : World} {cs : List Context} {tree : Tree} {component : Int}
      {customs : List (String × Option DeclaredType)} {signals : List String}
      {repeated checked : Bool} {number : Nat} (h : Attains w cs)
      (hd : w.describe tree component customs signals repeated checked = .ok (number, w')) :
      Attains w' cs
  | call {w : World} {cs : List Context} (call : Call) (h : Attains w cs)
      (hv : call.Valid w.types cs) :
      Attains (w.run call.run).2 (cs ++ (w.run call.run).1.toOption.getD [])
  | share {w : World} {cs : List Context} {c : Context} {parent : Option Context}
      (h : Attains w cs) (hc : c ∈ cs) (hp : ∀ p, parent = some p → p ∈ cs) :
      Attains (w.run fun _ => Run.newContext c.self parent).2
        (cs ++ [.make w.state.contexts c.self parent])
  | get {w : World} {cs : List Context} {c reader : Context} {a : Accessor} {item : ItemView}
      (depth : Nat) (h : Attains w cs) (hc : c ∈ cs) (hr : reader ∈ cs)
      (ha : Own (w.types.find c.self.description) c.self.number a item) :
      Attains (w.run fun types => a.get (Evaluation.eval types depth) item reader).2 cs
  | set {w : World} {cs : List Context} {c : Context} {a : Accessor} {item : ItemView}
      (v : Value) (animation : Option Animation) (h : Attains w cs) (hc : c ∈ cs)
      (ha : Own (w.types.find c.self.description) c.self.number a item) :
      Attains (w.run fun _ => a.set item (.value v) animation).2 cs
  | bind {w : World} {cs : List Context} {c : Context} {a : Accessor} {item : ItemView}
      (source : BindingSource) (animation : Option Animation) (h : Attains w cs) (hc : c ∈ cs)
      (ha : Own (w.types.find c.self.description) c.self.number a item) :
      Attains (w.run fun _ => a.bind item source animation).2 cs

theorem Reaches.attains {w : World} {cs : List Context} (h : Reaches w cs) : Attains w cs := by
  induction h with
  | empty => exact .empty
  | describe _ hd ih => exact ih.describe hd
  | call call _ hv ih => exact ih.call call hv

def Context.Within (layout : List Nat) (c : Context) : Prop :=
  ∀ o ∈ c.chain, layout[o.self.number]? = some o.self.description

namespace Context.Within

variable {layout grown : List Nat} {c : Context}

theorem self (h : c.Within layout) : layout[c.self.number]? = some c.self.description :=
  h c c.self_mem_chain

theorem mem_chain (h : c.Within layout) {o : Context} (ho : o ∈ c.chain) : o.Within layout :=
  fun p hp => h p (chain_subset ho hp)

theorem mono (h : c.Within layout) (hgrown : layout <+: grown) : c.Within grown := by
  obtain ⟨more, rfl⟩ := hgrown
  intro o ho
  have hlt := (List.getElem?_eq_some_iff.1 (h o ho)).1
  rw [List.getElem?_append_left hlt]
  exact h o ho

theorem make {number : Nat} {i : Instance} {parent : Option Context}
    (hi : layout[i.number]? = some i.description) (hp : ∀ p, parent = some p → p.Within layout) :
    (Context.make number i parent).Within layout := by
  cases parent with
  | none =>
      intro o ho
      rw [List.mem_singleton.1 ho]
      exact hi
  | some parent =>
      intro o ho
      obtain rfl | ho := List.mem_cons.1 ho
      · exact hi
      · exact hp parent rfl o ho

end Context.Within

def Role.Keeps : Role → Native → Prop
  | custom _, n => IsValue n
  | signal, _ => False
  | item q, n => q.type.Stores n

/-- A cell of the kind of its role. What a property is bound to does not matter. -/
def Role.Fits (layout : List Nat) (role : Role) : Cell → Prop
  | .unset => False
  | .property p => role.Keeps p.stored
  | .signal s => role = .signal ∧ ∀ h ∈ s.handlers, h.scope.context.Within layout

namespace Role

variable {layout grown : List Nat} {role : Role} {c : Cell}

theorem Fits.mono (h : role.Fits layout c) (hgrown : layout <+: grown) : role.Fits grown c := by
  cases c with
  | unset => exact h
  | property p => exact h
  | signal s => exact ⟨h.1, fun x hx => (h.2 x hx).mono hgrown⟩

theorem fits_start (layout : List Nat) (role : Role) : role.Fits layout role.start := by
  cases role with
  | custom p => exact ⟨p.start, rfl⟩
  | signal => exact ⟨rfl, nofun⟩
  | item q => exact q.type.stores_start

end Role

/-- A state whose instances are of the listed descriptions, with cells of the kinds that these lay
out. -/
structure Fitted (types : Catalog) (layout : List Nat) (s : State) : Prop where
  laid : ∀ d ∈ types, d.Laid
  described : ∀ n ∈ layout, n < types.length
  length_eq : s.instances.length = layout.length
  cells : ∀ i n : Nat, layout[i]? = some n →
    List.Forall₂ (Role.Fits layout) (types.find n).roles (s.slots i)

namespace Fitted

variable {types : Catalog} {layout grown : List Nat} {s : State} {i n k : Nat} {role : Role}
  {c : Cell} {a : Accessor} {item : ItemView}

theorem laid_find (h : Fitted types layout s) (number : Nat) : (types.find number).Laid := by
  rw [Catalog.find]
  cases hd : types[number]? with
  | none => exact .empty
  | some d => exact h.laid d (List.mem_of_getElem? hd)

theorem empty : Fitted [] [] .empty := ⟨nofun, nofun, rfl, nofun⟩

theorem logged (h : Fitted types layout s) (events : List Event) :
    Fitted types layout (s.logged events) := ⟨h.laid, h.described, h.length_eq, h.cells⟩

theorem setCell (h : Fitted types layout s) (hi : layout[i]? = some n)
    (hk : (types.find n).roles[k]? = some role) (hc : role.Fits layout c) :
    Fitted types layout (s.setCell i k c) := by
  refine ⟨h.laid, h.described, (State.setCell_counts k).1.trans h.length_eq, fun j m hj => ?_⟩
  by_cases hij : i = j
  · subst hij
    cases hi.symm.trans hj
    obtain ⟨d, hd, -⟩ := forall₂_getElem? (h.cells i n hi) hk
    rw [State.slots_setCell (List.getElem?_eq_some_iff.1 hd).1]
    exact forall₂_set (h.cells i n hi) hk hc
  · rw [State.slots_setCell_of_ne k hij]
    exact h.cells j m hj

theorem describe (h : Fitted types layout s) {d : Description} (hd : d.Laid) :
    Fitted (types ++ [d]) layout s := by
  refine ⟨?_, fun n hn => ?_, h.length_eq, fun i n hi => ?_⟩
  · intro x hx
    obtain hx | hx := List.mem_append.1 hx
    · exact h.laid x hx
    · rw [List.mem_singleton.1 hx]; exact hd
  · have := h.described n hn
    rw [List.length_append]
    omega
  · have hlt := h.described n (List.mem_of_getElem? hi)
    have hfind : Catalog.find (types ++ [d]) n = types.find n := by
      rw [Catalog.find, Catalog.find, List.getElem?_append_left hlt]
    rw [hfind]
    exact h.cells i n hi

theorem extend (h : Fitted types layout s) (hn : n < types.length) :
    Fitted types (layout ++ [n]) (s.extend ((types.find n).roles.map Role.start)) := by
  have hgrown : layout <+: layout ++ [n] := List.prefix_append ..
  refine ⟨h.laid, ?_, ?_, fun i m hi => ?_⟩
  · intro m hm
    obtain hm | hm := List.mem_append.1 hm
    · exact h.described m hm
    · rw [List.mem_singleton.1 hm]; exact hn
  · simp only [State.extend, List.length_append, List.length_cons, List.length_nil, h.length_eq]
  · rcases Nat.lt_trichotomy i layout.length with hlt | rfl | hgt
    · rw [List.getElem?_append_left hlt] at hi
      rw [State.slots_extend_of_lt (by rwa [h.length_eq])]
      exact (h.cells i m hi).imp fun role c hc => hc.mono hgrown
    · obtain rfl : n = m := by simpa using hi
      rw [← h.length_eq, State.slots_extend, List.forall₂_map_right_iff]
      exact List.forall₂_same.2 fun role _ => role.fits_start _
    · rw [List.getElem?_eq_none (by simp; omega)] at hi
      cases hi

theorem exists_property (h : Fitted types layout s) (hi : layout[i]? = some n)
    (ha : Located (types.find n) i a item role) :
    ∃ (k : Nat) (p : Property Binding), item.base + a.offset = k ∧
      (types.find n).roles[k]? = some role ∧ (s.slots item.holder)[k]? = some (.property p) ∧
      role.Keeps p.stored := by
  obtain ⟨k, hk, hrole⟩ := ha.exists_slot
  obtain ⟨c, hc, hfits⟩ := forall₂_getElem? (h.cells i n hi) hrole
  rw [← ha.holder_eq] at hc
  cases c with
  | unset => exact hfits.elim
  | property p => exact ⟨k, p, hk, hrole, hc, hfits⟩
  | signal s => exact (ha.ne_signal hfits.1).elim

theorem put (h : Fitted types layout s) (hi : layout[i]? = some n)
    (ha : Located (types.find n) i a item role) {p : Property Binding} (hp : role.Keeps p.stored) :
    Fitted types layout (s.setCell item.holder (item.base + a.offset) (.property p)) := by
  obtain ⟨k, hk, hrole⟩ := ha.exists_slot
  rw [hk, ha.holder_eq]
  exact h.setCell hi hrole hp

theorem set (h : Fitted types layout s) (hi : layout[i]? = some n)
    (ha : Located (types.find n) i a item role) (v : Value) (animation : Option Animation) :
    Fitted types layout ((a.set item (.value v) animation).run s).2 := by
  obtain ⟨k, p, hk, -, hp, -⟩ := h.exists_property hi ha
  rw [Accessor.run_set ha.check_eq (hk ▸ State.cell?_natCast hp)]
  cases hv : a.accept v with
  | error f => exact h
  | ok m =>
      refine h.put hi ha ?_
      cases ha with
      | custom =>
          cases hv
          exact ⟨v, rfl⟩
      | @native q => exact q.stores_convert hv

theorem bind (h : Fitted types layout s) (hi : layout[i]? = some n)
    (ha : Located (types.find n) i a item role) (source : BindingSource)
    (animation : Option Animation) :
    Fitted types layout ((a.bind item source animation).run s).2 := by
  obtain ⟨k, p, hk, -, hp, hkeeps⟩ := h.exists_property hi ha
  rw [Accessor.run_bind ha.check_eq (hk ▸ State.cell?_natCast hp)]
  exact h.put hi ha hkeeps

theorem handlers (h : Fitted types layout s) (hi : layout[i]? = some n) {signal : Signal Handler}
    (hc : s.cell? i k = some (.signal signal)) :
    ∀ x ∈ signal.handlers, x.scope.context.Within layout := by
  obtain ⟨role, -, hfits⟩ := forall₂_getElem? (h.cells i n hi).flip (State.getElem?_of_cell? hc)
  exact hfits.2

end Fitted

section Walk

variable {types : Catalog} {layout : List Nat} {c o : Context} {a : Accessor} {item : ItemView}
  {role : Role}

theorem Context.context_of_code {p : Property Binding} {q : Scope × Expr}
    (h : q ∈ o.code (.property p)) : q.1.context = o := by
  rw [code] at h
  split at h
  · rw [List.mem_singleton.1 h]
  · cases h

theorem steady_fitted (types : Catalog) (layout : List Nat) :
    Steady (Always (Fitted types layout)) :=
  .always fun _ events h => h.logged events

theorem respects_always {α : Type} {inv : State → Prop} {m : Run α}
    (h : ∀ s, inv s → inv (m.run s).2) :
    Respects (Always inv) (fun _ => True) (fun _ => True) m := by
  rintro s _ ⟨rfl, hs⟩
  refine ⟨rfl, ⟨rfl, h s hs⟩, ?_⟩
  cases (m.run s).1 <;> trivial

/-- What an evaluator does in the contexts of a layout. -/
def Dwells (types : Catalog) (layout : List Nat) (eval : Evaluator) : Prop :=
  ∀ scope e, scope.context.Within layout →
    Respects (Always (Fitted types layout)) (fun _ => True) (fun _ => True) (eval scope e)

theorem Dwells.code {eval : Evaluator} (h : Dwells types layout eval) (ho : o.Within layout)
    {p : Property Binding} {q : Scope × Expr} (hq : q ∈ o.code (.property p)) :
    Respects (Always (Fitted types layout)) (fun _ => True) (fun _ => True) (eval q.1 q.2) := by
  refine h q.1 q.2 ?_
  rw [Context.context_of_code hq]
  exact ho

theorem Dwells.get {eval : Evaluator} (h : Dwells types layout eval) (ho : o.Within layout) :
    Respects (Always (Fitted types layout)) (fun _ => True) (fun _ => True) (a.get eval item o) :=
  (steady_fitted types layout).get (fun _ => trivial) fun _ _ _ _ _ _ hq => h.code ho hq

theorem Dwells.emitSignal {eval : Evaluator} (h : Dwells types layout eval) {scope : Scope}
    (hc : scope.context.Within layout) {e : Expr} {element : Int} {name : String} :
    Respects (Always (Fitted types layout)) (fun _ => True) (fun _ => True)
      (Evaluation.emitSignal types eval scope e element name) := by
  refine (steady_fitted types layout).emitSignal (fun _ => trivial) ?_
  -- Handlers run in the contexts that they were bound in, which the cell of the signal keeps.
  rintro o k hd s _ signal ⟨rfl, hs⟩ hcell q hq
  obtain ⟨x, hx, rfl⟩ := List.mem_map.1 hq
  exact h _ _ (hs.handlers (hc o hd.mem_chain) hcell x hx)

theorem Dwells.assignProperty {eval : Evaluator} (h : Dwells types layout eval) {scope : Scope}
    (hc : scope.context.Within layout) {e : Expr} {element : Int} {name : String} {op : AssignOp}
    {operand : Expr} :
    Respects (Always (Fitted types layout)) (fun _ => True) (fun _ => True)
      (Evaluation.assignProperty types eval scope e element name op operand) := by
  have hsteady := steady_fitted types layout
  have hf : ∀ err : Error, (fun _ : Stop => True) (.error err) := fun _ => trivial
  refine .bind (hsteady.resolve hf) fun o hr => ?_
  have ho : o.Within layout := hc.mem_chain (Context.resolve_ok hr).1
  refine .bind (respects_ofExcept hf _) fun ⟨a, item⟩ hl => ?_
  refine .bind (h.get ho) fun current _ => .bind (h scope operand hc) fun change _ => ?_
  dsimp only
  split
  · refine .bind (hsteady.runLog _) fun _ _ => .bind (respects_always fun s hs => ?_) fun _ _ =>
      .pure trivial
    obtain ⟨role, ha⟩ := (hs.laid_find _).locate_ok hl
    exact hs.set ho.self ha _ none
  · have hcong : Run.Congruence fun _ m m' =>
        Run.Tracks (Always (Fitted types layout)) (fun _ => True) (fun _ => True) m m' :=
      congruence_tracks hf
    exact hcong.bind hcong.kindOf fun _ => hcong.bind hcong.kindOf fun _ => hcong.fault _

theorem dwells_eval (types : Catalog) (layout : List Nat) (depth : Nat) :
    Dwells types layout (Evaluation.eval types depth) := by
  induction depth with
  | zero => exact fun _ _ _ => .throw trivial
  | succ depth ih =>
      intro scope e hc
      have hsteady := steady_fitted types layout
      refine (congruence_tracks fun _ => trivial).step (fun x _ => ih scope x hc) ?_ ?_ ?_ ?_ ?_
      · rintro element name -
        exact hsteady.readProperty (fun _ => trivial) fun o k hd _ _ _ _ _ q hq =>
          ih.code (hc.mem_chain hd.mem_chain) hq
      · rintro element -
        exact hsteady.readRow (fun _ => trivial) fun _ _ _ _ _ _ _ q hq => ih.code hc hq
      · rintro element -
        exact hsteady.readRow (fun _ => trivial) fun _ _ _ _ _ _ _ q hq => ih.code hc hq
      · rintro element name args -
        exact ih.emitSignal hc
      · rintro element name op operand -
        exact ih.assignProperty hc

theorem respects_bindMember (settings : Settings) (element : Int) (name : String) (body : Expr)
    (hc : c.Within layout) :
    Respects (Always (Fitted types layout)) (fun _ => True) (fun _ => True)
      (bindMember types settings element name body c) := by
  have hsteady := steady_fitted types layout
  have hf : ∀ err : Error, (fun _ : Stop => True) (.error err) := fun _ => trivial
  refine .bind (hsteady.resolve hf) fun o hr => ?_
  have ho : o.Within layout := hc.mem_chain (Context.resolve_ok hr).1
  refine .bind (hsteady.signalOf hf) fun found hfound => ?_
  cases found with
  | none =>
      refine .bind (respects_ofExcept hf _) fun ⟨a, item⟩ hl => respects_always fun s hs => ?_
      obtain ⟨role, ha⟩ := (hs.laid_find _).locate_ok hl
      exact hs.bind ho.self ha _ none
  | some found =>
      obtain ⟨k, signal⟩ := found
      obtain ⟨⟨x, -, hk⟩, t, -, ⟨-, ht⟩, hcell⟩ := hfound k signal rfl
      refine respects_always fun s hs => hs.setCell ho.self ((hs.laid_find _).signalSlot? hk) ?_
      refine ⟨rfl, fun handler hmem => ?_⟩
      obtain hmem | hmem := List.mem_append.1 hmem
      · exact ht.handlers ho.self hcell handler hmem
      · rw [List.mem_singleton.1 hmem]
        exact ho

end Walk

def Grows {α : Type} (types : Catalog) (layout : List Nat) (s : State)
    (post : List Nat → α → Prop) (m : Run α) : Prop :=
  ∃ grown, layout <+: grown ∧ Fitted types grown (m.run s).2 ∧
    ∀ a, (m.run s).1 = .ok a → post grown a

namespace Grows

variable {α β : Type} {types : Catalog} {layout : List Nat} {s : State} {parent : Context}

theorem pure {post : List Nat → α → Prop} {a : α} (h : Fitted types layout s)
    (ha : post layout a) : Grows types layout s post (Pure.pure a) := by
  refine ⟨layout, List.prefix_rfl, h, ?_⟩
  rintro _ ⟨⟩
  exact ha

theorem of_respects {post : α → Prop} {post' : List Nat → α → Prop} {m : Run α}
    (h : Fitted types layout s)
    (hm : Respects (Always (Fitted types layout)) (fun _ => True) post m)
    (hpost : ∀ a, post a → post' layout a) : Grows types layout s post' m := by
  obtain ⟨-, ⟨-, hfitted⟩, hends⟩ := hm s s ⟨rfl, h⟩
  refine ⟨layout, List.prefix_rfl, hfitted, fun a hr => hpost a ?_⟩
  rwa [hr] at hends

theorem bind {mid : List Nat → β → Prop} {post : List Nat → α → Prop} {m : Run β} {f : β → Run α}
    (hm : Grows types layout s mid m)
    (hf : ∀ grown b t, layout <+: grown → Fitted types grown t → mid grown b →
      Grows types grown t post (f b)) : Grows types layout s post (m >>= f) := by
  obtain ⟨grown, hprefix, hfitted, hmid⟩ := hm
  rw [Grows, Run.run_bind]
  rcases hr : m.run s with ⟨r, t⟩
  rw [hr] at hfitted hmid
  cases r with
  | error stop => exact ⟨grown, hprefix, hfitted, nofun⟩
  | ok b =>
      obtain ⟨more, hmore, hfitted', hpost⟩ := hf grown b t hprefix hfitted (hmid b rfl)
      exact ⟨more, hprefix.trans hmore, hfitted', hpost⟩

theorem instantiate (h : Fitted types layout s) {description : Nat} {parent : Option Context}
    (hd : description < types.length) (hp : ∀ p, parent = some p → p.Within layout)
    (settings : Settings) :
    Grows types layout s (fun grown c => c.Within grown ∧ c.self.description = description)
      (UiBinding.instantiate types settings description parent) := by
  let c := Context.make s.contexts ⟨s.instances.length, description⟩ parent
  have hgrown : layout <+: layout ++ [description] := List.prefix_append ..
  have hself : c.self = ⟨s.instances.length, description⟩ := Context.self_make _ _ _
  have hc : c.Within (layout ++ [description]) := by
    refine .make ?_ fun p hp' => (hp p hp').mono hgrown
    rw [h.length_eq]
    exact List.getElem?_concat_length
  have hbind : Respects (Always (Fitted types (layout ++ [description]))) (fun _ => True) (· = c)
      (bindElements types settings c
        ((types.find description).tree.elementsOf (types.find description).component)) := by
    refine .bind (.forM _ fun e _ => ?_) fun _ _ => .pure rfl
    rw [bindElement]
    split
    · exact .fault trivial
    · exact .forM _ fun b _ => respects_bindMember settings e.1 b.1 b.2 hc
  have hmakes : Grows _ _ _ (fun _ => (· = c)) _ := of_respects (h.extend hd) hbind fun _ => id
  obtain ⟨grown, hprefix, hfitted, hmade⟩ := hmakes
  refine ⟨grown, hgrown.trans hprefix, ?_⟩
  rw [run_instantiate (h.laid_find _).allocate_eq]
  refine ⟨hfitted, fun c' hr => ?_⟩
  obtain rfl := hmade c' hr
  exact ⟨hc.mono hprefix, by rw [hself]⟩

theorem set {n : Nat} {i : Nat} {a : Accessor} {item : ItemView} {role : Role}
    (h : Fitted types layout s) (hi : layout[i]? = some n)
    (ha : Located (types.find n) i a item role) (v : Value) (animation : Option Animation) :
    Grows types layout s (fun _ _ => True) (a.set item (.value v) animation) :=
  ⟨layout, List.prefix_rfl, h.set hi ha v animation, fun _ _ => trivial⟩

theorem instantiateRow (h : Fitted types layout s) {description : Nat}
    (hd : description < types.length) (hp : parent.Within layout) (settings : Settings)
    {index model : CustomSlot}
    (hi : (types.find description).customProperties.get? Description.rowIndexName = some index)
    (hm : (types.find description).customProperties.get? Description.rowModelName = some model)
    (position : Nat) (entry : Native) :
    Grows types layout s (fun grown c => c.Within grown) (UiBinding.instantiateRow types settings
      description parent index.offset model.offset position entry) := by
  have hparent : ∀ p, some parent = some p → p.Within layout := by
    rintro _ ⟨⟩
    exact hp
  refine (instantiate h hd hparent settings).bind fun grown c t _ ht ⟨hc, hcd⟩ => ?_
  subst hcd
  have hlaid := ht.laid_find c.self.description
  refine (set ht hc.self (.custom (hlaid.custom (Assoc.mem_of_get? hi))) _ none).bind
    fun grown' _ u hprefix hu _ => ?_
  have hvalue : Grows types grown' u (fun _ _ => True)
      (Run.ofExcept (entry.toValue.mapError .native)) :=
    of_respects hu (.ofExcept (fun _ _ => trivial) fun _ _ => trivial) fun _ => id
  refine hvalue.bind fun grown'' v w hprefix' hw _ => ?_
  have hc' := (hc.mono hprefix).mono hprefix'
  refine (set hw hc'.self (.custom (hlaid.custom (Assoc.mem_of_get? hm))) _ none).bind
    fun _ _ _ hprefix'' hx _ => .pure hx (hc'.mono hprefix'')

theorem mapM {f : α → Run Context} (l : List α)
    (hf : ∀ x ∈ l, ∀ layout s, Fitted types layout s → parent.Within layout →
      Grows types layout s (fun grown c => c.Within grown) (f x))
    (h : Fitted types layout s) (hp : parent.Within layout) :
    Grows types layout s (fun grown cs => ∀ c ∈ cs, c.Within grown) (l.mapM f) := by
  induction l generalizing layout s with
  | nil => exact .pure h nofun
  | cons x l ih =>
      rw [List.mapM_cons]
      refine (hf x (by simp) layout s h hp).bind fun grown c t hprefix ht hc => ?_
      refine (ih (fun y hy => hf y (by simp [hy])) ht (hp.mono hprefix)).bind
        fun grown' cs u hprefix' hu hcs => .pure hu ?_
      exact List.forall_mem_cons.2 ⟨hc.mono hprefix', hcs⟩

theorem instantiateRows (h : Fitted types layout s) {description : Nat}
    (hd : description < types.length) (hp : parent.Within layout) (settings : Settings)
    (model : List Native) :
    Grows types layout s (fun grown cs => ∀ c ∈ cs, c.Within grown)
      (UiBinding.instantiateRows types settings description parent model) := by
  simp only [UiBinding.instantiateRows]
  split
  · rename_i index entry hi hm
    exact mapM _ (fun x _ layout s h hp => instantiateRow h hd hp settings hi hm x.2 x.1) h hp
  · exact ⟨layout, List.prefix_rfl, h, fun _ hr => by cases hr⟩

theorem call (h : Fitted types layout s) {cs : List Context} (hcs : ∀ c ∈ cs, c.Within layout)
    {call : Call} (hv : call.Valid types cs) :
    Grows types layout s (fun grown returned => ∀ c ∈ returned, c.Within grown)
      (call.run types) := by
  cases call with
  | instantiate settings description parent =>
      refine (instantiate h hv.1 (fun p hp => hcs p (hv.2 p hp)) settings).bind
        fun grown c t _ ht hc => .pure ht ?_
      exact List.forall_mem_singleton.2 hc.1
  | instantiateRows settings description parent model =>
      exact instantiateRows h hv.1 (hcs parent hv.2) settings model
  | bind settings element name body c =>
      exact of_respects h (.bind (respects_bindMember settings element name body (hcs c hv))
        fun _ _ => .pure rfl) fun returned hr => hr ▸ nofun
  | evaluate depth settings e description c =>
      have heval := dwells_eval types layout depth ⟨settings.maxContextDepth, description, c⟩ e
        (hcs c hv.2)
      exact of_respects h (.bind ((steady_fitted types layout).evaluate settings heval.tracks)
        fun _ _ => .pure rfl) fun returned hr => hr ▸ nofun

end Grows

/-- What every call and access keeps: instances of descriptions, with cells of the kinds that these
lay out, and contexts of these instances. -/
theorem Attains.fitted {w : World} {cs : List Context} (h : Attains w cs) :
    ∃ layout, Fitted w.types layout w.state ∧ ∀ c ∈ cs, c.Within layout := by
  induction h with
  | empty => exact ⟨[], .empty, nofun⟩
  | describe h hd ih =>
      obtain ⟨layout, hw, hcs⟩ := ih
      obtain ⟨d, hb, he⟩ := bind_eq_ok hd
      cases he
      exact ⟨layout, hw.describe (Description.laid_of_build hb), hcs⟩
  | @call w cs call h hv ih =>
      obtain ⟨layout, hw, hcs⟩ := ih
      obtain ⟨grown, hprefix, hfitted, hreturned⟩ := Grows.call hw hcs hv
      refine ⟨grown, hfitted, List.forall_mem_append.2 ⟨fun c hc => (hcs c hc).mono hprefix, ?_⟩⟩
      change ∀ c ∈ (((call.run w.types).run w.state).1.toOption.getD [] : List Context), _
      cases hr : ((call.run w.types).run w.state).1 with
      | error stop => exact nofun
      | ok returned => exact hreturned returned hr
  | share h hc hp ih =>
      obtain ⟨layout, hw, hcs⟩ := ih
      refine ⟨layout, ⟨hw.laid, hw.described, hw.length_eq, hw.cells⟩, ?_⟩
      exact List.forall_mem_append.2 ⟨hcs, List.forall_mem_singleton.2
        (.make (hcs _ hc).self fun p hp' => hcs p (hp p hp'))⟩
  | @get w cs c reader a item depth h hc hr ha ih =>
      obtain ⟨layout, hw, hcs⟩ := ih
      have hget : Respects _ _ _ (a.get (Evaluation.eval w.types depth) item reader) :=
        (dwells_eval w.types layout depth).get (hcs reader hr)
      exact ⟨layout, (hget w.state w.state ⟨rfl, hw⟩).2.1.2, hcs⟩
  | set v animation h hc ha ih =>
      obtain ⟨layout, hw, hcs⟩ := ih
      obtain ⟨role, hrole⟩ := ha.located (hw.laid_find _)
      exact ⟨layout, hw.set (hcs _ hc).self hrole v animation, hcs⟩
  | bind source animation h hc ha ih =>
      obtain ⟨layout, hw, hcs⟩ := ih
      obtain ⟨role, hrole⟩ := ha.located (hw.laid_find _)
      exact ⟨layout, hw.bind (hcs _ hc).self hrole source animation, hcs⟩

end UiBinding
