import UiBinding.Proofs.Coupling
import UiBinding.Proofs.Resolution
import UiBinding.Proofs.Storage

namespace UiBinding

/-- What may stand in the slots of a role: the values that custom properties store and that
code yields, and the code itself, with the scope that it runs in. -/
structure Policy where
  value : Role → Value → Prop
  code : Role → Scope → Expr → Prop

def Context.scope (owner : Context) (depth : Nat) : Scope :=
  ⟨depth, owner.self.description, owner⟩

def Role.Stores (P : Policy) : Role → Native → Prop
  | custom p, n => ∃ v, n = .value v ∧ P.value (.custom p) v
  | signal, _ => False
  | item q, n => q.type.Stores n

def Role.Admits (P : Policy) : Role → Value → Prop
  | item q, v => (∀ k, q.type.tag? = some k → v.tag = k) ∧
      (q.type = .f32 → ∃ x, v = .number x ∧ x.IsSingle)
  | role, v => P.value role v

def Role.Yields (P : Policy) (role : Role) (n : Native) : Prop := ∃ v, n = .value v ∧ role.Admits P v

theorem ItemProperty.stores_convert (q : ItemProperty) {v : Value} {n : Native}
    (h : q.convert (.value v) = .ok n) : q.type.Stores n := by
  simp only [convert] at h
  split at h
  · rename_i m hm
    cases h
    exact Value.stores_unwrap hm
  · cases h

/-- A cell of `owner` that suits its role. -/
def Holds (P : Policy) (owner : Context) (role : Role) : Cell → Prop
  | .unset => False
  | .property p =>
    role.Stores P p.stored ∧ ∀ b, p.binding = some b → b.conversion = role.conversion ∧
      ∃ body depth, b.source = .expression body depth owner.self.description ∧
        P.code role (owner.scope depth) body
  | .signal s =>
    role = .signal ∧ ∀ h ∈ s.handlers, ∃ depth, h.scope = owner.scope depth ∧
      P.code .signal h.scope h.body

def Meets (P : Policy) (owner : Context) (role : Role) : Cell → Prop
  | .unset => True
  | .property p =>
    (∀ q v, role = .custom q → p.stored = .value v → P.value role v) ∧
      ∀ b body depth n, p.binding = some b → b.source = .expression body depth n →
        P.code role ⟨depth, n, owner⟩ body
  | .signal s => ∀ h ∈ s.handlers, P.code .signal h.scope h.body

theorem Holds.meets {P : Policy} {owner : Context} {role : Role} {c : Cell}
    (h : Holds P owner role c) : Meets P owner role c := by
  cases c with
  | unset => trivial
  | property p =>
      constructor
      · rintro q v rfl hv
        obtain ⟨v', hv', hvalue⟩ := h.1
        cases hv.symm.trans hv'
        exact hvalue
      · intro b body depth n hb hsource
        obtain ⟨-, body', depth', hsource', hcode⟩ := h.2 b hb
        cases hsource.symm.trans hsource'
        exact hcode
  | signal s =>
      intro handler hmem
      obtain ⟨depth, hscope, hcode⟩ := h.2 handler hmem
      exact hcode

theorem Holds.of_meets {P Q : Policy} {owner : Context} {role : Role} {c : Cell}
    (h : Holds Q owner role c) (hm : Meets P owner role c) : Holds P owner role c := by
  cases c with
  | unset => exact h
  | property p =>
      constructor
      · cases role with
        | custom q =>
            obtain ⟨v, hv, -⟩ := h.1
            exact ⟨v, hv, hm.1 q v rfl hv⟩
        | signal => exact h.1
        | item q => exact h.1
      · intro b hb
        obtain ⟨hconv, body, depth, hsource, -⟩ := h.2 b hb
        exact ⟨hconv, body, depth, hsource, hm.2 b body depth _ hb hsource⟩
  | signal s =>
      refine ⟨h.1, fun handler hmem => ?_⟩
      obtain ⟨depth, hscope, -⟩ := h.2 handler hmem
      exact ⟨depth, hscope, hm handler hmem⟩

/-- Every cell of `owner` suits the role of its slot. -/
structure Suits (P : Policy) (owner : Context) (roles : List Role) (cells : List Cell) : Prop where
  length_eq : cells.length = roles.length
  exists_cell : ∀ (k : Nat) role, roles[k]? = some role → ∃ c, cells[k]? = some c ∧ Holds P owner role c

theorem holds_start {P : Policy} (hP : ∀ p : CustomSlot, P.value (.custom p) p.start)
    (owner : Context) (role : Role) : Holds P owner role role.start := by
  cases role with
  | custom p => exact ⟨⟨p.start, rfl, hP p⟩, nofun⟩
  | signal => exact ⟨rfl, nofun⟩
  | item q => exact ⟨q.type.stores_start, nofun⟩

namespace Suits

variable {P : Policy} {owner : Context} {roles : List Role} {cells : List Cell}

theorem start (hP : ∀ p : CustomSlot, P.value (.custom p) p.start) (owner : Context)
    (roles : List Role) : Suits P owner roles (roles.map Role.start) := by
  refine ⟨List.length_map _, fun k role hk => ⟨role.start, ?_, holds_start hP owner role⟩⟩
  rw [List.getElem?_map, hk]
  rfl

theorem set (h : Suits P owner roles cells) {k : Nat} {role : Role} {c : Cell}
    (hk : roles[k]? = some role) (hc : Holds P owner role c) :
    Suits P owner roles (cells.set k c) := by
  refine ⟨by rw [List.length_set, h.length_eq], fun j r hj => ?_⟩
  have hlt := (List.getElem?_eq_some_iff.1 hk).1
  by_cases hjk : k = j
  · subst hjk
    rw [hk] at hj
    cases hj
    exact ⟨c, List.getElem?_set_self (by rw [h.length_eq]; exact hlt), hc⟩
  · rw [List.getElem?_set_ne hjk]
    exact h.exists_cell j r hj

theorem of_meets {Q : Policy} (h : Suits Q owner roles cells)
    (hm : ∀ (k : Nat) role c, roles[k]? = some role → cells[k]? = some c → Meets P owner role c) :
    Suits P owner roles cells := by
  refine ⟨h.length_eq, fun k role hk => ?_⟩
  obtain ⟨c, hc, hholds⟩ := h.exists_cell k role hk
  exact ⟨c, hc, hholds.of_meets (hm k role c hk hc)⟩

theorem meets (h : Suits P owner roles cells) (k : Nat) (role : Role) (c : Cell)
    (hk : roles[k]? = some role) (hc : cells[k]? = some c) : Meets P owner role c := by
  obtain ⟨c', hc', hholds⟩ := h.exists_cell k role hk
  cases hc.symm.trans hc'
  exact hholds.meets

end Suits

namespace State

variable {s : State} {n m : Nat} {c : Cell}

theorem position?_natCast {count k : Nat} (h : k < count) : position? count k = some k := by
  rw [position?, if_pos (Int.natCast_nonneg k), if_pos (Int.ofNat_lt.2 h), Int.toNat_natCast]

theorem cell?_natCast {k : Nat} (h : (s.slots n)[k]? = some c) :
    s.cell? n k = some c := by
  rw [cell?, position?_natCast (List.getElem?_eq_some_iff.1 h).1]
  exact h

theorem slots_setCell_of_ne (index : Int) (h : n ≠ m) : (s.setCell n index c).slots m = s.slots m := by
  rw [setCell]
  split
  · rfl
  · simp only [slots, List.getElem?_set_ne h]

theorem slots_setCell {k : Nat} (h : k < (s.slots n).length) :
    (s.setCell n k c).slots n = (s.slots n).set k c := by
  have hn : n < s.instances.length := by
    by_contra hn
    rw [slots, List.getElem?_eq_none (by omega)] at h
    cases h
  simp only [setCell, position?_natCast h]
  rw [slots, List.getElem?_set_self hn, Option.getD_some]

theorem setCell_counts (index : Int) : (s.setCell n index c).instances.length = s.instances.length ∧
    (s.setCell n index c).contexts = s.contexts := by
  rw [setCell]
  split
  · exact ⟨rfl, rfl⟩
  · exact ⟨List.length_set, rfl⟩

end State

/-- Contexts that hold together: parents belong to them, and no two share an instance. -/
structure Region (types : Catalog) (near : Context → Prop) : Prop where
  parent : ∀ c p, near c → c.parent? = some p → near p
  distinct : ∀ c o, near c → near o → c.self.number = o.self.number → c = o
  laid : ∀ c, near c → (types.find c.self.description).Laid

/-- Two states that were `s₀` and `t₀` and in which the same has happened in a region: its
slots are alike and suit their roles, and all others are as they were. -/
structure Aligned (types : Catalog) (P : Policy) (near : Context → Prop) (s₀ t₀ s t : State) :
    Prop where
  suits : ∀ c, near c →
    Suits P c (types.find c.self.description).roles (s.slots c.self.number)
  alike : ∀ c, near c → t.slots c.self.number = s.slots c.self.number
  frame : ∀ n, (∀ c, near c → c.self.number ≠ n) →
    s.slots n = s₀.slots n ∧ t.slots n = t₀.slots n
  counts : s.instances.length = s₀.instances.length ∧ s.contexts = s₀.contexts

namespace Aligned

variable {types : Catalog} {P : Policy} {near : Context → Prop} {s₀ t₀ s t : State}
  {owner : Context}

theorem log (h : Aligned types P near s₀ t₀ s t) (events : List Event) :
    Aligned types P near s₀ t₀ { s with log := s.log ++ events }
      { t with log := t.log ++ events } :=
  ⟨h.suits, h.alike, h.frame, h.counts⟩

theorem setCell (hn : Region types near) (h : Aligned types P near s₀ t₀ s t)
    (ho : near owner) {k : Nat} {role : Role} {c : Cell}
    (hk : (types.find owner.self.description).roles[k]? = some role) (hc : Holds P owner role c) :
    Aligned types P near s₀ t₀ (s.setCell owner.self.number k c)
      (t.setCell owner.self.number k c) := by
  have hs := h.suits owner ho
  have hlt : k < (s.slots owner.self.number).length := by
    rw [hs.length_eq]
    exact (List.getElem?_eq_some_iff.1 hk).1
  have hlt' : k < (t.slots owner.self.number).length := by rwa [h.alike owner ho]
  -- No other context of the region sees the change, since none shares the instance.
  constructor
  · intro o hnear
    by_cases he : owner.self.number = o.self.number
    · obtain rfl := hn.distinct owner o ho hnear he
      rw [State.slots_setCell hlt]
      exact hs.set hk hc
    · rw [State.slots_setCell_of_ne _ he]
      exact h.suits o hnear
  · intro o hnear
    by_cases he : owner.self.number = o.self.number
    · rw [← he, State.slots_setCell hlt, State.slots_setCell hlt', h.alike owner ho]
    · rw [State.slots_setCell_of_ne _ he, State.slots_setCell_of_ne _ he, h.alike o hnear]
  · intro n hfar
    rw [State.slots_setCell_of_ne _ (hfar owner ho), State.slots_setCell_of_ne _ (hfar owner ho)]
    exact h.frame n hfar
  · obtain ⟨hi, hx⟩ := State.setCell_counts (s := s) (n := owner.self.number) (c := c) k
    rw [hi, hx]
    exact h.counts

end Aligned

section Rules

open Run (Respects)

variable {types : Catalog} {P : Policy} {near : Context → Prop} {s₀ t₀ : State}
  {fails : Stop → Prop} {owner : Context} {role : Role} {a : Accessor} {item : ItemView}

theorem respects_log (events : List Event) :
    Respects (Aligned types P near s₀ t₀) fails (fun _ => True) (Run.log events) :=
  .update trivial fun _ _ h => h.log events

theorem respects_resolve (hn : Region types near) {c : Context} (hc : near c)
    {limit element : Int} {blame : Option Expr}
    (hfails : ∀ f, (c.resolve types limit element blame).2 = .error f →
      fails (.error (.fault f))) :
    Respects (Aligned types P near s₀ t₀) fails
      (fun o => near o ∧ (c.resolve types limit element blame).2 = .ok o)
      (Run.resolve types limit element blame c) := by
  refine .bind (respects_log _) fun _ _ => .ofFault (fun o ho => ?_) hfails
  exact ⟨Context.forall_chain hn.parent hc o (Context.resolve_ok ho).1, ho⟩

theorem respects_cell (ho : near owner) {k : Nat}
    (hk : (types.find owner.self.description).roles[k]? = some role) :
    Respects (Aligned types P near s₀ t₀) fails (Holds P owner role)
      (Run.cell owner.self.number k) := by
  apply Respects.cell
  intro s t h
  obtain ⟨c, hc, hholds⟩ := (h.suits owner ho).exists_cell k role hk
  refine ⟨c, State.cell?_natCast hc, State.cell?_natCast ?_, hholds⟩
  rwa [h.alike owner ho]

theorem respects_setCell (hn : Region types near) (ho : near owner) {k : Nat} {c : Cell}
    (hk : (types.find owner.self.description).roles[k]? = some role) (hc : Holds P owner role c) :
    Respects (Aligned types P near s₀ t₀) fails (fun _ => True)
      (Run.setCell owner.self.number k c) :=
  .update trivial fun _ _ h => h.setCell hn ho hk hc

theorem respects_property (ho : near owner)
    (ha : Located (types.find owner.self.description) owner.self.number a item role) :
    Respects (Aligned types P near s₀ t₀) fails (fun p => Holds P owner role (.property p))
      (a.property item) := by
  obtain ⟨k, hk, hrole⟩ := ha.exists_slot
  have hcheck : Respects (Aligned types P near s₀ t₀) fails (fun _ => True)
      (Run.ofFault (a.check item)) := by
    rw [ha.check_eq]
    exact .pure trivial
  refine .bind hcheck fun _ _ => ?_
  rw [hk, ha.holder_eq]
  refine .bind (respects_cell ho hrole) fun c hc => ?_
  cases c with
  | unset => exact hc.elim
  | property p => exact .pure hc
  | signal s =>
      obtain ⟨rfl, -⟩ := hc
      cases ha

theorem respects_put (hn : Region types near) (ho : near owner)
    (ha : Located (types.find owner.self.description) owner.self.number a item role)
    {p : Property Binding} (hp : Holds P owner role (.property p)) :
    Respects (Aligned types P near s₀ t₀) fails (fun _ => True) (a.put item p) := by
  obtain ⟨k, hk, hrole⟩ := ha.exists_slot
  rw [Accessor.put, hk, ha.holder_eq]
  exact respects_setCell hn ho hrole hp

theorem respects_present
    (ha : Located (types.find owner.self.description) owner.self.number a item role) {n : Native}
    (hs : role.Stores P n) :
    Respects (Aligned types P near s₀ t₀) fails (role.Yields P) (a.present n) := by
  cases ha with
  | custom _ => exact .pure hs
  | @native q _ _ _ _ =>
      obtain ⟨v, hw, hv⟩ := Native.wrap_stores hs
      change Respects _ _ _ (Run.ofExcept (((n.wrap q.type).mapError Error.native).map Native.value))
      rw [hw]
      exact .pure ⟨v, rfl, hv⟩

theorem respects_store {b : Binding} (hb : b.conversion = role.conversion) (hr : role ≠ .signal)
    {v : Value} (hv : P.value role v)
    (hconvert : ∀ q f, role = .item q → q.convert (.value v) = .error f →
      fails (.error (.fault f))) :
    Respects (Aligned types P near s₀ t₀) fails (role.Stores P)
      (Run.ofFault (b.store (.value v))) := by
  rw [Binding.store, hb]
  cases role with
  | custom p => exact .pure ⟨v, rfl, hv⟩
  | signal => exact (hr rfl).elim
  | item q => exact .ofFault (fun n hn => q.stores_convert hn) fun f hf => hconvert q f rfl hf

theorem respects_get {eval : Evaluator} (ho : near owner)
    (ha : Located (types.find owner.self.description) owner.self.number a item role)
    (hcode : ∀ body depth, P.code role (owner.scope depth) body →
      Respects (Aligned types P near s₀ t₀) fails (fun n => ∃ v, n = .value v ∧ P.value role v)
        (eval (owner.scope depth) body))
    (hconvert : ∀ q v f, role = .item q → P.value role v → q.convert (.value v) = .error f →
      fails (.error (.fault f))) :
    Respects (Aligned types P near s₀ t₀) fails (role.Yields P) (a.get eval item owner) := by
  refine .bind (respects_property ho ha) fun p hp => ?_
  refine .bind ?_ fun n hn => respects_present ha hn
  rw [Property.get]
  cases hb : p.binding with
  | none => exact .pure hp.1
  | some b =>
      obtain ⟨hconv, body, depth, hsource, hbody⟩ := hp.2 b hb
      change Respects _ _ _ (b.source.run eval owner >>= fun n => Run.ofFault (b.store n))
      rw [hsource]
      refine .bind (hcode body depth hbody) fun n hn => ?_
      obtain ⟨v, rfl, hv⟩ := hn
      exact respects_store hconv ha.ne_signal hv fun q f hq hf => hconvert q v f hq hv hf

theorem respects_set (hn : Region types near) (ho : near owner)
    (ha : Located (types.find owner.self.description) owner.self.number a item role) {v : Value}
    (hv : P.value role v)
    (hconvert : ∀ q f, role = .item q → q.convert (.value v) = .error f →
      fails (.error (.fault f))) (animation : Option Animation) :
    Respects (Aligned types P near s₀ t₀) fails (fun _ => True)
      (a.set item (.value v) animation) := by
  cases ha with
  | custom h =>
      refine .bind (respects_property ho (.custom h)) fun p hp => ?_
      exact respects_put hn ho (.custom h) ⟨⟨v, rfl, hv⟩, nofun⟩
  | @native q _ _ hk h =>
      refine .bind (respects_property ho (.native hk h)) fun p hp => ?_
      refine .bind (.ofFault (fun m hm => q.stores_convert hm) fun f hf => hconvert q f rfl hf)
        fun m hm => ?_
      exact respects_put hn ho (.native hk h) ⟨hm, nofun⟩

theorem respects_bind (hn : Region types near) (ho : near owner)
    (ha : Located (types.find owner.self.description) owner.self.number a item role) {body : Expr}
    {depth : Nat} (hbody : P.code role (owner.scope depth) body) (animation : Option Animation) :
    Respects (Aligned types P near s₀ t₀) fails (fun _ => True)
      (a.bind item (.expression body depth owner.self.description) animation) := by
  refine .bind (respects_property ho ha) fun p hp => respects_put hn ho ha ⟨hp.1, ?_⟩
  rintro b ⟨⟩
  exact ⟨ha.conversion_eq, body, depth, rfl, hbody⟩

theorem respects_signalOf_slot (hn : Region types near) (ho : near owner) {element : Int}
    {name : String} {x : Element} {k : Nat}
    (hx : (types.find owner.self.description).tree.element? element = some x)
    (hk : (types.find owner.self.description).signalSlot? x.id name = some k) :
    Respects (Aligned types P near s₀ t₀) fails
      (fun found => ∃ s, found = some (k, s) ∧ Holds P owner .signal (.signal s))
      (signalOf types owner element name) := by
  simp only [signalOf, hx, hk]
  refine .bind (respects_cell ho ((hn.laid owner ho).signalSlot? hk)) fun c hc => ?_
  cases c with
  | unset => exact hc.elim
  | property p => exact hc.1.elim
  | signal s => exact .pure ⟨s, rfl, hc⟩

theorem respects_signalOf (hn : Region types near) (ho : near owner) {element : Int}
    {name : String}
    (hfails : (types.find owner.self.description).tree.element? element = none →
      fails (.error (.noElement element))) :
    Respects (Aligned types P near s₀ t₀) fails
      (fun found => ∀ k s, found = some (k, s) →
        (types.find owner.self.description).roles[k]? = some .signal ∧
          Holds P owner .signal (.signal s))
      (signalOf types owner element name) := by
  cases hx : (types.find owner.self.description).tree.element? element with
  | none =>
      simp only [signalOf, hx]
      exact .fail (hfails hx)
  | some x =>
      cases hk : (types.find owner.self.description).signalSlot? x.id name with
      | none =>
          simp only [signalOf, hx, hk]
          exact .pure nofun
      | some k =>
          refine (respects_signalOf_slot hn ho hx hk).imp ?_
          rintro _ ⟨s, rfl, hs⟩ _ _ ⟨⟩
          exact ⟨(hn.laid owner ho).signalSlot? hk, hs⟩

theorem respects_connect (hn : Region types near) (ho : near owner) {k : Nat}
    (hk : (types.find owner.self.description).roles[k]? = some .signal)
    {signal : Signal Handler} (hs : Holds P owner .signal (.signal signal)) {body : Expr}
    {depth : Nat} (hbody : P.code .signal (owner.scope depth) body) :
    Respects (Aligned types P near s₀ t₀) fails (fun _ => True)
      (Run.setCell owner.self.number k (.signal (signal.connect ⟨owner.scope depth, body⟩))) := by
  refine respects_setCell hn ho hk ⟨rfl, fun handler hmem => ?_⟩
  obtain hmem | hmem := List.mem_append.1 hmem
  · exact hs.2 handler hmem
  · rw [List.mem_singleton.1 hmem]
    exact ⟨depth, rfl, hbody⟩

end Rules

end UiBinding
