import UiBinding.Proofs.HostAccess
import UiBinding.Proofs.RoundTrip

namespace UiBinding

theorem State.setCell_setCell {s : State} {n : Nat} {index : Int} {c : Cell}
    (h : s.cell? n index = some c) (d e : Cell) :
    (s.setCell n index d).setCell n index e = s.setCell n index e := by
  obtain ⟨k, hk, hget, hset⟩ := exists_slot h
  have hlt := (List.getElem?_eq_some_iff.1 hget).1
  have hslots : (s.setCell n index d).slots n = (s.slots n).set k d := by
    rw [hset, slots_setCell hlt]
  rw [setCell, hslots, List.length_set, hk]
  simp only [setCell, hk, List.set_set]

/-- All slots of a state, but for one, are as they were. -/
def State.SameBut (s : State) (holder : Nat) (index : Int) (t : State) : Prop :=
  t.instances.length = s.instances.length ∧
    ∀ n k : Nat, (n = holder → (k : Int) ≠ index) → (t.slots n)[k]? = (s.slots n)[k]?

theorem State.sameBut_setCell {s : State} {n : Nat} {index : Int} {c : Cell}
    (h : s.cell? n index = some c) {k : Nat} (hk : index = k) (d : Cell) :
    s.SameBut n index (s.setCell n index d) := by
  subst hk
  have hlt := (List.getElem?_eq_some_iff.1 (getElem?_of_cell? h)).1
  refine ⟨(setCell_counts _).1, fun m j hne => ?_⟩
  by_cases hm : n = m
  · subst hm
    rw [slots_setCell hlt, List.getElem?_set_ne fun hkj => hne rfl (congrArg Int.ofNat hkj.symm)]
  · rw [slots_setCell_of_ne _ hm]

theorem StorageType.Stores.unwrap_wrap {t : StorageType} {n : Native} (h : t.Stores n)
    (ht : t.bounds? = none) :
    ∃ v, n.wrap t = .ok v ∧ ∀ checked, v.unwrap t checked = .ok n := by
  obtain ⟨v, hv, -, hsingle⟩ := Native.wrap_stores h
  have hround := roundTrip?_of_stores h ht
  have hstored : v.unwrap t false = .ok n := by
    rw [roundTrip?, hv] at hround
    change (v.unwrap t false).toOption = some n at hround
    cases hu : v.unwrap t false with
    | error failure => rw [hu] at hround; cases hround
    | ok m => rw [hu] at hround; cases hround; rfl
  refine ⟨v, hv, fun checked => ?_⟩
  cases t with
  | f32 =>
      obtain ⟨x, rfl, hx⟩ := hsingle rfl
      rw [← hstored]
      simp [Value.unwrap, ofNumber?, Binary64.narrowSingle, Binary64.exceedsSingle_of_isSingle hx]
  | i32 | i64 | u32 | u64 | isize | usize => cases ht
  | _ =>
      rw [← hstored]
      cases v <;> rfl

namespace Accessor

/-- The accessor with or without checked conversions. A custom property converts nothing. -/
def withChecks (checked : Bool) : Accessor → Accessor
  | custom name offset => custom name offset
  | native p => native { p with checked }

/-- What is read once a value was stored: the value itself, or for a property of an item what its
storage type makes of the value and back. -/
def Recalls : Accessor → Value → Value → Prop
  | custom .., v, w => w = v
  | native p, v, w => ∃ n, v.unwrap p.type p.checked = .ok n ∧ n.wrap p.type = .ok w

/-- How one property of an instance is read and set in a state. -/
structure Lawful (a : Accessor) (item : ItemView) (s : State) : Prop where
  get_set : ∀ v animation t, (a.set item (.value v) animation).run s = (.ok (), t) →
    (∃ p, t.cell? item.holder (item.base + a.offset) = some (.property p) ∧ p.binding = none ∧
      p.animation = animation) ∧
    ∃ w, a.Recalls v w ∧ ∀ eval reader, (a.get eval item reader).run t = (.ok (.value w), t)
  set_get : ∀ p, s.cell? item.holder (item.base + a.offset) = some (.property p) →
    p.binding = none →
    ∃ v, (∀ eval reader, (a.get eval item reader).run s = (.ok (.value v), s)) ∧
      ∀ checked animation, ∃ t q,
        ((a.withChecks checked).set item (.value v) animation).run s = (.ok (), t) ∧
          t.cell? item.holder (item.base + a.offset) = some (.property q) ∧ q.stored = p.stored
  set_set : ∀ v w animation animation' t u,
    (a.set item (.value v) animation).run s = (.ok (), t) →
      ((a.set item (.value w) animation').run t = (.ok (), u) ↔
        (a.set item (.value w) animation').run s = (.ok (), u))
  set_elsewhere : ∀ v animation,
    s.SameBut item.holder (item.base + a.offset) ((a.set item (.value v) animation).run s).2
  get_bound : ∀ p b eval reader,
    s.cell? item.holder (item.base + a.offset) = some (.property p) → p.binding = some b →
      ((a.get eval item reader).run s).2 = ((b.source.run eval reader).run s).2
  refused : ∀ v animation stop t, (a.set item (.value v) animation).run s = (.error stop, t) →
    t = s ∧ ∃ p failure, a = native p ∧ v.unwrap p.type p.checked = .error failure ∧
      stop = .error (.fault (.rejected p.owner p.name p.type failure))

theorem set_error {a : Accessor} {item : ItemView} {n : Native} {animation : Option Animation}
    {s t : State} {stop : Stop} (h : (a.set item n animation).run s = (.error stop, t)) : t = s := by
  have hproperty {p : Property Binding} {u : State} (hp : (a.property item).run s = (.ok p, u)) :
      u = s := (congrArg Prod.snd hp).symm.trans (run_property_snd a item s)
  have hmissing {e : Stop} {u : State} (hp : (a.property item).run s = (.error e, u)) :
      u = s := (congrArg Prod.snd hp).symm.trans (run_property_snd a item s)
  cases a with
  | custom name offset =>
      cases n with
      | value v =>
          rw [set, Run.run_bind] at h
          split at h
          · cases h
          · rename_i hp
            cases h
            exact hmissing hp
      | _ => cases h; rfl
  | native p =>
      rw [set, Run.run_bind] at h
      split at h
      · rename_i q u hq
        cases hconvert : p.convert n with
        | ok m => rw [hconvert] at h; cases h
        | error f =>
            rw [hconvert] at h
            cases h
            exact hproperty hq
      · rename_i hp
        cases h
        exact hmissing hp

theorem set_wrong_item {p : ItemProperty} {item : ItemView} (h : item.item ≠ some p.owner)
    (n : Native) (animation : Option Animation) (s : State) :
    ((native p).set item n animation).run s =
      (.error (.error (.fault (.wrongItem p.owner p.name item.item))), s) := by
  have hcheck : (native p).check item = .error (.wrongItem p.owner p.name item.item) := if_neg h
  rw [set, Run.run_bind, property, hcheck]
  rfl

section Stored

variable {a : Accessor} {item : ItemView} {s t : State} {p : Property Binding} {v : Value}
  {animation : Option Animation}

theorem set_ok (hcheck : a.check item = .ok ())
    (hcell : s.cell? item.holder (item.base + a.offset) = some (.property p)) :
    (a.set item (.value v) animation).run s = (.ok (), t) ↔ ∃ m, a.accept v = .ok m ∧
      t = s.setCell item.holder (item.base + a.offset) (.property ⟨m, none, animation⟩) := by
  rw [run_set hcheck hcell]
  cases a.accept v with
  | error f => exact ⟨nofun, fun ⟨_, hm, _⟩ => by cases hm⟩
  | ok m =>
      constructor
      · rintro ⟨⟩
        exact ⟨m, rfl, rfl⟩
      · rintro ⟨_, ⟨⟩, rfl⟩
        rfl

theorem recalls_of_accept {m : Native} (h : a.accept v = .ok m) :
    ∃ w, a.Recalls v w ∧ ∀ t, (a.present m).run t = (.ok (.value w), t) := by
  cases a with
  | custom name offset =>
      cases h
      exact ⟨v, rfl, fun _ => rfl⟩
  | native p =>
      obtain ⟨w, hw, -⟩ := Native.wrap_stores (p.stores_convert h)
      have hunwrap : v.unwrap p.type p.checked = .ok m := by
        simp only [accept, ItemProperty.convert] at h
        split at h
        · rename_i hm
          rw [hm, Except.ok.inj h]
        · cases h
      refine ⟨w, ⟨m, hunwrap, hw⟩, fun t => ?_⟩
      rw [present, hw]
      rfl

theorem reads_after_set (hcheck : a.check item = .ok ())
    (hcell : s.cell? item.holder (item.base + a.offset) = some (.property p))
    (hset : (a.set item (.value v) animation).run s = (.ok (), t)) :
    (∃ q, t.cell? item.holder (item.base + a.offset) = some (.property q) ∧ q.binding = none ∧
      q.animation = animation) ∧
    ∃ w, a.Recalls v w ∧ ∀ eval reader, (a.get eval item reader).run t = (.ok (.value w), t) := by
  obtain ⟨m, hm, rfl⟩ := (set_ok hcheck hcell).1 hset
  obtain ⟨w, hw, hpresent⟩ := recalls_of_accept hm
  refine ⟨⟨_, State.cell?_setCell hcell, rfl, rfl⟩, w, hw, fun eval reader => ?_⟩
  rw [run_get_stored hcheck (State.cell?_setCell hcell) rfl]
  exact hpresent _

theorem set_set_iff (hcheck : a.check item = .ok ())
    (hcell : s.cell? item.holder (item.base + a.offset) = some (.property p))
    (hset : (a.set item (.value v) animation).run s = (.ok (), t)) (w : Value)
    (animation' : Option Animation) (u : State) :
    (a.set item (.value w) animation').run t = (.ok (), u) ↔
      (a.set item (.value w) animation').run s = (.ok (), u) := by
  obtain ⟨m, -, rfl⟩ := (set_ok hcheck hcell).1 hset
  rw [set_ok hcheck hcell, set_ok hcheck (State.cell?_setCell hcell)]
  simp only [State.setCell_setCell hcell]

theorem sameBut_set (hcheck : a.check item = .ok ())
    (hcell : s.cell? item.holder (item.base + a.offset) = some (.property p)) {k : Nat}
    (hk : item.base + a.offset = k) (v : Value) (animation : Option Animation) :
    s.SameBut item.holder (item.base + a.offset) ((a.set item (.value v) animation).run s).2 := by
  rw [run_set hcheck hcell]
  cases a.accept v with
  | error f => exact ⟨rfl, fun _ _ _ => rfl⟩
  | ok m => exact State.sameBut_setCell hcell hk _

theorem set_refused {stop : Stop} (hcheck : a.check item = .ok ())
    (hcell : s.cell? item.holder (item.base + a.offset) = some (.property p))
    (hset : (a.set item (.value v) animation).run s = (.error stop, t)) :
    ∃ q failure, a = native q ∧ v.unwrap q.type q.checked = .error failure ∧
      stop = .error (.fault (.rejected q.owner q.name q.type failure)) := by
  rw [run_set hcheck hcell] at hset
  cases a with
  | custom => cases hset
  | native q =>
      simp only [accept, ItemProperty.convert] at hset
      cases hv : v.unwrap q.type q.checked with
      | ok m => rw [hv] at hset; cases hset
      | error failure =>
          rw [hv] at hset
          cases hset
          exact ⟨q, failure, rfl, hv, rfl⟩

theorem run_get_snd {eval : Evaluator} {reader : Context} {b : Binding}
    (hcheck : a.check item = .ok ())
    (hcell : s.cell? item.holder (item.base + a.offset) = some (.property p))
    (hb : p.binding = some b) :
    ((a.get eval item reader).run s).2 = ((b.source.run eval reader).run s).2 := by
  rw [get, Run.run_bind, run_property hcheck hcell]
  simp only [Property.get, hb]
  change (((b.source.run eval reader >>= fun n => Run.ofFault (b.store n)) >>= a.present).run s).2 = _
  rw [bind_assoc, Run.run_bind]
  rcases (b.source.run eval reader).run s with ⟨r, t⟩
  cases r with
  | error stop => rfl
  | ok n =>
      change ((Run.ofFault (b.store n) >>= a.present).run t).2 = t
      rw [Run.run_bind]
      cases b.store n with
      | error f => rfl
      | ok m =>
          cases a with
          | custom => rfl
          | native q =>
              change ((Run.ofExcept (((m.wrap q.type).mapError Error.native).map
                Native.value)).run t).2 = t
              cases m.wrap q.type <;> rfl

end Stored

theorem check_withChecks (a : Accessor) (checked : Bool) (item : ItemView) :
    (a.withChecks checked).check item = a.check item := by
  cases a <;> rfl

theorem offset_withChecks (a : Accessor) (checked : Bool) :
    (a.withChecks checked).offset = a.offset := by
  cases a <;> rfl

end Accessor

theorem Own.bounds?_eq_none {d : Description} {holder : Nat} {p : ItemProperty} {item : ItemView}
    (h : Own d holder (.native p) item) : p.type.bounds? = none := by
  cases h with
  | native hb hp => exact (Item.storage_of_mem (Item.exists_of_mem_properties hp).2.1).1

/-- What stands in a slot is read as a value that is stored as the same data again. -/
theorem Located.writes_back {d : Description} {holder : Nat} {a : Accessor} {item : ItemView}
    {role : Role} (ha : Located d holder a item role)
    (ht : ∀ p, a = .native p → p.type.bounds? = none) {n : Native} (hn : role.Keeps n) :
    ∃ v, (∀ t, (a.present n).run t = (.ok (.value v), t)) ∧
      ∀ checked, (a.withChecks checked).accept v = .ok n := by
  cases ha with
  | custom =>
      obtain ⟨v, rfl⟩ := hn
      exact ⟨v, fun _ => rfl, fun _ => rfl⟩
  | native =>
      obtain ⟨v, hv, hunwrap⟩ := StorageType.Stores.unwrap_wrap hn (ht _ rfl)
      refine ⟨v, fun t => ?_, fun checked => ?_⟩
      · rw [Accessor.present, hv]
        rfl
      · simp [Accessor.withChecks, Accessor.accept, ItemProperty.convert, hunwrap checked]

theorem Fitted.lawful {types : Catalog} {layout : List Nat} {s : State} {i n : Nat} {a : Accessor}
    {item : ItemView} (h : Fitted types layout s) (hi : layout[i]? = some n)
    (ha : Own (types.find n) i a item) : a.Lawful item s := by
  obtain ⟨role, hrole⟩ := ha.located (h.laid_find n)
  obtain ⟨k, p, hk, -, hp, hkeeps⟩ := h.exists_property hi hrole
  have hcheck := hrole.check_eq
  have hcell : s.cell? item.holder (item.base + a.offset) = some (.property p) :=
    hk ▸ State.cell?_natCast hp
  have htype : ∀ q, a = .native q → q.type.bounds? = none := by
    rintro q rfl
    exact ha.bounds?_eq_none
  constructor
  case get_set => exact fun _ _ _ => Accessor.reads_after_set hcheck hcell
  case set_get =>
    intro q hq hbinding
    cases hcell.symm.trans hq
    obtain ⟨v, hpresent, haccept⟩ := hrole.writes_back htype hkeeps
    refine ⟨v, fun eval reader => ?_, fun checked animation => ?_⟩
    · rw [Accessor.run_get_stored hcheck hcell hbinding]
      exact hpresent s
    · have hcheck' : (a.withChecks checked).check item = .ok () := by
        rw [a.check_withChecks, hcheck]
      have hcell' : s.cell? item.holder (item.base + (a.withChecks checked).offset) =
          some (.property p) := by rwa [a.offset_withChecks]
      refine ⟨_, ⟨p.stored, none, animation⟩, (Accessor.set_ok hcheck' hcell').2
        ⟨p.stored, haccept checked, rfl⟩, ?_, rfl⟩
      rw [a.offset_withChecks]
      exact State.cell?_setCell hcell
  case set_set => exact fun _ w _ _ _ u hset => Accessor.set_set_iff hcheck hcell hset w _ u
  case set_elsewhere => exact Accessor.sameBut_set hcheck hcell hk
  case get_bound => exact fun _ _ _ _ => Accessor.run_get_snd hcheck
  case refused =>
    exact fun _ _ _ _ hset => ⟨Accessor.set_error hset, Accessor.set_refused hcheck hcell hset⟩

/-- In every world that a program gets to, all properties of all instances are read and set by the
laws. An accessor that is used on an item of another type is refused, and whatever is refused leaves
everything as it was. -/
theorem Attains.accessors_lawful {w : World} {cs : List Context} (h : Attains w cs) :
    (∃ layout : List Nat, layout.length = w.state.instances.length ∧
      (∀ c ∈ cs, c.Within layout) ∧
      ∀ i n, layout[i]? = some n → ∀ a item, Own (w.types.find n) i a item →
        a.Lawful item w.state) ∧
    (∀ (p : ItemProperty) (item : ItemView) n animation, item.item ≠ some p.owner →
      ((Accessor.native p).set item n animation).run w.state =
        (.error (.error (.fault (.wrongItem p.owner p.name item.item))), w.state)) ∧
    ∀ (a : Accessor) (item : ItemView) n animation stop t,
      (a.set item n animation).run w.state = (.error stop, t) → t = w.state := by
  obtain ⟨layout, hw, hcs⟩ := h.fitted
  refine ⟨⟨layout, hw.length_eq.symm, hcs, fun i n hi a item ha => hw.lawful hi ha⟩, ?_, ?_⟩
  · intro p item n animation hitem
    exact Accessor.set_wrong_item hitem n animation w.state
  · intro a item n animation stop t hset
    exact Accessor.set_error hset

namespace Sample

def labelText : ItemProperty := ⟨"Text", "text", .string, 2, false⟩

def labelView : ItemView := ⟨1, 2, some "Text"⟩

theorem label_set_and_read :
    ∃ t, ((Accessor.native labelText).set labelView (.value (.string "c")) none).run world.state =
        (.ok (), t) ∧
      ∀ eval reader, ((Accessor.native labelText).get eval labelView reader).run t =
        (.ok (.value (.string "c")), t) := by
  obtain ⟨⟨layout, -, hcs, hlaws⟩, -⟩ := reaches_world.attains.accessors_lawful
  have hrow := (hcs (inner 1) (by simp)).self
  have htext : labelText ∈ Item.text.properties false :=
    List.mem_cons_of_mem _ (List.mem_cons_of_mem _ List.mem_cons_self)
  have hlawful := hlaws 1 1 hrow _ _ (.native (List.mem_singleton.2 rfl) htext)
  obtain ⟨-, w, ⟨n, hn, hw⟩, hget⟩ := hlawful.get_set (.string "c") none _ rfl
  cases hn
  cases hw
  exact ⟨_, rfl, hget⟩

def shifted : World := (world.run (Call.bind .standard 0 "x" contested outer).run).2

def frameLeft : ItemProperty := ⟨"Rectangle", "x", .f32, 0, false⟩

def leftView : ItemView := ⟨0, 2, some "Rectangle"⟩

def scaleCell (x : Binary64) : Cell := .property ⟨.value (.number x), none, none⟩

theorem scaleCell_inj {x y : Binary64} (h : some (scaleCell x) = some (scaleCell y)) : x = y := by
  have hstored := congrArg Property.stored (Slot.property.inj (Option.some.inj h))
  exact Value.number.inj (Native.value.inj hstored)

/-- Whenever the place of the frame is read, its scale changes. -/
theorem reading_shifts_scale : ¬ ∀ w cs c a item depth, Attains w cs → c ∈ cs →
    Own (w.types.find c.self.description) c.self.number a item →
      w.state.SameBut item.holder (item.base + a.offset)
        ((a.get (Evaluation.eval w.types depth) item c).run w.state).2 := by
  intro h
  have hreached : Attains shifted ([outer, inner 1, inner 2] ++ []) :=
    reaches_world.attains.call (.bind .standard 0 "x" contested outer) List.mem_cons_self
  have hblock : ("frame", (⟨.rectangle, false, 2⟩ : ItemBlock)) ∈
      (shifted.types.find outer.self.description).items := List.mem_singleton.2 rfl
  have hleft : frameLeft ∈ Item.rectangle.properties false := List.mem_cons_self
  have hown : Own (shifted.types.find outer.self.description) outer.self.number
      (.native frameLeft) leftView := .native hblock hleft
  let read := ((Accessor.native frameLeft).get (Evaluation.eval shifted.types 4) leftView outer).run
    shifted.state
  have hscale : (read.2.slots 0)[0]? = (shifted.state.slots 0)[0]? :=
    (h shifted _ outer _ _ 4 hreached List.mem_cons_self hown).2 0 0 fun _ => by decide
  have hbefore : (shifted.state.slots 0)[0]? = some (scaleCell .zero) := rfl
  have hafter : (read.2.slots 0)[0]? = some (scaleCell (Binary64.zero.sub one)) := rfl
  have hnumber := scaleCell_inj ((hafter.symm.trans hscale).trans hbefore)
  exact absurd hnumber (by decide +kernel)

end Sample

end UiBinding
