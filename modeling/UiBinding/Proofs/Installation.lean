import UiBinding.Proofs.Assignment
import UiBinding.Proofs.Separation

namespace UiBinding

structure MemberBinding where
  element : Int
  name : String
  body : Expr

/-- What the elements of a component are bound to in its tree, in order. -/
def Description.bindings (d : Description) : List MemberBinding :=
  (d.tree.elementsOf d.component).flatMap fun e => e.2.bindings.map fun b => ⟨e.1, b.1, b.2⟩

/-- What a binding that is made from `c` does to a slot `k` of the instance of `o`: a signal gets
one more handler, the last one; a property keeps what it stores. -/
inductive Installs (types : Catalog) (limit : Nat) (c : Context) (b : MemberBinding) :
    Context → Nat → Cell → Cell → Prop
  | handler {o : Context} {k : Nat}
      (hd : (c.scope limit).Denotes types (.signal b.element b.name) o k)
      (signal : Signal Handler) :
      Installs types limit c b o k (.signal signal)
        (.signal ⟨signal.handlers ++ [⟨o.scope limit, b.body⟩]⟩)
  | binding {o : Context} {k : Nat}
      (hd : (c.scope limit).Denotes types (.property b.element b.name) o k)
      (p : Property Binding) (conversion : Option ItemProperty) :
      Installs types limit c b o k (.property p)
        (.property ⟨p.stored, some ⟨.expression b.body limit o.self.description, conversion⟩, none⟩)

section Bind

variable {types : Catalog} {settings : Settings} {c o : Context} {s : State} {element : Int}
  {name : String} {body : Expr}

theorem signalOf_ok {k : Nat} {signal : Signal Handler}
    (h : ((signalOf types o element name).run s).1 = .ok (some (k, signal))) :
    ∃ x, (types.find o.self.description).tree.element? element = some x ∧
      (types.find o.self.description).signalSlot? x.id name = some k ∧
      (s.slots o.self.number)[k]? = some (.signal signal) := by
  have hfound : Run.Respects (Always s.Still) (fun _ => True) _ (signalOf types o element name) :=
    (steady_still s).signalOf fun _ => trivial
  obtain ⟨-, -, hends⟩ := hfound s s ⟨rfl, rfl⟩
  rw [h] at hends
  obtain ⟨⟨x, hx, hk⟩, t, -, ⟨-, ht⟩, hcell⟩ := hends k signal rfl
  have hslot := State.getElem?_of_cell? hcell
  rw [State.slots, ht] at hslot
  exact ⟨x, hx, hk, hslot⟩

/-- What becomes of a state when a member is bound: all slots are as they were where that
stops, and otherwise one slot of one instance has changed. -/
inductive Bound (types : Catalog) (limit : Nat) (c : Context) (b : MemberBinding) (s : State) :
    Except Stop Unit × State → Prop
  | stopped {stop : Stop} {t : State} (h : t.instances = s.instances) :
      Bound types limit c b s (.error stop, t)
  | installed {o : Context} {k : Nat} {old new : Cell} {t : State}
      (h : Installs types limit c b o k old new) (hk : (s.slots o.self.number)[k]? = some old)
      (ht : t.instances = s.instances.set o.self.number ((s.slots o.self.number).set k new)) :
      Bound types limit c b s (.ok (), t)

theorem bound_bind {limit : Nat} {b : MemberBinding} {a : Accessor} {item : ItemView}
    (hops : List Event) (hr : (c.resolve types limit b.element none).2 = .ok o)
    (hl : (types.find o.self.description).locate o.self.number b.element b.name b.body =
      .ok (a, item)) :
    Bound types limit c b s
      ((a.bind item (.expression b.body limit o.self.description) none).run (s.logged hops)) := by
  rcases hb : (a.bind item (.expression b.body limit o.self.description) none).run
    (s.logged hops) with ⟨r, t⟩
  cases r with
  | error stop =>
      obtain rfl := Accessor.bind_error hb
      exact .stopped rfl
  | ok _ =>
      obtain ⟨p, -, hcell, rfl⟩ := Accessor.bind_ok hb
      obtain ⟨hholder, k, hk⟩ := Description.locate_place hl
      rw [hholder, hk] at hcell
      rw [hholder, hk]
      have hslot := State.getElem?_of_cell? hcell
      exact .installed (.binding (.property hr (Description.locate_blame _ hl) hk) p a.conversion)
        hslot (State.setCell_instances hslot _)

theorem bound_bindMember (types : Catalog) (settings : Settings) (c : Context)
    (b : MemberBinding) (s : State) : Bound types settings.maxContextDepth c b s
      ((bindMember types settings b.element b.name b.body c).run s) := by
  let hops := (c.resolve types settings.maxContextDepth b.element (some b.body)).1
  cases hr : (c.resolve types settings.maxContextDepth b.element (some b.body)).2 with
  | error f =>
      rw [bindMember, Run.run_bind, Run.run_resolve_error hr]
      exact .stopped rfl
  | ok o =>
      have howner := Context.resolve_blame none hr
      cases hs : ((signalOf types o b.element b.name).run s).1 with
      | error stop =>
          rw [bindMember, Run.run_bind, Run.run_resolve hr]
          dsimp only
          rw [Run.run_bind, Run.run_signalOf_logged, hs]
          exact .stopped rfl
      | ok found =>
          cases found with
          | some found =>
              obtain ⟨k, signal⟩ := found
              obtain ⟨x, hx, hk, hslot⟩ := signalOf_ok hs
              rw [Run.run_bindMember_signal hr hs]
              exact .installed (.handler (.signal howner hx hk) signal) hslot
                (State.setCell_instances (s := s.logged hops) hslot _)
          | none =>
              rw [Run.run_bindMember hr hs]
              cases hl : (types.find o.self.description).locate o.self.number b.element b.name
                b.body with
              | error err => exact .stopped rfl
              | ok found =>
                  obtain ⟨a, item⟩ := found
                  exact bound_bind (s := s) hops howner hl

end Bind

/-- Bindings of members made from `c`, one after the other, all in slots of its own instance. -/
inductive Installed (types : Catalog) (limit : Nat) (c : Context) :
    List MemberBinding → List Cell → List Cell → Prop
  | nil (cells : List Cell) : Installed types limit c [] cells cells
  | cons {b : MemberBinding} {bs : List MemberBinding} {k : Nat} {old new : Cell}
      {cells done : List Cell} (h : Installs types limit c b c k old new)
      (hk : cells[k]? = some old) (rest : Installed types limit c bs (cells.set k new) done) :
      Installed types limit c (b :: bs) cells done

theorem Installed.append {types : Catalog} {limit : Nat} {c : Context}
    {bs bs' : List MemberBinding} {cells cells' done : List Cell}
    (h : Installed types limit c bs cells cells') (h' : Installed types limit c bs' cells' done) :
    Installed types limit c (bs ++ bs') cells done := by
  induction h with
  | nil => exact h'
  | cons h hk _ ih => exact .cons h hk (ih h')

def Fills (types : Catalog) (limit : Nat) (c : Context) (bs : List MemberBinding)
    (m : Run Unit) : Prop :=
  ∀ s, c.self.number < s.instances.length →
    ∃ done cells, done <+: bs ∧ Installed types limit c done (s.slots c.self.number) cells ∧
      (m.run s).2.instances = s.instances.set c.self.number cells ∧
      ((m.run s).1 = .ok () → done = bs)

namespace State

variable {s t : State} {n : Nat} {cells : List Cell}

theorem set_slots (h : n < s.instances.length) : s.instances.set n (s.slots n) = s.instances := by
  rw [slots, List.getElem?_eq_getElem h]
  exact List.set_getElem_self h

theorem slots_of_set (h : n < s.instances.length) (ht : t.instances = s.instances.set n cells) :
    t.slots n = cells := by
  rw [slots, ht, List.getElem?_set_self h]
  rfl

end State

namespace Fills

variable {types : Catalog} {limit : Nat} {c : Context} {bs bs' : List MemberBinding}
  {m m' : Run Unit}

theorem pure : Fills types limit c [] (Pure.pure ()) :=
  fun _ hs => ⟨[], _, List.prefix_rfl, .nil _, (State.set_slots hs).symm, fun _ => rfl⟩

theorem fault (bs : List MemberBinding) (f : Fault) : Fills types limit c bs (Run.fault f) :=
  fun _ hs => ⟨[], _, List.nil_prefix, .nil _, (State.set_slots hs).symm, nofun⟩

theorem bind (h : Fills types limit c bs m) (h' : Fills types limit c bs' m') :
    Fills types limit c (bs ++ bs') (m >>= fun _ => m') := by
  intro s hs
  obtain ⟨done, cells, hdone, hinstalled, hset, hok⟩ := h s hs
  rw [Run.run_bind]
  rcases hm : m.run s with ⟨r, t⟩
  rw [hm] at hset hok
  cases r with
  | error stop =>
      exact ⟨done, cells, hdone.trans (List.prefix_append _ _), hinstalled, hset, nofun⟩
  | ok _ =>
      obtain rfl := hok rfl
      have ht : c.self.number < t.instances.length := by rwa [hset, List.length_set]
      obtain ⟨done', cells', hdone', hinstalled', hset', hok'⟩ := h' t ht
      rw [State.slots_of_set hs hset] at hinstalled'
      refine ⟨done ++ done', cells', (List.prefix_append_right_inj _).2 hdone',
        hinstalled.append hinstalled', ?_, fun hr => by rw [hok' hr]⟩
      dsimp only
      rw [hset', hset, List.set_set]

theorem forM {α : Type} {f : α → List MemberBinding} {g : α → Run Unit} (l : List α)
    (h : ∀ x ∈ l, Fills types limit c (f x) (g x)) :
    Fills types limit c (l.flatMap f) (l.forM g) := by
  induction l with
  | nil => exact pure
  | cons x l ih =>
      exact (h x (by simp)).bind (ih fun y hy => h y (by simp [hy]))

end Fills

section Instantiate

variable {types : Catalog} {settings : Settings} {c : Context} {e : Nat × Element}

theorem Context.resolve_own (limit : Nat) (blame : Option Expr) {element : Int} {x : Element}
    (hx : (types.find c.self.description).tree.element? element = some x)
    (hc : x.enclosing = (types.find c.self.description).component) :
    (c.resolve types limit element blame).2 = .ok c := by
  have hbudget : ((limit : Int) + 1).toNat = limit + 1 := by omega
  rw [resolve_snd, hx]
  dsimp only
  rw [hbudget, search_succ, if_pos hc.symm]

theorem Installs.eq_self {limit : Nat} {b : MemberBinding} {o : Context} {k : Nat}
    {old new : Cell} {x : Element} (h : Installs types limit c b o k old new)
    (hx : (types.find c.self.description).tree.element? b.element = some x)
    (hc : x.enclosing = (types.find c.self.description).component) : o = c := by
  have hown := Context.resolve_own limit none hx hc
  cases h with
  | handler hd =>
      cases hd with
      | signal hr => exact Except.ok.inj (hr.symm.trans hown)
  | binding hd =>
      cases hd with
      | property hr => exact Except.ok.inj (hr.symm.trans hown)

theorem fills_bindMember (settings : Settings) {b : MemberBinding} {x : Element}
    (hx : (types.find c.self.description).tree.element? b.element = some x)
    (hc : x.enclosing = (types.find c.self.description).component) :
    Fills types settings.maxContextDepth c [b]
      (bindMember types settings b.element b.name b.body c) := by
  intro s hs
  have hbound := bound_bindMember types settings c b s
  rcases hm : (bindMember types settings b.element b.name b.body c).run s with ⟨r, t⟩
  rw [hm] at hbound
  cases hbound with
  | stopped ht =>
      exact ⟨[], _, List.nil_prefix, .nil _, ht.trans (State.set_slots hs).symm, nofun⟩
  | installed h hk ht =>
      obtain rfl := h.eq_self hx hc
      exact ⟨[b], _, List.prefix_rfl, .cons h hk (.nil _), ht, fun _ => rfl⟩

theorem fills_bindElement (settings : Settings) {e : Nat × Element}
    (he : e ∈ (types.find c.self.description).tree.elementsOf
      (types.find c.self.description).component) :
    Fills types settings.maxContextDepth c (e.2.bindings.map fun b => ⟨e.1, b.1, b.2⟩)
      (bindElement types settings c e.1 e.2) := by
  obtain ⟨hx, hc⟩ := Tree.mem_elementsOf.1 he
  rw [bindElement]
  split
  · exact .fault _ _
  · rw [List.map_eq_flatMap]
    exact .forM _ fun b _ => fills_bindMember settings (b := ⟨e.1, b.1, b.2⟩) hx hc

theorem fills_bindElements (settings : Settings) (c : Context) :
    Fills types settings.maxContextDepth c (types.find c.self.description).bindings
      (((types.find c.self.description).tree.elementsOf
        (types.find c.self.description).component).forM
          fun e => bindElement types settings c e.1 e.2) :=
  .forM _ fun _ he => fills_bindElement settings he

def Furnished (types : Catalog) (limit : Nat) (bs : List MemberBinding) (c : Context)
    (cells : List Cell) : Prop :=
  ∃ fresh, (types.find c.self.description).allocate = .ok fresh ∧
    Installed types limit c bs fresh cells

def Stocked (types : Catalog) (limit : Nat) (bs : List MemberBinding) (c : Context)
    (row : List Cell) : Prop :=
  ∃ cells, Furnished types limit bs c cells ∧ List.Forall₂ Cell.Assigned cells row

/-- What becomes of a state when an instance is made: it may stop before that is there. Otherwise
the instance is added after those that there are, with some of the bindings of its tree, and with
all of them if its context is returned. -/
inductive Added (types : Catalog) (description : Nat) (parent : Option Context)
    (post : List MemberBinding → Context → List Cell → Prop) (s : State) :
    Except Stop Context × State → Prop
  | refused {stop : Stop} {t : State} (h : t.instances = s.instances) :
      Added types description parent post s (.error stop, t)
  | stopped {stop : Stop} {t : State} {c : Context} {bs : List MemberBinding} {cells : List Cell}
      (hself : c.self = ⟨s.instances.length, description⟩) (hparent : c.parent? = parent)
      (hbs : bs <+: (types.find description).bindings) (hcells : post bs c cells)
      (ht : t.instances = s.instances ++ [cells]) :
      Added types description parent post s (.error stop, t)
  | made {t : State} {c : Context} {cells : List Cell}
      (hself : c.self = ⟨s.instances.length, description⟩) (hparent : c.parent? = parent)
      (hcells : post (types.find description).bindings c cells)
      (ht : t.instances = s.instances ++ [cells]) :
      Added types description parent post s (.ok c, t)

theorem added_instantiate (types : Catalog) (settings : Settings) (description : Nat)
    (parent : Option Context) (s : State) :
    Added types description parent (Furnished types settings.maxContextDepth) s
      ((instantiate types settings description parent).run s) := by
  cases hfresh : ((types.find description).allocate : Except Error (List Cell)) with
  | error err =>
      rw [instantiate, Run.run_bind, Run.newInstance, hfresh]
      exact .refused rfl
  | ok fresh =>
      let c := Context.make s.contexts ⟨s.instances.length, description⟩ parent
      have hself : c.self = ⟨s.instances.length, description⟩ := Context.self_make _ _ _
      have hparent : c.parent? = parent := Context.parent?_make _ _ _
      have hlt : c.self.number < (s.extend fresh).instances.length := by
        rw [hself]
        simp [State.extend]
      obtain ⟨done, cells, hdone, hinstalled, ht, hok⟩ :=
        fills_bindElements settings c (s.extend fresh) hlt
      rw [hself] at hdone ht hok
      rw [hself, State.slots_extend] at hinstalled
      have hfurnished : Furnished types settings.maxContextDepth done c cells :=
        ⟨fresh, by rwa [hself], hinstalled⟩
      have hadded : (s.extend fresh).instances.set s.instances.length cells =
          s.instances ++ [cells] := by simp [State.extend]
      rw [hadded] at ht
      rw [run_instantiate hfresh, bindElements, Run.run_bind]
      split
      · rename_i hrun
        rw [hrun] at ht hok
        obtain rfl := hok rfl
        exact .made hself hparent hfurnished ht
      · rename_i hrun
        rw [hrun] at ht
        exact .stopped hself hparent hdone hfurnished ht

def Holding (base : List (List Cell)) (cells : List Cell) (s : State) : Prop :=
  ∃ row, s.instances = base ++ [row] ∧ List.Forall₂ Cell.Assigned cells row

theorem steady_holding (base : List (List Cell)) (cells : List Cell) :
    Steady (Always (Holding base cells)) := .always fun _ _ h => h

theorem storable_holding (base : List (List Cell)) (cells : List Cell) :
    Storable (Always (Holding base cells)) base.length := by
  rintro s _ index p q ⟨rfl, row, hs, hrow⟩ hp hq
  obtain ⟨k, -, hk, hset⟩ := State.exists_slot hp
  have hslots : s.slots base.length = row := by simp [State.slots, hs]
  refine ⟨rfl, row.set k (.property q), ?_, Cell.Assigned.set hrow (hslots ▸ hk) hq⟩
  rw [hset, State.setCell_instances hk, hslots, hs]
  simp

theorem added_store {limit description : Nat} {parent : Option Context} {s t : State}
    {cells : List Cell} {rest : Run Context} (hself : c.self = ⟨s.instances.length, description⟩)
    (hparent : c.parent? = parent)
    (hcells : Furnished types limit (types.find description).bindings c cells)
    (ht : t.instances = s.instances ++ [cells])
    (hrest : Run.Respects (Always (Holding s.instances cells)) (fun _ => True) (· = c) rest) :
    Added types description parent (Stocked types limit) s (rest.run t) := by
  have hstart : Holding s.instances cells t := ⟨cells, ht, Cell.Assigned.refl _⟩
  obtain ⟨-, ⟨-, row, hrow, hassigned⟩, hends⟩ := hrest t t ⟨rfl, hstart⟩
  rcases hrun : rest.run t with ⟨r, u⟩
  rw [hrun] at hrow hends
  cases r with
  | error stop => exact .stopped hself hparent List.prefix_rfl ⟨cells, hcells, hassigned⟩ hrow
  | ok c' =>
      obtain rfl : c' = c := hends
      exact .made hself hparent ⟨cells, hcells, hassigned⟩ hrow

theorem added_instantiateRow (types : Catalog) (settings : Settings) (description : Nat)
    (parent : Context) (indexSlot modelSlot position : Nat) (entry : Native) (s : State) :
    Added types description (some parent) (Stocked types settings.maxContextDepth) s
      ((instantiateRow types settings description parent indexSlot modelSlot position entry).run
        s) := by
  have hadded := added_instantiate types settings description (some parent) s
  rw [instantiateRow, Run.run_bind]
  rcases hrun : (instantiate types settings description (some parent)).run s with ⟨r, t⟩
  rw [hrun] at hadded
  cases hadded with
  | refused ht => exact .refused ht
  | stopped hself hparent hbs hcells ht =>
      exact .stopped hself hparent hbs ⟨_, hcells, Cell.Assigned.refl _⟩ ht
  | @made t c cells hself hparent hcells ht =>
      have hset (slot : Nat) (name : String) (n : Native) :
          Run.Respects (Always (Holding s.instances cells)) (fun _ => True) (fun _ => True)
            ((Accessor.custom name 0).set ⟨c.self.number, slot, none⟩ n none) := by
        refine (steady_holding s.instances cells).set ?_ fun _ => trivial
        rw [hself]
        exact storable_holding s.instances cells
      exact added_store hself hparent hcells ht (.bind (hset _ _ _) fun _ _ =>
        .bind (respects_ofExcept (fun _ => trivial) _) fun _ _ =>
        .bind (hset _ _ _) fun _ _ => .pure rfl)

/-- The row of an instance with some number: its context and the bindings that it got. -/
structure RowOf (types : Catalog) (limit description : Nat) (parent : Context) (number : Nat)
    (bs : List MemberBinding) (c : Context) (row : List Cell) : Prop where
  self : c.self = ⟨number, description⟩
  parent : c.parent? = some parent
  bindings : bs <+: (types.find description).bindings
  stocked : Stocked types limit bs c row

/-- What becomes of a state when rows are made: they are added in order after the instances that
there are, and where their contexts are returned, there is one row for each entry of the model and
all of them have the bindings of their tree. -/
def AddedRows (types : Catalog) (limit description : Nat) (parent : Context) (count : Nat)
    (s : State) (out : Except Stop (List Context) × State) : Prop :=
  ∃ rows, out.2.instances = s.instances ++ rows ∧
    (∀ (i : Nat) row, rows[i]? = some row → ∃ c bs,
      RowOf types limit description parent (s.instances.length + i) bs c row) ∧
    ∀ cs, out.1 = .ok cs → rows.length = count ∧ cs.length = count ∧
      ∀ (i : Nat) c row, cs[i]? = some c → rows[i]? = some row →
        RowOf types limit description parent (s.instances.length + i)
          (types.find description).bindings c row

theorem added_mapM {types : Catalog} {limit description : Nat} {parent : Context} {α : Type}
    {f : α → Run Context} (l : List α)
    (hf : ∀ x ∈ l, ∀ s, Added types description (some parent) (Stocked types limit) s
      ((f x).run s)) (s : State) :
    AddedRows types limit description parent l.length s ((l.mapM f).run s) := by
  induction l generalizing s with
  | nil =>
      refine ⟨[], (List.append_nil _).symm, nofun, ?_⟩
      rintro _ ⟨⟩
      exact ⟨rfl, rfl, nofun⟩
  | cons x l ih =>
      have hx := hf x (by simp) s
      rw [List.mapM_cons, Run.run_bind]
      rcases hrun : (f x).run s with ⟨r, t⟩
      rw [hrun] at hx
      cases hx with
      | refused ht => exact ⟨[], by simpa using ht, nofun, nofun⟩
      | @stopped stop t c bs row hself hparent hbs hcells ht =>
          refine ⟨[row], ht, fun i row' hi => ?_, nofun⟩
          obtain ⟨rfl, rfl⟩ : i = 0 ∧ row = row' := by
            cases i with
            | zero => exact ⟨rfl, Option.some.inj hi⟩
            | succ i => cases hi
          exact ⟨c, bs, hself, hparent, hbs, hcells⟩
      | @made t c row hself hparent hcells ht =>
          have hfirst : RowOf types limit description parent s.instances.length
              (types.find description).bindings c row :=
            ⟨hself, hparent, List.prefix_rfl, hcells⟩
          have hnext (i : Nat) : t.instances.length + i = s.instances.length + (i + 1) := by
            rw [ht, List.length_append, List.length_singleton]
            omega
          obtain ⟨rows, hrows, hall, hok⟩ := ih (fun y hy => hf y (by simp [hy])) t
          simp only [hnext] at hall hok
          dsimp only
          rw [Run.run_bind]
          rcases hrest : (l.mapM f).run t with ⟨r, u⟩
          rw [hrest] at hrows hok
          have hu : u.instances = s.instances ++ row :: rows := by
            rw [hrows, ht, List.append_assoc, List.singleton_append]
          have hrow (i : Nat) (row' : List Cell) (hi : (row :: rows)[i]? = some row') :
              ∃ c bs, RowOf types limit description parent (s.instances.length + i) bs c row' := by
            cases i with
            | zero => cases hi; exact ⟨c, _, hfirst⟩
            | succ i => exact hall i row' hi
          cases r with
          | error stop => exact ⟨row :: rows, hu, hrow, nofun⟩
          | ok cs =>
              obtain ⟨hlen, hlen', hcs⟩ := hok cs rfl
              refine ⟨row :: rows, hu, hrow, ?_⟩
              rintro _ ⟨⟩
              refine ⟨congrArg (· + 1) hlen, congrArg (· + 1) hlen', fun i c' row' hc hi => ?_⟩
              cases i with
              | zero => cases hc; cases hi; exact hfirst
              | succ i => exact hcs i c' row' hc hi

theorem added_instantiateRows (types : Catalog) (settings : Settings) (description : Nat)
    (parent : Context) (model : List Native) (s : State) :
    AddedRows types settings.maxContextDepth description parent model.length s
      ((instantiateRows types settings description parent model).run s) := by
  cases hi : (types.find description).customProperties.get? Description.rowIndexName with
  | none =>
      simp only [instantiateRows, hi]
      refine ⟨[], (List.append_nil _).symm, fun i row h => ?_, fun cs h => ?_⟩ <;> cases h
  | some index =>
      cases hm : (types.find description).customProperties.get? Description.rowModelName with
      | none =>
          simp only [instantiateRows, hi, hm]
          refine ⟨[], (List.append_nil _).symm, fun i row h => ?_, fun cs h => ?_⟩ <;> cases h
      | some entry =>
          simp only [instantiateRows, hi, hm]
          have hrows := added_mapM model.zipIdx
            (fun x _ => added_instantiateRow types settings description parent index.offset
              entry.offset x.2 x.1) s
          rwa [List.length_zipIdx] at hrows

end Instantiate

theorem Added.instances_prefix {types : Catalog} {description : Nat} {parent : Option Context}
    {post : List MemberBinding → Context → List Cell → Prop} {s : State}
    {out : Except Stop Context × State} (h : Added types description parent post s out) :
    s.instances <+: out.2.instances := by
  cases h with
  | refused ht => exact ht ▸ List.prefix_rfl
  | stopped _ _ _ _ ht | made _ _ _ ht => exact ht ▸ List.prefix_append _ _

/-- Installing is atomic and local. Binding a member leaves all slots alone or changes one.
Making instances adds them after those that there are, which keep all of their slots, whether
all goes well or not; and the bindings of the tree are made in the new instances only, whatever
instances are around them. -/
theorem installs_locally (types : Catalog) (settings : Settings) :
    (∀ c b s, Bound types settings.maxContextDepth c b s
      ((bindMember types settings b.element b.name b.body c).run s)) ∧
    (∀ description parent s,
      s.instances <+: ((instantiate types settings description parent).run s).2.instances ∧
      Added types description parent (Furnished types settings.maxContextDepth) s
        ((instantiate types settings description parent).run s)) ∧
    ∀ description parent model s,
      AddedRows types settings.maxContextDepth description parent model.length s
        ((instantiateRows types settings description parent model).run s) := by
  refine ⟨bound_bindMember types settings, fun description parent s => ?_,
    added_instantiateRows types settings⟩
  have hadded := added_instantiate types settings description parent s
  exact ⟨hadded.instances_prefix, hadded⟩

namespace Sample

theorem inlaid_row :
    let out := (instantiate world.types .standard 1 (some (inner 1))).run world.state
    out.1 = .ok (.nested 3 ⟨3, 1⟩ (inner 1)) ∧ world.state.instances <+: out.2.instances ∧
      ∃ p, (out.2.slots 3)[4]? = some (.property p) ∧
        p.binding = some ⟨.expression (.rowModel 1) 64 1,
          some ⟨"Text", "text", .string, 2, false⟩⟩ :=
  ⟨rfl, ((installs_locally world.types .standard).2.1 1 (some (inner 1)) world.state).1,
    _, rfl, rfl⟩

end Sample

end UiBinding
