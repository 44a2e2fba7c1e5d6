import Mathlib.Data.List.Nodup
import UiBinding.Proofs.Walk
import UiBinding.World

namespace UiBinding

/-- What a program asks of a world once its components are described. -/
inductive Call
  | instantiate (settings : Settings) (description : Nat) (parent : Option Context)
  | instantiateRows (settings : Settings) (description : Nat) (parent : Context)
      (model : List Native)
  | bind (settings : Settings) (element : Int) (name : String) (body : Expr) (c : Context)
  | evaluate (depth : Nat) (settings : Settings) (e : Expr) (description : Nat) (c : Context)

namespace Call

def run (types : Catalog) : Call → Run (List Context)
  | instantiate settings description parent => do
    return [← UiBinding.instantiate types settings description parent]
  | instantiateRows settings description parent model =>
    UiBinding.instantiateRows types settings description parent model
  | bind settings element name body c => do
    bindMember types settings element name body c
    return []
  | evaluate depth settings e description c => do
    let _ ← UiBinding.evaluate types depth settings e description c
    return []

def Valid (types : Catalog) (cs : List Context) : Call → Prop
  | instantiate _ description parent =>
    description < types.length ∧ ∀ p, parent = some p → p ∈ cs
  | instantiateRows _ description parent _ => description < types.length ∧ parent ∈ cs
  | bind _ _ _ _ c => c ∈ cs
  | evaluate _ _ _ description c => description < types.length ∧ c ∈ cs

end Call

/-- Worlds that a program gets to, with the contexts that were returned to it. A call that
stops leaves what it did until then. -/
inductive Reaches : World → List Context → Prop
  | empty : Reaches .empty []
  | describe {w w' : World} {cs : List Context} {tree : Tree} {component : Int}
      {customs : List (String × Option DeclaredType)} {signals : List String}
      {repeated checked : Bool} {number : Nat} (h : Reaches w cs)
      (hd : w.describe tree component customs signals repeated checked = .ok (number, w')) :
      Reaches w' cs
  | call {w : World} {cs : List Context} (call : Call) (h : Reaches w cs)
      (hv : call.Valid w.types cs) :
      Reaches (w.run call.run).2 (cs ++ (w.run call.run).1.toOption.getD [])

def State.extend (s : State) (cells : List Cell) : State :=
  ⟨s.instances ++ [cells], s.contexts + 1, s.log⟩

namespace State

theorem slots_extend (s : State) (cells : List Cell) : (s.extend cells).slots s.instances.length = cells := by
  simp [slots, extend]

theorem slots_extend_of_lt {s : State} {n : Nat} (h : n < s.instances.length) (cells : List Cell) :
    (s.extend cells).slots n = s.slots n := by
  simp [slots, extend, List.getElem?_append_left h]

end State

/-- Every instance belongs to one of the contexts `made`, the ones around these are among
them too, and all slots suit their roles. -/
structure Kept (types : Catalog) (made : List Context) (s : State) : Prop where
  laid : ∀ d ∈ types, d.Laid
  described : ∀ c ∈ made, c.self.description < types.length
  parent : ∀ c p, c ∈ made → c.parent? = some p → p ∈ made
  numbered : made.map (·.self.number) = List.range s.instances.length
  suits : ∀ c ∈ made, Suits (.rows fun _ => True) c (types.find c.self.description).roles
    (s.slots c.self.number)

theorem Tolerates.all {types : Catalog} {near : Context → Prop} :
    Tolerates types near (fun _ => True) (fun _ => True) fun _ => True :=
  ⟨fun _ _ => trivial, trivial, fun _ _ => trivial, fun _ _ _ _ _ => trivial,
    fun _ _ _ _ _ _ _ => trivial⟩

def bindElements (types : Catalog) (settings : Settings) (c : Context)
    (elements : List (Nat × Element)) : Run Context := do
  elements.forM fun e => bindElement types settings c e.1 e.2
  return c

theorem run_instantiate {types : Catalog} {settings : Settings} {description : Nat}
    {parent : Option Context} {s : State} {cells : List Cell} (h : (types.find description).allocate = .ok cells) :
    (UiBinding.instantiate types settings description parent).run s =
      (bindElements types settings
        (.make s.contexts ⟨s.instances.length, description⟩ parent)
        ((types.find description).tree.elementsOf (types.find description).component)).run
        (s.extend cells) := by
  rw [UiBinding.instantiate, Run.run_bind]
  have hi : (Run.newInstance types description).run s =
      (.ok ⟨s.instances.length, description⟩,
        { s with instances := s.instances ++ [cells] }) := by
    rw [Run.newInstance, h]
    rfl
  rw [hi]
  rfl

theorem respects_bindElements {types : Catalog} {near : Context → Prop} {s₀ t₀ : State}
    (hn : Region types near) {c : Context} (hc : near c) (settings : Settings)
    (elements : List (Nat × Element)) :
    Run.Respects (Aligned types (.rows fun _ => True) near s₀ t₀) (fun _ => True) (· = c)
      (bindElements types settings c elements) := by
  refine .bind (.forM _ fun e _ => ?_) fun _ _ => .pure rfl
  rw [bindElement]
  split
  · exact .fault trivial
  · exact .forM _ fun b _ => settles_bindMember hn Tolerates.all hc b.2.rowsIn_all

/-- A computation that adds contexts to those of a world, also where it stops. What it returns
suits the contexts that it made. -/
def Makes {α : Type} (types : Catalog) (made : List Context) (s : State)
    (post : List Context → α → Prop) (m : Run α) : Prop :=
  ∃ new, Kept types (made ++ new) (m.run s).2 ∧ ∀ a, (m.run s).1 = .ok a → post new a

namespace Makes

variable {α β : Type} {types : Catalog} {made : List Context} {s : State}
  {post : List Context → α → Prop} {post' : List Context → β → Prop}

theorem pure {a : α} (h : Kept types made s) (ha : post [] a) :
    Makes types made s post (Pure.pure a) := by
  refine ⟨[], ?_, ?_⟩
  · rwa [List.append_nil]
  · rintro _ ⟨⟩
    exact ha

theorem bind {m : Run α} {f : α → Run β} (hm : Makes types made s post m)
    (hf : ∀ new a t, Kept types (made ++ new) t → post new a →
      Makes types (made ++ new) t (fun more => post' (new ++ more)) (f a)) :
    Makes types made s post' (m >>= f) := by
  obtain ⟨new, hk, ha⟩ := hm
  rw [Makes, Run.run_bind]
  rcases hr : m.run s with ⟨r, t⟩
  rw [hr] at hk ha
  cases r with
  | error stop => exact ⟨new, hk, nofun⟩
  | ok a =>
      obtain ⟨more, hk', hb⟩ := hf new a t hk (ha a rfl)
      refine ⟨new ++ more, ?_, hb⟩
      rwa [← List.append_assoc]

end Makes

namespace Kept

variable {types : Catalog} {made : List Context} {s s' : State}

theorem laid_find (h : Kept types made s) (number : Nat) : (types.find number).Laid := by
  rw [Catalog.find]
  cases hd : types[number]? with
  | none => exact .empty
  | some d => exact h.laid d (List.mem_of_getElem? hd)

theorem distinct (h : Kept types made s) {c o : Context} (hc : c ∈ made) (ho : o ∈ made)
    (hn : c.self.number = o.self.number) : c = o := by
  have hnodup : (made.map (·.self.number)).Nodup := by rw [h.numbered]; exact List.nodup_range
  exact List.inj_on_of_nodup_map hnodup hc ho hn

theorem chain_subset (h : Kept types made s) {c : Context} (hc : c ∈ made) : c.chain ⊆ made :=
  Context.forall_chain h.parent hc

theorem region (h : Kept types made s) : Region types (· ∈ made) :=
  ⟨h.parent, fun _ _ => h.distinct, fun _ _ => h.laid_find _⟩

theorem region_chain (h : Kept types made s) {c : Context} (hc : c ∈ made) :
    Region types (· ∈ c.chain) where
  parent _ _ := Context.parent_mem_of_mem_chain
  distinct _ _ ho hp := h.distinct (h.chain_subset hc ho) (h.chain_subset hc hp)
  laid _ _ := h.laid_find _

theorem aligned (h : Kept types made s) :
    Aligned types (.rows fun _ => True) (· ∈ made) s s s s :=
  ⟨h.suits, fun _ _ => rfl, fun _ _ => ⟨rfl, rfl⟩, rfl, rfl⟩

theorem aligned_chain {P : Policy} (h : Kept types made s) {c : Context} (hc : c ∈ made)
    (hm : ∀ o ∈ c.chain, ∀ (k : Nat) role cell,
      (types.find o.self.description).roles[k]? = some role →
        (s.slots o.self.number)[k]? = some cell → Meets P o role cell) :
    Aligned types P (· ∈ c.chain) s s s s :=
  ⟨fun o ho => (h.suits o (h.chain_subset hc ho)).of_meets (hm o ho), fun _ _ => rfl,
    fun _ _ => ⟨rfl, rfl⟩, rfl, rfl⟩

theorem of_aligned {t₀ t : State} (h : Kept types made s)
    (ha : Aligned types (.rows fun _ => True) (· ∈ made) s t₀ s' t) : Kept types made s' :=
  ⟨h.laid, h.described, h.parent, by rw [h.numbered, ha.counts.1], ha.suits⟩

theorem empty : Kept [] [] .empty := ⟨nofun, nofun, nofun, rfl, nofun⟩

theorem describe (h : Kept types made s) {d : Description} (hd : d.Laid) :
    Kept (types ++ [d]) made s := by
  have hfind c (hc : c ∈ made) :
      Catalog.find (types ++ [d]) c.self.description = types.find c.self.description := by
    simp only [Catalog.find]
    rw [List.getElem?_append_left (h.described c hc)]
  constructor
  · intro x hx
    obtain hx | hx := List.mem_append.1 hx
    · exact h.laid x hx
    · rw [List.mem_singleton.1 hx]; exact hd
  · intro c hc
    have := h.described c hc
    rw [List.length_append]
    omega
  · exact h.parent
  · exact h.numbered
  · intro c hc
    rw [hfind c hc]
    exact h.suits c hc

theorem extend (h : Kept types made s) {number : Nat} {self : Instance} {parent : Option Context}
    (hself : self.number = s.instances.length) (hd : self.description < types.length)
    (hp : ∀ p, parent = some p → p ∈ made) :
    Kept types (made ++ [.make number self parent])
      (s.extend ((types.find self.description).roles.map Role.start)) := by
  have hmake := Context.self_make number self parent
  constructor
  · exact h.laid
  · intro c hc
    obtain hc | hc := List.mem_append.1 hc
    · exact h.described c hc
    · rw [List.mem_singleton.1 hc, hmake]; exact hd
  · intro c p hc hcp
    apply List.mem_append_left
    obtain hc | hc := List.mem_append.1 hc
    · exact h.parent c p hc hcp
    · rw [List.mem_singleton.1 hc, Context.parent?_make] at hcp
      exact hp p hcp
  · simp only [State.extend, List.map_append, List.map_cons, List.map_nil, List.length_append,
      List.length_cons, List.length_nil, List.range_succ, h.numbered, hmake, hself]
  · intro c hc
    obtain hc | hc := List.mem_append.1 hc
    · -- The numbers of the others are in use, so the new cells are not among theirs.
      have hlt : c.self.number < s.instances.length := by
        have := List.mem_map_of_mem (f := (·.self.number)) hc
        rwa [h.numbered, List.mem_range] at this
      rw [State.slots_extend_of_lt hlt]
      exact h.suits c hc
    · rw [List.mem_singleton.1 hc, hmake, hself, State.slots_extend]
      exact .start (fun _ => trivial) _ _

theorem of_respects {α : Type} {post : α → Prop} {m : Run α} (h : Kept types made s)
    (hm : Run.Respects (Aligned types (.rows fun _ => True) (· ∈ made) s s) (fun _ => True) post m) :
    Kept types made (m.run s).2 ∧ ∀ a, (m.run s).1 = .ok a → post a := by
  obtain ⟨-, ha, hends⟩ := hm s s h.aligned
  refine ⟨h.of_aligned ha, fun a hr => ?_⟩
  rw [hr] at hends
  exact hends

theorem makes {α : Type} {post : α → Prop} {post' : List Context → α → Prop} {m : Run α}
    (h : Kept types made s)
    (hm : Run.Respects (Aligned types (.rows fun _ => True) (· ∈ made) s s) (fun _ => True) post m)
    (hpost : ∀ a, post a → post' [] a) : Makes types made s post' m := by
  obtain ⟨hk, ha⟩ := h.of_respects hm
  refine ⟨[], ?_, fun a hr => hpost a (ha a hr)⟩
  rwa [List.append_nil]

theorem instantiate (h : Kept types made s) {description : Nat} {parent : Option Context}
    (hd : description < types.length) (hp : ∀ p, parent = some p → p ∈ made)
    (settings : Settings) :
    Makes types made s (fun new c => new = [c] ∧ c.self.description = description)
      (UiBinding.instantiate types settings description parent) := by
  let c := Context.make s.contexts ⟨s.instances.length, description⟩ parent
  have hself : c.self = ⟨s.instances.length, description⟩ := Context.self_make _ _ _
  have hc : c ∈ made ++ [c] := by simp
  have hnew : Kept types (made ++ [c]) (s.extend ((types.find description).roles.map Role.start)) :=
    h.extend rfl hd hp
  obtain ⟨hk, hmade⟩ := hnew.of_respects (respects_bindElements hnew.region hc settings
    ((types.find description).tree.elementsOf (types.find description).component))
  refine ⟨[c], ?_⟩
  rw [run_instantiate (h.laid_find _).allocate_eq]
  refine ⟨hk, fun c' hr => ?_⟩
  obtain rfl := hmade c' hr
  exact ⟨rfl, by rw [hself]⟩

theorem instantiateRow (h : Kept types made s) {description : Nat} {parent : Context}
    (hd : description < types.length) (hp : parent ∈ made) (settings : Settings)
    {index model : CustomSlot}
    (hi : (types.find description).customProperties.get? Description.rowIndexName = some index)
    (hm : (types.find description).customProperties.get? Description.rowModelName = some model)
    (position : Nat) (entry : Native) :
    Makes types made s (fun new c => new = [c]) (UiBinding.instantiateRow types settings
      description parent index.offset model.offset position entry) := by
  have hparent : ∀ p, some parent = some p → p ∈ made := by
    rintro _ ⟨⟩
    exact hp
  refine (h.instantiate hd hparent settings).bind fun new c t hk hnew => ?_
  obtain ⟨rfl, hcd⟩ := hnew
  have hnear : c ∈ made ++ [c] := by simp
  have hlocated {name : String} {slot : CustomSlot}
      (hs : (types.find description).customProperties.get? name = some slot) :
      Located (types.find c.self.description) c.self.number (.custom name 0)
        ⟨c.self.number, slot.offset, none⟩ (.custom slot) := by
    rw [hcd]
    exact .custom ((hk.laid_find description).custom (Assoc.mem_of_get? hs))
  refine hk.makes (.bind (respects_set hk.region hnear (hlocated hi) trivial ?_ none)
    fun _ _ => .bind (.ofExcept (fun _ _ => trivial) fun _ _ => trivial) fun _ _ => .bind
    (respects_set hk.region hnear (hlocated hm) trivial ?_ none) fun _ _ => .pure rfl) ?_
  · exact fun _ _ _ _ => trivial
  · exact fun _ _ _ _ => trivial
  · rintro c' rfl
    rfl

theorem mapM {α : Type} {f : α → Run Context} {parent : Context} (l : List α)
    (hf : ∀ x ∈ l, ∀ made s, Kept types made s → parent ∈ made →
      Makes types made s (fun new c => new = [c]) (f x))
    (h : Kept types made s) (hp : parent ∈ made) :
    Makes types made s (fun new cs => new = cs) (l.mapM f) := by
  induction l generalizing made s with
  | nil => exact .pure h rfl
  | cons x l ih =>
      rw [List.mapM_cons]
      refine (hf x (by simp) made s h hp).bind fun new c t hk hnew => ?_
      subst hnew
      refine (ih (fun y hy => hf y (by simp [hy])) hk (by simp [hp])).bind fun more cs u hk' hmore => ?_
      subst hmore
      exact .pure hk' (by simp)

theorem instantiateRows (h : Kept types made s) {description : Nat} {parent : Context}
    (hd : description < types.length) (hp : parent ∈ made) (settings : Settings)
    (model : List Native) :
    Makes types made s (fun new cs => new = cs)
      (UiBinding.instantiateRows types settings description parent model) := by
  simp only [UiBinding.instantiateRows]
  split
  · rename_i index entry hi hm
    exact h.mapM _ (fun x _ made s hk hp => hk.instantiateRow hd hp settings hi hm x.2 x.1) hp
  · exact ⟨[], by rwa [List.append_nil], nofun⟩

theorem call (h : Kept types made s) {cs : List Context} (hcs : cs ⊆ made) {call : Call}
    (hv : call.Valid types cs) :
    Makes types made s (fun new returned => returned ⊆ new) (call.run types) := by
  cases call with
  | instantiate settings description parent =>
      refine (h.instantiate hv.1 (fun p hp => hcs (hv.2 p hp)) settings).bind
        fun new c t hk hnew => .pure hk ?_
      rw [hnew.1]
      exact List.Subset.refl _
  | instantiateRows settings description parent model =>
      obtain ⟨new, hk, hnew⟩ := h.instantiateRows hv.1 (hcs hv.2) settings model
      exact ⟨new, hk, fun returned hr => hnew returned hr ▸ List.Subset.refl _⟩
  | bind settings element name body c =>
      exact h.makes (.bind (settles_bindMember h.region .all (hcs hv) body.rowsIn_all)
        fun _ _ => .pure rfl) fun returned hr => hr ▸ List.nil_subset _
  | evaluate depth settings e description c =>
      exact h.makes (.bind (settles_evaluate h.region .all depth settings (hcs hv.2)
        trivial e.rowsIn_all) fun _ _ => .pure rfl) fun returned hr => hr ▸ List.nil_subset _

end Kept

/-- The invariant of every run: it holds at first, and each description and call keeps it. -/
theorem Reaches.kept {w : World} {cs : List Context} (h : Reaches w cs) :
    ∃ made, cs ⊆ made ∧ Kept w.types made w.state := by
  induction h with
  | empty => exact ⟨[], List.Subset.refl _, .empty⟩
  | @describe w w' cs _ _ _ _ _ _ number h hd ih =>
      obtain ⟨made, hsub, hk⟩ := ih
      obtain ⟨d, hb, he⟩ := bind_eq_ok hd
      cases he
      exact ⟨made, hsub, hk.describe (Description.laid_of_build hb)⟩
  | @call w cs call h hv ih =>
      obtain ⟨made, hsub, hk⟩ := ih
      obtain ⟨new, hk', hnew⟩ := hk.call hsub hv
      refine ⟨made ++ new, List.append_subset.2 ⟨List.subset_append_of_subset_left _ hsub, ?_⟩, hk'⟩
      apply List.subset_append_of_subset_right
      change (((call.run w.types).run w.state).1.toOption.getD [] : List Context) ⊆ new
      cases hr : ((call.run w.types).run w.state).1 with
      | error stop => exact List.nil_subset _
      | ok returned => exact hnew returned hr

namespace Sample

def elements : List Element :=
  [⟨"frame", .builtin "Rectangle", 0, [1], []⟩, ⟨"rows", .component 1, 0, [], []⟩,
    ⟨"label", .builtin "Text", 1, [], [("text", .rowModel 1)]⟩]

def components : List Component := [⟨"Frame", 0, none⟩, ⟨"Row", 2, some 1⟩]

theorem sound : (∀ e ∈ elements, e.Sound elements components) ∧
    ∀ p ∈ components.zipIdx, p.1.Sound elements p.2 :=
  Tree.sound_of_defect?_eq_none (by decide)

def tree : Tree := ⟨elements, components, sound.1, sound.2⟩

def frame : Description :=
  ⟨tree, 0, [("scale", ⟨0, some .float32⟩)], [("done", 1)], [("frame", ⟨.rectangle, false, 2⟩)], 7⟩

def row : Description :=
  ⟨tree, 1, [("index", ⟨0, some .int32⟩), ("model_data", ⟨1, none⟩)], [],
    [("label", ⟨.text, false, 2⟩)], 8⟩

def outer : Context := .outermost 0 ⟨0, 0⟩

def inner (n : Nat) : Context := .nested n ⟨n, 1⟩ outer

def described : World := ⟨[frame, row], .empty⟩

def world : World :=
  ((described.run (Call.instantiate .standard 0 none).run).2.run
    (Call.instantiateRows .standard 1 outer [.string "a", .string "b"]).run).2

theorem frame_described :
    World.empty.describe tree 0 [("scale", some .float32)] ["done"] false false =
      .ok (0, ⟨[frame], .empty⟩) := rfl

theorem row_described :
    World.describe ⟨[frame], .empty⟩ tree 1 [] [] true false = .ok (1, described) := rfl

theorem reaches_world : Reaches world [outer, inner 1, inner 2] :=
  have hd : Reaches described [] := .describe (.describe .empty frame_described) row_described
  have ho : Reaches (described.run (Call.instantiate .standard 0 none).run).2 [outer] :=
    .call (.instantiate .standard 0 none) hd ⟨by decide, nofun⟩
  .call (.instantiateRows .standard 1 outer [.string "a", .string "b"]) ho
    ⟨by decide, List.mem_singleton.2 rfl⟩

def rowCells (position : Int) (entry : String) : List Cell :=
  [.property (.start (.value (.number (Binary64.ofInt position)))),
    .property (.start (.value (.string entry))), .property (.start (.float .zero)),
    .property (.start (.float .zero)),
    .property ⟨.string "", some ⟨.expression (.rowModel 1) 64 1,
      some ⟨"Text", "text", .string, 2, false⟩⟩, none⟩,
    .property (.start (.string "")), .property (.start (.float .zero)),
    .property (.start (.color .clear))]

theorem outer_slots : world.state.slots 0 = frame.roles.map Role.start := rfl

theorem inner_slots : world.state.slots 1 = rowCells 0 "a" := rfl

end Sample

end UiBinding
