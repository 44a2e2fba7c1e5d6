import UiBinding.Proofs.Session

namespace UiBinding

open Run (Respects)

/-- Every slot that the tables of a description name holds what it is named for. -/
structure SlotsTyped (d : Description) (cells : List Cell) : Prop where
  length_eq : cells.length = d.slotCount
  custom : ∀ name p, (name, p) ∈ d.customProperties →
    ∃ q v, cells[p.offset]? = some (.property q) ∧ q.stored = .value v
  signal : ∀ name k, (name, k) ∈ d.customSignals → ∃ s, cells[k]? = some (.signal s)
  itemProperty : ∀ id b p, (id, b) ∈ d.items → p ∈ b.item.properties b.checked →
    ∃ (k : Nat) (q : Property Binding), (b.offset : Int) + p.offset = k ∧
      cells[k]? = some (.property q) ∧ p.type.Stores q.stored
  itemSignal : ∀ id b name k, (id, b) ∈ d.items → (name, k) ∈ b.item.signals →
    ∃ s, cells[b.offset + k]? = some (.signal s)

namespace Suits

variable {P : Policy} {owner : Context} {d : Description} {cells : List Cell}

theorem exists_signal (h : Suits P owner d.roles cells) {k : Nat}
    (hk : d.roles[k]? = some .signal) : ∃ s, cells[k]? = some (.signal s) := by
  obtain ⟨c, hc, hholds⟩ := h.exists_cell k _ hk
  cases c with
  | unset => exact hholds.elim
  | property p => exact hholds.1.elim
  | signal s => exact ⟨s, hc⟩

theorem exists_property (h : Suits P owner d.roles cells) {k : Nat} {role : Role}
    (hk : d.roles[k]? = some role) (hr : role ≠ .signal) :
    ∃ p, cells[k]? = some (.property p) ∧ role.Stores P p.stored := by
  obtain ⟨c, hc, hholds⟩ := h.exists_cell k _ hk
  cases c with
  | unset => exact hholds.elim
  | property p => exact ⟨p, hc, hholds.1⟩
  | signal s => exact (hr hholds.1).elim

theorem slotsTyped (h : Suits P owner d.roles cells) (hd : d.Laid) : SlotsTyped d cells := by
  constructor
  · rw [h.length_eq, hd.slotCount_eq]
  · intro name p hp
    obtain ⟨q, hq, v, hv, -⟩ := h.exists_property (hd.custom hp) nofun
    exact ⟨q, v, hq, hv⟩
  · intro name k hk
    exact h.exists_signal (hd.customSignal hk)
  · intro id b p hb hp
    obtain ⟨k, hk, hr⟩ := hd.itemProperty hb hp
    obtain ⟨q, hq, hs⟩ := h.exists_property hr nofun
    exact ⟨k, q, hk, hq, hs⟩
  · intro id b name k hb hk
    exact h.exists_signal (hd.itemSignal hb hk)

end Suits

def ItemProperty.Shows (p : ItemProperty) (n : Native) : Prop :=
  ∃ v, n = .value v ∧ p.type.tag? = some v.tag ∧
    (p.type = .f32 → ∃ x, v = .number x ∧ x.IsSingle)

theorem shows_of_yields {P : Policy} {p : ItemProperty} {n : Native} {k : Tag}
    (hk : p.type.tag? = some k) (h : (Role.item p).Yields P n) : p.Shows n := by
  obtain ⟨v, rfl, hv, hs⟩ := h
  exact ⟨v, rfl, by rw [hk, hv k hk], hs⟩

variable {types : Catalog} {near : Context → Prop} {s₀ t₀ : State}

theorem respects_readNative (hn : Region types near) (depth : Nat) {scope : Scope} {e : Expr}
    (hc : near scope.context) {element : Int} {name : String} {owner : Context}
    {p : ItemProperty} {item : ItemView}
    (hr : (scope.context.resolve types scope.maxDepth element none).2 = .ok owner)
    (hl : (types.find owner.self.description).locate owner.self.number element name e =
      .ok (.native p, item)) :
    Respects (Aligned types (.rows fun _ => True) near s₀ t₀) (fun _ => True) p.Shows
      (Evaluation.readProperty types (Evaluation.eval types depth) scope e element name) := by
  refine .bind (respects_resolve hn hc fun _ _ => trivial) fun o ⟨ho, hro⟩ => ?_
  obtain rfl : o = owner := Except.ok.inj ((Context.resolve_blame none hro).symm.trans hr)
  refine .bind (tolerates_locate .all hc ho hro) fun found hfound => ?_
  obtain rfl : found = (.native p, item) := Except.ok.inj (hfound.symm.trans hl)
  obtain ⟨role, ha⟩ := (hn.laid o ho).locate_ok hl
  obtain ⟨id, b, hb, hp, -⟩ := Description.locate_native hl
  have hstorage := Item.storage_of_mem (Item.exists_of_mem_properties hp).2.1
  obtain ⟨k, hk⟩ := StorageType.exists_tag hstorage.2
  refine (settles_get .all (settles_eval hn .all depth) ho ha).imp fun n hyields => ?_
  cases ha
  exact shows_of_yields hk hyields

theorem respects_evaluateNative (hn : Region types near) (depth : Nat) (settings : Settings)
    (description : Nat) {c : Context} (hc : near c) {element : Int} {name : String}
    {owner : Context} {p : ItemProperty} {item : ItemView}
    (hr : (c.resolve types settings.maxContextDepth element none).2 = .ok owner)
    (hl : (types.find owner.self.description).locate owner.self.number element name
      (.property element name) = .ok (.native p, item)) :
    Respects (Aligned types (.rows fun _ => True) near s₀ t₀) (fun _ => True) p.Shows
      (evaluate types depth settings (.property element name) description c) := by
  refine .tryCatch ?_ fun _ _ => .bind (respects_log _) fun _ _ => .throw trivial
  cases depth with
  | zero => exact .throw trivial
  | succ depth => exact respects_readNative hn depth hc hr hl

/-- In every world that a program gets to, each instance has one context and holds in its slots
what its description lays out, and a built-in property is read as a value of its type. -/
theorem Reaches.slots_typed {w : World} {cs : List Context} (h : Reaches w cs) :
    (∃ made, cs ⊆ made ∧ made.map (·.self.number) = List.range w.state.instances.length ∧
      ∀ c ∈ made, SlotsTyped (w.types.find c.self.description) (w.state.slots c.self.number)) ∧
    ∀ c ∈ cs, ∀ (depth : Nat) (settings : Settings) (description : Nat) (element : Int)
      (name : String) (owner : Context) (p : ItemProperty) (item : ItemView) (n : Native),
      (c.resolve w.types settings.maxContextDepth element none).2 = .ok owner →
      (w.types.find owner.self.description).locate owner.self.number element name
        (.property element name) = .ok (.native p, item) →
      (w.run fun types =>
        evaluate types depth settings (.property element name) description c).1 = .ok n →
      p.Shows n := by
  obtain ⟨made, hsub, hk⟩ := h.kept
  refine ⟨⟨made, hsub, hk.numbered, fun c hc => ?_⟩, ?_⟩
  · exact (hk.suits c hc).slotsTyped (hk.laid_find _)
  · intro c hc depth settings description element name owner p item n hr hl hrun
    exact (hk.of_respects (respects_evaluateNative hk.region depth settings description (hsub hc)
      hr hl)).2 n hrun

theorem Sample.text_shown :
    ItemProperty.Shows ⟨"Text", "text", .string, 2, false⟩ (.value (.string "b")) :=
  reaches_world.slots_typed.2 (inner 2) (by simp) 4 .standard 1 2 "text" (inner 2) _
    ⟨2, 2, some "Text"⟩ _ rfl rfl rfl

end UiBinding
