import Mathlib.Algebra.Order.BigOperators.Group.List
import UiBinding.Proofs.Assignment

namespace UiBinding

open Run (Tracks)

/-- Every slot that an expression refers to from a scope, at any depth, has a rank below `r`. -/
def Scope.Below (types : Catalog) (rank : Nat → Nat → Nat) (scope : Scope) (r : Nat) :
    Expr → Prop :=
  Expr.Everywhere fun x => ∀ o k, scope.Denotes types x o k → rank o.self.number k < r

/-- The code in each slot refers to slots of smaller rank only. -/
def Ranked (types : Catalog) (made : List Context) (rank : Nat → Nat → Nat) (s : State) : Prop :=
  ∀ o ∈ made, ∀ (k : Nat) c, (s.slots o.self.number)[k]? = some c → ∀ q ∈ o.code c,
    q.1.Below types rank (rank o.self.number k) q.2

theorem Ranked.of_assigned {types : Catalog} {made : List Context} {rank : Nat → Nat → Nat}
    {s t : State} (h : Ranked types made rank s) (ht : s.Assigned t) :
    Ranked types made rank t :=
  fun o ho k c hc q hq => h o ho k c (ht.code hc hq) q hq

/-- A depth that is enough for an expression that refers to slots below rank `r`, where all code
in slots has at most a given size. It is lexicographic in the rank and the size. -/
noncomputable def depthFor (size r : Nat) (e : Expr) : Nat := sizeOf e + r * (size + 1)

theorem Expr.sizeOf_pos (e : Expr) : 0 < sizeOf e := by
  cases e <;> simp

theorem depthFor_part (size r : Nat) {e x : Expr} (h : x ∈ e.parts) :
    depthFor size r x < depthFor size r e :=
  Nat.add_lt_add_right (Expr.Everywhere.sizeOf_lt_of_mem_parts h) _

theorem depthFor_code {size r r' : Nat} {body : Expr} (e : Expr) (hbody : sizeOf body ≤ size)
    (hr : r' < r) : depthFor size r' body < depthFor size r e := by
  have hmul : (r' + 1) * (size + 1) ≤ r * (size + 1) := Nat.mul_le_mul_right _ hr
  rw [Nat.succ_mul] at hmul
  have hpos := e.sizeOf_pos
  rw [depthFor, depthFor]
  omega

theorem exists_bound {α : Type} (f : α → Nat) (l : List α) : ∃ n, ∀ a ∈ l, f a ≤ n := by
  refine ⟨(l.map f).sum, fun a ha => ?_⟩
  exact List.single_le_sum (fun _ _ => Nat.zero_le _) _ (List.mem_map_of_mem ha)

namespace Kept

variable {types : Catalog} {made : List Context} {s : State} {scope : Scope} {e : Expr}
  {o : Context} {k : Nat} {c : Cell}

theorem slot_of_denotes (h : Kept types made s) (hc : scope.context ∈ made)
    (hd : scope.Denotes types e o k) : o ∈ made ∧ k < (s.slots o.self.number).length := by
  have ho : o ∈ made := h.chain_subset hc hd.mem_chain
  have hrow {name : String} {element : Int}
      (hk : Evaluation.rowSlot types scope e element name = .ok k) :
      ∃ role, (types.find scope.context.self.description).roles[k]? = some role := by
    obtain ⟨hdesc, p, hp, rfl⟩ := Evaluation.rowSlot_ok hk
    rw [hdesc]
    exact ⟨_, (h.laid_find _).custom (Assoc.mem_of_get? hp)⟩
  have hrole : ∃ role, (types.find o.self.description).roles[k]? = some role := by
    cases hd with
    | property hr hl hk =>
        obtain ⟨role, ha⟩ := (h.laid_find _).locate_ok hl
        obtain ⟨j, hj, hrole⟩ := ha.exists_slot
        obtain rfl : k = j := Int.ofNat_inj.1 (hk.symm.trans hj)
        exact ⟨role, hrole⟩
    | signal hr hx hk => exact ⟨.signal, (h.laid_find _).signalSlot? hk⟩
    | rowIndex hk => exact hrow hk
    | rowModel hk => exact hrow hk
  obtain ⟨role, hrole⟩ := hrole
  refine ⟨ho, ?_⟩
  rw [(h.suits o ho).length_eq]
  exact (List.getElem?_eq_some_iff.1 hrole).1

theorem context_of_code (h : Kept types made s) (ho : o ∈ made)
    (hc : (s.slots o.self.number)[k]? = some c) {q : Scope × Expr} (hq : q ∈ o.code c) :
    q.1.context = o := by
  have hlt := (List.getElem?_eq_some_iff.1 hc).1
  rw [(h.suits o ho).length_eq] at hlt
  obtain ⟨c', hc', hholds⟩ :=
    (h.suits o ho).exists_cell k _ (List.getElem?_eq_getElem hlt)
  cases hc.symm.trans hc'
  cases c with
  | unset => cases hq
  | property p =>
      rw [Context.code] at hq
      split at hq
      · rw [List.mem_singleton.1 hq]
      · cases hq
  | signal signal =>
      obtain ⟨handler, hmem, rfl⟩ := List.mem_map.1 hq
      obtain ⟨depth, hscope, -⟩ := hholds.2 handler hmem
      dsimp only
      rw [hscope, Context.scope]

theorem exists_size (s : State) (made : List Context) :
    ∃ size, ∀ o ∈ made, ∀ (k : Nat) c, (s.slots o.self.number)[k]? = some c → ∀ q ∈ o.code c,
      sizeOf q.2 ≤ size := by
  obtain ⟨size, hsize⟩ := exists_bound (fun q : Scope × Expr => sizeOf q.2)
    (made.flatMap fun o => (s.slots o.self.number).flatMap o.code)
  refine ⟨size, fun o ho k c hc q hq => hsize q ?_⟩
  exact List.mem_flatMap.2 ⟨o, ho, List.mem_flatMap.2 ⟨c, List.mem_of_getElem? hc, hq⟩⟩

theorem exists_rank (h : Kept types made s) (rank : Nat → Nat → Nat) {scope : Scope}
    (hc : scope.context ∈ made) (e : Expr) : ∃ r, scope.Below types rank r e := by
  obtain ⟨r, hr⟩ := exists_bound (fun p : Nat × Nat => rank p.1 p.2)
    (made.flatMap fun o => (List.range (s.slots o.self.number).length).map (o.self.number, ·))
  refine ⟨r + 1, .of_forall (fun x o k hd => Nat.lt_succ_of_le ?_) e⟩
  obtain ⟨ho, hk⟩ := h.slot_of_denotes hc hd
  refine hr (o.self.number, k) (List.mem_flatMap.2 ⟨o, ho, ?_⟩)
  exact List.mem_map.2 ⟨k, List.mem_range.2 hk, rfl⟩

theorem tracks_eval {rank : Nat → Nat → Nat} (h : Kept types made s)
    (hranked : Ranked types made rank s) {size : Nat}
    (hsize : ∀ o ∈ made, ∀ (k : Nat) c, (s.slots o.self.number)[k]? = some c → ∀ q ∈ o.code c,
      sizeOf q.2 ≤ size) (depth : Nat) :
    ∀ more scope e r, scope.context ∈ made → scope.Below types rank r e →
      depthFor size r e ≤ depth → depth ≤ more →
      Tracks (Always s.Assigned) (· ≠ .exhausted) (fun _ => True)
        (Evaluation.eval types depth scope e) (Evaluation.eval types more scope e) := by
  induction depth with
  | zero =>
      intro more scope e r _ _ hdepth _
      have hpos := e.sizeOf_pos
      rw [depthFor] at hdepth
      omega
  | succ depth ih =>
      intro more scope e r hc hbelow hdepth hmore
      obtain ⟨more, rfl⟩ : ∃ n, more = n + 1 := ⟨more - 1, by omega⟩
      -- A part is smaller, and the code in a slot that is read has a smaller rank.
      refine (steady_assigned s).step (storable_assigned s) (fun _ => nofun) (fun x hx => ?_) ?_
      · have hlt := depthFor_part size r hx
        exact ih more scope x r hc (hbelow.inside x hx) (by omega) (by omega)
      rintro x hx o k hd t _ c ⟨rfl, ht⟩ hcell q hq
      have hrank : rank o.self.number k < r := by
        obtain rfl | hx := hx
        · exact hbelow.here o k hd
        · exact (hbelow.inside x hx).here o k hd
      obtain ⟨ho, -⟩ := h.slot_of_denotes hc hd
      have hslot := ht.code (State.getElem?_of_cell? hcell) hq
      have hlt := depthFor_code e (hsize o ho k c hslot q hq) hrank
      have hcontext : q.1.context ∈ made := by rwa [h.context_of_code ho hslot hq]
      exact ih more q.1 q.2 _ hcontext (hranked o ho k c hslot q hq) (by omega) (by omega)

end Kept

/-- Where bindings and handlers are acyclic, evaluation ends with a value or an error whatever it
is about, and what it stores leaves them acyclic. -/
theorem evaluate_terminates {types : Catalog} {made : List Context} {rank : Nat → Nat → Nat}
    {s : State} (hk : Kept types made s) (hr : Ranked types made rank s) (settings : Settings)
    (e : Expr) (description : Nat) {c : Context} (hc : c ∈ made) :
    ∃ depth result t,
      (∀ more, depth ≤ more →
        (evaluate types more settings e description c).run s = (result, t)) ∧
      ((∃ v, result = .ok (.value v)) ∨ ∃ err, result = .error (.error err)) ∧
      Kept types made t ∧ Ranked types made rank t := by
  obtain ⟨size, hsize⟩ := Kept.exists_size s made
  let scope : Scope := ⟨settings.maxContextDepth, description, c⟩
  obtain ⟨r, hbelow⟩ : ∃ r, scope.Below types rank r e := hk.exists_rank rank hc e
  have htracks {more : Nat} (hmore : depthFor size r e ≤ more) :=
    (steady_assigned s).evaluate settings
      (hk.tracks_eval hr hsize _ more _ e r hc hbelow le_rfl hmore) s s ⟨rfl, .refl s⟩
  obtain ⟨-, ⟨-, hassigned⟩, hends⟩ := htracks le_rfl
  have hsettles : Run.Respects (Aligned types (.rows fun _ => True) (· ∈ made) s s) (fun _ => True)
      IsValue (evaluate types (depthFor size r e) settings e description c) :=
    settles_evaluate hk.region .all _ settings hc trivial e.rowsIn_all
  obtain ⟨hkept, hvalue⟩ := hk.of_respects hsettles
  refine ⟨depthFor size r e,
    ((evaluate types (depthFor size r e) settings e description c).run s).1, _, ?_, ?_, hkept,
    hr.of_assigned hassigned⟩
  · intro more hmore
    obtain ⟨hresult, ⟨hstate, -⟩, -⟩ := htracks hmore
    exact Prod.ext hresult.symm hstate.symm
  · cases hresult : ((evaluate types (depthFor size r e) settings e description c).run s).1 with
    | ok n =>
        obtain ⟨v, rfl⟩ := hvalue n hresult
        exact .inl ⟨v, rfl⟩
    | error stop =>
        rw [hresult] at hends
        cases stop with
        | error err => exact .inr ⟨err, rfl⟩
        | exhausted => exact absurd rfl hends

namespace Sample

def labelRank (_ k : Nat) : Nat := if k = 4 then 1 else 0

theorem ranked_world (made : List Context) : Ranked world.types made labelRank world.state := by
  intro o _ k c hc q hq
  obtain ⟨-, rfl, rfl⟩ := code_world hc hq
  refine .intro _ (fun o' k' hd => ?_) nofun
  cases hd with
  | rowModel hk =>
      obtain ⟨-, p, hp, rfl⟩ := Evaluation.rowSlot_ok hk
      obtain rfl : (⟨1, none⟩ : CustomSlot) = p := Option.some.inj hp
      exact Nat.zero_lt_one

theorem label_terminates : ∃ made, Kept world.types made world.state ∧
    Ranked world.types made labelRank world.state ∧ inner 1 ∈ made ∧ ∃ depth result t,
      (∀ more, depth ≤ more → (evaluate world.types more .standard (.property 2 "text") 1
        (inner 1)).run world.state = (result, t)) ∧
      ((∃ v, result = .ok (.value v)) ∨ ∃ err, result = .error (.error err)) ∧
      Kept world.types made t ∧ Ranked world.types made labelRank t := by
  obtain ⟨made, hsub, hk⟩ := reaches_world.kept
  have hc : inner 1 ∈ made := hsub (by simp)
  exact ⟨made, hk, ranked_world made, hc,
    evaluate_terminates hk (ranked_world made) .standard (.property 2 "text") 1 hc⟩

end Sample

end UiBinding
