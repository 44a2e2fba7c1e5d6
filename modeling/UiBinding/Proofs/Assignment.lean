import UiBinding.Proofs.Session
import UiBinding.Proofs.Traversal

namespace UiBinding

open Run (Respects)

section Forall₂

variable {α β : Type} {R : α → β → Prop} {xs : List α} {ys : List β} {x : α} {k : Nat}

theorem forall₂_getElem? (h : List.Forall₂ R xs ys) (hx : xs[k]? = some x) :
    ∃ y, ys[k]? = some y ∧ R x y := by
  induction h generalizing k with
  | nil => cases hx
  | cons hxy _ ih =>
      cases k with
      | zero => cases hx; exact ⟨_, rfl, hxy⟩
      | succ k => exact ih hx

theorem forall₂_set (h : List.Forall₂ R xs ys) (hx : xs[k]? = some x) {y : β} (hy : R x y) :
    List.Forall₂ R xs (ys.set k y) := by
  induction h generalizing k with
  | nil => cases hx
  | cons hxy hrest ih =>
      cases k with
      | zero => cases hx; exact .cons hy hrest
      | succ k => exact .cons hxy (ih hx)

end Forall₂

/-- What becomes of a cell while expressions are evaluated: nothing, or a value is stored in the
property that it holds, which drops the binding. -/
inductive Cell.Assigned : Cell → Cell → Prop
  | same (c : Cell) : Assigned c c
  | stored (p : Property Binding) {q : Property Binding} (h : q.binding = none) :
      Assigned (.property p) (.property q)

namespace Cell.Assigned

theorem trans {c d e : Cell} (h : Assigned c d) (h' : Assigned d e) : Assigned c e := by
  cases h with
  | same => exact h'
  | stored p hq =>
      cases h' with
      | same => exact .stored p hq
      | stored _ hr => exact .stored p hr

theorem signal_iff {c d : Cell} (h : Assigned c d) (signal : Signal Handler) :
    d = .signal signal ↔ c = .signal signal := by
  cases h with
  | same => exact Iff.rfl
  | stored => constructor <;> nofun

theorem eq_of_binding {c : Cell} {q : Property Binding} {b : Binding}
    (h : Assigned c (.property q)) (hb : q.binding = some b) : c = .property q := by
  cases h with
  | same => rfl
  | stored _ hq => cases hb.symm.trans hq

theorem refl (cells : List Cell) : List.Forall₂ Cell.Assigned cells cells :=
  List.forall₂_same.2 fun c _ => .same c

theorem exists_left {k : Nat} {d : Cell} {cells row : List Cell}
    (h : List.Forall₂ Cell.Assigned cells row) (hd : row[k]? = some d) :
    ∃ c, cells[k]? = some c ∧ Cell.Assigned c d :=
  forall₂_getElem? h.flip hd

theorem set {k : Nat} {p q : Property Binding} {cells row : List Cell}
    (h : List.Forall₂ Cell.Assigned cells row) (hp : row[k]? = some (.property p))
    (hq : q.binding = none) : List.Forall₂ Cell.Assigned cells (row.set k (.property q)) := by
  obtain ⟨c, hc, hcell⟩ := exists_left h hp
  exact forall₂_set h hc (hcell.trans (.stored p hq))

end Cell.Assigned

/-- A state after `s` in which only values were stored in properties. -/
structure State.Assigned (s t : State) : Prop where
  instances : t.instances.length = s.instances.length
  slots : ∀ n, List.Forall₂ Cell.Assigned (s.slots n) (t.slots n)

namespace State.Assigned

variable {s t : State} {n k : Nat}

theorem refl (s : State) : s.Assigned s :=
  ⟨rfl, fun _ => Cell.Assigned.refl _⟩

theorem logged (h : s.Assigned t) (events : List Event) : s.Assigned (t.logged events) :=
  ⟨h.instances, h.slots⟩

theorem setCell (h : s.Assigned t) {number : Nat} {index : Int} {p q : Property Binding}
    (hp : t.cell? number index = some (.property p)) (hq : q.binding = none) :
    s.Assigned (t.setCell number index (.property q)) := by
  obtain ⟨k, -, hk, hset⟩ := exists_slot hp
  refine ⟨(setCell_counts index).1.trans h.instances, fun n => ?_⟩
  by_cases hn : number = n
  · subst hn
    rw [hset, slots_setCell (List.getElem?_eq_some_iff.1 hk).1]
    exact Cell.Assigned.set (h.slots number) hk hq
  · rw [slots_setCell_of_ne index hn]
    exact h.slots n

theorem signal_iff (h : s.Assigned t) (signal : Signal Handler) :
    (t.slots n)[k]? = some (.signal signal) ↔ (s.slots n)[k]? = some (.signal signal) := by
  constructor
  · intro ht
    obtain ⟨c, hc, hcell⟩ := Cell.Assigned.exists_left (h.slots n) ht
    rw [hc, (hcell.signal_iff signal).1 rfl]
  · intro hs
    have hlt : k < (t.slots n).length := by
      rw [← (h.slots n).length_eq]
      exact (List.getElem?_eq_some_iff.1 hs).1
    obtain ⟨c, hc, hcell⟩ := Cell.Assigned.exists_left (h.slots n) (List.getElem?_eq_getElem hlt)
    cases hs.symm.trans hc
    rw [List.getElem?_eq_getElem hlt, (hcell.signal_iff signal).2 rfl]

theorem of_binding (h : s.Assigned t) {q : Property Binding} {b : Binding}
    (hq : (t.slots n)[k]? = some (.property q)) (hb : q.binding = some b) :
    (s.slots n)[k]? = some (.property q) := by
  obtain ⟨c, hc, hcell⟩ := Cell.Assigned.exists_left (h.slots n) hq
  rw [hc, hcell.eq_of_binding hb]

theorem code (h : s.Assigned t) {d : Cell} (hd : (t.slots n)[k]? = some d) {o : Context}
    {q : Scope × Expr} (hq : q ∈ o.code d) : (s.slots n)[k]? = some d := by
  obtain ⟨c, hc, hcell⟩ := Cell.Assigned.exists_left (h.slots n) hd
  cases hcell with
  | same => exact hc
  | @stored p p' hp =>
      rw [Context.code, hp] at hq
      cases hq

end State.Assigned

theorem steady_assigned (s₀ : State) : Steady (Always s₀.Assigned) :=
  .always fun _ events h => h.logged events

theorem storable_assigned (s₀ : State) (number : Nat) :
    Storable (Always s₀.Assigned) number := by
  rintro s _ index p q ⟨rfl, hs⟩ hp hq
  exact ⟨rfl, hs.setCell hp hq⟩

namespace Expr

def isAction : Expr → Bool
  | call .. | assign .. => true
  | _ => false

/-- Nothing is emitted or assigned anywhere in an expression. -/
def Passive : Expr → Prop := Everywhere fun e => e.isAction = false

end Expr

def State.Passive (s : State) : Prop :=
  ∀ (n k : Nat) p body maxDepth description conversion, (s.slots n)[k]? = some (.property p) →
    p.binding = some ⟨.expression body maxDepth description, conversion⟩ → body.Passive

def State.Still (s t : State) : Prop := t.instances = s.instances

theorem steady_still (s₀ : State) : Steady (Always s₀.Still) := .always fun _ _ h => h

section Passive

variable {types : Catalog} {s₀ : State}

theorem State.Passive.code (h : s₀.Passive) {s : State} (hs : s₀.Still s) {o : Context}
    {number : Nat} {index : Int} {p : Property Binding}
    (hp : s.cell? number index = some (.property p)) {q : Scope × Expr}
    (hq : q ∈ o.code (.property p)) : q.2.Passive := by
  obtain ⟨k, -, hk, -⟩ := State.exists_slot hp
  rw [State.slots, hs] at hk
  rw [Context.code] at hq
  split at hq
  · rename_i body maxDepth description conversion hb
    obtain rfl := List.mem_singleton.1 hq
    exact h number k p body maxDepth description conversion hk hb
  · cases hq

/-- Reading runs passive code only, so nothing is ever stored. -/
theorem respects_still (hs : s₀.Passive) (depth : Nat) (scope : Scope) {e : Expr}
    (he : e.Passive) :
    Respects (Always s₀.Still) (fun _ => True) (fun _ => True)
      (Evaluation.eval types depth scope e) := by
  induction depth generalizing scope e with
  | zero => exact .throw trivial
  | succ depth ih =>
      have h := steady_still s₀
      have hcode {o : Context} {number : Nat} {index : Int} (s t : State) (p : Property Binding)
          (hr : Always s₀.Still s t) (hp : s.cell? number index = some (.property p))
          (q : Scope × Expr) (hq : q ∈ o.code (.property p)) :=
        ih q.1 (hs.code hr.2 hp hq)
      refine (congruence_tracks fun _ => trivial).step (fun x hx => ih scope (he.inside x hx))
        ?_ ?_ ?_ ?_ ?_
      · rintro element name -
        exact h.readProperty (fun _ => trivial) fun _ _ _ => hcode
      · rintro element -
        exact h.readRow (fun _ => trivial) fun _ _ => hcode
      · rintro element -
        exact h.readRow (fun _ => trivial) fun _ _ => hcode
      · rintro element name args rfl
        cases he.here
      · rintro element name op operand rfl
        cases he.here

end Passive

/-- Evaluation writes by assignment only, whether it gives a value or stops: signals keep their
handlers and nothing is bound that was not. Where neither the expression nor a binding in the
state emits or assigns, nothing is written at all. -/
theorem evaluate_writes_by_assignment (types : Catalog) (depth : Nat) (settings : Settings)
    (e : Expr) (description : Nat) (c : Context) (s : State) :
    let t := ((evaluate types depth settings e description c).run s).2
    t.instances.length = s.instances.length ∧
    (∀ n, (t.slots n).length = (s.slots n).length) ∧
    (∀ (n k : Nat) signal,
      (t.slots n)[k]? = some (.signal signal) ↔ (s.slots n)[k]? = some (.signal signal)) ∧
    (∀ (n k : Nat) p b, (t.slots n)[k]? = some (.property p) → p.binding = some b →
      (s.slots n)[k]? = some (.property p)) ∧
    (e.Passive → s.Passive → t.instances = s.instances) := by
  intro t
  have heval (scope : Scope) : Respects (Always s.Assigned) _ _
      (Evaluation.eval types depth scope e) :=
    (steady_assigned s).eval (storable_assigned s) depth scope e
  have hassigned : s.Assigned t :=
    ((steady_assigned s).evaluate settings (heval _).tracks s s ⟨rfl, .refl s⟩).2.1.2
  refine ⟨hassigned.instances, fun n => (hassigned.slots n).length_eq.symm,
    fun n k => hassigned.signal_iff, fun n k p b => hassigned.of_binding, fun he hs => ?_⟩
  exact ((steady_still s).evaluate settings (respects_still hs depth _ he).tracks s s
    ⟨rfl, rfl⟩).2.1.2

namespace Sample

theorem instances_world : world.state.instances =
    [frame.roles.map Role.start, rowCells 0 "a", rowCells 1 "b"] := rfl

theorem code_world {n k : Nat} {c : Cell} (h : (world.state.slots n)[k]? = some c) {o : Context}
    {q : Scope × Expr} (hq : q ∈ o.code c) :
    (n = 1 ∨ n = 2) ∧ k = 4 ∧ q = (⟨64, 1, o⟩, .rowModel 1) := by
  have hfresh (role : Role) : o.code role.start = [] := by cases role <;> rfl
  have hrow {position : Int} {entry : String} (h : (rowCells position entry)[k]? = some c) :
      k = 4 ∧ q = (⟨64, 1, o⟩, .rowModel 1) := by
    match k, h with
    | 4, h =>
        cases h
        exact ⟨rfl, List.mem_singleton.1 hq⟩
    | 0, h | 1, h | 2, h | 3, h | 5, h | 6, h | 7, h =>
        cases h
        cases hq
    | k + 8, h => cases h
  rw [State.slots, instances_world] at h
  rcases n with _ | _ | _ | n
  · obtain ⟨role, -, rfl⟩ := List.mem_map.1 (List.mem_of_getElem? h)
    rw [hfresh] at hq
    cases hq
  · exact ⟨.inl rfl, hrow h⟩
  · exact ⟨.inr rfl, hrow h⟩
  · cases h

theorem passive_rowModel : (Expr.rowModel 1).Passive := .intro _ rfl nofun

theorem passive_world : world.state.Passive := by
  intro n k p body maxDepth description conversion hp hb
  have hcode : (⟨maxDepth, description, outer⟩, body) ∈ outer.code (.property p) := by
    simp [Context.code, hb]
  obtain ⟨-, -, hq⟩ := code_world hp hcode
  cases hq
  exact passive_rowModel

theorem reading_label_writes_nothing :
    let read := (evaluate world.types 8 .standard (.property 2 "text") 1 (inner 1)).run world.state
    (∃ v, read.1 = .ok v) ∧ read.2.instances = world.state.instances :=
  ⟨⟨.value (.string "a"), rfl⟩, (evaluate_writes_by_assignment world.types 8 .standard
    (.property 2 "text") 1 (inner 1) world.state).2.2.2.2 (.intro _ rfl nofun) passive_world⟩

end Sample

end UiBinding
