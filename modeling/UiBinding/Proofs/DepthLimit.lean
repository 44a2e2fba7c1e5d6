import UiBinding.Proofs.Access
import UiBinding.Proofs.Congruence
import UiBinding.Proofs.Session

namespace UiBinding

def Stop.TooDeep (limit : Int) (stop : Stop) : Prop :=
  ∃ element blame, stop = .error (.fault (.chainTooDeep limit element blame))

namespace Run

/-- The second computation does what the first one does, unless that stops in an excused way. -/
def Unless (excused : Stop → Prop) {α : Type} (m m' : Run α) : Prop :=
  ∀ s, (∃ stop, (m.run s).1 = .error stop ∧ excused stop) ∨ m'.run s = m.run s

variable {excused : Stop → Prop} {α β : Type}

theorem Unless.refl (m : Run α) : Unless excused m m := fun _ => .inr rfl

theorem Unless.bind {m m' : Run β} {f f' : β → Run α} (hm : Unless excused m m')
    (hf : ∀ b, Unless excused (f b) (f' b)) : Unless excused (m >>= f) (m' >>= f') := by
  intro s
  rw [run_bind, run_bind]
  obtain ⟨stop, hstop, hexcused⟩ | hsame := hm s
  · rcases hrun : m.run s with ⟨r, t⟩
    rw [hrun] at hstop
    obtain rfl : r = .error stop := hstop
    exact .inl ⟨stop, rfl, hexcused⟩
  · rw [hsame]
    rcases m.run s with ⟨r, t⟩
    cases r with
    | error stop => exact .inr rfl
    | ok b => exact hf b t

theorem congruence_unless : Congruence fun _ m m' => Unless excused m m' :=
  ⟨fun _ => .refl _, fun _ => .refl _, Unless.bind⟩

end Run

open Run (Unless)

namespace Context

variable {types : Catalog} {limit limit' : Int} {c : Context}

theorem search_of_le {e : Element} {owner : String} {blame : Option Expr} {budget budget' : Nat}
    (h : budget ≤ budget') (visited : List String) :
    (search types limit e owner blame budget visited c).2 =
        .error (.chainTooDeep limit e.id blame) ∨
      search types limit' e owner blame budget' visited c =
        search types limit e owner blame budget visited c := by
  induction budget generalizing budget' visited c with
  | zero => exact .inl rfl
  | succ budget ih =>
      obtain ⟨more, rfl⟩ : ∃ n, budget' = n + 1 := ⟨budget' - 1, by omega⟩
      by_cases hc : (types.find c.self.description).component = e.enclosing
      · simp only [search, if_pos hc, or_true]
      · cases c with
        | outermost => simp only [search, if_neg hc, or_true]
        | nested number self parent =>
            simp only [search, if_neg hc]
            obtain hdeep | hsame := ih (c := parent) (Nat.le_of_succ_le_succ h) (visited ++
              [(types.find (nested number self parent).self.description).id])
            · exact .inl hdeep
            · exact .inr (by rw [hsame])

theorem resolve_of_le (h : limit ≤ limit') (element : Int) (blame : Option Expr) :
    (∃ id, (c.resolve types limit element blame).2 = .error (.chainTooDeep limit id blame)) ∨
      c.resolve types limit' element blame = c.resolve types limit element blame := by
  have hbudget : (limit + 1).toNat ≤ (limit' + 1).toNat := by omega
  simp only [resolve]
  cases (types.find c.self.description).tree.element? element with
  | none => exact .inr rfl
  | some x =>
      obtain hdeep | hsame := search_of_le hbudget []
      · exact .inl ⟨x.id, hdeep⟩
      · exact .inr hsame

end Context

section Evaluate

variable {types : Catalog} {d d' : Nat} {description : Nat} {c : Context} {eval eval' : Evaluator}
  {e : Expr} {element : Int} {name : String}

theorem unless_resolve (h : d ≤ d') (blame : Option Expr) :
    Unless (Stop.TooDeep d) (Run.resolve types d element blame c)
      (Run.resolve types d' element blame c) := by
  intro s
  obtain ⟨id, hdeep⟩ | hsame := c.resolve_of_le (Int.ofNat_le.2 h) element blame
  · rw [Run.run_resolve_error hdeep]
    exact .inl ⟨_, rfl, id, blame, rfl⟩
  · rw [Run.resolve, Run.resolve, hsame]
    exact .inr rfl

theorem unless_step (h : d ≤ d')
    (hparts : ∀ x ∈ e.parts,
      Unless (Stop.TooDeep d) (eval ⟨d, description, c⟩ x) (eval ⟨d', description, c⟩ x)) :
    Unless (Stop.TooDeep d) (Evaluation.step types eval ⟨d, description, c⟩ e)
      (Evaluation.step types eval ⟨d', description, c⟩ e) := by
  refine Run.congruence_unless.step hparts ?_ ?_ ?_ ?_ ?_
  · rintro element name rfl
    exact (unless_resolve h _).bind fun _ => .refl _
  · rintro element rfl
    exact .refl _
  · rintro element rfl
    exact .refl _
  · rintro element name args rfl
    exact (unless_resolve h _).bind fun _ => .refl _
  · rintro element name op operand rfl
    refine (unless_resolve h _).bind fun _ => .bind (.refl _) fun found => ?_
    exact .bind (.refl _) fun _ => (hparts operand (by simp [Expr.parts])).bind fun _ => .refl _

theorem unless_eval (h : d ≤ d') (depth : Nat) (description : Nat) (c : Context) (e : Expr) :
    Unless (Stop.TooDeep d) (Evaluation.eval types depth ⟨d, description, c⟩ e)
      (Evaluation.eval types depth ⟨d', description, c⟩ e) := by
  induction depth generalizing e with
  | zero => exact .refl _
  | succ depth ih => exact unless_step h fun x _ => ih x

end Evaluate

/-- A higher limit on the search for elements changes nothing, as long as evaluation does not run
into the lower one: it gives the same value or error and leaves the same state, where bindings and
handlers have done what they do under the limits that they were installed with. -/
theorem evaluate_of_le_limit {types : Catalog} {depth : Nat} {settings settings' : Settings}
    (hle : settings.maxContextDepth ≤ settings'.maxContextDepth)
    (hlog : settings'.logErrors = settings.logErrors) (e : Expr) (description : Nat) (c : Context)
    (s : State)
    (h : ∀ element blame, ((evaluate types depth settings e description c).run s).1 ≠
      .error (.error (.fault (.chainTooDeep settings.maxContextDepth element blame)))) :
    (evaluate types depth settings' e description c).run s =
      (evaluate types depth settings e description c).run s := by
  rw [evaluate, Run.run_tryCatch] at h ⊢
  rw [evaluate, Run.run_tryCatch]
  obtain ⟨stop, hstop, element, blame, rfl⟩ | hsame :=
    unless_eval hle depth description c e s
  · rcases hrun : (Evaluation.eval types depth
      ⟨settings.maxContextDepth, description, c⟩ e).run s with ⟨r, t⟩
    rw [hrun] at h hstop
    obtain rfl := hstop
    exact absurd rfl (h element blame)
  · have hevents : fatalEvents settings' = fatalEvents settings := by
      funext component stop
      simp only [fatalEvents, hlog]
    rw [hsame, hevents]

namespace Sample

theorem label_within_limit :
    let e : Expr := .block [.call (.signal 0 "done") [], .property 2 "text"]
    let narrow : Settings := ⟨1, true, by decide⟩
    ((evaluate world.types 5 narrow e 1 (inner 1)).run world.state).1 = .ok (.value (.string "a")) ∧
      (evaluate world.types 5 .standard e 1 (inner 1)).run world.state =
        (evaluate world.types 5 narrow e 1 (inner 1)).run world.state := by
  intro e narrow
  have hread : ((evaluate world.types 5 narrow e 1 (inner 1)).run world.state).1 =
      .ok (.value (.string "a")) := rfl
  have hdeep (element : String) (blame : Option Expr) :
      ((evaluate world.types 5 narrow e 1 (inner 1)).run world.state).1 ≠
        .error (.error (.fault (.chainTooDeep narrow.maxContextDepth element blame))) := by
    rw [hread]
    nofun
  have hle : narrow.maxContextDepth ≤ Settings.standard.maxContextDepth := by decide
  exact ⟨hread, evaluate_of_le_limit hle rfl e 1 (inner 1) world.state hdeep⟩

end Sample

end UiBinding
