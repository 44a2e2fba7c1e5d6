import UiBinding.Proofs.Traversal

namespace UiBinding

open Run (Respects)

/-- A relation of states in which all cells are alike, and that writing and logging keep. -/
structure Uniform (rel : State → State → Prop) : Prop where
  log : ∀ s t events, rel s t → rel (s.logged events) (t.logged events)
  cell : ∀ s t number index, rel s t → s.cell? number index = t.cell? number index
  setCell : ∀ s t number index c, rel s t →
    rel (s.setCell number index c) (t.setCell number index c)

abbrev Run.Blind {α : Type} (rel : State → State → Prop) (m : Run α) : Prop :=
  Respects rel (fun _ => True) (fun _ => True) m

open Run (Blind)

namespace Uniform

variable {rel : State → State → Prop}

theorem steady (h : Uniform rel) : Steady rel := ⟨h.log, h.cell⟩

theorem storable (h : Uniform rel) (number : Nat) : Storable rel number :=
  fun s t index _ q hr _ _ => h.setCell s t number index (.property q) hr

theorem eval (h : Uniform rel) (types : Catalog) (depth : Nat) (scope : Scope) (e : Expr) :
    Blind rel (Evaluation.eval types depth scope e) :=
  h.steady.eval h.storable depth scope e

end Uniform

end UiBinding
