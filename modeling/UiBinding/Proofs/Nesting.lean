import UiBinding.Proofs.OutwardSearch
import UiBinding.Proofs.Uniformity

namespace UiBinding

open Run (Blind)

def Fault.isUnowned : Fault → Bool
  | noOwner .. | chainTooDeep .. => true
  | _ => false

def Stop.Unowned (stop : Stop) : Prop := ∃ f : Fault, f.isUnowned = true ∧ stop = .error (.fault f)

def State.Alike (s t : State) : Prop := s.instances = t.instances ∧ s.contexts = t.contexts

theorem uniform_alike : Uniform State.Alike where
  log _ _ _ h := h
  cell := by
    rintro s t number index ⟨hi, -⟩
    simp only [State.cell?, State.slots, hi]
  setCell := by
    rintro ⟨instances, contexts, log⟩ t number index c ⟨rfl, rfl⟩
    simp only [State.setCell, State.slots]
    split <;> exact ⟨rfl, rfl⟩

namespace Run

/-- From related states, both computations have one outcome and end in related states, unless the
first one stops in an excused way. -/
def Mirrors (excused : Stop → Prop) (rel : State → State → Prop) {α : Type} (m m' : Run α) : Prop :=
  ∀ s t, rel s t → (∃ stop, (m.run s).1 = .error stop ∧ excused stop) ∨
    ((m'.run t).1 = (m.run s).1 ∧ rel (m.run s).2 (m'.run t).2)

namespace Mirrors

variable {excused : Stop → Prop} {rel : State → State → Prop} {α β : Type} {m m' : Run α}

theorem of_blind (h : Blind rel m) : Mirrors excused rel m m := by
  intro s t hr
  obtain ⟨hresult, hstate, -⟩ := h s t hr
  exact .inr ⟨hresult.symm, hstate⟩

theorem bind {n n' : Run β} {f f' : β → Run α} (hn : Mirrors excused rel n n')
    (hf : ∀ b, Mirrors excused rel (f b) (f' b)) :
    Mirrors excused rel (n >>= f) (n' >>= f') := by
  intro s t hr
  rw [run_bind, run_bind]
  rcases hs : n.run s with ⟨r, s'⟩
  rcases ht : n'.run t with ⟨r', t'⟩
  obtain ⟨stop, hstop, hexcused⟩ | ⟨hresult, hstate⟩ := hn s t hr
  · rw [hs] at hstop
    obtain rfl : r = .error stop := hstop
    exact .inl ⟨stop, rfl, hexcused⟩
  · rw [hs, ht] at hresult hstate
    obtain rfl : r' = r := hresult
    cases r' with
    | ok b => exact hf b s' t' hstate
    | error stop => exact .inr ⟨rfl, hstate⟩

end Mirrors

theorem congruence_mirrors (excused : Stop → Prop) (rel : State → State → Prop) :
    Congruence fun _ m m' => Mirrors excused rel m m' where
  pure _ _ _ hr := .inr ⟨rfl, hr⟩
  fail _ _ _ hr := .inr ⟨rfl, hr⟩
  bind := .bind

end Run

open Run (Mirrors)

namespace Expr

def referred? : Expr → Option Int
  | property element _ | signal element _ => some element
  | _ => none

/-- No element of a tree that an expression refers to, inside too, is enclosed by a component. -/
def Outside (tree : Tree) (component : Int) : Expr → Prop :=
  Everywhere fun e => ∀ i x, e.referred? = some i → tree.element? i = some x →
    x.enclosing ≠ component

end Expr

namespace Context

def tree (types : Catalog) (c : Context) : Tree := (types.find c.self.description).tree

def component (types : Catalog) (c : Context) : Int := (types.find c.self.description).component

variable {types : Catalog} {limit element : Int} {c o : Context} {passed : List Context}

theorem isOf_eq_false_iff {i : Int} : c.isOf types i = false ↔ i ≠ c.component types :=
  beq_eq_false_iff_ne.trans ne_comm

/-- Contexts that are passed on the way outward, none of which owns an element. -/
def Passes (types : Catalog) (element : Int) (c : Context) (passed : List Context) : Prop :=
  ∀ x, (c.tree types).element? element = some x → NoneOf types x.enclosing passed

theorem chain_eq_append {rest : List Context} (h : c.chain = passed ++ o :: rest) :
    c.chain = passed ++ o.chain := by
  induction passed generalizing c with
  | nil =>
      cases c <;> cases h <;> rfl
  | cons q passed ih =>
      cases c with
      | outermost number self => simp [chain] at h
      | nested number self parent =>
          obtain ⟨rfl, hparent⟩ := List.cons_eq_cons.1 h
          exact congrArg (nested number self parent :: ·) (ih hparent)

theorem exists_passes {blame : Option Expr} (h : (c.resolve types limit element blame).2 = .ok o) :
    ∃ passed, c.chain = passed ++ o.chain ∧ c.Passes types element passed := by
  obtain ⟨x, hx, hfound⟩ := resolve_ok_iff.1 h
  obtain ⟨-, passed, rest, htake, hnone⟩ := List.find?_eq_some_iff_append.1 hfound
  refine ⟨passed, ?_, fun y hy q hq => ?_⟩
  · have hsplit : c.chain = passed ++ o :: (rest ++ c.chain.drop (limit + 1).toNat) := by
      rw [← List.cons_append, ← List.append_assoc, ← htake, List.take_append_drop]
    exact chain_eq_append hsplit
  · cases hx.symm.trans hy
    simpa using hnone q hq

theorem resolve_error_unowned {blame : Option Expr} {f : Fault} {x : Element}
    (hx : (c.tree types).element? element = some x)
    (h : (c.resolve types limit element blame).2 = .error f) : f.isUnowned = true := by
  have hx' : (types.find c.self.description).tree.element? element = some x := hx
  rw [resolve_snd, hx'] at h
  obtain ⟨o, ho⟩ | ⟨hnone, hlen⟩ | ⟨hnone, hlen⟩ :=
    search_cases types x.enclosing (limit + 1).toNat c
  · cases h.symm.trans (search_ok_iff.2 ho)
  · cases h.symm.trans (search_eq_noOwner hnone hlen)
    rfl
  · cases h.symm.trans (search_eq_tooDeep hnone hlen)
    rfl

theorem resolve_beyond (hchain : c.chain = passed ++ o.chain) (htree : c.tree types = o.tree types)
    (hpasses : c.Passes types element passed) {blame : Option Expr} {owner : Context}
    (h : (c.resolve types limit element blame).2 = .ok owner) :
    (o.resolve types limit element blame).2 = .ok owner := by
  obtain ⟨x, hx, hfound⟩ := resolve_ok_iff.1 h
  have hnone : (passed.take (limit + 1).toNat).find? (isOf types x.enclosing) = none :=
    List.find?_eq_none.2 fun q hq => by simp [hpasses x hx q (List.mem_of_mem_take hq)]
  rw [hchain, List.take_append, List.find?_append, hnone, Option.none_or] at hfound
  refine resolve_ok_iff.2 ⟨x, ?_, ?_⟩
  · exact (congrArg (·.element? element) htree).symm.trans hx
  · exact (List.take_prefix_take_left (Nat.sub_le _ _)).find?_eq_some hfound

theorem resolve_unknown {blame : Option Expr} (hx : (c.tree types).element? element = none) :
    (c.resolve types limit element blame).2 = .error (.unknownElement element blame) := by
  have hx' : (types.find c.self.description).tree.element? element = none := hx
  simp only [resolve, hx']

end Context

section Evaluate

variable {types : Catalog} {limit description : Nat} {c o : Context}
  {passed : List Context} {e : Expr} {element : Int} {name : String}

theorem mirrors_resolve (hchain : c.chain = passed ++ o.chain) (htree : c.tree types = o.tree types)
    (hpasses : c.Passes types element passed) (blame : Option Expr) :
    Mirrors Stop.Unowned State.Alike (Run.resolve types limit element blame c)
      (Run.resolve types limit element blame o) := by
  intro s t hr
  cases hx : (c.tree types).element? element with
  | none =>
      have hx' : (o.tree types).element? element = none := htree ▸ hx
      rw [Run.run_resolve_error (Context.resolve_unknown hx),
        Run.run_resolve_error (Context.resolve_unknown hx')]
      exact .inr ⟨rfl, hr⟩
  | some x =>
      cases hc : (c.resolve types limit element blame).2 with
      | error f =>
          rw [Run.run_resolve_error hc]
          exact .inl ⟨_, rfl, f, Context.resolve_error_unowned hx hc, rfl⟩
      | ok owner =>
          rw [Run.run_resolve hc, Run.run_resolve (Context.resolve_beyond hchain htree hpasses hc)]
          exact .inr ⟨rfl, hr⟩

theorem mirrors_found (hc : (c.resolve types limit element none).2 = .ok o)
    (htree : c.tree types = o.tree types) {excused : Stop → Prop} (blame : Option Expr) :
    Mirrors excused State.Alike (Run.resolve types limit element blame c)
      (Run.resolve types limit element blame o) := by
  obtain ⟨passed, hchain, hpasses⟩ := Context.exists_passes hc
  have hc' := Context.resolve_blame blame hc
  intro s t hr
  rw [Run.run_resolve hc', Run.run_resolve (Context.resolve_beyond hchain htree hpasses hc')]
  exact .inr ⟨rfl, hr⟩

section Nodes

variable {excused : Stop → Prop} {eval : Evaluator}
  (heval : ∀ scope e, Blind State.Alike (eval scope e))
  (hresolve : ∀ blame, Mirrors excused State.Alike (Run.resolve types limit element blame c)
    (Run.resolve types limit element blame o))

include heval hresolve


theorem mirrors_readProperty : Mirrors excused State.Alike
    (Evaluation.readProperty types eval ⟨limit, description, c⟩ e element name)
    (Evaluation.readProperty types eval ⟨limit, description, o⟩ e element name) := by
  refine (hresolve _).bind fun owner => ?_
  refine .bind ((Run.congruence_mirrors _ _).ofExcept _) fun ⟨a, item⟩ => .of_blind ?_
  exact uniform_alike.steady.get (fun _ => trivial) fun _ _ _ _ _ q _ => heval q.1 q.2

theorem mirrors_emitSignal : Mirrors excused State.Alike
    (Evaluation.emitSignal types eval ⟨limit, description, c⟩ e element name)
    (Evaluation.emitSignal types eval ⟨limit, description, o⟩ e element name) := by
  refine (hresolve _).bind fun owner => .of_blind ?_
  refine Run.Tracks.bind (uniform_alike.steady.signalOf fun _ => trivial).tracks fun found _ => ?_
  cases found with
  | none => exact .fault trivial
  | some found =>
      refine .bind (uniform_alike.steady.runLog _).tracks fun _ _ => ?_
      refine .bind (.forM _ fun handler _ => ?_) fun _ _ => .pure trivial
      exact .bind (heval handler.scope handler.body).tracks fun _ _ => .pure trivial

theorem mirrors_assignProperty {op : AssignOp} {operand : Expr}
    (hoperand : Mirrors excused State.Alike (eval ⟨limit, description, c⟩ operand)
      (eval ⟨limit, description, o⟩ operand)) : Mirrors excused State.Alike
    (Evaluation.assignProperty types eval ⟨limit, description, c⟩ e element name op operand)
    (Evaluation.assignProperty types eval ⟨limit, description, o⟩ e element name op operand) := by
  have hcong := Run.congruence_mirrors excused State.Alike
  have hsteady := uniform_alike.steady
  refine (hresolve _).bind fun owner => .bind (hcong.ofExcept _) fun ⟨a, item⟩ => ?_
  have hread : Blind State.Alike (a.get eval item owner) :=
    hsteady.get (fun _ => trivial) fun _ _ _ _ _ q _ => heval q.1 q.2
  have hset (n : Native) : Blind State.Alike (a.set item n none) :=
    hsteady.set (uniform_alike.storable _) fun _ => trivial
  refine .bind (.of_blind hread) fun current => hoperand.bind fun change => ?_
  dsimp only
  split
  · exact .bind (.of_blind (hsteady.runLog _)) fun _ => .bind (.of_blind (hset _)) fun _ =>
      hcong.pure _
  · exact hcong.bind hcong.kindOf fun _ => hcong.bind hcong.kindOf fun _ => hcong.fault _

end Nodes

theorem mirrors_property {excused : Stop → Prop} (depth : Nat)
    (hresolve : ∀ blame, Mirrors excused State.Alike (Run.resolve types limit element blame c)
      (Run.resolve types limit element blame o)) (name : String) :
    Mirrors excused State.Alike
      (Evaluation.eval types depth ⟨limit, description, c⟩ (.property element name))
      (Evaluation.eval types depth ⟨limit, description, o⟩ (.property element name)) := by
  cases depth with
  | zero => exact fun _ _ hr => .inr ⟨rfl, hr⟩
  | succ depth => exact mirrors_readProperty (uniform_alike.eval types depth) hresolve

theorem mirrors_call {excused : Stop → Prop} (depth : Nat)
    (hresolve : ∀ blame, Mirrors excused State.Alike (Run.resolve types limit element blame c)
      (Run.resolve types limit element blame o)) (name : String) (args : List Expr) :
    Mirrors excused State.Alike
      (Evaluation.eval types depth ⟨limit, description, c⟩ (.call (.signal element name) args))
      (Evaluation.eval types depth ⟨limit, description, o⟩
        (.call (.signal element name) args)) := by
  cases depth with
  | zero => exact fun _ _ hr => .inr ⟨rfl, hr⟩
  | succ depth => exact mirrors_emitSignal (uniform_alike.eval types depth) hresolve

/-- No element that an expression refers to is owned by a context among those passed. -/
def Expr.Beyond (types : Catalog) (c : Context) (passed : List Context) (e : Expr) : Prop :=
  ∀ q ∈ passed, e.Outside (c.tree types) (q.component types)

theorem Expr.Beyond.passes (h : e.Beyond types c passed) (he : e.referred? = some element) :
    c.Passes types element passed :=
  fun x hx q hq => Context.isOf_eq_false_iff.2 ((h q hq).here element x he hx)

theorem Expr.Beyond.part {x : Expr} (h : e.Beyond types c passed) (hx : x ∈ e.parts) :
    x.Beyond types c passed :=
  fun q hq => (h q hq).inside x hx

theorem Context.Passes.beyond (h : c.Passes types element passed) (name : String) :
    (Expr.property element name).Beyond types c passed := by
  refine fun q hq => .intro _ ?_ nofun
  rintro _ x ⟨⟩ hx
  exact isOf_eq_false_iff.1 (h x hx q hq)

theorem Expr.Everywhere.assign {p : Expr → Prop} {target operand : Expr} {op : AssignOp}
    (here : p (.assign target op operand)) (ht : Everywhere p target) (ho : Everywhere p operand) :
    Everywhere p (.assign target op operand) := by
  refine .intro _ here fun x hx => ?_
  obtain rfl | hx := List.mem_cons.1 hx
  · exact ht
  · rw [List.mem_singleton.1 hx]
    exact ho

theorem mirrors_eval (hchain : c.chain = passed ++ o.chain) (htree : c.tree types = o.tree types)
    (depth : Nat) (hrows : e.RowsIn fun _ => False) (he : e.Beyond types c passed) :
    Mirrors Stop.Unowned State.Alike (Evaluation.eval types depth ⟨limit, description, c⟩ e)
      (Evaluation.eval types depth ⟨limit, description, o⟩ e) := by
  induction depth generalizing e with
  | zero => exact fun _ _ hr => .inr ⟨rfl, hr⟩
  | succ depth ih =>
      have hblind := uniform_alike.eval types depth
      have hparts : ∀ x ∈ e.parts, Mirrors Stop.Unowned State.Alike
          (Evaluation.eval types depth ⟨limit, description, c⟩ x)
          (Evaluation.eval types depth ⟨limit, description, o⟩ x) :=
        fun x hx => ih (hrows.inside x hx) (he.part hx)
      refine (Run.congruence_mirrors _ _).step hparts ?_ ?_ ?_ ?_ ?_
      · rintro element name rfl
        exact mirrors_readProperty hblind (mirrors_resolve hchain htree (he.passes rfl))
      · rintro element rfl
        exact (hrows.here element rfl).elim
      · rintro element rfl
        exact (hrows.here element rfl).elim
      · rintro element name args rfl
        have hcallee := (he.part List.mem_cons_self).passes rfl
        exact mirrors_emitSignal hblind (mirrors_resolve hchain htree hcallee)
      · rintro element name op operand rfl
        have htarget := (he.part List.mem_cons_self).passes rfl
        exact mirrors_assignProperty hblind (mirrors_resolve hchain htree htarget)
          (hparts operand (by simp [Expr.parts]))

theorem mirrors_evaluate {excused : Stop → Prop} {depth : Nat} {settings : Settings}
    (h : Mirrors excused State.Alike
      (Evaluation.eval types depth ⟨settings.maxContextDepth, description, c⟩ e)
      (Evaluation.eval types depth ⟨settings.maxContextDepth, description, o⟩ e)) :
    Mirrors excused State.Alike (evaluate types depth settings e description c)
      (evaluate types depth settings e description o) := by
  intro s t hr
  rw [evaluate, evaluate, Run.run_tryCatch, Run.run_tryCatch]
  specialize h s t hr
  rcases hs : (Evaluation.eval types depth
    ⟨settings.maxContextDepth, description, c⟩ e).run s with ⟨r, s'⟩
  rcases ht : (Evaluation.eval types depth
    ⟨settings.maxContextDepth, description, o⟩ e).run t with ⟨r', t'⟩
  rw [hs, ht] at h
  obtain ⟨stop, hstop, hexcused⟩ | ⟨hresult, hstate⟩ := h
  · obtain rfl : r = .error stop := hstop
    exact .inl ⟨stop, rfl, hexcused⟩
  · obtain rfl : r' = r := hresult
    cases r' with
    | ok n => exact .inr ⟨rfl, hstate⟩
    | error stop => exact .inr ⟨rfl, hstate⟩

end Evaluate

/-- Evaluated from either of two contexts, an expression gives the same value or stops in the same
way, and leaves the same in all slots. -/
def SameFrom (types : Catalog) (depth : Nat) (settings : Settings) (description : Nat) (s : State)
    (c o : Context) (e : Expr) : Prop :=
  let inner := (evaluate types depth settings e description c).run s
  let outer := (evaluate types depth settings e description o).run s
  outer.1 = inner.1 ∧ outer.2.instances = inner.2.instances ∧ outer.2.contexts = inner.2.contexts

theorem Run.Mirrors.sameFrom {types : Catalog} {depth : Nat} {settings : Settings}
    {description : Nat} {c o : Context} {e : Expr} {excused : Stop → Prop}
    (h : Mirrors excused State.Alike
      (Evaluation.eval types depth ⟨settings.maxContextDepth, description, c⟩ e)
      (Evaluation.eval types depth ⟨settings.maxContextDepth, description, o⟩ e)) {s : State}
    (hnot : ∀ stop, excused stop →
      ((evaluate types depth settings e description c).run s).1 ≠ .error stop) :
    SameFrom types depth settings description s c o e := by
  obtain ⟨stop, hstop, hexcused⟩ | ⟨hresult, hinstances, hcontexts⟩ :=
    mirrors_evaluate h s s ⟨rfl, rfl⟩
  · exact absurd hstop (hnot stop hexcused)
  · exact ⟨hresult, hinstances.symm, hcontexts.symm⟩

theorem sameFrom_of_beyond {types : Catalog} {depth : Nat} {settings : Settings}
    {description : Nat} {c o : Context} {passed : List Context} {e : Expr} {s : State}
    (hchain : c.chain = passed ++ o.chain) (htree : c.tree types = o.tree types)
    (hrows : e.RowsIn fun _ => False) (he : e.Beyond types c passed)
    (hnot : ∀ f : Fault, f.isUnowned = true →
      ((evaluate types depth settings e description c).run s).1 ≠ .error (.error (.fault f))) :
    SameFrom types depth settings description s c o e := by
  refine (mirrors_eval hchain htree depth hrows he).sameFrom ?_
  rintro stop ⟨f, hf, rfl⟩
  exact hnot f hf

/-- An expression that refers to no row and to no element of the contexts that are passed on the way
from `c` out to `o`, which may be its parent or any context further out, does at `o` what it does at
`c`, unless it fails at `c` as the owner of an element is not found. So an element is read, assigned
or signalled from any depth as at its owner. -/
theorem evaluate_outward (types : Catalog) (depth : Nat) (settings : Settings) (description : Nat)
    (s : State) (c : Context) :
    (∀ e o passed, c.chain = passed ++ o.chain → c.tree types = o.tree types →
      (e.RowsIn fun _ => False) → e.Beyond types c passed →
      (∀ f : Fault, f.isUnowned = true →
        ((evaluate types depth settings e description c).run s).1 ≠ .error (.error (.fault f))) →
      SameFrom types depth settings description s c o e) ∧
    ∀ element o, (c.resolve types settings.maxContextDepth element none).2 = .ok o →
      c.tree types = o.tree types →
      (∀ name, SameFrom types depth settings description s c o (.property element name)) ∧
      (∀ name args,
        SameFrom types depth settings description s c o (.call (.signal element name) args)) ∧
      ∀ name op operand passed, c.chain = passed ++ o.chain → (operand.RowsIn fun _ => False) →
        operand.Beyond types c passed →
        (∀ f : Fault, f.isUnowned = true →
          ((evaluate types depth settings (.assign (.property element name) op operand)
            description c).run s).1 ≠ .error (.error (.fault f))) →
        SameFrom types depth settings description s c o
          (.assign (.property element name) op operand) := by
  refine ⟨fun e o passed => sameFrom_of_beyond, fun element o hc htree => ?_⟩
  refine ⟨fun name => ?_, fun name args => ?_, ?_⟩
  · exact (mirrors_property depth (mirrors_found hc htree) name).sameFrom fun _ => False.elim
  · exact (mirrors_call depth (mirrors_found hc htree) name args).sameFrom fun _ => False.elim
  · intro name op operand passed hchain hrows hoperand
    obtain ⟨passed', hchain', hpasses⟩ := Context.exists_passes hc
    obtain rfl := List.append_cancel_right (hchain.symm.trans hchain')
    have htarget := hpasses.beyond name
    exact sameFrom_of_beyond hchain htree (.assign nofun (.intro _ nofun nofun) hrows)
      fun q hq => .assign nofun (htarget q hq) (hoperand q hq)

namespace Sample

def doubling : Expr := .assign (.property 0 "scale") .add (.property 0 "scale")

theorem frame_set_from_row :
    ((evaluate world.types 3 .standard doubling 1 (inner 1)).run world.state).1 =
        .ok (.value .void) ∧
      SameFrom world.types 3 .standard 1 world.state (inner 1) outer doubling ∧
      SameFrom world.types 3 .standard 1 world.state (inner 1) outer
        (.call (.signal 0 "done") []) := by
  have hdone : ((evaluate world.types 3 .standard doubling 1 (inner 1)).run world.state).1 =
      .ok (.value .void) := rfl
  have hpasses : Context.Passes world.types 0 (inner 1) [inner 1] := by
    rintro x ⟨⟩ q hq
    rw [List.mem_singleton.1 hq]
    rfl
  have hscale := hpasses.beyond "scale"
  have hbeyond : doubling.Beyond world.types (inner 1) [inner 1] :=
    fun q hq => .assign nofun (hscale q hq) (hscale q hq)
  have hrows : doubling.RowsIn fun _ => False :=
    .assign nofun (.intro _ nofun nofun) (.intro _ nofun nofun)
  have hnot (f : Fault) (_ : f.isUnowned = true) :
      ((evaluate world.types 3 .standard doubling 1 (inner 1)).run world.state).1 ≠
        .error (.error (.fault f)) := by
    rw [hdone]
    nofun
  have houtward := evaluate_outward world.types 3 .standard 1 world.state (inner 1)
  exact ⟨hdone, houtward.1 doubling outer [inner 1] rfl rfl hrows hbeyond hnot,
    (houtward.2 0 outer rfl rfl).2.1 "done" []⟩

end Sample

end UiBinding
