import UiBinding.Proofs.SignalHistory

namespace UiBinding

variable {γ σ η κ α ε : Type}

/-- A signal with what has happened to it, and all else that the code around it can see. -/
structure Exchange (σ η κ α : Type) where
  outside : σ
  signal : Signal η
  history : History η κ α

namespace Exchange

def start (outside : σ) : Exchange σ η κ α := ⟨outside, .start, []⟩

def record (s : Exchange σ η κ α) (x : Happening η κ α) : Exchange σ η κ α :=
  { s with history := s.history ++ [x] }

def connect (s : Exchange σ η κ α) (h : η) : Exchange σ η κ α :=
  { s.record (.connected h) with signal := s.signal.connect h }

theorem length_record (s : Exchange σ η κ α) (x : Happening η κ α) :
    (s.record x).history.length = s.history.length + 1 :=
  List.length_append

end Exchange

inductive Halt (ε : Type)
  | raised (e : ε)
  | unfinished

abbrev Activity (σ η κ α ε : Type) := ExceptT (Halt ε) (StateM (Exchange σ η κ α))

/-- What code does next with a signal. It learns how an emission ended, and may go on also after
an error of a handler. -/
inductive Move (γ η κ α ε : Type)
  | finish (outcome : Except ε Unit)
  | connect (h : η) (next : γ)
  | display (next : String → γ)
  | emit (c : κ) (args : α) (next : Except ε Unit → γ)

/-- Code around a signal, that of its handlers included. It stands at points of `γ`; what else it
sees and changes is in `σ`. -/
structure Client (γ σ η κ α ε : Type) where
  entry : Delivery η κ α → γ
  move : γ → σ → Move γ η κ α ε
  effect : γ → σ → σ

namespace Client

variable (client : Client γ σ η κ α ε)

section

variable (run : γ → Activity σ η κ α ε Unit)

def answer (n : Nat) (c : κ) (args : α) (h : η) : Activity σ η κ α ε Unit := fun s =>
  (run (client.entry ⟨h, c, args⟩)).run (s.record (.called n ⟨h, c, args⟩))

def deliver (n : Nat) (c : κ) (args : α) (h : η) : Activity σ η κ α ε Unit := fun s =>
  match (client.answer run n c args h).run s with
  | (.ok _, t) => (.ok (), t.record (.returned n))
  | (.error halt, t) => (.error halt, t)

def emit (c : κ) (args : α) : Activity σ η κ α ε Unit := fun s =>
  (s.signal.emit (client.deliver run s.history.length c args)).run (s.record (.emitted c args))

end

def run : Nat → γ → Activity σ η κ α ε Unit
  | 0, _ => fun s => (.error .unfinished, s)
  | steps + 1, p => fun s =>
    let t := { s with outside := client.effect p s.outside }
    match client.move p s.outside with
    | .finish outcome => (outcome.mapError .raised, t)
    | .connect h next => (run steps next).run (t.connect h)
    | .display next =>
      (run steps (next t.signal.display)).run (t.record (.displayed t.signal.display))
    | .emit c args next =>
      match (client.emit (run steps) c args).run t with
      | (.ok _, u) => (run steps (next (.ok ()))).run u
      | (.error (.raised e), u) => (run steps (next (.error e))).run u
      | (.error .unfinished, u) => (.error .unfinished, u)

/-- Code comes to an end of its own. -/
def Ends (p : γ) (s : Exchange σ η κ α) (outcome : Except ε Unit) (t : Exchange σ η κ α) : Prop :=
  ∃ steps, (client.run steps p).run s = (outcome.mapError .raised, t)

def Emits (c : κ) (args : α) (s : Exchange σ η κ α) (outcome : Except ε Unit)
    (t : Exchange σ η κ α) : Prop :=
  ∃ steps, (client.emit (client.run steps) c args).run s = (outcome.mapError .raised, t)

/-- Handlers that are called one after the other for an emission come to an end: all of them
return, or one raises an error and the others are not called. -/
inductive Answers (client : Client γ σ η κ α ε) (n : Nat) (c : κ) (args : α) :
    List η → Exchange σ η κ α → Except ε Unit → Exchange σ η κ α → Prop
  | all (s : Exchange σ η κ α) : Answers client n c args [] s (.ok ()) s
  | raised {h : η} {rest : List η} {s t : Exchange σ η κ α} {e : ε}
      (hcall : client.Ends (client.entry ⟨h, c, args⟩) (s.record (.called n ⟨h, c, args⟩))
        (.error e) t) :
      Answers client n c args (h :: rest) s (.error e) t
  | returned {h : η} {rest : List η} {s t u : Exchange σ η κ α} {outcome : Except ε Unit}
      (hcall : client.Ends (client.entry ⟨h, c, args⟩) (s.record (.called n ⟨h, c, args⟩))
        (.ok ()) t)
      (hrest : Answers client n c args rest (t.record (.returned n)) outcome u) :
      Answers client n c args (h :: rest) s outcome u

end Client

open History (connected Silent Coherent)

namespace Exchange

variable {s t u : Exchange σ η κ α} {x : Happening η κ α} {n : Nat} {c : κ} {args : α}
  {before rest : List η} {h : η}

/-- The second exchange comes out of the first, with nothing called in between for emissions
before place `n`. -/
def Since (n : Nat) (s t : Exchange σ η κ α) : Prop :=
  ∃ more, t.history = s.history ++ more ∧ ∀ m < n, Silent more m

namespace Since

theorem refl (n : Nat) (s : Exchange σ η κ α) : Since n s s :=
  ⟨[], (List.append_nil _).symm, fun _ _ _ hx => nomatch hx⟩

theorem trans (hst : Since n s t) (htu : Since n t u) : Since n s u := by
  obtain ⟨first, ht, hfirst⟩ := hst
  obtain ⟨second, hu, hsecond⟩ := htu
  refine ⟨first ++ second, by rw [hu, ht, List.append_assoc], fun m hm x hx => ?_⟩
  obtain hx | hx := List.mem_append.1 hx
  · exact hfirst m hm x hx
  · exact hsecond m hm x hx

theorem mono {m : Nat} (h : Since n s t) (hm : m ≤ n) : Since m s t := by
  obtain ⟨more, ht, hmore⟩ := h
  exact ⟨more, ht, fun k hk => hmore k (Nat.lt_of_lt_of_le hk hm)⟩

theorem length_le (h : Since n s t) : s.history.length ≤ t.history.length := by
  obtain ⟨more, ht, -⟩ := h
  rw [ht, List.length_append]
  exact Nat.le_add_right _ _

theorem record (s : Exchange σ η κ α) (hx : ∀ m, x.emission? = some m → n ≤ m) :
    Since n s (s.record x) := by
  refine ⟨[x], rfl, fun m hm y hy hym => ?_⟩
  rw [List.mem_singleton.1 hy] at hym
  exact Nat.not_le.2 hm (hx m hym)

theorem record_own (s : Exchange σ η κ α) (hx : x.emission? = some n) : Since n s (s.record x) :=
  record s fun _ hm => Nat.le_of_eq (Option.some.inj (hx.symm.trans hm))

theorem record_none (s : Exchange σ η κ α) (hx : x.emission? = none) : Since n s (s.record x) :=
  record s fun _ hm => nomatch hx.symm.trans hm

end Since

/-- The signal has the handlers that were connected, and what happened makes sense. -/
structure Tracked (s : Exchange σ η κ α) : Prop where
  handlers_eq : s.signal.handlers = connected s.history
  coherent : Coherent s.history

structure Sound (s : Exchange σ η κ α) : Prop extends Tracked s where
  served : s.history.ServedBut none

/-- The emission at a place has called some handlers, which have returned, and is to call others
next. -/
structure Turn (s : Exchange σ η κ α) (n : Nat) (c : κ) (args : α) (before rest : List η) : Prop
    extends Tracked s where
  emitted : s.history[n]? = some (.emitted c args)
  heard : connected (s.history.take n) = before ++ rest
  calls_eq : s.history.calls n = before.map fun h => ⟨h, c, args⟩
  returns_eq : s.history.returns n = before.length
  served : s.history.ServedBut (some n)

theorem Tracked.record (hs : s.Tracked) (hx : x.Follows s.history) (hh : x.handler? = none) :
    (s.record x).Tracked where
  handlers_eq := by
    rw [Exchange.record, History.connected_append, ← hs.handlers_eq, connected,
      List.filterMap_cons_none hh, List.filterMap_nil, List.append_nil]
  coherent := hs.coherent.concat hx

namespace Sound

theorem start (outside : σ) : (start outside : Exchange σ η κ α).Sound :=
  ⟨⟨rfl, .nil⟩, fun _ _ _ _ hm => nomatch hm⟩

theorem withOutside (hs : s.Sound) (outside : σ) : { s with outside }.Sound :=
  ⟨⟨hs.handlers_eq, hs.coherent⟩, hs.served⟩

theorem connect (hs : s.Sound) (h : η) : (s.connect h).Sound where
  handlers_eq := by
    rw [Exchange.connect, record, History.connected_append, ← hs.handlers_eq]
    rfl
  coherent := hs.coherent.concat trivial
  served := hs.served.concat nofun nofun

theorem display (hs : s.Sound) : (s.record (.displayed s.signal.display)).Sound where
  toTracked := by
    refine hs.toTracked.record ?_ rfl
    rw [Happening.Follows, ← hs.handlers_eq, Signal.display]
  served := hs.served.concat nofun nofun

theorem emit (hs : s.Sound) (c : κ) (args : α) :
    (s.record (.emitted c args)).Turn s.history.length c args [] s.signal.handlers where
  toTracked := hs.toTracked.record trivial rfl
  emitted := List.getElem?_concat_length
  heard := by
    rw [record, List.take_left, ← hs.handlers_eq, List.nil_append]
  calls_eq := by
    rw [record, History.calls_append, (hs.coherent.silent (Nat.le_refl _)).calls_eq]
    rfl
  returns_eq := by
    rw [record, History.returns_append, (hs.coherent.silent (Nat.le_refl _)).returns_eq]
    rfl
  served := (hs.served.mono nofun).concat nofun fun _ _ _ => rfl

end Sound

namespace Turn

theorem lt_length (hs : s.Turn n c args before rest) : n < s.history.length :=
  (List.getElem?_eq_some_iff.1 hs.emitted).1

theorem due_eq (hs : s.Turn n c args before rest) :
    s.history.due n c args = (before ++ rest).map fun h => ⟨h, c, args⟩ := by
  rw [History.due, hs.heard]

theorem call (hs : s.Turn n c args before (h :: rest)) :
    (s.record (.called n ⟨h, c, args⟩)).Sound where
  toTracked := hs.toTracked.record ⟨c, args, hs.emitted⟩ rfl
  served := by
    have hbut : (s.record (.called n ⟨h, c, args⟩)).history.ServedBut (some n) :=
      hs.served.concat (fun _ hm => hm) nofun
    refine hbut.settle fun c' args' hget => ?_
    rw [record, List.getElem?_append_left hs.lt_length, hs.emitted] at hget
    cases hget
    have hcalls : History.calls (s.history ++ [.called n ⟨h, c, args⟩]) n =
        (before.map fun h => ⟨h, c, args⟩) ++ [⟨h, c, args⟩] := by
      rw [History.calls_append, hs.calls_eq, History.calls_called]
    refine ⟨?_, .inr ?_⟩
    · rw [record, hcalls, History.due_append (Nat.le_of_lt hs.lt_length), hs.due_eq]
      exact ⟨rest.map fun h => ⟨h, c, args⟩, by
        rw [List.append_assoc, List.singleton_append, List.map_append, List.map_cons]⟩
    · rw [record, hcalls, History.returns_append, hs.returns_eq, List.length_append,
        List.length_map]
      rfl

/-- When a handler has returned, it is the turn of the next one, whatever the handler did. -/
theorem next (hs : s.Turn n c args before (h :: rest)) (ht : t.Sound)
    (hst : Since (s.history.length + 1) (s.record (.called n ⟨h, c, args⟩)) t) :
    (t.record (.returned n)).Turn n c args (before ++ [h]) rest := by
  obtain ⟨more, hmore, hsilent⟩ := hst
  -- While the handler ran, nothing was called for the emission that called it.
  have hquiet : Silent more n := hsilent n (Nat.lt_succ_of_lt hs.lt_length)
  have hhistory : t.history = s.history ++ ([.called n ⟨h, c, args⟩] ++ more) := by
    rw [hmore, record, List.append_assoc]
  have hlt : n < t.history.length := by
    rw [hhistory, List.length_append]
    exact Nat.lt_add_right _ hs.lt_length
  have hemitted : t.history[n]? = some (.emitted c args) := by
    rw [hhistory, List.getElem?_append_left hs.lt_length, hs.emitted]
  have hcalls : t.history.calls n = (before ++ [h]).map fun h => ⟨h, c, args⟩ := by
    rw [hhistory, History.calls_append, History.calls_append, History.calls_called,
      hquiet.calls_eq, hs.calls_eq, List.append_nil, List.map_append, List.map_singleton]
  have hreturns : t.history.returns n = before.length := by
    rw [hhistory, History.returns_append, History.returns_append, hquiet.returns_eq, hs.returns_eq]
    rfl
  exact {
    toTracked := ht.toTracked.record ⟨c, args, hemitted⟩ rfl
    emitted := by rw [record, List.getElem?_append_left hlt, hemitted]
    heard := by
      rw [record, List.take_append_of_le_length (Nat.le_of_lt hlt), hhistory,
        List.take_append_of_le_length (Nat.le_of_lt hs.lt_length), hs.heard, List.append_assoc,
        List.singleton_append]
    calls_eq := by
      rw [record, History.calls_append, hcalls]
      exact List.append_nil _
    returns_eq := by
      rw [record, History.returns_append, hreturns, History.returns_returned, List.length_append,
        List.length_singleton]
    served := (ht.served.mono nofun).concat (fun _ hm => hm) nofun }

theorem finish (hs : s.Turn n c args before []) : s.Sound where
  toTracked := hs.toTracked
  served := by
    refine hs.served.settle fun c' args' hget => ?_
    rw [hs.emitted] at hget
    cases hget
    have hdue : s.history.due n c args = before.map fun h => ⟨h, c, args⟩ := by
      rw [hs.due_eq, List.append_nil]
    have hcalls : s.history.calls n = s.history.due n c args := hs.calls_eq.trans hdue.symm
    refine ⟨hcalls ▸ List.prefix_rfl, .inl ⟨hcalls, ?_⟩⟩
    rw [hs.returns_eq, hdue, List.length_map]

end Turn

end Exchange

namespace Client

variable {client : Client γ σ η κ α ε} {run run' : γ → Activity σ η κ α ε Unit} {n : Nat} {c : κ}
  {args : α} {s t : Exchange σ η κ α}

theorem run_emit_cons (h : η) (rest : List η) (s : Exchange σ η κ α) :
    ((⟨h :: rest⟩ : Signal η).emit (client.deliver run n c args)).run s =
      match (client.answer run n c args h).run s with
      | (.ok _, t) =>
        ((⟨rest⟩ : Signal η).emit (client.deliver run n c args)).run (t.record (.returned n))
      | (.error halt, t) => (.error halt, t) := by
  change (ExceptT.bindCont (fun _ => (⟨rest⟩ : Signal η).emit (client.deliver run n c args))
    ((client.deliver run n c args h).run s).1).run ((client.deliver run n c args h).run s).2 = _
  have hdeliver : (client.deliver run n c args h).run s =
      match (client.answer run n c args h).run s with
      | (.ok _, t) => (.ok (), t.record (.returned n))
      | (.error halt, t) => (.error halt, t) := rfl
  rw [hdeliver]
  rcases (client.answer run n c args h).run s with ⟨r, t⟩
  cases r <;> rfl

theorem run_succ (steps : Nat) (p : γ) (s : Exchange σ η κ α) :
    (client.run (steps + 1) p).run s =
      let t := { s with outside := client.effect p s.outside }
      match client.move p s.outside with
      | .finish outcome => (outcome.mapError .raised, t)
      | .connect h next => (client.run steps next).run (t.connect h)
      | .display next =>
        (client.run steps (next t.signal.display)).run (t.record (.displayed t.signal.display))
      | .emit c args next =>
        match (client.emit (client.run steps) c args).run t with
        | (.ok _, u) => (client.run steps (next (.ok ()))).run u
        | (.error (.raised e), u) => (client.run steps (next (.error e))).run u
        | (.error .unfinished, u) => (.error .unfinished, u) := rfl

def Behaves (run : γ → Activity σ η κ α ε Unit) : Prop :=
  ∀ p s, s.Sound → ((run p).run s).2.Sound ∧ s.Since s.history.length ((run p).run s).2

/-- The induction is on the handlers that are still to be called; between two of them the turn of
the emission is the invariant. -/
theorem Behaves.turns (hrun : Behaves run) (client : Client γ σ η κ α ε) {before rest : List η}
    (hs : s.Turn n c args before rest) :
    let t := (((⟨rest⟩ : Signal η).emit (client.deliver run n c args)).run s).2
    t.Sound ∧ s.Since n t := by
  induction rest generalizing before s with
  | nil => exact ⟨hs.finish, .refl n s⟩
  | cons h rest ih =>
      rw [run_emit_cons]
      obtain ⟨hsound, hsince⟩ : ((client.answer run n c args h).run s).2.Sound ∧
        (s.record (.called n ⟨h, c, args⟩)).Since _ ((client.answer run n c args h).run s).2 :=
          hrun (client.entry ⟨h, c, args⟩) _ hs.call
      rw [Exchange.length_record] at hsince
      have hreached : s.Since n ((client.answer run n c args h).run s).2 :=
        (Exchange.Since.record_own s rfl).trans
          (hsince.mono (Nat.le_succ_of_le (Nat.le_of_lt hs.lt_length)))
      rcases hcall : (client.answer run n c args h).run s with ⟨r, t⟩
      rw [hcall] at hsound hsince hreached
      cases r with
      | error halt => exact ⟨hsound, hreached⟩
      | ok _ =>
          obtain ⟨hsound', hsince'⟩ := ih (hs.next hsound hsince)
          exact ⟨hsound', (hreached.trans (.record_own t rfl)).trans hsince'⟩

theorem Behaves.emit (hrun : Behaves run) (client : Client γ σ η κ α ε) (hs : s.Sound) (c : κ)
    (args : α) :
    let t := ((client.emit run c args).run s).2
    t.Sound ∧ s.Since s.history.length t := by
  obtain ⟨hsound, hsince⟩ := hrun.turns client (hs.emit c args)
  exact ⟨hsound, (Exchange.Since.record_none s rfl).trans hsince⟩

theorem behaves_run (client : Client γ σ η κ α ε) (steps : Nat) : Behaves (client.run steps) := by
  induction steps with
  | zero => exact fun p s hs => ⟨hs, .refl _ s⟩
  | succ steps ih =>
      intro p s hs
      have ht := hs.withOutside (client.effect p s.outside)
      have hnext (q : γ) {u : Exchange σ η κ α} (hsound : u.Sound)
          (hsince : s.Since s.history.length u) :
          ((client.run steps q).run u).2.Sound ∧
            s.Since s.history.length ((client.run steps q).run u).2 := by
        obtain ⟨hsound', hsince'⟩ := ih q u hsound
        exact ⟨hsound', hsince.trans (hsince'.mono hsince.length_le)⟩
      rw [run_succ]
      cases client.move p s.outside with
      | finish outcome => exact ⟨ht, .refl _ s⟩
      | connect h next => exact hnext next (ht.connect h) (.record_none s rfl)
      | display next => exact hnext (next _) ht.display (.record_none s rfl)
      | emit c args next =>
          obtain ⟨hsound, hsince⟩ := ih.emit client ht c args
          dsimp only
          rcases hemit : (client.emit (client.run steps) c args).run
            { s with outside := client.effect p s.outside } with ⟨r, u⟩
          rw [hemit] at hsound hsince
          match r with
          | .ok _ => exact hnext (next (.ok ())) hsound hsince
          | .error (.raised e) => exact hnext (next (.error e)) hsound hsince
          | .error .unfinished => exact ⟨hsound, hsince⟩

def Extends (run run' : γ → Activity σ η κ α ε Unit) : Prop :=
  ∀ p s, ((run p).run s).1 = .error .unfinished ∨ (run' p).run s = (run p).run s

namespace Extends

theorem refl (run : γ → Activity σ η κ α ε Unit) : Extends run run := fun _ _ => .inr rfl

theorem trans {run'' : γ → Activity σ η κ α ε Unit} (h : Extends run run')
    (h' : Extends run' run'') : Extends run run'' := by
  intro p s
  obtain hstop | hsame := h p s
  · exact .inl hstop
  · rw [← hsame]
    exact h' p s

theorem answer (h : Extends run run') (client : Client γ σ η κ α ε) (x : η)
    (s : Exchange σ η κ α) :
    ((client.answer run n c args x).run s).1 = .error .unfinished ∨
      (client.answer run' n c args x).run s = (client.answer run n c args x).run s :=
  h (client.entry ⟨x, c, args⟩) (s.record (.called n ⟨x, c, args⟩))

theorem turns (h : Extends run run') (client : Client γ σ η κ α ε) (rest : List η)
    (s : Exchange σ η κ α) :
    (((⟨rest⟩ : Signal η).emit (client.deliver run n c args)).run s).1 = .error .unfinished ∨
      ((⟨rest⟩ : Signal η).emit (client.deliver run' n c args)).run s =
        ((⟨rest⟩ : Signal η).emit (client.deliver run n c args)).run s := by
  induction rest generalizing s with
  | nil => exact .inr rfl
  | cons x rest ih =>
      rw [run_emit_cons, run_emit_cons]
      obtain hstop | hsame := h.answer client x s
      · rcases hcall : (client.answer run n c args x).run s with ⟨r, t⟩
        rw [hcall] at hstop
        obtain rfl : r = _ := hstop
        exact .inl rfl
      · rw [hsame]
        rcases (client.answer run n c args x).run s with ⟨r, t⟩
        cases r with
        | error halt => exact .inr rfl
        | ok _ => exact ih _

theorem emit (h : Extends run run') (client : Client γ σ η κ α ε) (c : κ) (args : α)
    (s : Exchange σ η κ α) :
    ((client.emit run c args).run s).1 = .error .unfinished ∨
      (client.emit run' c args).run s = (client.emit run c args).run s :=
  h.turns client s.signal.handlers (s.record (.emitted c args))

end Extends

theorem extends_succ (client : Client γ σ η κ α ε) (steps : Nat) :
    Extends (client.run steps) (client.run (steps + 1)) := by
  induction steps with
  | zero => exact fun p s => .inl rfl
  | succ steps ih =>
      intro p s
      rw [run_succ, run_succ]
      cases client.move p s.outside with
      | finish outcome => exact .inr rfl
      | connect h next => exact ih next _
      | display next => exact ih (next _) _
      | emit c args next =>
          dsimp only
          obtain hstop | hsame :=
            ih.emit client c args { s with outside := client.effect p s.outside }
          · rcases hemit : (client.emit (client.run steps) c args).run
              { s with outside := client.effect p s.outside } with ⟨r, u⟩
            rw [hemit] at hstop
            obtain rfl : r = _ := hstop
            exact .inl rfl
          · rw [hsame]
            rcases (client.emit (client.run steps) c args).run
              { s with outside := client.effect p s.outside } with ⟨r, u⟩
            match r with
            | .ok _ => exact ih (next (.ok ())) u
            | .error (.raised e) => exact ih (next (.error e)) u
            | .error .unfinished => exact .inl rfl

theorem extends_of_le (client : Client γ σ η κ α ε) {steps steps' : Nat} (h : steps ≤ steps') :
    Extends (client.run steps) (client.run steps') := by
  induction h with
  | refl => exact .refl _
  | step _ ih => exact ih.trans (extends_succ client _)

theorem mapError_raised_ne (outcome : Except ε Unit) :
    outcome.mapError .raised ≠ .error (.unfinished : Halt ε) := by
  cases outcome <;> nofun

theorem eq_of_extended {a b : Except (Halt ε) Unit × Exchange σ η κ α} {outcome : Except ε Unit}
    (h : a.1 = .error .unfinished ∨ b = a) (ha : a = (outcome.mapError .raised, t)) :
    b = (outcome.mapError .raised, t) := by
  subst ha
  exact h.resolve_left (mapError_raised_ne outcome)

theorem answers_iff {xs : List η} {outcome : Except ε Unit} :
    client.Answers n c args xs s outcome t ↔
      ∃ steps, ((⟨xs⟩ : Signal η).emit (client.deliver (client.run steps) n c args)).run s =
        (outcome.mapError .raised, t) := by
  constructor
  · intro h
    induction h with
    | all s => exact ⟨0, rfl⟩
    | @raised h rest s t e hcall =>
        obtain ⟨steps, hcall⟩ := hcall
        have hanswer : (client.answer (client.run steps) n c args h).run s =
          (.error (.raised e), t) := hcall
        exact ⟨steps, by rw [run_emit_cons, hanswer]; rfl⟩
    | @returned h rest s t u outcome hcall _ ih =>
        obtain ⟨steps, hcall⟩ := hcall
        obtain ⟨steps', hrest⟩ := ih
        have hanswer : (client.answer (client.run (max steps steps')) n c args h).run s =
            (.ok (), t) :=
          eq_of_extended ((extends_of_le client (Nat.le_max_left _ _)).answer client h s) hcall
        have hturns := eq_of_extended ((extends_of_le client (Nat.le_max_right steps steps')).turns
          client rest (t.record (.returned n))) hrest
        exact ⟨max steps steps', by rw [run_emit_cons, hanswer]; exact hturns⟩
  · rintro ⟨steps, h⟩
    induction xs generalizing s with
    | nil =>
        cases outcome with
        | ok _ =>
          cases h
          exact .all _
        | error e => cases h
    | cons x rest ih =>
        rw [run_emit_cons] at h
        rcases hcall : (client.answer (client.run steps) n c args x).run s with ⟨r, u⟩
        rw [hcall] at h
        match r with
        | .ok () => exact .returned ⟨steps, hcall⟩ (ih h)
        | .error (.raised e) =>
          cases outcome with
          | ok _ => cases h
          | error e' =>
            cases h
            exact .raised ⟨steps, hcall⟩
        | .error .unfinished => exact absurd (congrArg Prod.fst h).symm (mapError_raised_ne outcome)

theorem exists_answers {xs : List η}
    (h : ∀ x ∈ xs, ∀ s, ∃ outcome t, client.Ends (client.entry ⟨x, c, args⟩) s outcome t)
    (s : Exchange σ η κ α) : ∃ outcome t, client.Answers n c args xs s outcome t := by
  induction xs generalizing s with
  | nil => exact ⟨_, _, .all s⟩
  | cons x xs ih =>
      obtain ⟨outcome, t, hcall⟩ := h x List.mem_cons_self (s.record (.called n ⟨x, c, args⟩))
      cases outcome with
      | error e => exact ⟨_, _, .raised hcall⟩
      | ok _ =>
          obtain ⟨outcome, u, hrest⟩ :=
            ih (fun y hy => h y (List.mem_cons_of_mem x hy)) (t.record (.returned n))
          exact ⟨outcome, u, .returned hcall hrest⟩

end Client

/-- Whatever code does with a signal, and however long it runs, no handler is lost: those of the
signal are the ones that were connected, and each time that it is displayed it shows as many. Each
emission calls the handlers that were connected when it began, in the order of connection, once
for each connection and with its own context and arguments, and goes on to the next when one
returns. What is connected meanwhile is called by later emissions only, in its place. An emission
ends as its handlers do in turn, and it does end where each of them does. -/
theorem signal_delivers_once (client : Client γ σ η κ α ε) (main : γ) (outside : σ) (steps : Nat) :
    let s := ((client.run steps main).run (.start outside)).2
    s.signal.handlers = connected s.history ∧
    (∀ (i : Nat) x, s.history[i]? = some x → x.Follows (s.history.take i)) ∧
    (∀ n c args, s.history[n]? = some (.emitted c args) → s.history.Served n c args ∧
      ∀ (i : Nat) h, s.history[i]? = some (.connected h) →
        let place := (connected (s.history.take i)).length
        (n < i → (s.history.calls n).length ≤ place) ∧
        (i < n → (s.history.calls n)[place]? = some ⟨h, c, args⟩ ∨
          (s.history.calls n).length ≤ place ∧
            (s.history.calls n).length = s.history.returns n + 1)) ∧
    ∀ (t : Exchange σ η κ α) c args,
      (∀ outcome u, client.Emits c args t outcome u ↔ client.Answers t.history.length c args
        t.signal.handlers (t.record (.emitted c args)) outcome u) ∧
      ((∀ h ∈ t.signal.handlers, ∀ u, ∃ outcome v,
          client.Ends (client.entry ⟨h, c, args⟩) u outcome v) →
        ∃ outcome u, client.Emits c args t outcome u) := by
  intro s
  obtain ⟨hs, -⟩ := Client.behaves_run client steps main _ (Exchange.Sound.start outside)
  refine ⟨hs.handlers_eq, hs.coherent, fun n c args hn => ?_, fun t c args => ?_⟩
  · have hserved : s.history.Served n c args := hs.served n c args nofun hn
    refine ⟨hserved, fun i h hi => ⟨fun hlt => ?_, fun hlt => ?_⟩⟩
    · exact hserved.length_calls_le (Nat.le_of_lt hlt)
    · exact hserved.call_at_place hi hlt
  · have hiff (outcome : Except ε Unit) (u : Exchange σ η κ α) :
        client.Emits c args t outcome u ↔ client.Answers t.history.length c args
          t.signal.handlers (t.record (.emitted c args)) outcome u := Client.answers_iff.symm
    refine ⟨hiff, fun hends => ?_⟩
    obtain ⟨outcome, u, hu⟩ := Client.exists_answers hends (t.record (.emitted c args))
    exact ⟨outcome, u, (hiff outcome u).2 hu⟩

namespace Sample

inductive Listener
  | opener
  | closer
  deriving DecidableEq

inductive Errand
  | connect (h : Listener)
  | emit (c : String) (depth : Nat)
  | display

def desk : Client (List Errand) Unit Listener String Nat Unit where
  entry d :=
    match d.handler, d.args with
    | .opener, _ => [.connect .closer]
    | .closer, 0 => [.emit "closing" 1]
    | .closer, _ => []
  move
    | [], _ => .finish (.ok ())
    | .connect h :: rest, _ => .connect h rest
    | .emit c depth :: rest, _ => .emit c depth fun _ => rest
    | .display :: rest, _ => .display fun _ => rest
  effect _ outside := outside

def errands : List Errand := [.connect .opener, .connect .closer, .emit "opening" 0, .display]

def deskHistory : History Listener String Nat :=
  [.connected .opener, .connected .closer, .emitted "opening" 0,
    .called 2 ⟨.opener, "opening", 0⟩, .connected .closer, .returned 2,
    .called 2 ⟨.closer, "opening", 0⟩, .emitted "closing" 1,
    .called 7 ⟨.opener, "closing", 1⟩, .connected .closer, .returned 7,
    .called 7 ⟨.closer, "closing", 1⟩, .returned 7,
    .called 7 ⟨.closer, "closing", 1⟩, .returned 7, .returned 2,
    .displayed "Signal(4 handler(s))"]

theorem history_desk : ((desk.run 6 errands).run (.start ())).2.history = deskHistory := by
  decide +kernel

theorem desk_ends (h : Listener) (c : String) (s : Exchange Unit Listener String Nat) :
    ∃ outcome t, desk.Ends (desk.entry ⟨h, c, 1⟩) s outcome t := by
  cases h with
  | opener => exact ⟨.ok (), _, 2, rfl⟩
  | closer => exact ⟨.ok (), _, 1, rfl⟩

theorem closer_hears_closing :
    ((desk.run 6 errands).run (.start ())).2.history = deskHistory ∧
      deskHistory[2]? = some (.emitted "opening" 0) ∧
      deskHistory[4]? = some (.connected .closer) ∧
      deskHistory[7]? = some (.emitted "closing" 1) ∧
      ((desk.run 6 errands).run (.start ())).2.signal.handlers =
        [.opener, .closer, .closer, .closer] ∧
      Happening.Follows (deskHistory.take 16) (.displayed "Signal(4 handler(s))") ∧
      (deskHistory.calls 2).length ≤ 2 ∧
      (deskHistory.calls 7)[2]? = some ⟨.closer, "closing", 1⟩ ∧
      ∃ outcome t, desk.Emits "closing" 1 ((desk.run 6 errands).run (.start ())).2 outcome t := by
  obtain ⟨hhandlers, hfollows, hserved, hends⟩ := signal_delivers_once desk errands () 6
  rw [history_desk] at hhandlers hfollows hserved
  have hopening : deskHistory[2]? = some (.emitted "opening" 0) := rfl
  have hconnected : deskHistory[4]? = some (.connected .closer) := rfl
  have hclosing : deskHistory[7]? = some (.emitted "closing" 1) := rfl
  obtain ⟨-, hduring⟩ := hserved 2 "opening" 0 hopening
  obtain ⟨-, hafter⟩ := hserved 7 "closing" 1 hclosing
  have hunheard := (hduring 4 .closer hconnected).1 (by decide)
  have hheard : (deskHistory.calls 7)[2]? = some ⟨.closer, "closing", 1⟩ := by
    obtain hcall | ⟨hle, -⟩ := (hafter 4 .closer hconnected).2 (by decide)
    · exact hcall
    · exact absurd hle (by decide)
  have hend := (hends ((desk.run 6 errands).run (.start ())).2 "closing" 1).2
    fun h _ u => desk_ends h "closing" u
  exact ⟨history_desk, hopening, hconnected, hclosing, hhandlers, hfollows 16 _ rfl, hunheard,
    hheard, hend⟩

end Sample

end UiBinding
