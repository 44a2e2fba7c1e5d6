import UiBinding.Store

namespace UiBinding.Run

variable {α β : Type}

theorem run_bind (m : Run α) (f : α → Run β) (s : State) :
    (m >>= f).run s = match m.run s with
      | (.ok a, t) => (f a).run t
      | (.error stop, t) => (.error stop, t) := by
  change (ExceptT.bindCont f (m.run s).1).run (m.run s).2 = _
  rcases m.run s with ⟨r, t⟩
  cases r <;> rfl

theorem run_tryCatch (m : Run α) (f : Stop → Run α) (s : State) :
    (MonadExcept.tryCatch m f : Run α).run s = match m.run s with
      | (.ok a, t) => (.ok a, t)
      | (.error stop, t) => (f stop).run t := by
  simp only [tryCatch, tryCatchThe, MonadExceptOf.tryCatch, ExceptT.tryCatch, ExceptT.run,
    ExceptT.mk, bind, StateT.bind]
  rcases (m s : Except Stop α × State) with ⟨r, t⟩
  cases r <;> rfl

theorem run_cell (number : Nat) (index : Int) (s : State) :
    (Run.cell number index).run s = match s.cell? number index with
      | some c => (.ok c, s)
      | none => (.error (.error .noSlot), s) := by
  rw [Run.cell, run_bind]
  change (match s.cell? number index with
    | some c => (pure c : Run Cell)
    | none => fail .noSlot).run s = _
  cases s.cell? number index <;> rfl

/-- A result satisfies `post`, a stop `fails`. -/
def Ends (fails : Stop → Prop) (post : α → Prop) : Except Stop α → Prop
  | .ok a => post a
  | .error stop => fails stop

/-- Run from related states, two computations have one outcome and end in related states. -/
def Tracks (rel : State → State → Prop) (fails : Stop → Prop) (post : α → Prop)
    (m m' : Run α) : Prop :=
  ∀ s t, rel s t →
    (m.run s).1 = (m'.run t).1 ∧ rel (m.run s).2 (m'.run t).2 ∧ Ends fails post (m.run s).1

/-- Run from related states, a computation has one outcome and ends in related states. -/
def Respects (rel : State → State → Prop) (fails : Stop → Prop) (post : α → Prop) (m : Run α) :
    Prop :=
  ∀ s t, rel s t →
    (m.run s).1 = (m.run t).1 ∧ rel (m.run s).2 (m.run t).2 ∧ Ends fails post (m.run s).1

namespace Tracks

variable {rel : State → State → Prop} {fails : Stop → Prop} {post : α → Prop} {mid : β → Prop}
  {m m' : Run α}

theorem pure {a : α} (h : post a) : Tracks rel fails post (Pure.pure a) (Pure.pure a) :=
  fun _ _ hr => ⟨rfl, hr, h⟩

theorem throw {stop : Stop} (h : fails stop) :
    Tracks rel fails post (MonadExcept.throw stop) (MonadExcept.throw stop) :=
  fun _ _ hr => ⟨rfl, hr, h⟩

theorem fault {f : Fault} (h : fails (.error (.fault f))) :
    Tracks rel fails post (Run.fault f) (Run.fault f) := throw h

theorem bind {n n' : Run β} {f f' : β → Run α} (hn : Tracks rel fails mid n n')
    (hf : ∀ b, mid b → Tracks rel fails post (f b) (f' b)) :
    Tracks rel fails post (n >>= f) (n' >>= f') := by
  intro s t hr
  obtain ⟨he, hr', hp⟩ := hn s t hr
  rw [run_bind, run_bind]
  rcases hs : n.run s with ⟨r, s'⟩
  rcases ht : n'.run t with ⟨r', t'⟩
  rw [hs, ht] at he hr'
  rw [hs] at hp
  obtain rfl : r = r' := he
  cases r with
  | ok b => exact hf b hp s' t' hr'
  | error stop => exact ⟨rfl, hr', hp⟩

theorem tryCatch {f f' : Stop → Run α} (hm : Tracks rel fails post m m')
    (hf : ∀ stop, fails stop → Tracks rel fails post (f stop) (f' stop)) :
    Tracks rel fails post (MonadExcept.tryCatch m f) (MonadExcept.tryCatch m' f') := by
  intro s t hr
  obtain ⟨he, hr', hp⟩ := hm s t hr
  rw [run_tryCatch, run_tryCatch]
  rcases hs : m.run s with ⟨r, s'⟩
  rcases ht : m'.run t with ⟨r', t'⟩
  rw [hs, ht] at he hr'
  rw [hs] at hp
  obtain rfl : r = r' := he
  cases r with
  | ok a => exact ⟨rfl, hr', hp⟩
  | error stop => exact hf stop hp s' t' hr'

section Lists

variable {γ : Type}

theorem mapM {f f' : γ → Run β} (l : List γ)
    (h : ∀ c ∈ l, Tracks rel fails mid (f c) (f' c)) :
    Tracks rel fails (fun bs => ∀ b ∈ bs, mid b) (l.mapM f) (l.mapM f') := by
  induction l with
  | nil => exact pure (by simp)
  | cons c l ih =>
      rw [List.mapM_cons, List.mapM_cons]
      refine bind (h c (by simp)) fun b hb => ?_
      refine bind (ih fun d hd => h d (by simp [hd])) fun bs hbs => ?_
      exact pure (by simpa using ⟨hb, hbs⟩)

theorem forM {f f' : γ → Run Unit} (l : List γ)
    (h : ∀ c ∈ l, Tracks rel fails (fun _ => True) (f c) (f' c)) :
    Tracks rel fails (fun _ => True) (l.forM f) (l.forM f') := by
  induction l with
  | nil => exact pure trivial
  | cons c l ih =>
      change Tracks rel fails _ (f c >>= fun _ => l.forM f) (f' c >>= fun _ => l.forM f')
      exact bind (h c (by simp)) fun _ _ => ih fun d hd => h d (by simp [hd])

theorem foldlM {f f' : α → γ → Run α} (l : List γ)
    (h : ∀ a, post a → ∀ c ∈ l, Tracks rel fails post (f a c) (f' a c)) {a : α} (ha : post a) :
    Tracks rel fails post (l.foldlM f a) (l.foldlM f' a) := by
  induction l generalizing a with
  | nil => exact pure ha
  | cons c l ih =>
      rw [List.foldlM_cons, List.foldlM_cons]
      exact bind (h a ha c (by simp)) fun b hb => ih (fun x hx d hd => h x hx d (by simp [hd])) hb

end Lists

end Tracks

namespace Respects

variable {rel : State → State → Prop} {fails : Stop → Prop} {post : α → Prop} {mid : β → Prop}
  {m : Run α}

theorem tracks (h : Respects rel fails post m) : Tracks rel fails post m m := h

theorem pure {a : α} (h : post a) : Respects rel fails post (Pure.pure a) := Tracks.pure h

theorem throw {stop : Stop} (h : fails stop) :
    Respects rel fails post (MonadExcept.throw stop) := Tracks.throw h

theorem fault {f : Fault} (h : fails (.error (.fault f))) :
    Respects rel fails post (Run.fault f) := throw h

theorem fail {e : Error} (h : fails (.error e)) : Respects rel fails post (Run.fail e) := throw h

theorem bind {n : Run β} {f : β → Run α} (hn : Respects rel fails mid n)
    (hf : ∀ b, mid b → Respects rel fails post (f b)) : Respects rel fails post (n >>= f) :=
  Tracks.bind hn hf

theorem imp {post' : α → Prop} (h : Respects rel fails post m) (hp : ∀ a, post a → post' a) :
    Respects rel fails post' m := by
  intro s t hr
  obtain ⟨he, hr', hc⟩ := h s t hr
  refine ⟨he, hr', ?_⟩
  cases hm : (m.run s).1 with
  | ok a => rw [hm] at hc; exact hp a hc
  | error stop => rw [hm] at hc; exact hc

theorem tryCatch {f : Stop → Run α} (hm : Respects rel fails post m)
    (hf : ∀ stop, fails stop → Respects rel fails post (f stop)) :
    Respects rel fails post (MonadExcept.tryCatch m f) := Tracks.tryCatch hm hf

theorem ofExcept {x : Except Error α} (hok : ∀ a, x = .ok a → post a)
    (herr : ∀ e, x = .error e → fails (.error e)) : Respects rel fails post (Run.ofExcept x) := by
  cases x with
  | ok a => exact pure (hok a rfl)
  | error e => exact throw (herr e rfl)

theorem ofFault {x : Except Fault α} (hok : ∀ a, x = .ok a → post a)
    (herr : ∀ f, x = .error f → fails (.error (.fault f))) :
    Respects rel fails post (Run.ofFault x) := by
  cases x with
  | ok a => exact pure (hok a rfl)
  | error f => exact throw (herr f rfl)

theorem update {f : State → State} {post : Unit → Prop} (hp : post ())
    (hf : ∀ s t, rel s t → rel (f s) (f t)) : Respects rel fails post (modify f) :=
  fun s t hr => ⟨rfl, hf s t hr, hp⟩

theorem cell {number : Nat} {index : Int} {post : Cell → Prop}
    (h : ∀ s t, rel s t →
      ∃ c, s.cell? number index = some c ∧ t.cell? number index = some c ∧ post c) :
    Respects rel fails post (Run.cell number index) := by
  intro s t hr
  obtain ⟨c, hs, ht, hp⟩ := h s t hr
  rw [run_cell, run_cell, hs, ht]
  exact ⟨rfl, hr, hp⟩

section Lists

variable {γ : Type}

theorem mapM {f : γ → Run β} (l : List γ) (h : ∀ c ∈ l, Respects rel fails mid (f c)) :
    Respects rel fails (fun bs => ∀ b ∈ bs, mid b) (l.mapM f) := Tracks.mapM l h

theorem forM {f : γ → Run Unit} (l : List γ)
    (h : ∀ c ∈ l, Respects rel fails (fun _ => True) (f c)) :
    Respects rel fails (fun _ => True) (l.forM f) := Tracks.forM l h

theorem foldlM {f : α → γ → Run α} (l : List γ)
    (h : ∀ a, post a → ∀ c ∈ l, Respects rel fails post (f a c)) {a : α} (ha : post a) :
    Respects rel fails post (l.foldlM f a) := Tracks.foldlM l h ha

end Lists

end Respects

end UiBinding.Run
