import UiBinding.Property

namespace UiBinding

structure Delivery (η κ α : Type) where
  handler : η
  context : κ
  args : α
  deriving DecidableEq

/-- What happens to a signal. Calls and returns name the place of their emission in the history. -/
inductive Happening (η κ α : Type)
  | connected (h : η)
  | displayed (text : String)
  | emitted (c : κ) (args : α)
  | called (emission : Nat) (d : Delivery η κ α)
  | returned (emission : Nat)
  deriving DecidableEq

abbrev History (η κ α : Type) := List (Happening η κ α)

variable {η κ α : Type}

namespace Happening

def handler? : Happening η κ α → Option η
  | connected h => some h
  | _ => none

def emission? : Happening η κ α → Option Nat
  | called n _ | returned n => some n
  | _ => none

def callOf? (n : Nat) : Happening η κ α → Option (Delivery η κ α)
  | called m d => if m = n then some d else none
  | _ => none

def isReturnOf (n : Nat) : Happening η κ α → Bool
  | returned m => m = n
  | _ => false

end Happening

namespace History

def connected (history : History η κ α) : List η := history.filterMap Happening.handler?

def calls (history : History η κ α) (n : Nat) : List (Delivery η κ α) :=
  history.filterMap (Happening.callOf? n)

def returns (history : History η κ α) (n : Nat) : Nat := history.countP (Happening.isReturnOf n)

/-- The calls that an emission at a place has to make: one for each connection before it. -/
def due (history : History η κ α) (n : Nat) (c : κ) (args : α) : List (Delivery η κ α) :=
  (connected (history.take n)).map fun h => ⟨h, c, args⟩

/-- The emission at a place makes its calls in order, and stops at none that returns: all are made
and have returned, or the last one that is made has not returned. -/
structure Served (history : History η κ α) (n : Nat) (c : κ) (args : α) : Prop where
  in_order : history.calls n <+: history.due n c args
  complete : history.calls n = history.due n c args ∧
      history.returns n = (history.due n c args).length ∨
    (history.calls n).length = history.returns n + 1

def Silent (history : History η κ α) (n : Nat) : Prop := ∀ x ∈ history, x.emission? ≠ some n

end History

def Happening.Follows (history : History η κ α) : Happening η κ α → Prop
  | displayed text =>
    text = "Signal(" ++ toString history.connected.length ++ " handler(s))"
  | called n _ | returned n => ∃ c args, history[n]? = some (.emitted c args)
  | _ => True

namespace History

variable {history more : History η κ α} {x : Happening η κ α} {n : Nat} {c : κ} {args : α}

/-- Whatever happened makes sense after what happened before. -/
def Coherent (history : History η κ α) : Prop :=
  ∀ (i : Nat) (x : Happening η κ α), history[i]? = some x → x.Follows (history.take i)

theorem connected_append (history more : History η κ α) :
    connected (history ++ more) = connected history ++ connected more :=
  List.filterMap_append

theorem calls_append (history more : History η κ α) (n : Nat) :
    calls (history ++ more) n = calls history n ++ calls more n :=
  List.filterMap_append

theorem returns_append (history more : History η κ α) (n : Nat) :
    returns (history ++ more) n = returns history n + returns more n :=
  List.countP_append

theorem calls_called (n : Nat) (d : Delivery η κ α) : calls [.called n d] n = [d] :=
  List.filterMap_cons_some (if_pos rfl)

theorem returns_returned (n : Nat) : returns ([.returned n] : History η κ α) n = 1 :=
  List.countP_cons_of_pos (decide_eq_true rfl)

theorem Silent.calls_eq (h : Silent history n) : history.calls n = [] := by
  refine List.filterMap_eq_nil_iff.2 fun x hx => ?_
  cases x with
  | called m d => exact if_neg fun hm => h _ hx (congrArg some hm)
  | _ => rfl

theorem Silent.returns_eq (h : Silent history n) : history.returns n = 0 := by
  refine List.countP_eq_zero.2 fun x hx => ?_
  cases x with
  | returned m => exact fun hm => h _ hx (congrArg some (of_decide_eq_true hm))
  | _ => nofun

theorem due_append (hn : n ≤ history.length) (more : History η κ α) :
    due (history ++ more) n c args = due history n c args := by
  rw [due, due, List.take_append_of_le_length hn]

theorem Served.append (h : history.Served n c args) (hn : n ≤ history.length)
    (hmore : Silent more n) : Served (history ++ more) n c args where
  in_order := by
    rw [calls_append, hmore.calls_eq, List.append_nil, due_append hn]
    exact h.in_order
  complete := by
    rw [calls_append, hmore.calls_eq, List.append_nil, due_append hn, returns_append,
      hmore.returns_eq]
    exact h.complete

theorem Coherent.nil : Coherent ([] : History η κ α) := by
  intro i x hx
  cases hx

theorem Coherent.concat (h : history.Coherent) (hx : x.Follows history) :
    Coherent (history ++ [x]) := by
  intro i y hy
  obtain hi | rfl | hi := Nat.lt_trichotomy i history.length
  · rw [List.getElem?_append_left hi] at hy
    rw [List.take_append_of_le_length (Nat.le_of_lt hi)]
    exact h i y hy
  · rw [List.getElem?_concat_length] at hy
    cases hy
    rw [List.take_left]
    exact hx
  · rw [List.getElem?_eq_none (by rw [List.length_append]; exact hi)] at hy
    cases hy

theorem Coherent.silent (h : history.Coherent) (hn : history.length ≤ n) : Silent history n := by
  intro x hx hxn
  obtain ⟨i, hi⟩ := List.getElem?_of_mem hx
  have hlt {m : Nat} {c : κ} {args : α}
      (hm : (history.take i)[m]? = some (.emitted c args)) : m < history.length := by
    have hm := (List.getElem?_eq_some_iff.1 hm).1
    rw [List.length_take] at hm
    omega
  have hfollows := h i x hi
  cases x with
  | called m d | returned m =>
      obtain ⟨c, args, hm⟩ := hfollows
      cases hxn
      exact absurd (hlt hm) (Nat.not_lt.2 hn)
  | _ => cases hxn

def ServedBut (busy : Option Nat) (history : History η κ α) : Prop :=
  ∀ n c args, busy ≠ some n → history[n]? = some (.emitted c args) → history.Served n c args

theorem ServedBut.mono {busy busy' : Option Nat} (h : history.ServedBut busy)
    (hb : ∀ n, busy = some n → busy' = some n) : history.ServedBut busy' :=
  fun n c args hn => h n c args fun hbusy => hn (hb n hbusy)

theorem ServedBut.settle (h : history.ServedBut (some n))
    (hn : ∀ c args, history[n]? = some (.emitted c args) → history.Served n c args) :
    history.ServedBut none := by
  intro m c args _ hget
  by_cases hm : n = m
  · subst hm
    exact hn c args hget
  · exact h m c args (fun hbusy => hm (Option.some.inj hbusy)) hget

theorem ServedBut.concat {busy : Option Nat} (h : history.ServedBut busy)
    (hx : ∀ n, x.emission? = some n → busy = some n)
    (hnew : ∀ c args, x = .emitted c args → busy = some history.length) :
    ServedBut busy (history ++ [x]) := by
  intro n c args hn hget
  have hsilent : Silent [x] n := by
    intro y hy hyn
    rw [List.mem_singleton.1 hy] at hyn
    exact hn (hx n hyn)
  obtain hlt | rfl | hgt := Nat.lt_trichotomy n history.length
  · rw [List.getElem?_append_left hlt] at hget
    exact (h n c args hn hget).append (Nat.le_of_lt hlt) hsilent
  · rw [List.getElem?_concat_length] at hget
    exact absurd (hnew c args (Option.some.inj hget)) hn
  · rw [List.getElem?_eq_none (by rw [List.length_append]; exact hgt)] at hget
    cases hget

theorem connected_place {i : Nat} {h : η} (hi : history[i]? = some (.connected h)) (hn : i < n) :
    (connected (history.take n))[(connected (history.take i)).length]? = some h := by
  have hnext : connected (history.take (i + 1)) = connected (history.take i) ++ [h] := by
    rw [List.take_add_one, hi, connected_append]
    rfl
  obtain ⟨later, hlater⟩ := (List.take_prefix_take_left hn).filterMap Happening.handler?
  have hsplit : connected (history.take n) = connected (history.take i) ++ h :: later := by
    rw [connected, ← hlater, ← connected, hnext, List.append_assoc, List.singleton_append]
  rw [hsplit, List.getElem?_append_right (Nat.le_refl _), Nat.sub_self, List.getElem?_cons_zero]

namespace Served

variable {i : Nat}

theorem length_calls_le (h : history.Served n c args) (hn : n ≤ i) :
    (history.calls n).length ≤ (connected (history.take i)).length :=
  calc (history.calls n).length
    _ ≤ (history.due n c args).length := h.in_order.length_le
    _ = (connected (history.take n)).length := List.length_map _
    _ ≤ (connected (history.take i)).length :=
      ((List.take_prefix_take_left hn).filterMap Happening.handler?).length_le

theorem call_at_place (h : history.Served n c args) {x : η}
    (hi : history[i]? = some (.connected x)) (hn : i < n) :
    let place := (connected (history.take i)).length
    (history.calls n)[place]? = some ⟨x, c, args⟩ ∨
      (history.calls n).length ≤ place ∧ (history.calls n).length = history.returns n + 1 := by
  intro place
  have hdue : (history.due n c args)[place]? = some ⟨x, c, args⟩ := by
    rw [due, List.getElem?_map, connected_place hi hn]
    rfl
  obtain ⟨hall, -⟩ | hwaits := h.complete
  · exact .inl (hall ▸ hdue)
  · obtain hlt | hle := Nat.lt_or_ge place (history.calls n).length
    · obtain ⟨more, hmore⟩ := h.in_order
      rw [← hmore, List.getElem?_append_left hlt] at hdue
      exact .inl hdue
    · exact .inr ⟨hle, hwaits⟩

end Served

end History

end UiBinding
