import Mathlib.Data.List.Forall2
import Mathlib.Data.List.Induction
import UiBinding.Proofs.HalfAway
import UiBinding.Proofs.Layout
import UiBinding.Proofs.Storage

namespace UiBinding

namespace Binary64

theorem roundHalfEven_lt_iff {a b k : ℕ} (hb : 0 < b) :
    roundHalfEven a b < 2 ^ (k + 1) ↔ 2 * a + b < 2 * (2 ^ (k + 1) * b) := by
  have hsplit : a = a / b * b + a % b := by rw [Nat.mul_comm, Nat.div_add_mod]
  have hmod := Nat.mod_lt a hb
  have heven : 2 ^ (k + 1) = 2 * 2 ^ k := Nat.pow_succ'
  generalize 2 ^ (k + 1) = c at heven ⊢
  constructor
  · intro h
    have hstep : (roundHalfEven a b + 1) * b ≤ c * b := Nat.mul_le_mul_right b h
    rw [Nat.succ_mul] at hstep
    obtain ⟨hr, he⟩ | ⟨hr, he⟩ | ⟨hr, hround, he | he⟩ := roundHalfEven_cases a b
    · rw [he] at hstep
      omega
    · rw [he, Nat.succ_mul] at hstep
      omega
    · have hnext : (roundHalfEven a b + 2) * b ≤ c * b := Nat.mul_le_mul_right b (by omega)
      rw [he, Nat.add_mul] at hnext
      omega
    · rw [he, Nat.succ_mul] at hstep
      omega
  · intro h
    have hle := two_mul_roundHalfEven_le a b
    exact Nat.lt_of_mul_lt_mul_right (a := b) (by omega)

theorem isSome_ofInt?_iff (n : ℤ) : (ofInt? n).isSome ↔ nearest (n.natAbs * one) 1 < top := by
  have hm : (ofInt n).magnitude = min top (nearest (n.natAbs * one) 1) := rfl
  have hi : (ofInt n).isInfinite = true ↔ ¬ nearest (n.natAbs * one) 1 < top := by
    rw [isInfinite, beq_iff_eq, hm, min_eq_left_iff, Nat.not_lt]
  rw [ofInt?]
  split
  · rename_i h
    exact iff_of_false Bool.false_ne_true (hi.1 h)
  · rename_i h
    exact iff_of_true rfl (by rwa [hi, not_not] at h)

theorem nearest_lt_top_iff {a k : ℕ} (hk : k = 2045) :
    nearest a 1 < top ↔ 2 * a + 2 ^ k < 2 * (2 ^ 53 * 2 ^ k) := by
  have hbits : (2 : ℕ) ^ 53 = 2 * hidden := by decide
  have hn : nearest a 1 = excess 53 a * hidden + roundHalfEven a (2 ^ excess 53 a) := by
    rw [nearest, Nat.div_one, Nat.one_shiftLeft]
  have hlt := lt_two_pow_excess 53 a
  rw [Nat.pow_add] at hlt
  rcases Nat.lt_trichotomy (excess 53 a) k with h | h | h
  · refine iff_of_true (nearest_lt_top (by decide) (by rw [Nat.div_one]; omega)) ?_
    have hstep : 2 * 2 ^ excess 53 a ≤ 2 ^ k := by
      rw [← Nat.pow_succ']
      exact Nat.pow_le_pow_right (by decide) h
    omega
  · rw [hn, h, ← roundHalfEven_lt_iff (Nat.two_pow_pos k), hbits, top]
    rw [hidden]
    omega
  · have hlow := two_pow_excess_le (a := a) (by omega)
    rw [Nat.pow_add] at hlow
    have hround := le_roundHalfEven (Nat.two_pow_pos _) hlow
    have hstep : 2 * 2 ^ k ≤ 2 ^ excess 53 a := by
      rw [← Nat.pow_succ']
      exact Nat.pow_le_pow_right (by decide) h
    have hexp : 2046 * hidden ≤ excess 53 a * hidden := Nat.mul_le_mul_right _ (by omega)
    refine iff_of_false ?_ ?_
    · rw [hn, top]
      rw [hidden] at *
      omega
    · omega

theorem isSome_ofInt? {m k : ℕ} (hm : m = 970) (hk : k = 1024) (n : ℤ) :
    (ofInt? n).isSome ↔ n.natAbs + 2 ^ m < 2 ^ k := by
  obtain ⟨u, hu⟩ : ∃ u, u = 1074 := ⟨_, rfl⟩
  have hpos := Nat.two_pow_pos u
  have hlast : 2 ^ (m + u + 1) = 2 * (2 ^ m * 2 ^ u) := by rw [Nat.pow_succ', Nat.pow_add]
  have hall : 2 ^ 53 * 2 ^ (m + u + 1) = 2 ^ k * 2 ^ u := by
    rw [← Nat.pow_add, ← Nat.pow_add]
    congr 1
    omega
  rw [isSome_ofInt?_iff, one_eq hu, nearest_lt_top_iff (k := m + u + 1) (by omega), hall, hlast,
    ← Nat.mul_add, Nat.mul_lt_mul_left (by decide), ← Nat.add_mul, Nat.mul_lt_mul_right hpos]

end Binary64

theorem Assoc.get?_ofPairs_append {α : Type} {key : String} (left : Assoc α) (a : α)
    {right : Assoc α} (h : key ∉ right.keys) :
    (ofPairs (left ++ (key, a) :: right)).get? key = some a := by
  induction right using List.reverseRecOn with
  | nil => rw [ofPairs_append_singleton, get?_insert, if_pos rfl]
  | append_singleton right p ih =>
      obtain ⟨hright, hp⟩ : key ∉ keys right ∧ key ≠ p.1 := by simpa [keys] using h
      rw [← List.cons_append, ← List.append_assoc, ofPairs_append_singleton, get?_insert,
        if_neg hp, ih hright]

theorem map_eq_ok {ε α β : Type} {x : Except ε α} {f : α → β} {b : β} (h : x.map f = .ok b) :
    ∃ a, x = .ok a ∧ f a = b := by
  cases x with
  | error e => cases h
  | ok a => exact ⟨a, rfl, Except.ok.inj h⟩

namespace Native

def isSegment : Native → Bool
  | segment _ => true
  | _ => false

def isPath (items : List Native) : Bool := !items.isEmpty && items.all isSegment

mutual

/-- The data that inference comes to, in this order. It looks into dictionaries, but not at their
keys, and into sequences that are no paths. -/
def visited : Native → List Native
  | list items => list items :: if isPath items then [] else visitedItems items
  | tuple items => tuple items :: if isPath items then [] else visitedItems items
  | dict entries => dict entries :: visitedEntries entries
  | n => [n]

def visitedItems : List Native → List Native
  | [] => []
  | n :: ns => visited n ++ visitedItems ns

def visitedEntries : List (Native × Native) → List Native
  | [] => []
  | (_, n) :: entries => visited n ++ visitedEntries entries

end

/-- Data of a type that has values, whatever is inside of it. The integers are those that round to
a finite number. -/
inductive Supported : Native → Prop
  | null : Supported null
  | bool (b : Bool) : Supported (bool b)
  | int {n : ℤ} (h : n.natAbs + 2 ^ 970 < 2 ^ 1024) : Supported (int n)
  | float (x : Binary64) : Supported (float x)
  | string (s : String) : Supported (string s)
  | color (c : Color) : Supported (color c)
  | resource (r : Resource) : Supported (resource r)
  | value (v : Value) : Supported (value v)
  | dict (entries : List (Native × Native)) : Supported (dict entries)
  | list (items : List Native) : Supported (list items)
  | tuple (items : List Native) : Supported (tuple items)

def refusal : Native → NativeError
  | int _ => .integerTooLarge
  | n => .conversion ⟨n.kind, "value", some .unsupportedType⟩

/-- How inference over some data ends that it comes to in order: all of it is supported, or the
first that is not is to blame. -/
inductive Settled {α : Type} (ns : List Native) : Except NativeError α → Prop
  | accepted (a : α) (h : ∀ n ∈ ns, n.Supported) : Settled ns (.ok a)
  | refused {before after : List Native} {n : Native} (hns : ns = before ++ n :: after)
      (hbefore : ∀ m ∈ before, m.Supported) (hn : ¬ n.Supported) : Settled ns (.error n.refusal)

namespace Settled

variable {α β : Type} {ns ms : List Native} {x : Except NativeError α}

theorem single {n : Native} {a : α} (h : n.Supported) : Settled [n] (.ok a) :=
  .accepted a (by simpa using h)

theorem unsupported {n : Native} (h : ¬ n.Supported) :
    Settled (α := α) [n] (.error n.refusal) :=
  .refused (List.nil_append _).symm (by simp) h

theorem cons {n : Native} (hn : n.Supported) (h : Settled ns x) : Settled (n :: ns) x := by
  cases h with
  | accepted a h => exact .accepted a (List.forall_mem_cons.2 ⟨hn, h⟩)
  | refused hns hbefore hm =>
      exact .refused (by rw [hns, List.cons_append]) (List.forall_mem_cons.2 ⟨hn, hbefore⟩) hm

theorem map (f : α → β) (h : Settled ns x) : Settled ns (x.map f) := by
  cases h with
  | accepted a h => exact .accepted (f a) h
  | refused hns hbefore hn => exact .refused hns hbefore hn

theorem bind {f : α → Except NativeError β} (hx : Settled ns x) (hf : ∀ a, Settled ms (f a)) :
    Settled (ns ++ ms) (x >>= f) := by
  cases hx with
  | refused hns hbefore hn =>
      exact .refused (by rw [hns, List.append_assoc, List.cons_append]) hbefore hn
  | accepted a ha =>
      change Settled (ns ++ ms) (f a)
      have hfa := hf a
      generalize f a = y at hfa
      cases hfa with
      | accepted b hb => exact .accepted b (List.forall_mem_append.2 ⟨ha, hb⟩)
      | refused hms hbefore hn =>
          exact .refused (by rw [hms, List.append_assoc]) (List.forall_mem_append.2 ⟨ha, hbefore⟩) hn

end Settled

theorem segments?_map (segments : List Segment) :
    segments? (segments.map segment) = some segments := by
  induction segments with
  | nil => rfl
  | cons s segments ih => simp [segments?, segment?, ih]

theorem segments?_eq_none {items : List Native} (h : items.all isSegment = false) :
    segments? items = none := by
  induction items with
  | nil => cases h
  | cons n ns ih =>
      cases n with
      | segment s =>
          have hns : segments? ns = none := ih (by simpa [isSegment] using h)
          simp [segments?, hns]
      | _ => simp [segments?, segment?]

theorem exists_segments {items : List Native} (h : items.all isSegment = true) :
    ∃ segments : List Segment, items = segments.map segment := by
  induction items with
  | nil => exact ⟨[], rfl⟩
  | cons n ns ih =>
      obtain ⟨hn, hns⟩ := Bool.and_eq_true_iff.1 h
      obtain ⟨segments, rfl⟩ := ih hns
      cases n with
      | segment s => exact ⟨s :: segments, rfl⟩
      | _ => cases hn

theorem isPath_iff {items : List Native} :
    isPath items = true ↔ ∃ segments : List Segment, segments ≠ [] ∧ items = segments.map segment := by
  constructor
  · intro h
    obtain ⟨hne, hall⟩ := Bool.and_eq_true_iff.1 h
    obtain ⟨segments, rfl⟩ := exists_segments hall
    exact ⟨segments, fun h => by simp [h] at hne, rfl⟩
  · rintro ⟨segments, hne, rfl⟩
    cases segments with
    | nil => exact absurd rfl hne
    | cons s segments => simp [isPath, isSegment]

theorem toValue_path {segments : List Segment} (h : segments ≠ []) :
    toValue (list (segments.map segment)) = .ok (.path segments) := by
  cases segments with
  | nil => exact absurd rfl h
  | cons s segments =>
      rw [List.map_cons, toValue, ← List.map_cons, segments?_map]

theorem toValue_list {items : List Native} (h : isPath items = false) :
    toValue (list items) = (toItems items).map .array := by
  cases items with
  | nil => rfl
  | cons n ns =>
      rw [toValue, segments?_eq_none (by simpa [isPath] using h)]

theorem toValue_tuple (items : List Native) : toValue (tuple items) = toValue (list items) := by
  cases items with
  | nil => rfl
  | cons n ns => rw [toValue, toValue]

theorem settled_int (n : ℤ) : Settled [int n] ((ofInt n).map Value.number) := by
  have hsome := Binary64.isSome_ofInt? rfl rfl n
  rw [ofInt_eq]
  dsimp only
  cases h : Binary64.ofInt? n with
  | some x =>
      rw [h] at hsome
      exact .single (a := Value.number x) (.int (hsome.1 rfl))
  | none =>
      rw [h] at hsome
      refine .unsupported (n := int n) ?_
      intro hn
      cases hn with
      | int hx => cases hsome.2 hx

theorem settled_list {items : List Native} (h : Settled (visitedItems items) (toItems items)) :
    Settled (if isPath items then [] else visitedItems items) (toValue (list items)) := by
  cases hp : isPath items with
  | true =>
      obtain ⟨segments, hne, rfl⟩ := isPath_iff.1 hp
      rw [toValue_path hne]
      exact .accepted _ (by simp)
  | false =>
      rw [toValue_list hp]
      exact h.map _

mutual

theorem settled_toValue : ∀ n : Native, Settled (visited n) (toValue n)
  | null => .single .null
  | bool b => .single (.bool b)
  | int n => by
      rw [toValue]
      exact settled_int n
  | float x => .single (.float x)
  | string s => .single (.string s)
  | color c => .single (.color c)
  | resource r => .single (.resource r)
  | value v => .single (.value v)
  | segment s => .unsupported nofun
  | bytes _ => .unsupported nofun
  | emptySet => .unsupported nofun
  | object _ => .unsupported nofun
  | list items => by
      rw [visited]
      exact (settled_list (settled_toItems items)).cons (.list items)
  | tuple items => by
      rw [visited, toValue_tuple]
      exact (settled_list (settled_toItems items)).cons (.tuple items)
  | dict entries => by
      rw [visited, toValue]
      exact ((settled_toFields entries).map _).cons (.dict entries)

theorem settled_toItems : ∀ ns : List Native, Settled (visitedItems ns) (toItems ns)
  | [] => .accepted [] (by simp [visitedItems])
  | n :: ns => by
      rw [visitedItems, toItems]
      exact (settled_toValue n).bind fun v => (settled_toItems ns).map fun vs => v :: vs

theorem settled_toFields : ∀ entries : List (Native × Native),
    Settled (visitedEntries entries) (toFields entries)
  | [] => .accepted [] (by simp [visitedEntries])
  | (key, n) :: entries => by
      rw [visitedEntries, toFields]
      exact (settled_toValue n).bind fun v =>
        (settled_toFields entries).map fun fields => (key.text, v) :: fields

end

/-- The value of data that has one, from the values of its parts. -/
inductive Inferred : Native → Value → Prop
  | value (v : Value) : Inferred (value v) v
  | null : Inferred null .void
  | bool (b : Bool) : Inferred (bool b) (.bool b)
  | int {n : ℤ} {x : Binary64} (h : Binary64.ofInt? n = some x) : Inferred (int n) (.number x)
  | float (x : Binary64) : Inferred (float x) (.number x)
  | string (s : String) : Inferred (string s) (.string s)
  | color (c : Color) : Inferred (color c) (.color c)
  | resource (r : Resource) : Inferred (resource r) (.resource r)
  | path {items : List Native} {segments : List Segment} (hne : segments ≠ [])
      (hitems : items = segments.map segment) {n : Native} (hn : n = list items ∨ n = tuple items) :
      Inferred n (.path segments)
  | array {items : List Native} {vs : List Value} (hitems : isPath items = false)
      (hvs : List.Forall₂ (fun m v => toValue m = .ok v) items vs) {n : Native}
      (hn : n = list items ∨ n = tuple items) : Inferred n (.array vs)
  | object {entries : List (Native × Native)} {fields : Assoc Value}
      (hkeys : fields.keys = (entries.map fun e => e.1.text).eraseDups)
      (hlast : ∀ before key m after, entries = before ++ (key, m) :: after →
        key.text ∉ after.map (fun e => e.1.text) →
          ∃ v, toValue m = .ok v ∧ fields.get? key.text = some v) :
      Inferred (dict entries) (.object fields)

theorem toItems_ok {ns : List Native} {vs : List Value} (h : toItems ns = .ok vs) :
    List.Forall₂ (fun n v => toValue n = .ok v) ns vs := by
  induction ns generalizing vs with
  | nil =>
      cases h
      exact .nil
  | cons n ns ih =>
      obtain ⟨v, hv, h⟩ := bind_eq_ok h
      obtain ⟨us, hus, h⟩ := bind_eq_ok h
      cases h
      exact .cons hv (ih hus)

theorem keys_toFields {entries : List (Native × Native)} {fields : Assoc Value}
    (h : toFields entries = .ok fields) : fields.keys = entries.map fun e => e.1.text := by
  induction entries generalizing fields with
  | nil =>
      cases h
      rfl
  | cons e entries ih =>
      obtain ⟨v, -, h⟩ := bind_eq_ok h
      obtain ⟨rest, hrest, h⟩ := bind_eq_ok h
      cases h
      exact congrArg (e.1.text :: ·) (ih hrest)

theorem toFields_append {before after : List (Native × Native)} {key n : Native}
    {fields : Assoc Value} (h : toFields (before ++ (key, n) :: after) = .ok fields) :
    ∃ v left right, toValue n = .ok v ∧ toFields after = .ok right ∧
      fields = left ++ (key.text, v) :: right := by
  induction before generalizing fields with
  | nil =>
      obtain ⟨v, hv, h⟩ := bind_eq_ok h
      obtain ⟨right, hright, h⟩ := bind_eq_ok h
      cases h
      exact ⟨v, [], right, hv, hright, rfl⟩
  | cons e before ih =>
      obtain ⟨u, -, h⟩ := bind_eq_ok h
      obtain ⟨rest, hrest, h⟩ := bind_eq_ok h
      cases h
      obtain ⟨v, left, right, hv, hright, rfl⟩ := ih hrest
      exact ⟨v, (e.1.text, u) :: left, right, hv, hright, rfl⟩

theorem inferred_dict {entries : List (Native × Native)} {fields : Assoc Value}
    (h : toFields entries = .ok fields) :
    Inferred (dict entries) (.object (Assoc.ofPairs fields)) := by
  refine .object ?_ fun before key m after he hlast => ?_
  · rw [Assoc.keys_ofPairs]
    exact congrArg List.eraseDups (keys_toFields h)
  · obtain ⟨v, left, right, hv, hright, rfl⟩ := toFields_append (he ▸ h)
    rw [← keys_toFields hright] at hlast
    exact ⟨v, hv, Assoc.get?_ofPairs_append left v hlast⟩

theorem inferred_of_ok {n : Native} {v : Value} (h : toValue n = .ok v) : Inferred n v := by
  have hlist : ∀ items : List Native, toValue (list items) = .ok v →
      ∀ n, n = list items ∨ n = tuple items → Inferred n v := by
    intro items h n hn
    cases hp : isPath items with
    | true =>
        obtain ⟨segments, hne, rfl⟩ := isPath_iff.1 hp
        rw [toValue_path hne] at h
        cases h
        exact .path hne rfl hn
    | false =>
        rw [toValue_list hp] at h
        obtain ⟨vs, hvs, rfl⟩ := map_eq_ok h
        exact .array hp (toItems_ok hvs) hn
  cases n with
  | list items => exact hlist items h _ (.inl rfl)
  | tuple items => exact hlist items (toValue_tuple items ▸ h) _ (.inr rfl)
  | int n =>
      rw [toValue, ofInt_eq] at h
      dsimp only at h
      split at h
      · rename_i x hx
        cases h
        exact .int hx
      · cases h
  | dict entries =>
      rw [toValue] at h
      obtain ⟨fields, hfields, rfl⟩ := map_eq_ok h
      exact inferred_dict hfields
  | segment | bytes | emptySet | object => cases h
  | _ =>
      cases h
      constructor

theorem Settled.exists_ok_iff {α : Type} {ns : List Native} {x : Except NativeError α}
    (h : Settled ns x) : (∃ a, x = .ok a) ↔ ∀ n ∈ ns, n.Supported := by
  cases h with
  | accepted a h => exact iff_of_true ⟨a, rfl⟩ h
  | refused hns _ hn =>
      refine iff_of_false (fun ⟨_, h⟩ => by cases h) fun h => hn (h _ ?_)
      rw [hns]
      exact List.mem_append_right _ List.mem_cons_self

theorem eq_of_first_unsupported {before before' after after' : List Native} {n m : Native}
    (h : before ++ n :: after = before' ++ m :: after') (hbefore : ∀ l ∈ before, l.Supported)
    (hbefore' : ∀ l ∈ before', l.Supported) (hn : ¬ n.Supported) (hm : ¬ m.Supported) : n = m := by
  induction before generalizing before' with
  | nil =>
      cases before' with
      | nil => exact (List.cons.inj h).1
      | cons l before' =>
          rw [(List.cons.inj h).1] at hn
          exact absurd (hbefore' l List.mem_cons_self) hn
  | cons l before ih =>
      cases before' with
      | nil =>
          rw [← (List.cons.inj h).1] at hm
          exact absurd (hbefore l List.mem_cons_self) hm
      | cons l' before' =>
          exact ih (List.cons.inj h).2 (List.forall_mem_cons.1 hbefore).2
            (List.forall_mem_cons.1 hbefore').2

theorem Settled.eq_error_iff {α : Type} {ns : List Native} {x : Except NativeError α}
    (h : Settled ns x) (e : NativeError) :
    x = .error e ↔ ∃ before n after, ns = before ++ n :: after ∧
      (∀ m ∈ before, m.Supported) ∧ ¬ n.Supported ∧ e = n.refusal := by
  cases h with
  | accepted a h =>
      refine iff_of_false nofun fun ⟨before, n, after, hns, _, hn, _⟩ => hn (h n ?_)
      rw [hns]
      exact List.mem_append_right _ List.mem_cons_self
  | refused hns hbefore hn =>
      constructor
      · intro he
        exact ⟨_, _, _, hns, hbefore, hn, (Except.error.inj he).symm⟩
      · rintro ⟨before, m, after, hms, hbefore', hm, rfl⟩
        rw [eq_of_first_unsupported (hns.symm.trans hms) hbefore hbefore' hn hm]

theorem Settled.conversion {α : Type} {ns : List Native} {x : Except NativeError α}
    (h : Settled ns x) {m : Native} (hm : m ∈ ns) (hunsupported : ¬ m.Supported)
    (hints : ∀ i, int i ∈ ns → (int i).Supported) : ∃ f, x = .error (.conversion f) := by
  cases h with
  | accepted a h => exact absurd (h m hm) hunsupported
  | @refused _ _ n hns _ hn =>
      have hmem : n ∈ ns := by
        rw [hns]
        exact List.mem_append_right _ List.mem_cons_self
      cases n with
      | int i => exact absurd (hints i hmem) hn
      | _ => exact ⟨_, rfl⟩

theorem segment_mem_visitedItems {items : List Native} {s : Segment} (h : segment s ∈ items) :
    segment s ∈ visitedItems items := by
  induction items with
  | nil => cases h
  | cons n ns ih =>
      rw [visitedItems, List.mem_append]
      obtain rfl | h := List.mem_cons.1 h
      · exact .inl List.mem_cons_self
      · exact .inr (ih h)

theorem segment_mem_visited {items : List Native} {s : Segment} (h : segment s ∈ items)
    (hp : isPath items = false) {n : Native} (hn : n = list items ∨ n = tuple items) :
    segment s ∈ visited n := by
  have hmem := List.mem_cons_of_mem n (segment_mem_visitedItems h)
  rcases hn with rfl | rfl <;> simpa [visited, hp] using hmem

/-- A value is inferred for the data that has nothing unsupported in it, and else the first such node
is reported. Next to a segment that is not in a path this is a conversion that fails, but for integers
that are too large. -/
theorem toValue_outcomes (n : Native) :
    ((∃ v, toValue n = .ok v) ↔ ∀ m ∈ visited n, m.Supported) ∧
    (∀ e, toValue n = .error e ↔ ∃ before m after, visited n = before ++ m :: after ∧
      (∀ l ∈ before, l.Supported) ∧ ¬ m.Supported ∧ e = m.refusal) ∧
    (∀ v, toValue n = .ok v → Inferred n v) ∧
    (∀ s, n = segment s →
      toValue n = .error (.conversion ⟨s.kind, "value", some .unsupportedType⟩)) ∧
    ∀ items s, (n = list items ∨ n = tuple items) → segment s ∈ items → isPath items = false →
      (∃ e, toValue n = .error e) ∧
        ((∀ i, int i ∈ visited n → (int i).Supported) → ∃ f, toValue n = .error (.conversion f)) := by
  have hsettled := settled_toValue n
  refine ⟨hsettled.exists_ok_iff, hsettled.eq_error_iff, fun v => inferred_of_ok, ?_, ?_⟩
  · rintro s rfl
    rfl
  · intro items s hn hs hp
    have hmem := segment_mem_visited hs hp hn
    refine ⟨?_, hsettled.conversion hmem nofun⟩
    cases h : toValue n with
    | error e => exact ⟨e, rfl⟩
    | ok v => exact absurd (hsettled.exists_ok_iff.1 ⟨v, h⟩ _ hmem) nofun

def origin : Native := segment (.lineTo ⟨.zero, .zero⟩)

theorem mixed_list_refused :
    (∃ f, toValue (list [null, origin]) = .error (.conversion f)) ∧
      Inferred (dict [(int 1, null), (string "2", bool true), (string "1", list [origin])])
        (.object [("1", .path [.lineTo ⟨.zero, .zero⟩]), ("2", .bool true)]) :=
  ⟨((toValue_outcomes (list [null, origin])).2.2.2.2 _ _ (.inl rfl)
      (List.mem_cons_of_mem _ List.mem_cons_self) rfl).2
      (by simp [visited, visitedItems, isPath, isSegment, origin]),
    (toValue_outcomes _).2.2.1 _ rfl⟩

theorem toValue_large_int {n : ℤ} (h : ¬ (int n).Supported) (items : List Native) :
    toValue (list (int n :: items)) = .error .integerTooLarge :=
  ((settled_toValue _).eq_error_iff _).2
    ⟨[list (int n :: items)], int n, visitedItems items, rfl, by simpa using .list _, h, rfl⟩

/-- The integer comes first, and has no nearest number. -/
theorem mixed_list_overflows : ¬ ∀ items s, segment s ∈ items → isPath items = false →
    ∃ f, toValue (list items) = .error (.conversion f) := by
  intro h
  obtain ⟨k, hk⟩ : ∃ k, k = 1024 := ⟨_, rfl⟩
  have hlarge : ¬ Supported (int (2 ^ k)) := by
    intro hs
    cases hs with
    | int hlt =>
        rw [Int.natAbs_pow, ← hk] at hlt
        exact absurd hlt (Nat.not_lt.2 (Nat.le_add_right _ _))
  obtain ⟨f, hf⟩ := h [int (2 ^ k), origin] _ (List.mem_cons_of_mem _ List.mem_cons_self) rfl
  cases (toValue_large_int hlarge [origin]).symm.trans hf

end Native

end UiBinding
