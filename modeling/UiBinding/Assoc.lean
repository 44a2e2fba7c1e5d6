namespace UiBinding

/-- Finite maps in order of insertion. A key that is given again keeps its place and
takes the new entry. -/
abbrev Assoc (α : Type) := List (String × α)

namespace Assoc

variable {α : Type}

def get? : Assoc α → String → Option α
  | [], _ => none
  | (k, a) :: m, key => if key = k then some a else get? m key

def keys (m : Assoc α) : List String := m.map Prod.fst

def insert : Assoc α → String → α → Assoc α
  | [], key, a => [(key, a)]
  | (k, b) :: m, key, a => if k = key then (k, a) :: m else (k, b) :: insert m key a

def ofPairs (pairs : List (String × α)) : Assoc α :=
  pairs.foldl (fun m p => insert m p.1 p.2) []

theorem mem_of_get? {m : Assoc α} {key : String} {a : α} (h : m.get? key = some a) :
    (key, a) ∈ m := by
  induction m with
  | nil => cases h
  | cons p m ih =>
      obtain ⟨k, b⟩ := p
      rw [get?] at h
      split at h
      · rename_i hk
        cases h
        rw [hk]
        exact List.mem_cons_self
      · exact List.mem_cons_of_mem _ (ih h)

theorem get?_insert (m : Assoc α) (k key : String) (a : α) :
    (insert m key a).get? k = if k = key then some a else m.get? k := by
  induction m with
  | nil => rfl
  | cons p m ih =>
      obtain ⟨l, b⟩ := p
      by_cases hl : l = key
      · subst hl
        by_cases h : k = l <;> simp [insert, get?, h]
      · by_cases h : k = l
        · subst h; simp [insert, get?, hl]
        · simp [insert, get?, hl, h, ih]

theorem keys_insert (m : Assoc α) (key : String) (a : α) :
    (insert m key a).keys = if key ∈ m.keys then m.keys else m.keys ++ [key] := by
  induction m with
  | nil => simp [insert, keys]
  | cons p m ih =>
      obtain ⟨l, b⟩ := p
      by_cases hl : l = key
      · simp [insert, keys, hl]
      · have hne : ¬ key = l := fun h => hl h.symm
        by_cases hk : key ∈ keys m
        · rw [if_pos hk] at ih
          simpa [insert, keys, hl, hne, show ∃ x, (key, x) ∈ m by simpa [keys] using hk] using ih
        · rw [if_neg hk] at ih
          simpa [insert, keys, hl, hne, show ∀ x, (key, x) ∉ m by simpa [keys] using hk] using ih

theorem keys_append_singleton (m : Assoc α) (key : String) (a : α) :
    keys (m ++ [(key, a)]) = m.keys ++ [key] := List.map_append

theorem nodup_keys_append_singleton {m : Assoc α} (h : m.keys.Nodup) {key : String}
    (hk : key ∉ m.keys) (a : α) : (keys (m ++ [(key, a)])).Nodup := by
  rw [keys_append_singleton]
  refine List.nodup_append.2 ⟨h, by simp, fun x hx y hy => ?_⟩
  rw [List.mem_singleton.1 hy]
  exact fun e => hk (e ▸ hx)

theorem nodup_keys_insert {m : Assoc α} (h : m.keys.Nodup) (key : String) (a : α) :
    (insert m key a).keys.Nodup := by
  rw [keys_insert]
  split
  · exact h
  · rename_i hk
    rw [← keys_append_singleton m key a]
    exact nodup_keys_append_singleton h hk a

theorem nodup_keys_ofPairs (pairs : List (String × α)) : (ofPairs pairs).keys.Nodup := by
  suffices ∀ m : Assoc α, m.keys.Nodup →
      (pairs.foldl (fun m p => insert m p.1 p.2) m).keys.Nodup from this [] List.nodup_nil
  induction pairs with
  | nil => exact fun m h => h
  | cons p pairs ih => exact fun m h => ih _ (nodup_keys_insert h p.1 p.2)

theorem get?_of_mem {m : Assoc α} (h : m.keys.Nodup) {key : String} {a : α} (ha : (key, a) ∈ m) :
    m.get? key = some a := by
  induction m with
  | nil => cases ha
  | cons p m ih =>
      obtain ⟨k, b⟩ := p
      obtain ⟨hk, h⟩ := List.nodup_cons.1 h
      obtain he | hm := List.mem_cons.1 ha
      · cases he
        exact if_pos rfl
      · have hne : key ≠ k := fun he => hk (List.mem_map.2 ⟨_, hm, he⟩)
        rw [get?, if_neg hne]
        exact ih h hm

theorem isSome_get? {m : Assoc α} {key : String} : (m.get? key).isSome ↔ key ∈ m.keys := by
  induction m with
  | nil => simp [get?, keys]
  | cons p m ih =>
      obtain ⟨k, b⟩ := p
      by_cases h : key = k
      · simp [get?, keys, h]
      · simpa [get?, keys, h] using ih

theorem ofPairs_append_singleton (pairs : List (String × α)) (p : String × α) :
    ofPairs (pairs ++ [p]) = (ofPairs pairs).insert p.1 p.2 := List.foldl_append

theorem get?_ofPairs (pairs : List (String × α)) (key : String) :
    (ofPairs pairs).get? key = get? pairs.reverse key := by
  rw [← pairs.reverse_reverse, List.reverse_reverse pairs.reverse]
  induction pairs.reverse with
  | nil => rfl
  | cons p l ih =>
      rw [List.reverse_cons, ofPairs_append_singleton, get?_insert, ih]
      rfl

theorem keys_ofPairs (pairs : List (String × α)) :
    (ofPairs pairs).keys = (pairs.map Prod.fst).eraseDups := by
  rw [← pairs.reverse_reverse]
  induction pairs.reverse with
  | nil => rfl
  | cons p l ih =>
      rw [List.reverse_cons, ofPairs_append_singleton, keys_insert, ih, List.map_append,
        List.eraseDups_append]
      generalize l.reverse.map Prod.fst = keys
      by_cases h : p.1 ∈ keys
      · rw [if_pos (List.mem_eraseDups.2 h)]
        simp [List.removeAll, h]
      · rw [if_neg (mt List.mem_eraseDups.1 h)]
        simp [List.removeAll, List.eraseDups_cons, h]

end Assoc

end UiBinding
