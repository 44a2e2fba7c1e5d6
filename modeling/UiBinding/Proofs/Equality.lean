import Mathlib.Data.List.Forall2
import Mathlib.Data.List.Perm.Subperm
import UiBinding.Proofs.Transparency

namespace UiBinding

namespace Binary64

theorem eq_iff {x y : Binary64} :
    x.eq y = true ↔ (x.isNaN = false ∧ y.isNaN = false) ∧ x.rank = y.rank := by
  simp [eq]

theorem eq_symm {x y : Binary64} (h : x.eq y = true) : y.eq x = true := by
  obtain ⟨⟨hx, hy⟩, hrank⟩ := eq_iff.1 h
  exact eq_iff.2 ⟨⟨hy, hx⟩, hrank.symm⟩

theorem eq_trans {x y z : Binary64} (h : x.eq y = true) (h' : y.eq z = true) : x.eq z = true := by
  obtain ⟨⟨hx, -⟩, hrank⟩ := eq_iff.1 h
  obtain ⟨⟨-, hz⟩, hrank'⟩ := eq_iff.1 h'
  exact eq_iff.2 ⟨⟨hx, hz⟩, hrank.trans hrank'⟩

theorem same_iff {x y : Binary64} : x.same y = true ↔ x.eq y = true ∨ x = nan ∧ y = nan := by
  simp [same]

theorem same_symm {x y : Binary64} (h : x.same y = true) : y.same x = true := by
  rw [same_iff] at h ⊢
  exact h.imp eq_symm And.symm

theorem same_trans {x y z : Binary64} (h : x.same y = true) (h' : y.same z = true) :
    x.same z = true := by
  rw [same_iff] at h h' ⊢
  obtain h | ⟨rfl, rfl⟩ := h
  · obtain h' | ⟨rfl, rfl⟩ := h'
    · exact .inl (eq_trans h h')
    · exact .inl h
  · exact h'

theorem same_self_iff {x : Binary64} : x.same x = true ↔ (x.isNaN = true → x = nan) := by
  rw [same_iff, eq_iff, and_self, and_self, ← Bool.not_eq_true]
  tauto

end Binary64

section Relations

variable {α : Type} {R : α → α → Prop}

theorem forall₂_symm {as bs : List α} (h : List.Forall₂ R as bs)
    (hs : ∀ a ∈ as, ∀ b ∈ bs, R a b → R b a) : List.Forall₂ R bs as := by
  induction h with
  | nil => exact .nil
  | cons hab _ ih =>
      refine .cons (hs _ (by simp) _ (by simp) hab) (ih fun a ha b hb => ?_)
      exact hs a (by simp [ha]) b (by simp [hb])

theorem forall₂_trans {as bs cs : List α} (h : List.Forall₂ R as bs) (h' : List.Forall₂ R bs cs)
    (ht : ∀ a ∈ as, ∀ b ∈ bs, ∀ c ∈ cs, R a b → R b c → R a c) : List.Forall₂ R as cs := by
  induction h generalizing cs with
  | nil =>
      cases h'
      exact .nil
  | cons hab _ ih =>
      cases h' with
      | cons hbc h' =>
          refine .cons (ht _ (by simp) _ (by simp) _ (by simp) hab hbc)
            (ih h' fun a ha b hb c hc => ?_)
          exact ht a (by simp [ha]) b (by simp [hb]) c (by simp [hc])

end Relations

namespace Assoc

variable {α : Type} {R : α → α → Prop} {as bs cs : Assoc α}

/-- Two maps have the same keys, with related entries. -/
def Pairs (R : α → α → Prop) (as bs : Assoc α) : Prop :=
  ∀ key, Option.Rel R (as.get? key) (bs.get? key)

namespace Pairs

theorem keys_perm (h : Pairs R as bs) (ha : as.keys.Nodup) (hb : bs.keys.Nodup) :
    as.keys.Perm bs.keys := by
  refine (List.perm_ext_iff_of_nodup ha hb).2 fun key => ?_
  rw [← isSome_get?, ← isSome_get?]
  have hkey := h key
  generalize as.get? key = x at hkey ⊢
  generalize bs.get? key = y at hkey ⊢
  cases hkey <;> simp

theorem symm (h : Pairs R as bs)
    (hs : ∀ a ∈ as.map Prod.snd, ∀ b ∈ bs.map Prod.snd, R a b → R b a) : Pairs R bs as := by
  intro key
  have hkey := h key
  cases ha : as.get? key with
  | none =>
      rw [ha] at hkey
      cases hb : bs.get? key
      · exact .none
      · rw [hb] at hkey
        cases hkey
  | some a =>
      cases hb : bs.get? key with
      | none =>
          rw [ha, hb] at hkey
          cases hkey
      | some b =>
          rw [ha, hb] at hkey
          cases hkey with
          | some hab =>
              exact .some (hs a (List.mem_map_of_mem (mem_of_get? ha)) b
                (List.mem_map_of_mem (mem_of_get? hb)) hab)

end Pairs

theorem pairs_iff (ha : as.keys.Nodup) (hb : bs.keys.Nodup) :
    Pairs R as bs ↔
      as.length = bs.length ∧ ∀ f ∈ as, ∃ b, bs.get? f.1 = some b ∧ R f.2 b := by
  constructor
  · intro h
    refine ⟨?_, fun f hf => ?_⟩
    · simpa [keys] using (h.keys_perm ha hb).length_eq
    · have hkey := h f.1
      rw [get?_of_mem ha hf] at hkey
      cases hfound : bs.get? f.1 with
      | none =>
          rw [hfound] at hkey
          cases hkey
      | some b =>
          rw [hfound] at hkey
          cases hkey with
          | some hab => exact ⟨b, rfl, hab⟩
  · rintro ⟨hlength, hfields⟩ key
    have hsub : as.keys ⊆ bs.keys := by
      intro k hk
      obtain ⟨f, hf, rfl⟩ := List.mem_map.1 hk
      obtain ⟨b, hb, -⟩ := hfields f hf
      exact isSome_get?.1 (by rw [hb]; rfl)
    have hperm : as.keys.Perm bs.keys :=
      (List.Nodup.subperm ha hsub).perm_of_length_le (by simp [keys, hlength])
    cases hfound : as.get? key with
    | none =>
        have hkey : key ∉ bs.keys := by
          rw [← hperm.mem_iff, ← isSome_get?, hfound]
          exact Bool.false_ne_true
        rw [← isSome_get?, Option.not_isSome_iff_eq_none] at hkey
        rw [hkey]
        exact .none
    | some a =>
        obtain ⟨b, hb, hab⟩ := hfields _ (mem_of_get? hfound)
        rw [hb]
        exact .some hab

theorem pairs_self_iff (h : as.keys.Nodup) : Pairs R as as ↔ ∀ a ∈ as.map Prod.snd, R a a := by
  rw [pairs_iff h h, List.forall_mem_map]
  refine ⟨fun ⟨_, hfields⟩ f hf => ?_, fun hself => ⟨rfl, fun f hf => ?_⟩⟩
  · obtain ⟨b, hb, hfb⟩ := hfields f hf
    rw [get?_of_mem h hf] at hb
    cases hb
    exact hfb
  · exact ⟨f.2, get?_of_mem h hf, hself f hf⟩

end Assoc

namespace Segment

variable {s t u : Segment}

def numbers : Segment → List Binary64
  | lineTo l => [l.x, l.y]
  | arcTo a => [a.x, a.y, a.radiusX, a.radiusY, a.xRotation]

def flags : Segment → List Bool
  | lineTo _ => []
  | arcTo a => [a.largeArc, a.sweep]

theorem eq_iff : s.eq t = true ↔ s.shape = t.shape ∧
    List.Forall₂ (fun x y => x.same y = true) s.numbers t.numbers ∧ s.flags = t.flags := by
  cases s <;> cases t <;> simp [eq, shape, numbers, flags, and_assoc]

theorem eq_symm (h : s.eq t = true) : t.eq s = true := by
  obtain ⟨hshape, hnumbers, hflags⟩ := eq_iff.1 h
  exact eq_iff.2 ⟨hshape.symm, forall₂_symm hnumbers fun _ _ _ _ => Binary64.same_symm, hflags.symm⟩

theorem eq_trans (h : s.eq t = true) (h' : t.eq u = true) : s.eq u = true := by
  obtain ⟨hshape, hnumbers, hflags⟩ := eq_iff.1 h
  obtain ⟨hshape', hnumbers', hflags'⟩ := eq_iff.1 h'
  exact eq_iff.2 ⟨hshape.trans hshape',
    forall₂_trans hnumbers hnumbers' fun _ _ _ _ _ _ => Binary64.same_trans, hflags.trans hflags'⟩

theorem eq_self_iff : s.eq s = true ↔ ∀ n ∈ s.numbers, n.isNaN = true → n = .nan := by
  simp [eq_iff, List.forall₂_same, Binary64.same_self_iff]

end Segment

namespace Value

def children : Value → List Value
  | array items => items
  | object fields => fields.map Prod.snd
  | _ => []

theorem sizeOf_lt_of_mem_children {v x : Value} (h : x ∈ v.children) : sizeOf x < sizeOf v := by
  cases v with
  | array items =>
      have hlt := List.sizeOf_lt_of_mem (show x ∈ items from h)
      rw [array.sizeOf_spec]
      omega
  | object fields =>
      obtain ⟨f, hf, rfl⟩ := List.mem_map.1 h
      have hlt := List.sizeOf_lt_of_mem hf
      rw [Prod.mk.sizeOf_spec] at hlt
      rw [object.sizeOf_spec]
      omega
  | _ => cases h

theorem children_induction {motive : Value → Prop}
    (intro : ∀ v, (∀ x ∈ v.children, motive x) → motive v) (v : Value) : motive v :=
  intro v fun x _ => children_induction intro x
termination_by sizeOf v
decreasing_by exact sizeOf_lt_of_mem_children ‹_›

def numbers : Value → List Binary64
  | number n => [n]
  | path segments => segments.flatMap Segment.numbers
  | _ => []

def fieldNames : Value → List String
  | object fields => Assoc.keys fields
  | _ => []

/-- A property of a value and of all values inside it. -/
inductive Throughout (p : Value → Prop) : Value → Prop
  | intro (v : Value) (here : p v) (inside : ∀ x ∈ v.children, Throughout p x) : Throughout p v

/-- No object inside gives a field twice. -/
def Keyed : Value → Prop := Throughout fun v => v.fieldNames.Nodup

/-- Every NaN inside is the constant one. -/
def ConstantNaN : Value → Prop := Throughout fun v => ∀ n ∈ v.numbers, n.isNaN = true → n = .nan

theorem throughout_iff {p : Value → Prop} {v : Value} :
    v.Throughout p ↔ p v ∧ ∀ x ∈ v.children, x.Throughout p := by
  constructor
  · intro h
    cases h with
    | intro _ here inside => exact ⟨here, inside⟩
  · exact fun h => .intro v h.1 h.2

/-- Values of one kind whose contents are equal. -/
inductive Matches : Value → Value → Prop
  | void : Matches void void
  | number {x y : Binary64} (h : x.same y = true) : Matches (number x) (number y)
  | string (s : String) : Matches (string s) (string s)
  | bool (b : Bool) : Matches (bool b) (bool b)
  | resource (r : Resource) : Matches (resource r) (resource r)
  | array {as bs : List Value} (h : List.Forall₂ (fun a b => a.eq b = true) as bs) :
    Matches (array as) (array bs)
  | object {as bs : Assoc Value} (hlength : as.length = bs.length)
    (hfields : ∀ f ∈ as, ∃ b, bs.get? f.1 = some b ∧ f.2.eq b = true) :
    Matches (object as) (object bs)
  | color (c : Color) : Matches (color c) (color c)
  | path {ss ts : List Segment} (h : List.Forall₂ (fun s t => s.eq t = true) ss ts) :
    Matches (path ss) (path ts)

section Equality

variable {a b c : Value} {as bs : List Value} {fields fields' : Assoc Value}
  {ss ts : List Segment}

theorem eqItems_iff :
    eqItems as bs = true ↔ List.Forall₂ (fun a b => a.eq b = true) as bs := by
  induction as generalizing bs with
  | nil => cases bs <;> simp [eqItems]
  | cons a as ih => cases bs <;> simp [eqItems, ih]

theorem eqSegments_iff :
    eqSegments ss ts = true ↔ List.Forall₂ (fun s t => s.eq t = true) ss ts := by
  induction ss generalizing ts with
  | nil => cases ts <;> simp [eqSegments]
  | cons s ss ih => cases ts <;> simp [eqSegments, ih]

theorem eqFields_iff : eqFields fields fields' = true ↔
    ∀ f ∈ fields, ∃ b, fields'.get? f.1 = some b ∧ f.2.eq b = true := by
  induction fields with
  | nil => simp [eqFields]
  | cons f fields ih =>
      rw [eqFields, Bool.and_eq_true, ih, List.forall_mem_cons]
      refine and_congr_left fun _ => ?_
      cases Assoc.get? fields' f.1 <;> simp

theorem eq_iff_matches : a.eq b = true ↔ a.Matches b := by
  constructor
  · intro h
    cases a <;> cases b <;> simp only [eq, Bool.false_eq_true, beq_iff_eq, Bool.and_eq_true] at h
    case void.void => exact .void
    case number.number => exact .number h
    case string.string => exact h ▸ .string _
    case bool.bool => exact h ▸ .bool _
    case resource.resource => exact h ▸ .resource _
    case array.array => exact .array (eqItems_iff.1 h)
    case object.object => exact .object h.1 (eqFields_iff.1 h.2)
    case color.color => exact h ▸ .color _
    case path.path => exact .path (eqSegments_iff.1 h)
  · intro h
    cases h with
    | number h => exact h
    | array h => exact eqItems_iff.2 h
    | object hlength hfields =>
        simp only [eq, Bool.and_eq_true, beq_iff_eq]
        exact ⟨hlength, eqFields_iff.2 hfields⟩
    | path h => exact eqSegments_iff.2 h
    | _ => simp [eq]

theorem eq_array_iff : (array as).eq (array bs) = true ↔
    List.Forall₂ (fun a b => a.eq b = true) as bs := eqItems_iff

theorem eq_path_iff : (path ss).eq (path ts) = true ↔
    List.Forall₂ (fun s t => s.eq t = true) ss ts := eqSegments_iff

theorem eq_object_iff (h : fields.keys.Nodup) (h' : fields'.keys.Nodup) :
    (object fields).eq (object fields') = true ↔
      Assoc.Pairs (fun a b => a.eq b = true) fields fields' := by
  rw [Assoc.pairs_iff h h', ← eqFields_iff, eq, Bool.and_eq_true, beq_iff_eq]

theorem eq_symm (ha : a.Keyed) (hb : b.Keyed) (h : a.eq b = true) : b.eq a = true := by
  induction ha generalizing b with
  | intro a here inside ih =>
      obtain ⟨here', inside'⟩ := throughout_iff.1 hb
      have hpart x (hx : x ∈ a.children) y (hy : y ∈ b.children) := ih x hx (inside' y hy)
      rw [eq_iff_matches] at h
      cases h with
      | number h => exact Binary64.same_symm h
      | array h => exact eq_array_iff.2 (forall₂_symm h hpart)
      | object hlength hfields =>
          have h := (eq_object_iff here here').1 (eq_iff_matches.2 (.object hlength hfields))
          exact (eq_object_iff here' here).2 (h.symm hpart)
      | path h => exact eq_path_iff.2 (forall₂_symm h fun _ _ _ _ => Segment.eq_symm)
      | _ => simp [eq]

theorem eq_trans (h : a.eq b = true) (h' : b.eq c = true) : a.eq c = true := by
  induction a using children_induction generalizing b c with
  | intro a ih =>
      rw [eq_iff_matches] at h h'
      cases h with
      | number h =>
          cases h' with
          | number h' => exact Binary64.same_trans h h'
      | array h =>
          cases h' with
          | array h' => exact eq_array_iff.2 (forall₂_trans h h' fun a ha _ _ _ _ => ih a ha)
      | object hlength hfields =>
          cases h' with
          | object hlength' hfields' =>
              refine eq_iff_matches.2 (.object (hlength.trans hlength') fun f hf => ?_)
              obtain ⟨b, hb, hfb⟩ := hfields f hf
              obtain ⟨c, hc, hbc⟩ := hfields' _ (Assoc.mem_of_get? hb)
              exact ⟨c, hc, ih f.2 (List.mem_map_of_mem hf) hfb hbc⟩
      | path h =>
          cases h' with
          | path h' =>
              exact eq_path_iff.2 (forall₂_trans h h' fun _ _ _ _ _ _ => Segment.eq_trans)
      | _ => exact eq_iff_matches.2 h'

theorem eq_self_iff_children (h : a.fieldNames.Nodup) : a.eq a = true ↔
    (∀ n ∈ a.numbers, n.isNaN = true → n = .nan) ∧ ∀ x ∈ a.children, x.eq x = true := by
  cases a with
  | number n => simp [eq, numbers, children, Binary64.same_self_iff]
  | array items => simp [eq_array_iff, List.forall₂_same, numbers, children]
  | object fields =>
      simp [eq_object_iff h h, Assoc.pairs_self_iff h, numbers, children]
  | path segments =>
      simp only [eq_path_iff, List.forall₂_same, Segment.eq_self_iff, numbers, children,
        List.mem_flatMap]
      grind
  | _ => simp [eq, numbers, children]

theorem eq_self_iff (ha : a.Keyed) : a.eq a = true ↔ a.ConstantNaN := by
  induction ha with
  | intro a here _ ih =>
      rw [eq_self_iff_children here, ConstantNaN, throughout_iff]
      exact and_congr_right fun _ => forall₂_congr ih

end Equality

end Value

namespace Evaluation

variable {types : Catalog} {depth : Nat} {scope : Scope} {e l r : Expr} {s : State}
  {new new' : List Event} {a b : Value}

end Evaluation

namespace Sample

end Sample

end UiBinding
