import Mathlib.Data.List.TakeWhile
import UiBinding.Expr.Printer

namespace UiBinding

inductive Bracket
  | paren
  | array
  | block
  deriving DecidableEq

namespace Bracket

def left : Bracket → String
  | paren => "("
  | array => "["
  | block => "\x7b "

def right : Bracket → String
  | paren => ")"
  | array => "]"
  | block => "\x7d"

def all : List Bracket := [paren, array, block]

end Bracket

/-- The pieces that the text of an expression built of operators is put together from. A
cast carries its opening parenthesis. -/
inductive Token
  | text (s : String)
  | truth (b : Bool)
  | property (element : Int) (name : String)
  | unary (op : UnaryOp)
  | cast (target : DeclaredType)
  | opening (b : Bracket)
  | closing (b : Bracket)
  | binary (op : BinaryOp)
  | test
  | otherwise
  | comma
  | semicolon
  deriving DecidableEq

def endsName (c : Char) : Bool := [' ', ',', ';', ')', ']', '\x7d'].contains c

/-- Holds of every identifier, in any script. -/
def IsPlainName (name : String) : Prop := ∀ c ∈ name.toList, endsName c = false

instance (name : String) : Decidable (IsPlainName name) :=
  decidable_of_iff (name.toList.all (!endsName ·)) (by simp [IsPlainName])

namespace Token

def spell : Token → String
  | text s => Text.literal s
  | truth b => if b then "true" else "false"
  | property element name => Expr.indexName element ++ "." ++ name
  | unary op => op.sign
  | cast target => target.name ++ "("
  | opening b => b.left
  | closing b => b.right
  | binary op => " " ++ Expr.symbol op ++ " "
  | test => " ? "
  | otherwise => " : "
  | comma => ", "
  | semicolon => "; "

def words : List Token :=
  [truth false, truth true, test, otherwise, comma, semicolon] ++ UnaryOp.all.map unary ++
    DeclaredType.all.map cast ++ Bracket.all.map opening ++ Bracket.all.map closing ++
    BinaryOp.all.map binary

theorem mem_words (t : Token) :
    t ∈ words ∨ (∃ s, t = text s) ∨ ∃ element name, t = property element name := by
  cases t with
  | text s => exact .inr (.inl ⟨s, rfl⟩)
  | property element name => exact .inr (.inr ⟨element, name, rfl⟩)
  | truth b => cases b <;> exact .inl (by decide)
  | unary op => cases op <;> exact .inl (by decide)
  | cast target => cases target <;> exact .inl (by decide)
  | opening b => cases b <;> exact .inl (by decide)
  | closing b => cases b <;> exact .inl (by decide)
  | binary op => cases op <;> exact .inl (by decide)
  | test | otherwise | comma | semicolon => exact .inl (by decide)

theorem words_prefix_free :
    ∀ t ∈ words, ∀ u ∈ words, t.spell.toList <+: u.spell.toList → t = u := by
  decide +kernel

theorem words_start :
    ∀ t ∈ words, t.spell.toList.head? ≠ some '"' ∧ t.spell.toList.head? ≠ some '#' := by
  decide +kernel

theorem text_start (s : String) : (text s).spell.toList.head? = some '"' := by
  simp [spell, Text.literal]

theorem property_start (element : Int) (name : String) :
    (property element name).spell.toList.head? = some '#' := by
  simp [spell, Expr.indexName]

theorem words_ne_nil : ∀ t ∈ words, t.spell.toList ≠ [] := by
  decide +kernel

theorem spell_ne_nil (t : Token) : t.spell.toList ≠ [] := by
  rcases mem_words t with ht | ⟨s, rfl⟩ | ⟨element, name, rfl⟩
  · exact words_ne_nil t ht
  · simp [spell, Text.literal]
  · simp [spell, Expr.indexName]

theorem head?_spell_append (t : Token) (X : List Char) :
    (t.spell.toList ++ X).head? = t.spell.toList.head? := by
  obtain ⟨c, rest, hc⟩ := List.exists_cons_of_ne_nil t.spell_ne_nil
  rw [hc]
  rfl

end Token

namespace Text

def escapedChars : List Char := '"' :: '\\' :: (List.range 0x20).map Char.ofNat

theorem literalChar_of_notMem {c : Char} (h : c ∉ escapedChars) : literalChar c = [c] := by
  have hlow : ¬ c.toNat < 0x20 := by
    intro hc
    have hmem := List.mem_map_of_mem (f := Char.ofNat) (List.mem_range.2 hc)
    rw [Char.ofNat_toNat] at hmem
    exact h (List.mem_cons_of_mem _ (List.mem_cons_of_mem _ hmem))
  have hne : ∀ d ∈ escapedChars, c ≠ d := by
    rintro d hd rfl
    exact h hd
  simp [literalChar, hlow, hne '"' (by decide), hne '\\' (by decide), hne '\n' (by decide),
    hne '\r' (by decide), hne '\t' (by decide), hne '\x08' (by decide), hne '\x0c' (by decide)]

theorem escapes_prefix_free :
    ∀ c ∈ escapedChars, ∀ d ∈ escapedChars, literalChar c <+: literalChar d → c = d := by
  have hall : escapedChars.all (fun c => escapedChars.all fun d =>
      !(literalChar c).isPrefixOf (literalChar d) || c == d) := by decide +kernel
  intro c hc d hd hp
  have hcd := List.all_eq_true.1 (List.all_eq_true.1 hall c hc) d hd
  simpa [List.isPrefixOf_iff_prefix.2 hp] using hcd

theorem literalChar_head (c : Char) :
    (literalChar c).head? = some (if c ∈ escapedChars then '\\' else c) := by
  by_cases hc : c ∈ escapedChars
  · have hall : escapedChars.all fun c => (literalChar c).head? == some '\\' := by decide +kernel
    rw [if_pos hc]
    exact beq_iff_eq.1 (List.all_eq_true.1 hall c hc)
  · rw [if_neg hc, literalChar_of_notMem hc]
    rfl

theorem literalChar_inj {c d : Char} {X Y : List Char}
    (h : literalChar c ++ X = literalChar d ++ Y) : c = d := by
  have hstart := congrArg List.head? h
  simp only [List.head?_append, literalChar_head, Option.some_or, Option.some.injEq] at hstart
  have hslash : '\\' ∈ escapedChars := by decide
  by_cases hc : c ∈ escapedChars <;> by_cases hd : d ∈ escapedChars
  · have hX : literalChar c <+: literalChar d ++ Y := ⟨X, h⟩
    rcases List.prefix_or_prefix_of_prefix hX ⟨Y, rfl⟩ with hp | hp
    · exact escapes_prefix_free c hc d hd hp
    · exact (escapes_prefix_free d hd c hc hp).symm
  · rw [if_pos hc, if_neg hd] at hstart
    exact absurd (hstart ▸ hslash) hd
  · rw [if_neg hc, if_pos hd] at hstart
    exact absurd (hstart ▸ hslash) hc
  · rwa [if_neg hc, if_neg hd] at hstart

theorem literalChar_append_ne (c : Char) (X Y : List Char) :
    literalChar c ++ X ≠ '"' :: Y := by
  intro h
  have hstart := congrArg List.head? h
  simp only [List.head?_append, literalChar_head, Option.some_or, List.head?_cons,
    Option.some.injEq] at hstart
  by_cases hc : c ∈ escapedChars
  · simp [if_pos hc] at hstart
  · rw [if_neg hc] at hstart
    exact hc (hstart ▸ by decide)

theorem literalChars_inj {s s' X Y : List Char}
    (h : s.flatMap literalChar ++ '"' :: X = s'.flatMap literalChar ++ '"' :: Y) :
    s = s' := by
  induction s generalizing s' with
  | nil =>
      cases s' with
      | nil => rfl
      | cons d s' =>
          simp only [List.flatMap_nil, List.nil_append, List.flatMap_cons, List.append_assoc] at h
          exact absurd h.symm (literalChar_append_ne d _ _)
  | cons c s ih =>
      cases s' with
      | nil =>
          simp only [List.flatMap_nil, List.nil_append, List.flatMap_cons, List.append_assoc] at h
          exact absurd h (literalChar_append_ne c _ _)
      | cons d s' =>
          simp only [List.flatMap_cons, List.append_assoc] at h
          obtain rfl := literalChar_inj h
          rw [ih (List.append_cancel_left h)]

theorem literal_inj {s s' : String} {X Y : List Char}
    (h : (literal s).toList ++ X = (literal s').toList ++ Y) : s = s' := by
  simp only [literal, String.toList_ofList, List.cons_append, List.append_assoc,
    List.cons.injEq, true_and, List.nil_append] at h
  exact String.toList_inj.1 (literalChars_inj h)

end Text

theorem indexName_toList (element : Int) :
    (Expr.indexName element).toList = '#' :: element.repr.toList := by
  simp [Expr.indexName, Int.toString_eq_repr]

theorem repr_nat (n : Nat) : (n : Int).repr.toList = Nat.toDigits 10 n := by
  simp [Int.repr]

theorem repr_negSucc (n : Nat) :
    (Int.negSucc n).repr.toList = '-' :: Nat.toDigits 10 (n + 1) := by
  simp [Int.repr]

theorem notMem_toDigits {c : Char} (hc : c.isDigit = false) (n : Nat) : c ∉ Nat.toDigits 10 n := by
  intro h
  rw [Nat.isDigit_of_mem_toDigits (by decide) (by decide) h] at hc
  exact Bool.noConfusion hc

theorem toDigits_injective {m n : Nat} (h : Nat.toDigits 10 m = Nat.toDigits 10 n) : m = n := by
  rw [← Nat.ofDigitChars_ten_toDigits (n := m), h, Nat.ofDigitChars_ten_toDigits]

theorem dot_notMem_repr (i : Int) : '.' ∉ i.repr.toList := by
  cases i with
  | ofNat n =>
      rw [Int.ofNat_eq_natCast, repr_nat]
      exact notMem_toDigits rfl n
  | negSucc n =>
      rw [repr_negSucc, List.mem_cons, not_or]
      exact ⟨by decide, notMem_toDigits rfl _⟩

theorem repr_injective {i j : Int} (h : i.repr.toList = j.repr.toList) : i = j := by
  have hminus : ∀ n m : Nat, Nat.toDigits 10 n ≠ '-' :: Nat.toDigits 10 m := by
    intro n m heq
    exact notMem_toDigits (c := '-') rfl n (heq ▸ List.mem_cons_self)
  cases i with
  | ofNat m =>
      cases j with
      | ofNat n =>
          simp only [Int.ofNat_eq_natCast, repr_nat] at h
          rw [toDigits_injective h]
      | negSucc n =>
          rw [Int.ofNat_eq_natCast, repr_nat, repr_negSucc] at h
          exact absurd h (hminus _ _)
  | negSucc m =>
      cases j with
      | ofNat n =>
          rw [Int.ofNat_eq_natCast, repr_nat, repr_negSucc] at h
          exact absurd h.symm (hminus _ _)
      | negSucc n =>
          rw [repr_negSucc, repr_negSucc, List.cons.injEq] at h
          rw [Nat.succ_injective (toDigits_injective h.2)]

theorem run_inj {p : Char → Bool} {l l' X Y : List Char} (hl : ∀ c ∈ l, p c) (hl' : ∀ c ∈ l', p c)
    (hX : ∀ c ∈ X.head?, p c = false) (hY : ∀ c ∈ Y.head?, p c = false)
    (h : l ++ X = l' ++ Y) : l = l' := by
  have hrun : ∀ {l X : List Char}, (∀ c ∈ l, p c) → (∀ c ∈ X.head?, p c = false) →
      (l ++ X).takeWhile p = l := by
    intro l X hl hX
    rw [List.takeWhile_append_of_pos hl]
    cases X with
    | nil => simp
    | cons c X => simp [hX c rfl]
  rw [← hrun hl hX, h, hrun hl' hY]

namespace Token

def IsEndedBy (X : List Char) : Token → Prop
  | property _ name => IsPlainName name ∧ ∀ c ∈ X.head?, endsName c
  | _ => True

theorem property_inj {i i' : Int} {name name' : String} {X Y : List Char}
    (hX : IsEndedBy X (property i name)) (hY : IsEndedBy Y (property i' name'))
    (h : (property i name).spell.toList ++ X = (property i' name').spell.toList ++ Y) :
    property i name = property i' name' := by
  simp only [spell, String.toList_append, indexName_toList, List.cons_append, List.append_assoc,
    List.cons.injEq, true_and] at h
  have hdot : ∀ i : Int, ∀ c ∈ i.repr.toList, (c != '.') = true := by
    intro i c hc
    exact bne_iff_ne.2 fun heq => dot_notMem_repr i (heq ▸ hc)
  have hi := run_inj (hdot i) (hdot i') (by simp) (by simp) h
  rw [hi] at h
  have hplain : ∀ {name : String}, IsPlainName name →
      ∀ c ∈ name.toList, (!endsName c) = true := by
    intro name hname c hc
    rw [hname c hc]
    rfl
  have hname := run_inj (hplain hX.1) (hplain hY.1) (by simpa using hX.2) (by simpa using hY.2)
    (List.append_cancel_left (List.append_cancel_left h))
  rw [repr_injective hi, String.toList_inj.1 hname]

/-- No token is taken for the start of another one. -/
theorem spell_inj {t u : Token} {X Y : List Char} (hX : t.IsEndedBy X) (hY : u.IsEndedBy Y)
    (h : t.spell.toList ++ X = u.spell.toList ++ Y) : t = u := by
  have hstart := congrArg List.head? h
  rw [head?_spell_append, head?_spell_append] at hstart
  rcases mem_words t with ht | ⟨s, rfl⟩ | ⟨i, name, rfl⟩ <;>
    rcases mem_words u with hu | ⟨s', rfl⟩ | ⟨i', name', rfl⟩
  · have hp : t.spell.toList <+: u.spell.toList ++ Y := ⟨X, h⟩
    rcases List.prefix_or_prefix_of_prefix hp ⟨Y, rfl⟩ with hp | hp
    · exact words_prefix_free t ht u hu hp
    · exact (words_prefix_free u hu t ht hp).symm
  · exact absurd (hstart.trans (text_start s')) (words_start t ht).1
  · exact absurd (hstart.trans (property_start i' name')) (words_start t ht).2
  · exact absurd (hstart.symm.trans (text_start s)) (words_start u hu).1
  · rw [Text.literal_inj h]
  · simp [text_start, property_start] at hstart
  · exact absurd (hstart.symm.trans (property_start i name)) (words_start u hu).2
  · simp [text_start, property_start] at hstart
  · exact property_inj hX hY h

end Token

def Token.EndsName (t : Token) : Prop := ∀ c ∈ t.spell.toList.head?, endsName c

instance (t : Token) : Decidable t.EndsName :=
  decidable_of_iff (t.spell.toList.head?.all endsName)
    (by cases h : t.spell.toList.head? <;> simp [Token.EndsName, h])

/-- A text out of tokens of which none goes on into the next. -/
def Spaced : List Token → Prop
  | [] => True
  | .property _ name :: ts => IsPlainName name ∧ (∀ u ∈ ts.head?, u.EndsName) ∧ Spaced ts
  | _ :: ts => Spaced ts

def spelling (ts : List Token) : List Char := ts.flatMap (·.spell.toList)

theorem spelling_head? (ts : List Token) :
    (spelling ts).head? = ts.head?.bind (·.spell.toList.head?) := by
  cases ts with
  | nil => rfl
  | cons t ts => exact t.head?_spell_append _

theorem Spaced.tail {t : Token} {ts : List Token} (h : Spaced (t :: ts)) : Spaced ts := by
  cases t with
  | property => exact h.2.2
  | _ => exact h

theorem Spaced.cons {t : Token} {ts : List Token} (ht : t.EndsName) (h : Spaced ts) :
    Spaced (t :: ts) := by
  cases t with
  | property element name =>
      have hstart := ht '#' (Token.property_start element name)
      exact absurd hstart (by decide)
  | _ => exact h

theorem Spaced.append {ts us : List Token} (ht : Spaced ts) (hu : Spaced us)
    (hends : ∀ u ∈ us.head?, u.EndsName) : Spaced (ts ++ us) := by
  induction ts with
  | nil => exact hu
  | cons t ts ih =>
      have hrest := ih ht.tail
      cases t with
      | property element name =>
          refine ⟨ht.1, ?_, hrest⟩
          cases ts with
          | nil => exact hends
          | cons t' ts => exact ht.2.1
      | _ => exact hrest

theorem Spaced.isEndedBy {t : Token} {ts : List Token} (h : Spaced (t :: ts)) :
    t.IsEndedBy (spelling ts) := by
  cases t with
  | property element name =>
      refine ⟨h.1, ?_⟩
      intro c hc
      rw [spelling_head?, Option.mem_def, Option.bind_eq_some_iff] at hc
      obtain ⟨u, hu, hc⟩ := hc
      exact h.2.1 u hu c hc
  | _ => trivial

/-- The tokens are read back from the text one after the other. -/
theorem spelling_injective {ts us : List Token} (ht : Spaced ts) (hu : Spaced us)
    (h : spelling ts = spelling us) : ts = us := by
  induction ts generalizing us with
  | nil =>
      cases us with
      | nil => rfl
      | cons u us => simp [spelling, u.spell_ne_nil] at h
  | cons t ts ih =>
      cases us with
      | nil => simp [spelling, t.spell_ne_nil] at h
      | cons u us =>
          simp only [spelling, List.flatMap_cons] at h
          obtain rfl := Token.spell_inj ht.isEndedBy hu.isEndedBy h
          rw [ih ht.tail hu.tail (List.append_cancel_left h)]

end UiBinding
