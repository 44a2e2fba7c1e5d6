import UiBinding.Proofs.Spelling

namespace UiBinding

namespace Token

/-- How tightly a token binds what stands on both sides of it. -/
def rank : Token → Int
  | binary op => Expr.precedence op
  | test => 0
  | comma | semicolon => -1
  | closing _ | otherwise => -2
  | _ => Expr.operandPrecedence

theorem endsName_of_rank {t : Token} (h : t.rank < Expr.operandPrecedence) : t.EndsName := by
  have hwords : ∀ t ∈ words, t.rank < Expr.operandPrecedence → t.EndsName := by decide +kernel
  rcases mem_words t with ht | ⟨s, rfl⟩ | ⟨element, name, rfl⟩
  · exact hwords t ht h
  · exact absurd h (Int.lt_irrefl _)
  · exact absurd h (Int.lt_irrefl _)

end Token

theorem Spaced.separate {ts us : List Token} {t : Token} (hts : Spaced ts)
    (ht : t.rank < Expr.operandPrecedence) (hus : Spaced us) : Spaced (ts ++ t :: us) := by
  have hends := Token.endsName_of_rank ht
  apply hts.append (hus.cons hends)
  simpa using hends

namespace Expr

/-- Expressions that operators, casts, lists and blocks build of truth values, texts and
references. -/
inductive OfOperators : Expr → Prop
  | bool (b : Bool) : OfOperators (bool b)
  | string (s : String) : OfOperators (string s)
  | property (element : Int) {name : String} (h : IsPlainName name) :
      OfOperators (property element name)
  | unary (op : UnaryOp) {e : Expr} (h : OfOperators e) : OfOperators (unary op e)
  | binary (op : BinaryOp) {l r : Expr} (hl : OfOperators l) (hr : OfOperators r) :
      OfOperators (binary op l r)
  | condition {test yes no : Expr} (ht : OfOperators test) (hy : OfOperators yes)
      (hn : OfOperators no) : OfOperators (condition test yes no)
  | cast {e : Expr} (h : OfOperators e) (target : DeclaredType) : OfOperators (cast e target)
  | array {items : List Expr} (h : ∀ e ∈ items, OfOperators e) : OfOperators (array none items)
  | block {body : List Expr} (h : ∀ e ∈ body, OfOperators e) : OfOperators (block body)

def level : Expr → Nat
  | binary op _ _ => precedence op
  | condition .. => 0
  | _ => operandPrecedence

def enclose (needed : Bool) (ts : List Token) : List Token :=
  if needed then .opening .paren :: (ts ++ [.closing .paren]) else ts

mutual

def tokens : Expr → List Token
  | string s => [.text s]
  | bool b => [.truth b]
  | property element name => [.property element name]
  | unary op e => .unary op :: enclose (level e < operandPrecedence) (tokens e)
  | binary op l r =>
    enclose (level l < precedence op) (tokens l) ++
      .binary op :: enclose (level r < precedence op + 1) (tokens r)
  | condition test yes no =>
    enclose (level test < 1) (tokens test) ++
      .test :: (tokens yes ++ .otherwise :: tokens no)
  | cast e target => .cast target :: (tokens e ++ [.closing .paren])
  | array _ items => .opening .array :: (itemTokens items ++ [.closing .array])
  | block body => .opening .block :: (statementTokens body ++ [.closing .block])
  | _ => []

def itemTokens : List Expr → List Token
  | [] => []
  | e :: es => tokens e ++ furtherTokens es

def furtherTokens : List Expr → List Token
  | [] => []
  | e :: es => .comma :: (tokens e ++ furtherTokens es)

def statementTokens : List Expr → List Token
  | [] => []
  | e :: es => tokens e ++ .semicolon :: statementTokens es

end

/-- The same where operators of precedence `around` or higher need no parentheses. -/
def tokensAt (around : Nat) (e : Expr) : List Token := enclose (level e < around) (tokens e)

theorem tokensAt_of_le {around : Nat} {e : Expr} (h : around ≤ level e) :
    tokensAt around e = tokens e := by
  simp [tokensAt, enclose, Nat.not_lt.2 h]

theorem tokensAt_zero (e : Expr) : tokensAt 0 e = tokens e := tokensAt_of_le (Nat.zero_le _)

theorem tokens_unary (op : UnaryOp) (e : Expr) :
    tokens (unary op e) = .unary op :: tokensAt operandPrecedence e := by
  rw [tokens]
  rfl

theorem tokens_binary (op : BinaryOp) (l r : Expr) :
    tokens (binary op l r) =
      tokensAt (precedence op) l ++ .binary op :: tokensAt (precedence op + 1) r := by
  rw [tokens]
  rfl

theorem tokens_condition (test yes no : Expr) :
    tokens (condition test yes no) =
      tokensAt 1 test ++ .test :: (tokens yes ++ .otherwise :: tokens no) := by
  rw [tokens]
  rfl

theorem precedence_pos (op : BinaryOp) : 0 < precedence op := by
  cases op <;> decide

theorem precedence_lt (op : BinaryOp) : precedence op < operandPrecedence := by
  cases op <;> decide

theorem spelling_append (ts us : List Token) : spelling (ts ++ us) = spelling ts ++ spelling us :=
  List.flatMap_append

theorem spelling_cons (t : Token) (ts : List Token) :
    spelling (t :: ts) = t.spell.toList ++ spelling ts :=
  List.flatMap_cons

theorem spelling_nil : spelling [] = [] := rfl

theorem spelling_enclose {needed : Bool} {ts : List Token} {s : String}
    (h : s.toList = spelling ts) :
    (parenthesize needed s).toList = spelling (enclose needed ts) := by
  cases needed with
  | false => exact h
  | true =>
      simp [parenthesize, enclose, spelling_cons, spelling_append, spelling_nil, Token.spell,
        Bracket.left, Bracket.right, h]

section Rendering

variable {es : List Expr} (h : ∀ e ∈ es, (render indexName 0 e).toList = spelling (tokens e))

include h

theorem renderItems_toList :
    (", ".intercalate (renderItems indexName es)).toList = spelling (itemTokens es) := by
  induction es with
  | nil => rfl
  | cons e es ih =>
      obtain ⟨he, hes⟩ := List.forall_mem_cons.1 h
      have ih := ih hes
      rw [String.toList_intercalate] at ih ⊢
      cases es with
      | nil => simp [renderItems, itemTokens, furtherTokens, he]
      | cons e' es =>
          rw [renderItems, renderItems, List.map_cons, List.map_cons, List.intercalate_cons_cons,
            ← List.map_cons, ← renderItems, ih, he]
          simp only [itemTokens, furtherTokens, spelling_append, spelling_cons, Token.spell,
            List.append_assoc]

theorem renderStatements_toList :
    ((renderStatements indexName es).map (·.toList ++ [' '])).flatten =
      spelling (statementTokens es) := by
  induction es with
  | nil => rfl
  | cons e es ih =>
      obtain ⟨he, hes⟩ := List.forall_mem_cons.1 h
      rw [renderStatements, List.map_cons, List.flatten_cons, ih hes]
      simp [statementTokens, spelling_append, spelling_cons, Token.spell, he]

end Rendering

theorem intercalate_toList_append (s : String) (ss : List String) (sep : String) :
    (sep.intercalate (s :: ss)).toList ++ sep.toList =
      ((s :: ss).map (·.toList ++ sep.toList)).flatten := by
  induction ss generalizing s with
  | nil => simp
  | cons s' ss ih =>
      rw [List.map_cons, List.flatten_cons, ← ih, String.toList_intercalate, List.map_cons,
        List.map_cons, List.intercalate_cons_cons, String.toList_intercalate, List.map_cons,
        List.append_assoc, List.append_assoc]

theorem braces_toList (s : String) (ss : List String) :
    (braces (s :: ss) " ").toList =
      "\x7b ".toList ++ (((s :: ss).map (·.toList ++ [' '])).flatten ++ "\x7d".toList) := by
  have hjoin := intercalate_toList_append s ss " "
  rw [show " ".toList = [' '] from rfl] at hjoin
  rw [braces, String.toList_append, String.toList_append, ← hjoin, List.append_assoc,
    List.append_assoc]
  rfl

theorem render_toList {e : Expr} (he : OfOperators e) :
    ∀ around ≤ operandPrecedence,
      (render indexName around e).toList = spelling (tokensAt around e) := by
  induction he with
  | bool | string | property =>
      intro around hp
      rw [tokensAt_of_le hp, render, tokens, spelling_cons, spelling_nil, List.append_nil]
      rfl
  | unary op h ih =>
      intro around hp
      rw [tokensAt_of_le hp, render, tokens_unary, String.toList_append, ih _ le_rfl, spelling_cons]
      rfl
  | @binary op l r hl hr ihl ihr =>
      intro around hp
      have hprec := precedence_lt op
      rw [render]
      apply spelling_enclose
      simp only [tokens_binary, String.toList_append, ihl _ hprec.le, ihr _ hprec, spelling_append,
        spelling_cons, Token.spell, List.append_assoc]
  | condition ht hy hn iht ihy ihn =>
      intro around hp
      rw [render]
      apply spelling_enclose
      simp only [tokens_condition, String.toList_append, iht 1 (by decide), ihy 0 (by decide),
        ihn 0 (by decide), tokensAt_zero, spelling_append, spelling_cons, Token.spell,
        List.append_assoc]
  | cast h target ih =>
      intro around hp
      rw [tokensAt_of_le hp]
      simp only [render, tokens, spelling_append, spelling_cons, spelling_nil,
        String.toList_append, ih 0 (by decide), tokensAt_zero, Token.spell, Bracket.right,
        List.append_assoc, List.append_nil]
  | array h ih =>
      intro around hp
      have hitems := renderItems_toList fun e he => by
        rw [ih e he 0 (by decide), tokensAt_zero]
      rw [tokensAt_of_le hp]
      simp only [render, tokens, spelling_append, spelling_cons, spelling_nil,
        String.toList_append, hitems, Token.spell, Bracket.left, Bracket.right,
        List.append_assoc, List.append_nil]
  | @block body h ih =>
      intro around hp
      rw [tokensAt_of_le hp]
      have hbody := renderStatements_toList fun e he => by
        rw [ih e he 0 (by decide), tokensAt_zero]
      rw [tokens, spelling_cons, spelling_append, ← hbody, spelling_cons, spelling_nil,
        List.append_nil]
      cases body with
      | nil =>
          rw [render]
          rfl
      | cons e es =>
          rw [render, renderStatements, braces_toList]
          rfl

theorem spaced_tokensAt {e : Expr} (he : Spaced (tokens e)) (around : Nat) :
    Spaced (tokensAt around e) := by
  rw [tokensAt, enclose]
  split
  · exact he.separate (by decide) trivial
  · exact he

section Lists

variable {es : List Expr} (h : ∀ e ∈ es, Spaced (tokens e))

include h

theorem spaced_furtherTokens {ts : List Token} (hts : Spaced ts) :
    Spaced (ts ++ (furtherTokens es ++ [.closing .array])) := by
  induction es generalizing ts with
  | nil => exact hts.separate (by decide) trivial
  | cons e es ih =>
      obtain ⟨he, hes⟩ := List.forall_mem_cons.1 h
      rw [furtherTokens, List.cons_append, List.append_assoc]
      exact hts.separate (by decide) (ih hes he)

theorem spaced_itemTokens : Spaced (itemTokens es ++ [.closing .array]) := by
  cases es with
  | nil => trivial
  | cons e es =>
      obtain ⟨he, hes⟩ := List.forall_mem_cons.1 h
      rw [itemTokens, List.append_assoc]
      exact spaced_furtherTokens hes he

theorem spaced_statementTokens : Spaced (statementTokens es ++ [.closing .block]) := by
  induction es with
  | nil => trivial
  | cons e es ih =>
      obtain ⟨he, hes⟩ := List.forall_mem_cons.1 h
      rw [statementTokens, List.append_assoc]
      exact he.separate (by decide) (ih hes)

end Lists

theorem spaced_tokens {e : Expr} (he : OfOperators e) : Spaced (tokens e) := by
  induction he with
  | bool | string =>
      rw [tokens]
      trivial
  | property element hname =>
      rw [tokens]
      exact ⟨hname, by simp, trivial⟩
  | unary op h ih =>
      rw [tokens_unary]
      exact spaced_tokensAt ih _
  | binary op hl hr ihl ihr =>
      rw [tokens_binary]
      refine (spaced_tokensAt ihl _).separate ?_ (spaced_tokensAt ihr _)
      exact Int.ofNat_lt.2 (precedence_lt op)
  | condition ht hy hn iht ihy ihn =>
      rw [tokens_condition]
      exact (spaced_tokensAt iht _).separate (by decide) (ihy.separate (by decide) ihn)
  | cast h target ih =>
      rw [tokens]
      exact ih.separate (by decide) trivial
  | array h ih =>
      rw [tokens]
      exact spaced_itemTokens ih
  | block h ih =>
      rw [tokens]
      exact spaced_statementTokens ih

end Expr

end UiBinding
