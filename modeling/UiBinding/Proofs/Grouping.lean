import UiBinding.Proofs.Rendering

namespace UiBinding

/-- How much deeper one is after a token than before it. What stands between the two signs of
a condition is as good as in parentheses. -/
def Token.weight : Token → Int
  | cast _ | opening _ | test => 1
  | closing _ | otherwise => -1
  | _ => 0

def balance : List Token → Int
  | [] => 0
  | t :: ts => t.weight + balance ts

theorem balance_nil : balance [] = 0 := rfl

theorem balance_cons (t : Token) (ts : List Token) :
    balance (t :: ts) = t.weight + balance ts := rfl

theorem balance_append (ts us : List Token) : balance (ts ++ us) = balance ts + balance us := by
  induction ts with
  | nil => rw [List.nil_append, balance_nil, Int.zero_add]
  | cons t ts ih => rw [List.cons_append, balance_cons, balance_cons, ih, Int.add_assoc]

/-- Every bracket is closed inside of the text, and what stands outside of all brackets binds
no less than `p`. -/
structure Grouped (p : Int) (ts : List Token) : Prop where
  closed : balance ts = 0
  nonneg : ∀ A B, ts = A ++ B → 0 ≤ balance A
  tight : ∀ A t B, ts = A ++ t :: B → balance A = 0 → p ≤ t.rank

theorem append_eq_append_cons {α : Type} {A B X Y : List α} {t : α} (h : A ++ B = X ++ t :: Y) :
    (∃ C, A = X ++ t :: C) ∨ ∃ C, X = A ++ C ∧ B = C ++ t :: Y := by
  rcases List.append_eq_append_iff.1 h with ⟨C, rfl, hB⟩ | ⟨C, rfl, hY⟩
  · exact .inr ⟨C, rfl, hB⟩
  · cases C with
    | nil => exact .inr ⟨[], by simp, by simpa using hY.symm⟩
    | cons c C =>
        rw [List.cons_append, List.cons.injEq] at hY
        exact .inl ⟨C, by rw [hY.1]⟩

namespace Grouped

variable {p q : Int} {ts us : List Token}

theorem nil : Grouped p [] := by
  refine ⟨rfl, ?_, ?_⟩
  · intro A B h
    rw [(List.append_eq_nil_iff.1 h.symm).1]
    exact Int.le_refl 0
  · intro A t B h
    simp at h

theorem mono (h : Grouped q ts) (hpq : p ≤ q) : Grouped p ts :=
  ⟨h.closed, h.nonneg, fun A t B hts hA => Int.le_trans hpq (h.tight A t B hts hA)⟩

theorem append (ht : Grouped p ts) (hu : Grouped p us) : Grouped p (ts ++ us) := by
  refine ⟨?_, ?_, ?_⟩
  · rw [balance_append, ht.closed, hu.closed, Int.add_zero]
  · intro A B h
    rcases List.append_eq_append_iff.1 h with ⟨C, rfl, hB⟩ | ⟨C, hA, -⟩
    · rw [balance_append, ht.closed, Int.zero_add]
      exact hu.nonneg C B hB
    · exact ht.nonneg A C hA
  · intro A t B h hA
    rcases append_eq_append_cons h with ⟨C, hC⟩ | ⟨C, rfl, hC⟩
    · exact ht.tight A t C hC hA
    · rw [balance_append, ht.closed, Int.zero_add] at hA
      exact hu.tight C t B hC hA

theorem cons {t : Token} (hw : t.weight = 0) (hr : p ≤ t.rank) (h : Grouped p ts) :
    Grouped p (t :: ts) := by
  refine ⟨?_, ?_, ?_⟩
  · rw [balance_cons, hw, h.closed, Int.add_zero]
  · intro A B hts
    rcases List.cons_eq_append_iff.1 hts with ⟨rfl, -⟩ | ⟨A', rfl, hA'⟩
    · exact Int.le_refl 0
    · rw [balance_cons, hw, Int.zero_add]
      exact h.nonneg A' B hA'
  · intro A u B hts hA
    rcases List.cons_eq_append_iff.1 hts with ⟨rfl, hu⟩ | ⟨A', rfl, hA'⟩
    · rw [List.cons.injEq] at hu
      rwa [hu.1]
    · rw [balance_cons, hw, Int.zero_add] at hA
      exact h.tight A' u B hA' hA

theorem bracket {o c : Token} (ho : o.weight = 1) (hc : c.weight = -1) (hr : p ≤ o.rank)
    (h : Grouped q ts) : Grouped p (o :: (ts ++ [c])) := by
  have hinner : ∀ A t B, ts ++ [c] = A ++ t :: B → 0 ≤ balance A := by
    intro A t B hts
    rcases append_eq_append_cons hts with ⟨C, hC⟩ | ⟨C, rfl, hC⟩
    · exact h.nonneg A _ hC
    · cases C with
      | nil => simp [h.closed]
      | cons d C => simp at hC
  have hclosed : balance (o :: (ts ++ [c])) = 0 := by
    rw [balance_cons, balance_append, ho, h.closed, balance_cons, hc, balance_nil]
    rfl
  refine ⟨hclosed, ?_, ?_⟩
  · intro A B hts
    rcases List.cons_eq_append_iff.1 hts with ⟨rfl, -⟩ | ⟨A', rfl, hA'⟩
    · exact Int.le_refl 0
    · cases B with
      | nil =>
          rw [List.append_nil] at hts
          rw [hts] at hclosed
          exact Int.le_of_eq hclosed.symm
      | cons t B =>
          rw [balance_cons, ho]
          have := hinner A' t B hA'
          omega
  · intro A t B hts hA
    rcases List.cons_eq_append_iff.1 hts with ⟨rfl, hu⟩ | ⟨A', rfl, hA'⟩
    · rw [List.cons.injEq] at hu
      rwa [hu.1]
    · rw [balance_cons, ho] at hA
      have := hinner A' t B hA'
      omega

/-- Where a group ends is seen from what comes after it, if that binds less. -/
theorem append_unique {ts' us us' : List Token} (ht : Grouped p ts) (ht' : Grouped p ts')
    (hu : ∀ t ∈ us.head?, t.rank < p) (hu' : ∀ t ∈ us'.head?, t.rank < p)
    (h : ts ++ us = ts' ++ us') : ts = ts' ∧ us = us' := by
  have hend : ∀ {ts ts' us us' C : List Token}, Grouped p ts → Grouped p ts' →
      (∀ t ∈ us.head?, t.rank < p) → ts' = ts ++ C → us = C ++ us' → ts = ts' := by
    intro ts ts' us us' C ht ht' hu hC hus
    cases C with
    | nil => simp [hC]
    | cons t C =>
        have hlow := hu t (by simp [hus])
        have htight := ht'.tight ts t C hC ht.closed
        omega
  have heq : ts = ts' := by
    rcases List.append_eq_append_iff.1 h with ⟨C, hC, hus⟩ | ⟨C, hC, hus⟩
    · exact hend ht ht' hu hC hus
    · exact (hend ht' ht hu' hC hus).symm
  subst heq
  exact ⟨rfl, List.append_cancel_left h⟩

/-- Of the separators of one rank the last one is meant, if what comes after it binds more. -/
theorem separator_unique {ts' us us' : List Token} {t t' : Token} (ht : Grouped p ts)
    (ht' : Grouped p ts') (hu : Grouped q us) (hu' : Grouped q us') (hw : t.weight = 0)
    (hw' : t'.weight = 0) (hr : t.rank < q) (hr' : t'.rank < q)
    (h : ts ++ t :: us = ts' ++ t' :: us') : ts = ts' ∧ t = t' ∧ us = us' := by
  have hlast : ∀ {ts ts' us us' C : List Token} {t t' : Token}, Grouped p ts → Grouped p ts' →
      Grouped q us → t.weight = 0 → t'.rank < q → ts' = ts ++ C → t :: us = C ++ t' :: us' →
      ts = ts' := by
    intro ts ts' us us' C t t' ht ht' hu hw hr' hC hus
    cases C with
    | nil => simp [hC]
    | cons c C =>
        rw [List.cons_append, List.cons.injEq] at hus
        obtain ⟨rfl, hus⟩ := hus
        have hbalance := ht'.closed
        rw [hC, balance_append, balance_cons, ht.closed, hw] at hbalance
        have htight := hu.tight C t' us' hus (by omega)
        omega
  have heq : ts = ts' := by
    rcases List.append_eq_append_iff.1 h with ⟨C, hC, hus⟩ | ⟨C, hC, hus⟩
    · exact hlast ht ht' hu hw hr' hC hus
    · exact (hlast ht' ht hu' hw' hr hC hus).symm
  subst heq
  have hrest := List.append_cancel_left h
  rw [List.cons.injEq] at hrest
  exact ⟨rfl, hrest.1, hrest.2⟩

end Grouped

namespace Expr

theorem level_le (e : Expr) : level e ≤ operandPrecedence := by
  cases e with
  | binary op => exact (precedence_lt op).le
  | condition => exact Nat.zero_le _
  | _ => exact le_rfl

theorem grouped_tokensAt {e : Expr} (h : Grouped (level e) (tokens e)) {around : Nat}
    (hp : around ≤ operandPrecedence) : Grouped around (tokensAt around e) := by
  rw [tokensAt, enclose]
  split
  · exact Grouped.bracket rfl rfl (Int.ofNat_le.2 hp) h
  · next hlevel =>
      apply h.mono
      simpa using hlevel

section Lists

variable {es : List Expr} (h : ∀ e ∈ es, Grouped (level e) (tokens e))

include h

theorem grouped_furtherTokens : Grouped (-1) (furtherTokens es) := by
  induction es with
  | nil => exact Grouped.nil
  | cons e es ih =>
      obtain ⟨he, hes⟩ := List.forall_mem_cons.1 h
      exact ((he.mono (by omega)).append (ih hes)).cons rfl (by decide)

theorem grouped_itemTokens : Grouped (-1) (itemTokens es) := by
  cases es with
  | nil => exact Grouped.nil
  | cons e es =>
      obtain ⟨he, hes⟩ := List.forall_mem_cons.1 h
      exact (he.mono (by omega)).append (grouped_furtherTokens hes)

theorem grouped_statementTokens : Grouped (-1) (statementTokens es) := by
  induction es with
  | nil => exact Grouped.nil
  | cons e es ih =>
      obtain ⟨he, hes⟩ := List.forall_mem_cons.1 h
      exact (he.mono (by omega)).append ((ih hes).cons rfl (by decide))

end Lists

theorem grouped_tokens {e : Expr} (he : OfOperators e) : Grouped (level e) (tokens e) := by
  induction he with
  | bool | string | property =>
      rw [tokens]
      exact Grouped.nil.cons rfl (Int.le_refl _)
  | unary op h ih =>
      rw [tokens_unary]
      exact (grouped_tokensAt ih le_rfl).cons rfl (Int.le_refl _)
  | binary op hl hr ihl ihr =>
      have hlt := precedence_lt op
      have hl := grouped_tokensAt ihl hlt.le
      have hr := grouped_tokensAt ihr hlt
      rw [tokens_binary]
      exact hl.append ((hr.mono (by omega)).cons rfl (Int.le_refl _))
  | @condition test yes no ht hy hn iht ihy ihn =>
      have ht := grouped_tokensAt iht (show 1 ≤ operandPrecedence by decide)
      have hyes := Grouped.bracket (o := .test) (c := .otherwise) (p := 0) rfl rfl (by decide) ihy
      have hno := ihn.mono (p := 0) (by omega)
      rw [tokens_condition]
      have hall := (ht.mono (p := 0) (by decide)).append (hyes.append hno)
      rw [List.cons_append, List.append_assoc] at hall
      exact hall
  | cast h target ih =>
      rw [tokens]
      exact ih.bracket rfl rfl (Int.le_refl _)
  | array h ih =>
      rw [tokens]
      exact (grouped_itemTokens ih).bracket rfl rfl (Int.le_refl _)
  | block h ih =>
      rw [tokens]
      exact (grouped_statementTokens ih).bracket rfl rfl (Int.le_refl _)

theorem grouped_standing {e : Expr} (he : OfOperators e) : Grouped 0 (tokens e) :=
  (grouped_tokens he).mono (Int.natCast_nonneg _)

/-- The text of an expression shows what its outermost operator is by a separator outside of all
brackets. -/
theorem exists_separator {e : Expr} (he : OfOperators e) :
    level e = operandPrecedence ∨
      ∃ (A : List Token) (t : Token) (B : List Token),
        tokens e = A ++ t :: B ∧ balance A = 0 ∧ t.rank = level e := by
  cases he with
  | binary op hl hr =>
      have hl := grouped_tokensAt (grouped_tokens hl) (precedence_lt op).le
      exact .inr ⟨_, _, _, tokens_binary .., hl.closed, rfl⟩
  | condition ht hy hn =>
      have ht := grouped_tokensAt (grouped_tokens ht) (show 1 ≤ operandPrecedence by decide)
      exact .inr ⟨_, _, _, tokens_condition .., ht.closed, rfl⟩
  | _ => exact .inl rfl

theorem level_eq_of_tokens_eq {e e' : Expr} (he : OfOperators e) (he' : OfOperators e')
    (h : tokens e = tokens e') : level e = level e' := by
  have hle : ∀ {e e' : Expr}, OfOperators e → OfOperators e' → tokens e = tokens e' →
      level e' ≤ level e := by
    intro e e' he he' h
    rcases exists_separator he with hlevel | ⟨A, t, B, hsplit, hA, hrank⟩
    · rw [hlevel]
      exact level_le e'
    · have htight := (grouped_tokens he').tight A t B (h ▸ hsplit) hA
      omega
  exact Nat.le_antisymm (hle he' he h.symm) (hle he he' h)

def mark : Expr → Option Token
  | bool b => some (.truth b)
  | string s => some (.text s)
  | property element name => some (.property element name)
  | unary op _ => some (.unary op)
  | cast _ target => some (.cast target)
  | array _ _ => some (.opening .array)
  | block _ => some (.opening .block)
  | _ => none

theorem level_lt_or_mark {e : Expr} (he : OfOperators e) :
    (level e < operandPrecedence ∧ mark e = none) ∨
      (level e = operandPrecedence ∧ ∃ t ts, tokens e = t :: ts ∧ mark e = some t) := by
  cases he with
  | binary op => exact .inl ⟨precedence_lt op, rfl⟩
  | condition => exact .inl ⟨Nat.zero_lt_succ 9, rfl⟩
  | _ => exact .inr ⟨rfl, _, _, by rw [tokens], rfl⟩

theorem mark_eq_of_tokens_eq {e e' : Expr} (he : OfOperators e) (he' : OfOperators e')
    (h : tokens e = tokens e') : mark e = mark e' := by
  have hlevel := level_eq_of_tokens_eq he he' h
  rcases level_lt_or_mark he with ⟨hlt, hm⟩ | ⟨heq, t, ts, ht, hm⟩ <;>
    rcases level_lt_or_mark he' with ⟨hlt', hm'⟩ | ⟨heq', t', ts', ht', hm'⟩
  · rw [hm, hm']
  · omega
  · omega
  · rw [ht, ht', List.cons.injEq] at h
    rw [hm, hm', h.1]

theorem mark_ne_paren (e : Expr) : mark e ≠ some (.opening .paren) := by
  cases e <;> simp [mark]

theorem tokens_ne_parenthesized {e : Expr} (he : OfOperators e) {p : Int} {ts : List Token}
    (hts : Grouped p ts) : tokens e ≠ .opening .paren :: (ts ++ [.closing .paren]) := by
  intro h
  rcases level_lt_or_mark he with ⟨hlt, -⟩ | ⟨-, t, ts', ht, hm⟩
  · rcases exists_separator he with hlevel | ⟨A, t, B, hsplit, hA, hrank⟩
    · omega
    · have hall := hts.bracket (p := operandPrecedence) (o := .opening .paren)
        (c := .closing .paren) rfl rfl (Int.le_refl _)
      have htight := hall.tight A t B (h ▸ hsplit) hA
      rw [hrank] at htight
      exact absurd (Int.ofNat_le.1 htight) (Nat.not_le.2 hlt)
  · rw [ht, List.cons.injEq] at h
    exact mark_ne_paren e (h.1 ▸ hm)

theorem tokens_eq_of_tokensAt_eq {e e' : Expr} (he : OfOperators e) (he' : OfOperators e')
    {around : Nat} (h : tokensAt around e = tokensAt around e') : tokens e = tokens e' := by
  rw [tokensAt, tokensAt, enclose, enclose] at h
  split at h <;> split at h
  · rw [List.cons.injEq] at h
    exact List.append_cancel_right h.2
  · exact absurd h.symm (tokens_ne_parenthesized he' (grouped_tokens he))
  · exact absurd h (tokens_ne_parenthesized he (grouped_tokens he'))
  · exact h

theorem tokens_binary_inj {op op' : BinaryOp} {l r l' r' : Expr} (hl : OfOperators l)
    (hr : OfOperators r) (hl' : OfOperators l') (hr' : OfOperators r')
    (h : tokens (binary op l r) = tokens (binary op' l' r')) :
    op = op' ∧ tokens l = tokens l' ∧ tokens r = tokens r' := by
  -- Both are split at separators of one rank, which the right operand does not have.
  have hlevel : precedence op = precedence op' :=
    level_eq_of_tokens_eq (.binary op hl hr) (.binary op' hl' hr') h
  rw [tokens_binary, tokens_binary, ← hlevel] at h
  have hlt := precedence_lt op
  have hleft := fun {e} (he : OfOperators e) => grouped_tokensAt (grouped_tokens he) hlt.le
  have hright := fun {e} (he : OfOperators e) => grouped_tokensAt (grouped_tokens he) hlt
  have hrank : (Token.binary op).rank < ↑(precedence op + 1) :=
    Int.ofNat_lt.2 (Nat.lt_succ_self _)
  have hrank' : (Token.binary op').rank < ↑(precedence op + 1) :=
    Int.ofNat_lt.2 (hlevel ▸ Nat.lt_succ_self _)
  obtain ⟨hl_eq, hop, hr_eq⟩ := (hleft hl).separator_unique (hleft hl') (hright hr) (hright hr')
    rfl rfl hrank hrank' h
  exact ⟨Token.binary.inj hop, tokens_eq_of_tokensAt_eq hl hl' hl_eq,
    tokens_eq_of_tokensAt_eq hr hr' hr_eq⟩

theorem tokens_condition_inj {test yes no test' yes' no' : Expr} (ht : OfOperators test)
    (hy : OfOperators yes) (ht' : OfOperators test') (hy' : OfOperators yes')
    (h : tokens (condition test yes no) = tokens (condition test' yes' no')) :
    tokens test = tokens test' ∧ tokens yes = tokens yes' ∧ tokens no = tokens no' := by
  rw [tokens_condition, tokens_condition] at h
  have htest := fun {e} (he : OfOperators e) =>
    grouped_tokensAt (grouped_tokens he) (show 1 ≤ operandPrecedence by decide)
  obtain ⟨ht_eq, hrest⟩ := (htest ht).append_unique (htest ht') (by simp [Token.rank])
    (by simp [Token.rank]) h
  obtain ⟨hy_eq, hrest⟩ := (grouped_standing hy).append_unique (grouped_standing hy')
    (by simp [Token.rank]) (by simp [Token.rank]) (List.cons.inj hrest).2
  exact ⟨tokens_eq_of_tokensAt_eq ht ht' ht_eq, hy_eq, (List.cons.inj hrest).2⟩

theorem tokens_ne_nil {e : Expr} (he : OfOperators e) : tokens e ≠ [] := by
  cases he with
  | binary => simp [tokens_binary]
  | condition => simp [tokens_condition]
  | _ => simp [tokens]

theorem rank_furtherTokens (es : List Expr) :
    ∀ t ∈ (furtherTokens es ++ [Token.closing .array]).head?, t.rank < (0 : Int) := by
  cases es with
  | nil => simp [furtherTokens, Token.rank]
  | cons e es => simp [furtherTokens, Token.rank]

section Lists

variable {es es' : List Expr} (hes : ∀ e ∈ es, OfOperators e) (hes' : ∀ e ∈ es', OfOperators e)
  (ih : ∀ e ∈ es, ∀ {e'}, OfOperators e' → tokens e = tokens e' → e = e')

include hes hes' ih

theorem statementTokens_injective
    (h : statementTokens es ++ [.closing .block] = statementTokens es' ++ [.closing .block]) :
    es = es' := by
  induction es generalizing es' with
  | nil =>
      cases es' with
      | nil => rfl
      | cons e' es' =>
          have he' := (List.forall_mem_cons.1 hes').1
          rw [statementTokens, statementTokens, List.append_assoc] at h
          obtain ⟨-, hnext⟩ := Grouped.nil.append_unique (grouped_standing he')
            (by simp [Token.rank]) (by simp [Token.rank]) h
          simp at hnext
  | cons e es ihes =>
      obtain ⟨he, hes⟩ := List.forall_mem_cons.1 hes
      obtain ⟨ihe, ih⟩ := List.forall_mem_cons.1 ih
      cases es' with
      | nil =>
          rw [statementTokens, statementTokens, List.append_assoc] at h
          obtain ⟨-, hnext⟩ := (grouped_standing he).append_unique Grouped.nil
            (by simp [Token.rank]) (by simp [Token.rank]) h
          simp at hnext
      | cons e' es' =>
          obtain ⟨he', hes'⟩ := List.forall_mem_cons.1 hes'
          rw [statementTokens, statementTokens, List.append_assoc, List.append_assoc] at h
          obtain ⟨hhead, hnext⟩ := (grouped_standing he).append_unique (grouped_standing he')
            (by simp [Token.rank]) (by simp [Token.rank]) h
          rw [ihe he' hhead, ihes hes hes' ih (List.cons.inj hnext).2]

theorem furtherTokens_injective
    (h : furtherTokens es ++ [.closing .array] = furtherTokens es' ++ [.closing .array]) :
    es = es' := by
  induction es generalizing es' with
  | nil =>
      cases es' with
      | nil => rfl
      | cons e' es' => simp [furtherTokens] at h
  | cons e es ihes =>
      cases es' with
      | nil => simp [furtherTokens] at h
      | cons e' es' =>
          obtain ⟨he, hes⟩ := List.forall_mem_cons.1 hes
          obtain ⟨he', hes'⟩ := List.forall_mem_cons.1 hes'
          obtain ⟨ihe, ih⟩ := List.forall_mem_cons.1 ih
          rw [furtherTokens, furtherTokens, List.cons_append, List.cons_append, List.append_assoc,
            List.append_assoc] at h
          obtain ⟨hhead, hnext⟩ := (grouped_standing he).append_unique (grouped_standing he')
            (rank_furtherTokens es) (rank_furtherTokens es') (List.cons.inj h).2
          rw [ihe he' hhead, ihes hes hes' ih hnext]

theorem itemTokens_injective
    (h : itemTokens es ++ [.closing .array] = itemTokens es' ++ [.closing .array]) :
    es = es' := by
  cases es with
  | nil =>
      cases es' with
      | nil => rfl
      | cons e' es' =>
          have he' := (List.forall_mem_cons.1 hes').1
          rw [itemTokens, itemTokens, List.append_assoc] at h
          obtain ⟨hhead, -⟩ := Grouped.nil.append_unique (grouped_standing he')
            (by simp [Token.rank]) (rank_furtherTokens es') h
          exact absurd hhead.symm (tokens_ne_nil he')
  | cons e es =>
      obtain ⟨he, hes⟩ := List.forall_mem_cons.1 hes
      obtain ⟨ihe, ih⟩ := List.forall_mem_cons.1 ih
      cases es' with
      | nil =>
          rw [itemTokens, itemTokens, List.append_assoc] at h
          obtain ⟨hhead, -⟩ := (grouped_standing he).append_unique Grouped.nil
            (rank_furtherTokens es) (by simp [Token.rank]) h
          exact absurd hhead (tokens_ne_nil he)
      | cons e' es' =>
          obtain ⟨he', hes'⟩ := List.forall_mem_cons.1 hes'
          rw [itemTokens, itemTokens, List.append_assoc, List.append_assoc] at h
          obtain ⟨hhead, hnext⟩ := (grouped_standing he).append_unique (grouped_standing he')
            (rank_furtherTokens es) (rank_furtherTokens es') h
          rw [ihe he' hhead, furtherTokens_injective hes hes' ih hnext]

end Lists

theorem tokens_injective {e e' : Expr} (he : OfOperators e) (he' : OfOperators e')
    (h : tokens e = tokens e') : e = e' := by
  induction he generalizing e' with
  | bool b =>
      have hmark := mark_eq_of_tokens_eq (.bool b) he' h
      cases he' with
      | bool b' => simpa [mark] using hmark
      | _ => simp [mark] at hmark
  | string s =>
      have hmark := mark_eq_of_tokens_eq (.string s) he' h
      cases he' with
      | string s' => simpa [mark] using hmark
      | _ => simp [mark] at hmark
  | property element hname =>
      have hmark := mark_eq_of_tokens_eq (.property element hname) he' h
      cases he' with
      | property element' hname' => simpa [mark] using hmark
      | _ => simp [mark] at hmark
  | unary op hs ih =>
      have hmark := mark_eq_of_tokens_eq (.unary op hs) he' h
      cases he' with
      | unary op' hs' =>
          rw [tokens_unary, tokens_unary, List.cons.injEq, Token.unary.injEq] at h
          rw [h.1, ih hs' (tokens_eq_of_tokensAt_eq hs hs' h.2)]
      | _ => simp [mark] at hmark
  | binary op hl hr ihl ihr =>
      have hmark := mark_eq_of_tokens_eq (.binary op hl hr) he' h
      have hlevel := level_eq_of_tokens_eq (.binary op hl hr) he' h
      cases he' with
      | binary op' hl' hr' =>
          obtain ⟨rfl, hleft, hright⟩ := tokens_binary_inj hl hr hl' hr' h
          rw [ihl hl' hleft, ihr hr' hright]
      | condition =>
          rw [level, level] at hlevel
          exact absurd hlevel (precedence_pos op).ne'
      | _ => simp [mark] at hmark
  | condition ht hy hn iht ihy ihn =>
      have hmark := mark_eq_of_tokens_eq (.condition ht hy hn) he' h
      have hlevel := level_eq_of_tokens_eq (.condition ht hy hn) he' h
      cases he' with
      | condition ht' hy' hn' =>
          obtain ⟨htest, hyes, hno⟩ := tokens_condition_inj ht hy ht' hy' h
          rw [iht ht' htest, ihy hy' hyes, ihn hn' hno]
      | binary op =>
          rw [level, level] at hlevel
          exact absurd hlevel.symm (precedence_pos op).ne'
      | _ => simp [mark] at hmark
  | cast hs target ih =>
      have hmark := mark_eq_of_tokens_eq (.cast hs target) he' h
      cases he' with
      | cast hs' target' =>
          rw [tokens, tokens, List.cons.injEq, Token.cast.injEq] at h
          rw [h.1, ih hs' (List.append_cancel_right h.2)]
      | _ => simp [mark] at hmark
  | array hs ih =>
      have hmark := mark_eq_of_tokens_eq (.array hs) he' h
      cases he' with
      | array hs' =>
          rw [tokens, tokens, List.cons.injEq] at h
          rw [itemTokens_injective hs hs' ih h.2]
      | _ => simp [mark] at hmark
  | block hs ih =>
      have hmark := mark_eq_of_tokens_eq (.block hs) he' h
      cases he' with
      | block hs' =>
          rw [tokens, tokens, List.cons.injEq] at h
          rw [statementTokens_injective hs hs' ih h.2]
      | _ => simp [mark] at hmark

/-- Expressions that print alike are the same: every pair of parentheses that the reading
depends on is there. -/
theorem text_injective {e e' : Expr} (he : OfOperators e) (he' : OfOperators e')
    (h : e.text = e'.text) : e = e' := by
  have hspelling := congrArg String.toList h
  rw [text, text, render_toList he 0 (Nat.zero_le _), render_toList he' 0 (Nat.zero_le _),
    tokensAt_zero, tokensAt_zero] at hspelling
  exact tokens_injective he he'
    (spelling_injective (spaced_tokens he) (spaced_tokens he') hspelling)

end Expr

namespace Sample

def differences (first : Int) (others : List Int) : Expr :=
  others.foldl (fun e i => Expr.binary .sub e (Expr.property i "x")) (Expr.property first "x")

theorem differences_ofOperators (first : Int) (others : List Int) :
    Expr.OfOperators (differences first others) := by
  have hx : ∀ i, Expr.OfOperators (Expr.property i "x") := fun i => .property i (by decide)
  have hfold : ∀ e, Expr.OfOperators e →
      Expr.OfOperators (others.foldl (fun e i => Expr.binary .sub e (Expr.property i "x")) e) := by
    induction others with
    | nil => exact fun e he => he
    | cons i others ih => exact fun e he => ih _ (he.binary .sub (hx i))
  exact hfold _ (hx first)

theorem differences_read_back :
    Expr.OfOperators (differences 1 [2, 3]) ∧
      (differences 1 [2, 3]).text = "#1.x - #2.x - #3.x" ∧
      differences 1 [2, 3] =
        Expr.binary .sub (Expr.binary .sub (Expr.property 1 "x") (Expr.property 2 "x"))
          (Expr.property 3 "x") ∧
      (Expr.binary .sub (Expr.property 1 "x") (differences 2 [3])).text =
        "#1.x - (#2.x - #3.x)" := by
  have hx : ∀ i, Expr.OfOperators (Expr.property i "x") := fun i => .property i (by decide)
  have hleft := ((hx 1).binary .sub (hx 2)).binary .sub (hx 3)
  exact ⟨differences_ofOperators .., by decide +kernel,
    Expr.text_injective (differences_ofOperators ..) hleft (by decide +kernel), by decide +kernel⟩

end Sample

end UiBinding
