import ClosedSum.Proofs.ParserReads

/-!
# Expressions that derive are read

One lemma for each rule of expressions, statements and clauses: where the parts are read, so is the
whole.
-/

namespace ClosedSum.Grammar

open Surface Parse
open Token (Kind)

variable {c : Cursor} {k : Kind} {ls : List Kind}

section Expressions

variable {l l' : Level} {t : Kind} {op : BinaryOp} {ts us vs : List Kind} {a b e f : Expr}

/-- Behind an operand stands an operator of its level, or what ends the expression. -/
lemma operations_ends (hl : l.operand? = some l') (h : Derives (.operations l a) us e)
    (hls : l.Ends (ls.headD .eof)) : l'.Ends ((us ++ ls).headD .eof) := by
  cases h with
  | operationsNil => exact Level.Ends.operand hl hls
  | operationsCons hl' hop => exact Level.ends_of_op? hl hop

lemma level_read (hl : l.operand? = some l') (hd : Derives (.expr l') ts a)
    (ha : Read (.expr l') ts a) (hde : Derives (.operations l a) us e)
    (he : Read (.operations l a) us e) : Read (.expr l) (ts ++ us) e := by
  suffices h : ReadBy (.expr l) (ts ++ us) e by
    cases l with
    | unary => cases hl
    | _ => exact h
  intro d c ls hlen hc hfollows
  obtain ⟨t, vs, rfl, -⟩ := hd.head rfl
  simp only [List.length_append, List.length_cons] at hlen
  obtain ⟨d, rfl⟩ : ∃ n, d = n + 1 := ⟨d - 1, by omega⟩
  have hend : l'.Ends ((us ++ ls).headD .eof) := operations_ends hl hde hfollows
  have hlen' : (t :: vs).length ≤ d + 1 := by
    rw [List.length_cons]
    omega
  have hread := ha.of_expr (d + 1) c (us ++ ls) hlen' (by simpa using hc) hend
  rw [Phrase.parser, Level.parser_operand hl]
  refine hread.bind fun a' c₁ hc₁ ha' => ?_
  exact he l' (d + 1) (d + 1) a' c₁ ls hl (by omega) (by omega) ha' hc₁ hfollows

lemma operationsNil_read : Read (.operations l a) [] a := by
  intro l' d rounds a' c ls hl _ _ ha' hc hfollows
  rw [List.nil_append] at hc
  cases rounds with
  | zero => exact .pure hc ha'
  | succ rounds =>
    refine (kind_reads hc).bind fun t c₁ hc₁ ht => ?_
    rw [ht, Level.op?_of_ends hfollows]
    exact .pure hc₁ ha'

lemma operationsCons_read (hl : l.operand? = some l') (hop : l.op? t = some op)
    (hb : Read (.expr l') ts b) (hde : Derives (.operations l (.binary .none op a b)) us e)
    (he : Read (.operations l (.binary .none op a b)) us e) :
    Read (.operations l a) (t :: ts ++ us) e := by
  intro l'' d rounds a' c ls hl'' hlen hrounds ha' hc hfollows
  obtain rfl : l' = l'' := Option.some.inj (hl.symm.trans hl'')
  simp only [List.length_append, List.length_cons] at hlen hrounds
  obtain ⟨rounds, rfl⟩ : ∃ n, rounds = n + 1 := ⟨rounds - 1, by omega⟩
  have ht : t ≠ .eof := by
    rintro rfl
    rw [l.op?_eof] at hop
    cases hop
  have hend : l'.Ends ((us ++ ls).headD .eof) := operations_ends hl hde hfollows
  have hkinds : c.kinds = t :: (ts ++ (us ++ ls)) := by simpa using hc
  refine (kind_reads hkinds).bind fun k c₁ hc₁ hk => ?_
  obtain rfl : k = t := hk
  rw [hop]
  refine (next_reads hc₁ ht).bind fun _ c₂ hc₂ _ => ?_
  refine (hb.of_expr d c₂ (us ++ ls) (by omega) hc₂ hend).bind fun b' c₃ hc₃ hb' => ?_
  refine he l' d rounds _ c₃ ls hl (by omega) (by omega) ?_ hc₃ hfollows
  simp only [binary, Expr.erase, ha']
  exact congrArg _ hb'

/-- What an expression may begin with. -/
def Phrase.begins : Phrase → Kind → Prop
  | .expr _, t => t ≠ .keyword .let
  | .primary, t => t ≠ .keyword .let ∧ t ≠ .symbol .minus
  | .block, t => t = .symbol .leftBrace
  | .conditional, t => t = .keyword .if
  | _, _ => True

lemma Derives.begins {p : Phrase} {ts : List Kind} {a : p.Tree} (h : Derives p ts a) :
    ∀ t us, ts = t :: us → p.begins t := by
  induction h with
  | level hl ha h iha =>
    obtain ⟨t, vs, rfl, -⟩ := ha.head rfl
    rintro t us ⟨⟩
    exact iha t vs rfl
  | applied hf h ihf =>
    obtain ⟨t, vs, rfl, -⟩ := hf.head rfl
    rintro t us ⟨⟩
    exact (ihf t vs rfl).1
  | primaryBlock h ih =>
    rintro t us rfl
    obtain rfl : t = .symbol .leftBrace := ih t us rfl
    simp [Phrase.begins]
  | primaryIf h ih =>
    rintro t us rfl
    obtain rfl : t = .keyword .if := ih t us rfl
    simp [Phrase.begins]
  | negation | int | str | boolTrue | boolFalse | parensNone | parens | matchUse | name | ifBlock
  | ifIf | block =>
    rintro t us ⟨⟩
    simp [Phrase.begins]
  | _ => exact fun _ _ _ => trivial

lemma negation_read (h : Read (.expr .unary) ts e) :
    Read (.expr .unary) (.symbol .minus :: ts) (.binary .none .sub (.int .none 0) e) := by
  intro d rounds c ls hlen hrounds hc hfollows
  rw [List.length_cons] at hlen hrounds
  obtain ⟨rounds, rfl⟩ : ∃ n, rounds = n + 1 := ⟨rounds - 1, by omega⟩
  refine (isNext_reads hc).bind fun minus c₁ hc₁ hminus => ?_
  subst hminus
  refine (sign_reads hc₁).bind fun s c₂ hc₂ _ => ?_
  refine (h d rounds c₂ ls (by omega) (by omega) hc₂ hfollows).bind fun e' c₃ hc₃ he' => ?_
  exact .pure hc₃ (by simp [binary, Expr.erase, he'])

/-- Behind a primary stands an argument list, or what ends the expression. -/
lemma calls_follow (h : Derives (.calls f) us e) (hls : Level.unary.Ends (ls.headD .eof)) :
    Phrase.primary.Follows ((us ++ ls).headD .eof) := by
  cases h with
  | callsNil => exact hls.2
  | callsCons => exact fun h => Kind.noConfusion h nofun

lemma applied_read (hd : Derives .primary ts f) (hf : Read .primary ts f)
    (hde : Derives (.calls f) us e) (he : Read (.calls f) us e) :
    Read (.expr .unary) (ts ++ us) e := by
  intro d rounds c ls hlen hrounds hc hfollows
  obtain ⟨t, vs, rfl, -⟩ := hd.head rfl
  simp only [List.length_append, List.length_cons] at hlen hrounds
  obtain ⟨rounds, rfl⟩ : ∃ n, rounds = n + 1 := ⟨rounds - 1, by omega⟩
  have hc' : c.kinds = t :: vs ++ (us ++ ls) := by simpa using hc
  refine (isNext_leaves hc' (hd.begins t vs rfl).2).bind fun minus c₁ hc₁ hminus => ?_
  subst hminus
  have hlen' : (t :: vs).length ≤ d := by
    rw [List.length_cons]
    omega
  refine (hf d c₁ _ hlen' hc₁ (calls_follow hde hfollows)).bind fun f' c₂ hc₂ hf' => ?_
  exact he d d f' c₂ ls (by omega) (by omega) hf' hc₂ hfollows

lemma callsNil_read : Read (.calls f) [] f := by
  intro d rounds f' c ls _ _ hf' hc hfollows
  rw [List.nil_append] at hc
  cases rounds with
  | zero => exact .pure hc hf'
  | succ rounds =>
    refine (isNext_leaves hc hfollows.1).bind fun paren c₁ hc₁ hparen => ?_
    subst hparen
    exact .pure hc₁ hf'

lemma callsCons_read {args : List Expr} (ha : Read (.listOf .comma (.expr .comparison)) ts args)
    (he : Read (.calls (.call .none f args)) us e) :
    Read (.calls f) (.symbol .leftParen :: ts ++ .symbol .rightParen :: us) e := by
  intro d rounds f' c ls hlen hrounds hf' hc hfollows
  simp only [List.length_append, List.length_cons] at hlen hrounds
  obtain ⟨rounds, rfl⟩ : ∃ n, rounds = n + 1 := ⟨rounds - 1, by omega⟩
  have hc' : c.kinds = .symbol .leftParen :: (ts ++ .symbol .rightParen :: (us ++ ls)) := by
    simpa using hc
  refine (isNext_reads hc').bind fun paren c₁ hc₁ hparen => ?_
  subst hparen
  refine (sign_reads hc₁).bind fun opened c₂ hc₂ _ => ?_
  have hlen' : ts.length ≤ d - 1 := by omega
  have hbound : ts.length ≤ d := by omega
  have hargs := closedList_reads ha rfl rfl rfl opened hlen' hbound hc₂
  refine hargs.within.bind fun ⟨args', closed⟩ c₃ hc₃ hr => ?_
  have hcall : (Expr.call (f'.span.merge closed) f' args').erase = .call .none f args := by
    rw [← hf', ← hr]
    exact congrArg (Expr.call .none f'.erase) (eraseExprs_eq_map args')
  exact he d rounds _ c₃ ls (by omega) (by omega) hcall hc₃ hfollows

lemma leaf_reads (hc : c.kinds = k :: ls) (hk : k ≠ .eof) {g : Span → Expr}
    (hg : ∀ s, (g s).erase = e) : Reads (do return g (← next).span) c ls (·.erase = e) :=
  (next_reads hc hk).bind fun _ _ hc₁ _ => .pure hc₁ (hg _)

/-- The trees of the tokens that are primaries by themselves. -/
def literal? : Kind → Option (Span → Expr)
  | .int n => some (.int · n)
  | .str text => some (.str · text)
  | .keyword .true => some (.bool · true)
  | .keyword .false => some (.bool · false)
  | _ => none

lemma literal_read {g : Span → Expr} (h : literal? k = some g) : Read .primary [k] (g .none) := by
  intro d c ls _ hc _
  refine (kind_reads hc).bind fun t c₁ hc₁ ht => ?_
  obtain rfl : k = t := Eq.symm ht
  match k, h with
  | .int n, rfl => exact leaf_reads hc₁ (by simp) fun _ => rfl
  | .str text, rfl => exact leaf_reads hc₁ (by simp) fun _ => rfl
  | .keyword .true, rfl => exact leaf_reads hc₁ (by simp) fun _ => rfl
  | .keyword .false, rfl => exact leaf_reads hc₁ (by simp) fun _ => rfl

/-- A name stands for itself unless a match comes of it. -/
lemma name_read (name : String) : Read .primary [.ident name] (.ident .none name) := by
  intro d c ls _ hc hfollows
  refine (kind_reads hc).bind fun t c₁ hc₁ ht => ?_
  subst ht
  refine (isSecond_reads hc₁ (by simp) (by simp)).bind fun bang c₂ hc₂ hbang => ?_
  obtain rfl : bang = false := hbang.trans (decide_eq_false hfollows)
  exact leaf_reads hc₂ (by simp) fun _ => rfl

lemma ends_rightParen : Level.comparison.Ends (.symbol .rightParen) := by
  simp [Level.Ends, comparison?, additive?, multiplicative?]

/-- A brace ends the test of a conditional. -/
lemma ends_leftBrace : Level.comparison.Ends (.symbol .leftBrace) := by
  simp [Level.Ends, comparison?, additive?, multiplicative?]

lemma parensNone_read :
    Read .primary [.symbol .leftParen, .symbol .rightParen] (.unit .none) := by
  intro d c ls _ hc _
  refine (kind_reads hc).bind fun t c₁ hc₁ ht => ?_
  subst ht
  refine (next_reads hc₁ (by simp)).bind fun _ c₂ hc₂ _ => ?_
  refine (isNext_reads hc₂).bind fun closed c₃ hc₃ hclosed => ?_
  subst hclosed
  exact (sign_reads hc₃).bind fun _ _ hc₄ _ => .pure hc₄ rfl

lemma parens_read (hd : Derives (.expr .comparison) ts e) (h : Read (.expr .comparison) ts e) :
    Read .primary (.symbol .leftParen :: ts ++ [.symbol .rightParen]) e := by
  intro d c ls hlen hc _
  simp only [List.length_append, List.length_cons, List.length_nil] at hlen
  have hc' : c.kinds = .symbol .leftParen :: (ts ++ .symbol .rightParen :: ls) := by simpa using hc
  refine (kind_reads hc').bind fun t c₁ hc₁ ht => ?_
  subst ht
  refine (next_reads hc₁ (by simp)).bind fun _ c₂ hc₂ _ => ?_
  have hopen : (ts ++ Kind.symbol .rightParen :: ls).headD .eof ≠ .symbol .rightParen := by
    obtain ⟨t, us, rfl, ht⟩ := hd.head rfl
    exact ht.2.1
  refine (isNext_leaves hc₂ hopen).bind fun closed c₃ hc₃ hclosed => ?_
  subst hclosed
  refine (h (d - 1) c₃ _ (by omega) hc₃ ends_rightParen).bind fun e' c₄ hc₄ he' => ?_
  exact (close_reads hc₄).bind fun s c₅ hc₅ _ => .pure hc₅ ((Expr.erase_withSpan _ _).trans he')

lemma block_read {ss : List Stmt} (h : Read (.listOf .semicolon .stmt) ts ss) :
    Read .block (.symbol .leftBrace :: ts ++ [.symbol .rightBrace]) (.block .none ss) := by
  intro d c ls hlen hc _
  simp only [List.length_append, List.length_cons, List.length_nil] at hlen
  have hc' : c.kinds = .symbol .leftBrace :: (ts ++ .symbol .rightBrace :: ls) := by simpa using hc
  refine Reads.within ((sign_reads hc').bind fun opened c₁ hc₁ _ => ?_)
  have hlen' : ts.length ≤ d - 1 := by omega
  have hbound : ts.length ≤ d := by omega
  have hstmts := closedList_reads h rfl rfl rfl opened hlen' hbound hc₁
  refine hstmts.bind fun ⟨ss', closed⟩ c₂ hc₂ hr => .pure hc₂ ?_
  exact congrArg (Expr.block .none) ((eraseStmts_eq_map ss').trans hr)

lemma primaryBlock_read (hd : Derives .block ts e) (h : Read .block ts e) : Read .primary ts e := by
  intro d c ls hlen hc _
  obtain ⟨t, us, rfl, -⟩ := hd.head rfl
  obtain rfl : t = .symbol .leftBrace := hd.begins t us rfl
  refine (kind_reads hc).bind fun k c₁ hc₁ hk => ?_
  subst hk
  exact h d c₁ ls hlen hc₁ trivial

lemma primaryIf_read (hd : Derives .conditional ts e) (h : Read .conditional ts e) :
    Read .primary ts e := by
  intro d c ls hlen hc _
  obtain ⟨t, us, rfl, -⟩ := hd.head rfl
  obtain rfl : t = .keyword .if := hd.begins t us rfl
  refine (kind_reads hc).bind fun k c₁ hc₁ hk => ?_
  subst hk
  exact h d d c₁ ls hlen hlen hc₁

lemma conditional_read {test yes no : Expr} (ht : Read (.expr .comparison) ts test)
    (hdy : Derives .block us yes) (hy : Read .block us yes)
    (hno : (Derives .block vs no ∧ Read .block vs no) ∨
      (Derives .conditional vs no ∧ Read .conditional vs no)) :
    Read .conditional (.keyword .if :: ts ++ us ++ .keyword .else :: vs)
      (.ifElse .none test yes no) := by
  intro d rounds c ls hlen hrounds hc
  simp only [List.length_append, List.length_cons] at hlen hrounds
  obtain ⟨rounds, rfl⟩ : ∃ n, rounds = n + 1 := ⟨rounds - 1, by omega⟩
  have hc' : c.kinds = .keyword .if :: (ts ++ (us ++ .keyword .else :: (vs ++ ls))) := by
    simpa using hc
  refine Reads.within ((keyword_reads hc').bind fun start c₁ hc₁ _ => ?_)
  have hbrace : Level.comparison.Ends ((us ++ .keyword .else :: (vs ++ ls)).headD .eof) := by
    obtain ⟨t, us, rfl, -⟩ := hdy.head rfl
    obtain rfl : t = .symbol .leftBrace := hdy.begins t us rfl
    exact ends_leftBrace
  refine (ht (d - 1) c₁ _ (by omega) hc₁ hbrace).bind fun test' c₂ hc₂ htest => ?_
  refine (hy d c₂ _ (by omega) hc₂ trivial).bind fun yes' c₃ hc₃ hyes => ?_
  refine (keyword_reads hc₃).bind fun _ c₄ hc₄ _ => ?_
  have htree : ∀ no' : Expr, no'.erase = no →
      (Expr.ifElse (start.merge no'.span) test' yes' no').erase = .ifElse .none test yes no := by
    intro no' hno'
    rw [← htest, ← hyes, ← hno']
    rfl
  rcases hno with ⟨hdn, hn⟩ | ⟨hdn, hn⟩ <;> obtain ⟨t, vs, rfl, -⟩ := hdn.head rfl
  · obtain rfl : t = .symbol .leftBrace := hdn.begins t vs rfl
    refine (isNext_leaves hc₄ (by simp)).bind fun again c₅ hc₅ hagain => ?_
    subst hagain
    exact (hn d c₅ ls (by omega) hc₅ trivial).bind fun no' _ hc₆ hno' => .pure hc₆ (htree no' hno')
  · obtain rfl : t = .keyword .if := hdn.begins t vs rfl
    refine (isNext_reads hc₄).bind fun again c₅ hc₅ hagain => ?_
    subst hagain
    exact (hn d rounds c₅ ls (by omega) (by omega) hc₅).bind
      fun no' _ hc₆ hno' => .pure hc₆ (htree no' hno')

lemma bind_read {i : Ident} (hi : Derives .ident ts i) (he : Read (.expr .comparison) us e) :
    Read .stmt (.keyword .let :: ts ++ .symbol .assign :: us) (.bind i e) := by
  intro d c ls hlen hc hfollows
  simp only [List.length_append, List.length_cons] at hlen
  cases hi with
  | ident name =>
    refine (eat_reads hc (by simp)).bind fun bound c₁ hc₁ hbound => ?_
    subst hbound
    refine (ident_reads hc₁).bind fun i c₂ hc₂ hi => ?_
    refine (sign_reads hc₂).bind fun _ c₃ hc₃ _ => ?_
    refine (he d c₃ ls (by omega) hc₃ hfollows).bind fun e' c₄ hc₄ he' => .pure hc₄ ?_
    exact congrArg₂ Stmt.bind hi he'

lemma stmt_read (hd : Derives (.expr .comparison) ts e) (h : Read (.expr .comparison) ts e) :
    Read .stmt ts (.expr e) := by
  intro d c ls hlen hc hfollows
  obtain ⟨t, us, rfl, -⟩ := hd.head rfl
  refine (eat_leaves hc (hd.begins t us rfl)).bind fun bound c₁ hc₁ hbound => ?_
  subst hbound
  exact (h d c₁ ls hlen hc₁ hfollows).bind fun e' c₂ hc₂ he' => .pure hc₂ (congrArg Stmt.expr he')

end Expressions

section Matches

variable {ts us : List Kind} {i : Ident} {e : Expr}

lemma paramIdent_read (h : Derives .ident ts i) : Read .param ts (.named i) := by
  intro d c ls _ hc _
  cases h with
  | ident name =>
    refine (kind_reads hc).bind fun t c₁ hc₁ ht => ?_
    subst ht
    exact (next_reads hc₁ (by simp)).bind fun _ _ hc₂ _ => .pure hc₂ rfl

lemma paramWildcard_read : Read .param [.symbol .underscore] (.wildcard .none) := by
  intro d c ls _ hc _
  refine (kind_reads hc).bind fun t c₁ hc₁ ht => ?_
  subst ht
  exact (next_reads hc₁ (by simp)).bind fun _ _ hc₂ _ => .pure hc₂ rfl

lemma patternDefault_read : Read .pattern [.symbol .underscore] .default := by
  intro d c ls _ hc _
  refine (kind_reads hc).bind fun t c₁ hc₁ ht => ?_
  subst ht
  exact (next_reads hc₁ (by simp)).bind fun _ _ hc₂ _ => .pure hc₂ rfl

lemma patternList_read {ps : List Match.Param} (hi : Derives .ident ts i)
    (hp : Read (.listOf .comma .param) us ps) :
    Read .pattern (ts ++ .symbol .leftParen :: us ++ [.symbol .rightParen])
      (.case i (.list ps)) := by
  intro d c ls hlen hc _
  simp only [List.length_append, List.length_cons, List.length_nil] at hlen
  cases hi with
  | ident name =>
    have hc' : c.kinds =
        .ident name :: .symbol .leftParen :: (us ++ .symbol .rightParen :: ls) := by simpa using hc
    refine (kind_reads hc').bind fun t c₁ hc₁ ht => ?_
    subst ht
    refine (next_reads hc₁ (by simp)).bind fun _ c₂ hc₂ _ => ?_
    refine (kind_reads hc₂).bind fun t c₃ hc₃ ht => ?_
    subst ht
    refine (next_reads hc₃ (by simp)).bind fun opened c₄ hc₄ _ => ?_
    have hlen' : us.length ≤ d := by omega
    have hparams := closedList_reads hp rfl rfl rfl opened.span hlen' hlen' hc₄
    refine hparams.bind fun ⟨ps', closed⟩ c₅ hc₅ hr => .pure hc₅ ?_
    exact congrArg (fun ps => Match.Pattern.case ⟨name, .none⟩ (.list ps)) hr

lemma patternRest_read {p : Match.Param} (hi : Derives .ident ts i) (hd : Derives .param us p)
    (hp : Read .param us p) : Read .pattern (ts ++ us) (.case i (.rest p)) := by
  intro d c ls hlen hc _
  simp only [List.length_append] at hlen
  cases hi with
  | ident name =>
    have hc' : c.kinds = .ident name :: (us ++ ls) := by simpa using hc
    refine (kind_reads hc').bind fun t c₁ hc₁ ht => ?_
    subst ht
    refine (next_reads hc₁ (by simp)).bind fun _ c₂ hc₂ _ => ?_
    refine (kind_reads hc₂).bind fun t c₃ hc₃ ht => ?_
    have hparam := hp d c₃ ls (by omega) hc₃ trivial
    have hrest : ∀ (label : Span) (p' : Match.Param), p'.erase = p →
        (Match.Pattern.case ⟨name, label⟩ (.rest p')).erase = .case ⟨name, .none⟩ (.rest p) := by
      rintro label p' rfl
      rfl
    cases hd with
    | paramIdent h =>
      cases h with
      | ident param =>
        subst ht
        exact hparam.bind fun p' _ hc₄ hp' => .pure hc₄ (hrest _ p' hp')
    | paramWildcard =>
      subst ht
      exact hparam.bind fun p' _ hc₄ hp' => .pure hc₄ (hrest _ p' hp')

lemma clause_read {p : Match.Pattern} (hp : Read .pattern ts p)
    (he : Read (.expr .comparison) us e) :
    Read .clause (ts ++ .symbol .arrow :: us) (.mk p (clauseBody e) .none) := by
  intro d c ls hlen hc hfollows
  simp only [List.length_append, List.length_cons] at hlen
  have hc' : c.kinds = ts ++ .symbol .arrow :: (us ++ ls) := by simpa using hc
  refine Reads.within ((span_reads hc').bind fun start c₁ hc₁ _ => ?_)
  refine (hp (d + 1) c₁ _ (by omega) hc₁ trivial).bind fun p' c₂ hc₂ hp' => ?_
  refine (sign_reads hc₂).bind fun _ c₃ hc₃ _ => ?_
  refine (he d c₃ ls (by omega) hc₃ hfollows).bind fun e' c₄ hc₄ he' => .pure hc₄ ?_
  have hbody : eraseStmts (clauseBody e') = clauseBody e :=
    (eraseStmts_eq_map _).trans ((clauseBody_erase _).trans (congrArg clauseBody he'))
  exact congrArg₂ (fun p ss => Clause.mk p ss .none) hp' hbody

lemma matchUse_read (name : String) {cs : List Clause} (hs : Read (.expr .comparison) ts e)
    (hcs : Read (.listOf .comma .clause) us cs) :
    Read .primary (.ident name :: .symbol .bang :: .symbol .leftParen :: ts ++
      .symbol .rightParen :: .symbol .leftBrace :: us ++ [.symbol .rightBrace])
      (.matchUse .none ⟨name, .none⟩ e cs .none) := by
  intro d c ls hlen hc _
  simp only [List.length_append, List.length_cons, List.length_nil] at hlen
  obtain ⟨d, rfl⟩ : ∃ n, d = n + 1 := ⟨d - 1, by omega⟩
  have hc' : c.kinds = .ident name :: .symbol .bang :: .symbol .leftParen :: (ts ++
      .symbol .rightParen :: .symbol .leftBrace :: (us ++ .symbol .rightBrace :: ls)) := by
    simpa using hc
  refine (kind_reads hc').bind fun t c₁ hc₁ ht => ?_
  subst ht
  refine (isSecond_reads hc₁ (by simp) (by simp)).bind fun bang c₂ hc₂ hbang => ?_
  obtain rfl : bang = true := hbang
  refine Reads.within ((ident_reads hc₂).bind fun operator c₃ hc₃ hoperator => ?_)
  refine (sign_reads hc₃).bind fun _ c₄ hc₄ _ => ?_
  refine (sign_reads hc₄).bind fun paren c₅ hc₅ _ => ?_
  refine (hs d c₅ _ (by omega) hc₅ ends_rightParen).bind fun e' c₆ hc₆ he' => ?_
  refine (close_reads hc₆).bind fun _ c₇ hc₇ _ => ?_
  refine (sign_reads hc₇).bind fun opened c₈ hc₈ _ => ?_
  have hlen' : us.length ≤ d := by omega
  have hbound : us.length ≤ d + 1 := by omega
  have hclauses := closedList_reads hcs rfl rfl rfl opened hlen' hbound hc₈
  refine hclauses.bind fun ⟨cs', closed⟩ c₉ hc₉ hr => .pure hc₉ ?_
  have hcs' : eraseClauses cs' = cs := (eraseClauses_eq_map cs').trans hr
  change Expr.matchUse .none operator.erase e'.erase (eraseClauses cs') .none = _
  rw [hoperator, hcs']
  exact congrArg (fun e => Expr.matchUse .none ⟨name, .none⟩ e cs .none) he'

end Matches

end ClosedSum.Grammar
