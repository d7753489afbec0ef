import ClosedSum.Proofs.ParserProgress
import ClosedSum.Proofs.TokenSpans

/-!
# Parsers keep places

From tokens that stand in order, each parser reads a tree whose nodes span their tokens. The spans
that it merges are those of the first and the last thing it read, and between the two there is
nothing but what it read.
-/

namespace ClosedSum.Grammar

open Surface Parse
open Token (Kind)

/-- A parser that reads trees with exact spans from tokens in order. -/
def KeepsSpans (p : Phrase) (parser : Parse p.Tree) : Prop :=
  ∀ c a c', InOrder c.rest → parser c = (.ok a, c') → ∃ ts, c.rest = ts ++ c'.rest ∧ Spans p ts a

lemma ident_spans : KeepsSpans .ident ident := by
  intro c i c' _ h
  exact ⟨_, Cursor.rest_of_expectIdent h, .ident i.name i.span⟩

lemma separated_spans {p : Phrase} {item : Parse p.Tree} (hitem : KeepsSpans p item)
    (separator closer : Token.Symbol) (rounds : Nat) :
    KeepsSpans (.listOf separator p) (separated separator closer item rounds) := by
  induction rounds with
  | zero =>
    intro c as c' _ h
    obtain ⟨rfl, rfl⟩ := pure_ok h
    exact ⟨[], rfl, .listNil separator p⟩
  | succ rounds ih =>
    intro c as c' hc h
    rw [separated] at h
    obtain ⟨stop, c₁, hsee, h⟩ := bind_ok h
    obtain ⟨-, rfl⟩ := see_ok hsee
    split at h
    · obtain ⟨rfl, rfl⟩ := pure_ok h
      exact ⟨[], rfl, .listNil separator p⟩
    · obtain ⟨a, c₂, ha, h⟩ := bind_ok h
      obtain ⟨ts, hts, hspans⟩ := hitem _ _ _ hc ha
      obtain ⟨ate, c₃, heat, h⟩ := bind_ok h
      cases ate with
      | true =>
        obtain ⟨as', c₄, has, h⟩ := bind_ok h
        obtain ⟨rfl, rfl⟩ := pure_ok h
        have htoken := eat_token heat (by simp)
        obtain ⟨us, hus, hspans'⟩ := ih _ _ _ ((hc.behind hts).tail htoken) has
        refine ⟨ts ++ ⟨.symbol separator, c₂.span⟩ :: us, ?_, .listCons hspans hspans'⟩
        rw [hts, htoken, hus]
        simp
      | false =>
        obtain rfl := eat_false heat
        obtain ⟨rfl, rfl⟩ := pure_ok h
        exact ⟨ts, hts, .listOne separator hspans⟩

lemma closedList_spans {p : Phrase} {item : Parse p.Tree} (hitem : KeepsSpans p item)
    {separator closer : Token.Symbol} {opened s : Span} {bound : Nat} {c c' : Cursor}
    (hc : InOrder c.rest) {as : List p.Tree}
    (h : closedList separator closer opened item bound c = (.ok (as, s), c')) :
    ∃ ts, c.rest = ts ++ ⟨.symbol closer, s⟩ :: c'.rest ∧ Spans (.listOf separator p) ts as := by
  obtain ⟨as', c₁, has, h⟩ := bind_ok h
  obtain ⟨s', c₂, hclose, h⟩ := bind_ok h
  obtain ⟨heq, rfl⟩ := pure_ok h
  cases heq
  obtain ⟨ts, hts, hspans⟩ := separated_spans hitem separator closer bound _ _ _ hc has
  exact ⟨ts, by rw [hts, close_token hclose], hspans⟩

/-- The span merged from those of what is read first and last is the span of all that is read. -/
lemma merge_spans {all ws rest : List Token} (hall : InOrder all) (hread : all = ws ++ rest)
    (ts us vs : List Token) (hws : ws = ts ++ us ++ vs) (hts : ts ≠ []) (hvs : vs ≠ [])
    {s s' : Span} (hs : s = extent ts) (hs' : s' = extent vs) : s.merge s' = extent ws := by
  subst hread hws hs hs'
  exact hall.front.merge_extent hts hvs

section Expressions

/-- An expression spans its tokens. -/
lemma Spans.expr_span {l : Level} {ts : List Token} {e : Expr} (h : Spans (.expr l) ts e) :
    e.span = extent ts := h.span_eq _ rfl

/-- The tokens that were read so far are those of the left operand of the next operator. -/
lemma operations_spans {l l' : Level} (hl : l.operand? = some l') {operand : Parse Expr}
    (hoperand : KeepsSpans (.expr l') operand) {rounds : Nat} {a e : Expr} {c c' : Cursor}
    {ts : List Token} (hc : InOrder (ts ++ c.rest)) (ha : Spans (.expr l) ts a)
    (h : chain l.op? binary operand rounds a c = (.ok e, c')) :
    ∃ us, c.rest = us ++ c'.rest ∧ Spans (.expr l) (ts ++ us) e := by
  induction rounds generalizing a c ts with
  | zero =>
    obtain ⟨rfl, rfl⟩ := pure_ok h
    exact ⟨[], rfl, by rwa [List.append_nil]⟩
  | succ rounds ih =>
    rw [chain] at h
    obtain ⟨k, c₁, hkind, h⟩ := bind_ok h
    obtain ⟨hk, rfl⟩ := see_ok hkind
    cases hop : l.op? k with
    | none =>
      rw [hop] at h
      obtain ⟨rfl, rfl⟩ := pure_ok h
      exact ⟨[], rfl, by rwa [List.append_nil]⟩
    | some op =>
      rw [hop] at h
      have hne : k ≠ .eof := by
        rintro rfl
        rw [l.op?_eof] at hop
        cases hop
      obtain ⟨t, c₂, hnext, h⟩ := bind_ok h
      obtain ⟨b, c₃, hb, h⟩ := bind_ok h
      have htoken := next_token hnext hk hne
      have hc₂ : InOrder c₂.rest := (hc.behind rfl).tail htoken
      obtain ⟨us, hus, hspans⟩ := hoperand _ _ _ hc₂ hb
      have hread : ts ++ c.rest = (ts ++ ⟨k, t.span⟩ :: us) ++ c₃.rest := by
        rw [htoken, hus]
        simp
      have hspan : a.span.merge b.span = extent (ts ++ ⟨k, t.span⟩ :: us) :=
        merge_spans hc hread ts [⟨k, t.span⟩] us (by simp) (ha.ne_nil rfl) (hspans.ne_nil rfl)
          ha.expr_span hspans.expr_span
      have hbinary : Spans (.expr l) (ts ++ ⟨k, t.span⟩ :: us) (binary op a b) := by
        rw [binary, hspan]
        exact .binary hl hop ha hspans rfl
      obtain ⟨vs, hvs, he⟩ := ih (hread ▸ hc) hbinary h
      refine ⟨⟨k, t.span⟩ :: us ++ vs, ?_, by simpa using he⟩
      rw [htoken, hus, hvs]
      simp

lemma level_spans {l l' : Level} (hl : l.operand? = some l') {operand : Parse Expr}
    (hoperand : KeepsSpans (.expr l') operand) (bound : Nat) :
    KeepsSpans (.expr l) (level l.op? bound operand) := by
  intro c e c' hc h
  obtain ⟨a, c₁, ha, h⟩ := bind_ok h
  obtain ⟨ts, hts, hspans⟩ := hoperand _ _ _ hc ha
  obtain ⟨us, hus, he⟩ := operations_spans hl hoperand (hts ▸ hc) (.operand hl hspans) h
  exact ⟨ts ++ us, by rw [hts, hus, List.append_assoc], he⟩

lemma signed_spans {operand : Parse Expr} (hoperand : KeepsSpans (.expr .unary) operand)
    (rounds : Nat) : KeepsSpans (.expr .unary) (signed operand rounds) := by
  induction rounds with
  | zero => exact hoperand
  | succ rounds ih =>
    intro c e c' hc h
    rw [signed] at h
    obtain ⟨minus, c₁, hsee, h⟩ := bind_ok h
    obtain ⟨-, rfl⟩ := see_ok hsee
    split at h
    · obtain ⟨s, c₂, hsign, h⟩ := bind_ok h
      obtain ⟨a, c₃, ha, h⟩ := bind_ok h
      obtain ⟨rfl, rfl⟩ := pure_ok h
      have htoken := sign_token hsign
      obtain ⟨ts, hts, hspans⟩ := ih _ _ _ (hc.tail htoken) ha
      have hread : c.rest = (⟨.symbol .minus, s⟩ :: ts) ++ c₃.rest := by
        rw [htoken, hts]
        rfl
      have hspan : s.merge a.span = extent (⟨.symbol .minus, s⟩ :: ts) :=
        merge_spans hc hread [⟨.symbol .minus, s⟩] [] ts rfl (by simp) (hspans.ne_nil rfl) rfl
          hspans.expr_span
      refine ⟨_, hread, ?_⟩
      rw [binary, Expr.span, hspan]
      exact .negation hspans rfl
    · exact hoperand _ _ _ hc h

variable {inner : Parse Expr}

/-- A call spans the tokens of what is called, which were read before it. -/
lemma calls_spans (hinner : KeepsSpans (.expr .comparison) inner) {bound rounds : Nat}
    {f e : Expr} {c c' : Cursor} {ts : List Token} (hc : InOrder (ts ++ c.rest))
    (hf : Spans .primary ts f) (h : calls inner bound rounds f c = (.ok e, c')) :
    ∃ us, c.rest = us ++ c'.rest ∧ Spans .primary (ts ++ us) e := by
  induction rounds generalizing f c ts with
  | zero =>
    obtain ⟨rfl, rfl⟩ := pure_ok h
    exact ⟨[], rfl, by rwa [List.append_nil]⟩
  | succ rounds ih =>
    rw [calls] at h
    obtain ⟨paren, c₁, hsee, h⟩ := bind_ok h
    obtain ⟨-, rfl⟩ := see_ok hsee
    split at h
    · obtain ⟨s, c₂, hsign, h⟩ := bind_ok h
      obtain ⟨⟨args, closed⟩, c₃, hargs, h⟩ := bind_ok h
      have htoken := sign_token hsign
      have hc₂ : InOrder c₂.rest := (hc.behind rfl).tail htoken
      obtain ⟨us, hus, hspans⟩ := closedList_spans hinner hc₂ (within_ok hargs)
      have hread : ts ++ c.rest = (ts ++ ⟨.symbol .leftParen, s⟩ :: us ++
          [⟨.symbol .rightParen, closed⟩]) ++ c₃.rest := by
        rw [htoken, hus]
        simp
      have hspan : f.span.merge closed = extent (ts ++ ⟨.symbol .leftParen, s⟩ :: us ++
          [⟨.symbol .rightParen, closed⟩]) :=
        merge_spans hc hread ts (⟨.symbol .leftParen, s⟩ :: us) [⟨.symbol .rightParen, closed⟩] rfl
          (hf.ne_nil rfl) (by simp) (hf.span_eq _ rfl) rfl
      obtain ⟨vs, hvs, he⟩ := ih (hread ▸ hc) (hspan ▸ .call hf hspans rfl) h
      refine ⟨⟨.symbol .leftParen, s⟩ :: us ++ [⟨.symbol .rightParen, closed⟩] ++ vs, ?_,
        by simpa using he⟩
      rw [htoken, hus, hvs]
      simp
    · obtain ⟨rfl, rfl⟩ := pure_ok h
      exact ⟨[], rfl, by rwa [List.append_nil]⟩

lemma stmt_spans (hinner : KeepsSpans (.expr .comparison) inner) :
    KeepsSpans .stmt (stmt inner) := by
  intro c st c' hc h
  obtain ⟨bound, c₁, heat, h⟩ := bind_ok h
  cases bound with
  | true =>
    obtain ⟨i, c₂, hi, h⟩ := bind_ok h
    obtain ⟨s, c₃, hsign, h⟩ := bind_ok h
    obtain ⟨e, c₄, he, h⟩ := bind_ok h
    obtain ⟨rfl, rfl⟩ := pure_ok h
    have hlet := eat_token heat (by simp)
    have hc₁ := hc.tail hlet
    obtain ⟨ts, hts, hname⟩ := ident_spans _ _ _ hc₁ hi
    have hassign := sign_token hsign
    obtain ⟨us, hus, hvalue⟩ := hinner _ _ _ ((hc₁.behind hts).tail hassign) he
    refine ⟨⟨.keyword .let, c.span⟩ :: ts ++ ⟨.symbol .assign, s⟩ :: us, ?_, .bind hname hvalue⟩
    rw [hlet, hts, hassign, hus]
    simp
  | false =>
    obtain rfl := eat_false heat
    obtain ⟨e, c₂, he, h⟩ := bind_ok h
    obtain ⟨rfl, rfl⟩ := pure_ok h
    obtain ⟨ts, hts, hspans⟩ := hinner _ _ _ hc he
    exact ⟨ts, hts, .stmt hspans⟩

lemma block_spans (hinner : KeepsSpans (.expr .comparison) inner) (bound : Nat) :
    KeepsSpans .block (block inner bound) := by
  intro c e c' hc h
  obtain ⟨opened, c₁, hsign, h⟩ := bind_ok (within_ok h)
  obtain ⟨⟨ss, closed⟩, c₂, hss, h⟩ := bind_ok h
  obtain ⟨rfl, rfl⟩ := pure_ok h
  have htoken := sign_token hsign
  obtain ⟨ts, hts, hspans⟩ :=
    closedList_spans (stmt_spans hinner) (hc.tail htoken) hss
  have hread : c.rest = (⟨.symbol .leftBrace, opened⟩ :: ts ++
      [⟨.symbol .rightBrace, closed⟩]) ++ c₂.rest := by
    rw [htoken, hts]
    simp
  have hspan : opened.merge closed = extent (⟨.symbol .leftBrace, opened⟩ :: ts ++
      [⟨.symbol .rightBrace, closed⟩]) :=
    merge_spans hc hread [⟨.symbol .leftBrace, opened⟩] ts [⟨.symbol .rightBrace, closed⟩] rfl
      (by simp) (by simp) rfl rfl
  exact ⟨_, hread, hspan ▸ .block hspans rfl⟩

lemma conditional_spans (hinner : KeepsSpans (.expr .comparison) inner) (bound rounds : Nat) :
    KeepsSpans .conditional (conditional inner bound rounds) := by
  induction rounds with
  | zero =>
    intro c e c' _ h
    cases h
  | succ rounds ih =>
    intro c e c' hc h
    obtain ⟨start, c₁, hif, h⟩ := bind_ok (within_ok h)
    obtain ⟨test, c₂, htest, h⟩ := bind_ok h
    obtain ⟨yes, c₃, hyes, h⟩ := bind_ok h
    obtain ⟨s, c₄, helse, h⟩ := bind_ok h
    obtain ⟨again, c₅, hsee, h⟩ := bind_ok h
    obtain ⟨-, rfl⟩ := see_ok hsee
    have hiftoken := keyword_token hif
    have hc₁ := hc.tail hiftoken
    obtain ⟨ts, hts, hstest⟩ := hinner _ _ _ hc₁ htest
    have hc₂ := hc₁.behind hts
    obtain ⟨us, hus, hsyes⟩ := block_spans hinner bound _ _ _ hc₂ hyes
    have helsetoken := keyword_token helse
    have hc₄ := (hc₂.behind hus).tail helsetoken
    have hread : ∀ {vs}, c₄.rest = vs ++ c'.rest → c.rest = (⟨.keyword .if, start⟩ :: ts ++ us ++
        ⟨.keyword .else, s⟩ :: vs) ++ c'.rest := by
      intro vs hvs
      rw [hiftoken, hts, hus, helsetoken, hvs]
      simp
    have hspan : ∀ {vs s'}, c₄.rest = vs ++ c'.rest → vs ≠ [] → s' = extent vs →
        start.merge s' = extent (⟨.keyword .if, start⟩ :: ts ++ us ++ ⟨.keyword .else, s⟩ :: vs) :=
      fun {vs _} hvs hne hs' => merge_spans hc (hread hvs) [⟨.keyword .if, start⟩]
        (ts ++ us ++ [⟨.keyword .else, s⟩]) vs (by simp) (by simp) hne rfl hs'
    split at h
    · obtain ⟨no, c₆, hno, h⟩ := bind_ok h
      obtain ⟨rfl, rfl⟩ := pure_ok h
      obtain ⟨vs, hvs, hsno⟩ := ih _ _ _ hc₄ hno
      have hlast : no.span = extent vs := hsno.span_eq _ rfl
      rw [hspan hvs (hsno.ne_nil rfl) hlast]
      exact ⟨_, hread hvs, .ifIf hstest hsyes hsno rfl⟩
    · obtain ⟨no, c₆, hno, h⟩ := bind_ok h
      obtain ⟨rfl, rfl⟩ := pure_ok h
      obtain ⟨vs, hvs, hsno⟩ := block_spans hinner bound _ _ _ hc₄ hno
      have hlast : no.span = extent vs := hsno.span_eq _ rfl
      rw [hspan hvs (hsno.ne_nil rfl) hlast]
      exact ⟨_, hread hvs, .ifBlock hstest hsyes hsno rfl⟩

lemma param_spans : KeepsSpans .param param := by
  intro c a c' _ h
  obtain ⟨k, c₁, hkind, h⟩ := bind_ok h
  obtain ⟨hk, rfl⟩ := see_ok hkind
  split at h
  · obtain ⟨t, c₂, hnext, h⟩ := bind_ok h
    obtain ⟨rfl, rfl⟩ := pure_ok h
    exact ⟨_, next_token hnext hk (by simp), .paramWildcard _⟩
  · next name =>
    obtain ⟨t, c₂, hnext, h⟩ := bind_ok h
    obtain ⟨rfl, rfl⟩ := pure_ok h
    exact ⟨_, next_token hnext hk (by simp), .paramIdent (.ident name _)⟩
  · cases h

lemma pattern_spans (bound : Nat) : KeepsSpans .pattern (pattern bound) := by
  intro c a c' hc h
  obtain ⟨k, c₁, hkind, h⟩ := bind_ok h
  obtain ⟨hk, rfl⟩ := see_ok hkind
  split at h
  · obtain ⟨t, c₂, hnext, h⟩ := bind_ok h
    obtain ⟨rfl, rfl⟩ := pure_ok h
    exact ⟨_, next_token hnext hk (by simp), .patternDefault _⟩
  · next name =>
    obtain ⟨t, c₂, hnext, h⟩ := bind_ok h
    have hlabel := next_token hnext hk (by simp)
    have hc₂ := hc.tail hlabel
    have hrest : ∀ {c₃}, (do return .case ⟨name, t.span⟩ (.rest (← param)) :
        Parse Match.Pattern) c₂ = (.ok a, c₃) →
        ∃ ts, c.rest = ts ++ c₃.rest ∧ Spans .pattern ts a := by
      intro c₃ h
      obtain ⟨p, c₄, hp, h⟩ := bind_ok h
      obtain ⟨rfl, rfl⟩ := pure_ok h
      obtain ⟨ts, hts, hspans⟩ := param_spans _ _ _ hc₂ hp
      exact ⟨_, by rw [hlabel, hts]; rfl, .patternRest (.ident name t.span) hspans⟩
    obtain ⟨k', c₃, hkind', h⟩ := bind_ok h
    obtain ⟨hk', rfl⟩ := see_ok hkind'
    split at h
    · obtain ⟨paren, c₃, hparen, h⟩ := bind_ok h
      obtain ⟨⟨params, closed⟩, c₄, hparams, h⟩ := bind_ok h
      obtain ⟨rfl, rfl⟩ := pure_ok h
      have htoken := next_token hparen hk' (by simp)
      obtain ⟨ts, hts, hspans⟩ :=
        closedList_spans param_spans (hc₂.tail htoken) hparams
      refine ⟨[⟨.ident name, t.span⟩] ++ ⟨.symbol .leftParen, paren.span⟩ :: ts ++
        [⟨.symbol .rightParen, closed⟩], ?_, .patternList (.ident name t.span) hspans⟩
      rw [hlabel, htoken, hts]
      simp
    · exact hrest h
    · exact hrest h
    · cases h
  · cases h

lemma clause_spans (hinner : KeepsSpans (.expr .comparison) inner) (bound : Nat) :
    KeepsSpans .clause (clause inner bound) := by
  intro c a c' hc h
  obtain ⟨start, c₁, hsee, h⟩ := bind_ok (within_ok h)
  obtain ⟨hstart, rfl⟩ := see_ok hsee
  obtain ⟨p, c₂, hp, h⟩ := bind_ok h
  obtain ⟨s, c₃, harrow, h⟩ := bind_ok h
  obtain ⟨e, c₄, he, h⟩ := bind_ok h
  obtain ⟨rfl, rfl⟩ := pure_ok h
  obtain ⟨ts, hts, hpattern⟩ := pattern_spans bound _ _ _ hc hp
  have htoken := sign_token harrow
  obtain ⟨us, hus, hbody⟩ := hinner _ _ _ ((hc.behind hts).tail htoken) he
  have hread : c.rest = (ts ++ ⟨.symbol .arrow, s⟩ :: us) ++ c₄.rest := by
    rw [hts, htoken, hus]
    simp
  -- The pattern has no span of its own, so the clause starts at the first token of it.
  obtain ⟨t, ts, rfl⟩ := List.exists_cons_of_ne_nil (hpattern.ne_nil rfl)
  have hfirst : start = extent [t] := by
    rw [← hstart, Cursor.span, Cursor.current, hts]
    rfl
  have hspan : start.merge e.span = extent (t :: ts ++ ⟨.symbol .arrow, s⟩ :: us) :=
    merge_spans hc hread [t] (ts ++ [⟨.symbol .arrow, s⟩]) us (by simp) (by simp)
      (hbody.ne_nil rfl) hfirst hbody.expr_span
  exact ⟨_, hread, hspan ▸ .clause hpattern hbody rfl⟩

lemma matchUse_spans (hinner : KeepsSpans (.expr .comparison) inner) (bound : Nat) :
    KeepsSpans .primary (matchUse inner bound) := by
  intro c a c' hc h
  obtain ⟨i, c₁, hi, h⟩ := bind_ok (within_ok h)
  obtain ⟨s₁, c₂, hbang, h⟩ := bind_ok h
  obtain ⟨s₂, c₃, hparen, h⟩ := bind_ok h
  obtain ⟨e, c₄, he, h⟩ := bind_ok h
  obtain ⟨s₃, c₅, hclose, h⟩ := bind_ok h
  obtain ⟨s₄, c₆, hbrace, h⟩ := bind_ok h
  obtain ⟨⟨clauses, closed⟩, c₇, hclauses, h⟩ := bind_ok h
  obtain ⟨rfl, rfl⟩ := pure_ok h
  have hoperator := Cursor.rest_of_expectIdent hi
  have hsigns : c₁.rest = [⟨.symbol .bang, s₁⟩, ⟨.symbol .leftParen, s₂⟩] ++ c₃.rest := by
    rw [sign_token hbang, sign_token hparen]
    rfl
  have hc₃ := (hc.tail hoperator).behind hsigns
  obtain ⟨us, hus, hscrutinee⟩ := hinner _ _ _ hc₃ he
  have hsigns' : c₄.rest = [⟨.symbol .rightParen, s₃⟩, ⟨.symbol .leftBrace, s₄⟩] ++ c₆.rest := by
    rw [close_token hclose, sign_token hbrace]
    rfl
  have hc₆ := (hc₃.behind hus).behind hsigns'
  obtain ⟨vs, hvs, hspans⟩ := closedList_spans (clause_spans hinner bound) hc₆ hclauses
  have hread : c.rest = ([⟨.ident i.name, i.span⟩] ++ ⟨.symbol .bang, s₁⟩ ::
      ⟨.symbol .leftParen, s₂⟩ :: us ++ ⟨.symbol .rightParen, s₃⟩ :: ⟨.symbol .leftBrace, s₄⟩ ::
      vs ++ [⟨.symbol .rightBrace, closed⟩]) ++ c₇.rest := by
    rw [hoperator, hsigns, hus, hsigns', hvs]
    simp
  have hspan : i.span.merge closed = extent _ := merge_spans hc hread [⟨.ident i.name, i.span⟩]
    (⟨.symbol .bang, s₁⟩ :: ⟨.symbol .leftParen, s₂⟩ :: us ++ ⟨.symbol .rightParen, s₃⟩ ::
      ⟨.symbol .leftBrace, s₄⟩ :: vs) [⟨.symbol .rightBrace, closed⟩] (by simp) (by simp) (by simp)
    rfl rfl
  exact ⟨_, hread, hspan ▸ .matchUse (.ident i.name i.span) hscrutinee hspans rfl⟩

/-- What stands between parentheses spans them too. -/
lemma parenthesized_spans (hinner : KeepsSpans (.expr .comparison) inner) {opened : Span}
    {e : Expr} {c c' : Cursor} (hc : InOrder (⟨.symbol .leftParen, opened⟩ :: c.rest))
    (h : parenthesized inner opened c = (.ok e, c')) :
    ∃ ts, c.rest = ts ++ c'.rest ∧ Spans .primary (⟨.symbol .leftParen, opened⟩ :: ts) e := by
  obtain ⟨closed, c₁, hsee, h⟩ := bind_ok h
  obtain ⟨-, rfl⟩ := see_ok hsee
  split at h
  · obtain ⟨s, c₂, hsign, h⟩ := bind_ok h
    obtain ⟨rfl, rfl⟩ := pure_ok h
    have htoken := sign_token hsign
    have hspan : opened.merge s =
        extent [⟨.symbol .leftParen, opened⟩, ⟨.symbol .rightParen, s⟩] :=
      merge_spans hc (congrArg _ htoken) [⟨.symbol .leftParen, opened⟩] []
        [⟨.symbol .rightParen, s⟩] rfl (by simp) (by simp) rfl rfl
    exact ⟨[⟨.symbol .rightParen, s⟩], htoken, hspan ▸ .parensNone rfl⟩
  · obtain ⟨e', c₂, he, h⟩ := bind_ok h
    obtain ⟨s, c₃, hclose, h⟩ := bind_ok h
    obtain ⟨rfl, rfl⟩ := pure_ok h
    obtain ⟨ts, hts, hspans⟩ := hinner _ _ _ (hc.tail rfl) he
    have hread : c.rest = (ts ++ [⟨.symbol .rightParen, s⟩]) ++ c₃.rest := by
      rw [hts, close_token hclose]
      simp
    have hspan : opened.merge s =
        extent (⟨.symbol .leftParen, opened⟩ :: ts ++ [⟨.symbol .rightParen, s⟩]) :=
      merge_spans hc (congrArg _ hread) [⟨.symbol .leftParen, opened⟩] ts
        [⟨.symbol .rightParen, s⟩] rfl (by simp) (by simp) rfl rfl
    exact ⟨_, hread, hspan ▸ .parens hspans rfl⟩

lemma primary_spans (hinner : KeepsSpans (.expr .comparison) inner) (bound : Nat) :
    KeepsSpans .primary (primary inner bound) := by
  intro c e c' hc h
  obtain ⟨k, c₁, hkind, h⟩ := bind_ok h
  obtain ⟨hk, rfl⟩ := see_ok hkind
  -- Apart from blocks, conditionals and matches, the token tells the tree.
  have hleaf : ∀ {k' : Kind} (f : Span → Expr), k = k' → k' ≠ .eof →
      (∀ s, Spans .primary [⟨k', s⟩] (f s)) →
      (do return f (← next).span : Parse Expr) c = (.ok e, c') →
      ∃ ts, c.rest = ts ++ c'.rest ∧ Spans .primary ts e := by
    intro k' f hk' hne hf h
    obtain ⟨t, c₂, hnext, h⟩ := bind_ok h
    obtain ⟨rfl, rfl⟩ := pure_ok h
    exact ⟨_, next_token hnext (hk.trans hk') hne, hf t.span⟩
  split at h
  · next n => exact hleaf (.int · n) rfl (by simp) (.int n) h
  · next text => exact hleaf (.str · text) rfl (by simp) (.str text) h
  · exact hleaf (.bool · true) rfl (by simp) .boolTrue h
  · exact hleaf (.bool · false) rfl (by simp) .boolFalse h
  · obtain ⟨t, c₂, hnext, h⟩ := bind_ok h
    have htoken := next_token hnext hk (by simp)
    obtain ⟨ts, hts, hspans⟩ := parenthesized_spans hinner (htoken ▸ hc) h
    exact ⟨_, by rw [htoken, hts]; rfl, hspans⟩
  · obtain ⟨ts, hts, hspans⟩ := block_spans hinner bound _ _ _ hc h
    exact ⟨ts, hts, .primaryBlock hspans⟩
  · obtain ⟨ts, hts, hspans⟩ := conditional_spans hinner bound bound _ _ _ hc h
    exact ⟨ts, hts, .primaryIf hspans⟩
  · next name =>
    obtain ⟨bang, c₂, hsee, h⟩ := bind_ok h
    obtain ⟨-, rfl⟩ := see_ok hsee
    split at h
    · exact matchUse_spans hinner bound _ _ _ hc h
    · exact hleaf (.ident · name) rfl (by simp) (.name name) h
  · cases within_ok h

lemma operand_spans (hinner : KeepsSpans (.expr .comparison) inner) (bound : Nat) :
    KeepsSpans (.expr .unary) (operand inner bound) := by
  refine signed_spans ?_ bound
  intro c e c' hc h
  obtain ⟨f, c₁, hf, h⟩ := bind_ok h
  obtain ⟨ts, hts, hcallee⟩ := primary_spans hinner bound _ _ _ hc hf
  obtain ⟨us, hus, hspans⟩ := calls_spans hinner (hts ▸ hc) hcallee h
  exact ⟨ts ++ us, by rw [hts, hus, List.append_assoc], .unary hspans⟩

lemma exprAt_spans (depth : Nat) : KeepsSpans (.expr .comparison) (exprAt depth) := by
  induction depth with
  | zero =>
    intro c e c' _ h
    cases within_ok h
  | succ depth ih =>
    have hproduct := level_spans (l := .product) rfl (operand_spans ih (depth + 1)) (depth + 1)
    have hsum := level_spans (l := .sum) rfl hproduct (depth + 1)
    exact level_spans (l := .comparison) rfl hsum (depth + 1)

lemma expr_spans : KeepsSpans (.expr .comparison) expr := fun c e c' hc h =>
  exprAt_spans c.rest.length c e c' hc h

end Expressions

section Modules

lemma takeAttributes_spans (previous : Span) (ts : List Token) :
    ∃ us, ts = us ++ (takeAttributes previous ts).2.rest ∧
      Spans .attributes us (takeAttributes previous ts).1 := by
  induction ts generalizing previous with
  | nil => exact ⟨[], rfl, .attributesNil⟩
  | cons t ts ih =>
    obtain ⟨kind, span⟩ := t
    cases kind with
    | attr text =>
      obtain ⟨us, hus, hspans⟩ := ih span
      exact ⟨⟨.attr text, span⟩ :: us, congrArg _ hus, .attributesCons text span hspans⟩
    | _ => exact ⟨[], rfl, .attributesNil⟩

lemma attributes_spans : KeepsSpans .attributes attributes := by
  intro c as c' _ h
  cases h
  exact takeAttributes_spans c.previous c.rest

/-- What stands behind attributes and ends with the token `u` spans them too. -/
lemma Spans.startOf_merge {ts ws all rest : List Token} {as : List Attribute}
    (h : Spans .attributes ts as) (hall : InOrder all) (hread : all = ws ++ rest) {t u : Token}
    (ht : ts ++ [t] <+: ws) (hu : ws.getLast? = some u) :
    (startOf as t.span).merge u.span = extent ws := by
  obtain ⟨t', ht', hstart⟩ : ∃ t', ws.head? = some t' ∧ startOf as t.span = t'.span := by
    obtain ⟨us, rfl⟩ := ht
    cases h with
    | attributesNil => exact ⟨t, rfl, rfl⟩
    | attributesCons text s h => exact ⟨⟨.attr text, s⟩, rfl, rfl⟩
  subst hread
  rw [hstart]
  exact hall.front.merge_ends ht' hu

lemma field_spans : KeepsSpans .field field := by
  intro c f c' hc h
  obtain ⟨as, c₁, has, h⟩ := bind_ok h
  obtain ⟨i, c₂, hi, h⟩ := bind_ok h
  obtain ⟨rfl, rfl⟩ := pure_ok h
  obtain ⟨ts, hts, hattributes⟩ := attributes_spans _ _ _ hc has
  obtain ⟨us, hus, hname⟩ := ident_spans _ _ _ (hc.behind hts) (within_ok hi)
  exact ⟨ts ++ us, by rw [hts, hus, List.append_assoc], .field hattributes hname⟩

lemma caseSpec_spans (bound : Nat) : KeepsSpans .case (caseSpec bound) := by
  intro c spec c' hc h
  obtain ⟨as, c₁, has, h⟩ := bind_ok h
  obtain ⟨i, c₂, hi, h⟩ := bind_ok h
  obtain ⟨ts, hts, hattributes⟩ := attributes_spans _ _ _ hc has
  have hname := Cursor.rest_of_expectIdent (within_ok hi)
  have hc₂ := (hc.behind hts).tail hname
  obtain ⟨paren, c₃, hsee, h⟩ := bind_ok h
  obtain ⟨-, rfl⟩ := see_ok hsee
  split at h
  · obtain ⟨opened, c₄, hsign, h⟩ := bind_ok h
    obtain ⟨⟨fs, closed⟩, c₅, hfs, h⟩ := bind_ok h
    obtain ⟨rfl, rfl⟩ := pure_ok h
    have htoken := sign_token hsign
    obtain ⟨vs, hvs, hfields⟩ := closedList_spans field_spans (hc₂.tail htoken) hfs
    have hread : c.rest = (ts ++ [⟨.ident i.name, i.span⟩] ++ ⟨.symbol .leftParen, opened⟩ :: vs ++
        [⟨.symbol .rightParen, closed⟩]) ++ c₅.rest := by
      rw [hts, hname, htoken, hvs]
      simp
    have hspan := hattributes.startOf_merge hc hread (t := ⟨.ident i.name, i.span⟩) (by simp)
      (u := ⟨.symbol .rightParen, closed⟩) List.getLast?_concat
    exact ⟨_, hread, hspan ▸ .caseFields hattributes (.ident i.name i.span) hfields rfl⟩
  · obtain ⟨⟨fs, closed⟩, c₄, hfs, h⟩ := bind_ok h
    obtain ⟨heq, rfl⟩ := pure_ok hfs
    cases heq
    obtain ⟨rfl, rfl⟩ := pure_ok h
    have hread : c.rest = (ts ++ [⟨.ident i.name, i.span⟩]) ++ c₂.rest := by
      rw [hts, hname]
      simp
    have hspan := hattributes.startOf_merge hc hread List.prefix_rfl
      (u := ⟨.ident i.name, i.span⟩) List.getLast?_concat
    exact ⟨_, hread, hspan ▸ .caseBare hattributes (.ident i.name i.span) rfl⟩

lemma variantSpec_spans {options : List Attribute} {bound : Nat} {spec : Variant.Spec}
    {c c' : Cursor} {ts : List Token} (hc : InOrder (ts ++ c.rest))
    (ha : Spans .attributes ts options) (h : variantSpec options bound c = (.ok spec, c')) :
    ∃ us, ts ++ c.rest = us ++ c'.rest ∧ Spans .item us (Item.variant spec) := by
  obtain ⟨start, c₁, hsee, h⟩ := bind_ok (within_ok h)
  obtain ⟨hstart, rfl⟩ := see_ok hsee
  obtain ⟨s, c₂, hvariant, h⟩ := bind_ok h
  obtain ⟨i, c₃, hi, h⟩ := bind_ok h
  obtain ⟨opened, c₄, hbrace, h⟩ := bind_ok h
  obtain ⟨⟨cases', closed⟩, c₅, hcases, h⟩ := bind_ok h
  obtain ⟨rfl, rfl⟩ := pure_ok h
  have hkeyword := keyword_token hvariant
  have hname := Cursor.rest_of_expectIdent hi
  have htoken := sign_token hbrace
  have hc₄ := (((hc.behind rfl).tail hkeyword).tail hname).tail htoken
  obtain ⟨vs, hvs, hspans⟩ := closedList_spans (caseSpec_spans bound) hc₄ hcases
  obtain rfl : s = start := by
    rw [← hstart, Cursor.span, Cursor.current, hkeyword]
    rfl
  have hread : ts ++ c.rest = (ts ++ ⟨.keyword .variant, s⟩ :: [⟨.ident i.name, i.span⟩] ++
      ⟨.symbol .leftBrace, opened⟩ :: vs ++ [⟨.symbol .rightBrace, closed⟩]) ++ c₅.rest := by
    rw [hkeyword, hname, htoken, hvs]
    simp
  have hspan := ha.startOf_merge hc hread (t := ⟨.keyword .variant, s⟩) (by simp)
    (u := ⟨.symbol .rightBrace, closed⟩) List.getLast?_concat
  refine ⟨_, hread, ?_⟩
  rw [hspan]
  exact .variant ha (.ident i.name i.span) hspans rfl

lemma function_spans (bound : Nat) {f : Function} {c c' : Cursor} (hc : InOrder c.rest)
    (h : function bound c = (.ok f, c')) :
    ∃ ts, c.rest = ts ++ c'.rest ∧ Spans .item ts (Item.function f) := by
  obtain ⟨start, c₁, hfn, h⟩ := bind_ok (within_ok h)
  obtain ⟨i, c₂, hi, h⟩ := bind_ok h
  obtain ⟨opened, c₃, hparen, h⟩ := bind_ok h
  obtain ⟨⟨ps, closed⟩, c₄, hps, h⟩ := bind_ok h
  obtain ⟨s, c₅, hassign, h⟩ := bind_ok h
  obtain ⟨e, c₆, he, h⟩ := bind_ok h
  obtain ⟨rfl, rfl⟩ := pure_ok h
  have hkeyword := keyword_token hfn
  have hname := Cursor.rest_of_expectIdent hi
  have htoken := sign_token hparen
  have hc₃ := ((hc.tail hkeyword).tail hname).tail htoken
  obtain ⟨us, hus, hparams⟩ := closedList_spans ident_spans hc₃ hps
  have hassigntoken := sign_token hassign
  have hc₅ := ((hc₃.behind hus).tail rfl).tail hassigntoken
  obtain ⟨vs, hvs, hbody⟩ := expr_spans _ _ _ hc₅ he
  have hread : c.rest = (⟨.keyword .fn, start⟩ :: [⟨.ident i.name, i.span⟩] ++
      ⟨.symbol .leftParen, opened⟩ :: us ++ ⟨.symbol .rightParen, closed⟩ ::
      ⟨.symbol .assign, s⟩ :: vs) ++ c₆.rest := by
    rw [hkeyword, hname, htoken, hus, hassigntoken, hvs]
    simp
  have hspan : start.merge e.span = extent _ := merge_spans hc hread [⟨.keyword .fn, start⟩]
    ([⟨.ident i.name, i.span⟩] ++ ⟨.symbol .leftParen, opened⟩ :: us ++
      [⟨.symbol .rightParen, closed⟩, ⟨.symbol .assign, s⟩]) vs (by simp) (by simp)
    (hbody.ne_nil rfl) rfl hbody.expr_span
  exact ⟨_, hread, hspan ▸ .function (.ident i.name i.span) hparams hbody rfl⟩

lemma item_spans (bound : Nat) : KeepsSpans .item (item bound) := by
  intro c i c' hc h
  obtain ⟨options, c₁, hoptions, h⟩ := bind_ok h
  obtain ⟨ts, hts, hattributes⟩ := attributes_spans _ _ _ hc hoptions
  obtain ⟨k, c₂, hsee, h⟩ := bind_ok h
  obtain ⟨-, rfl⟩ := see_ok hsee
  split at h
  · obtain ⟨spec, c₃, hspec, h⟩ := bind_ok h
    obtain ⟨rfl, rfl⟩ := pure_ok h
    obtain ⟨us, hus, hspans⟩ := variantSpec_spans (hts ▸ hc) hattributes hspec
    exact ⟨us, hts.trans hus, hspans⟩
  · split at h
    · next hempty =>
      obtain ⟨f, c₃, hf, h⟩ := bind_ok h
      obtain ⟨rfl, rfl⟩ := pure_ok h
      obtain rfl : options = [] := List.isEmpty_iff.mp hempty
      cases hattributes
      obtain ⟨us, hus, hspans⟩ := function_spans bound (hc.behind hts) hf
      exact ⟨us, by rw [hts, hus]; rfl, hspans⟩
    · cases h
  · cases h

/-- The items of a text are read from stretches of its tokens, one behind the other. -/
theorem items_spans (rounds : Nat) {c : Cursor} (hc : InOrder c.rest) :
    Rows (Spans .item) c.rest (items rounds c).1 := by
  induction rounds generalizing c with
  | zero => exact .nil c.rest
  | succ rounds ih =>
    rw [items]
    split
    · exact .nil c.rest
    · have hadvances := item_advances c.rest.length c
      cases hitem : item c.rest.length c with
      | mk result c' =>
        rw [hitem] at hadvances
        cases result with
        | error f =>
          -- What is skipped is a gap in front of the next item.
          obtain ⟨gap, hgap⟩ := (c'.rest_skipUntil startsItem).trans hadvances
          have hrows := (ih (hc.behind hgap.symm)).behind gap
          rwa [hgap] at hrows
        | ok i =>
          obtain ⟨ts, hts, hspans⟩ := item_spans _ _ _ _ hc hitem
          rw [hts]
          exact .cons [] hspans (ih (hc.behind hts))

end Modules

end ClosedSum.Grammar
