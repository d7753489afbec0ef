import ClosedSum.Proofs.Derivation

/-!
# What is read derives

A parser that succeeds has read tokens that derive from its phrase, and its tree is that of the
derivation once the spans are erased.
-/

namespace ClosedSum.Grammar

open Surface
open Token (Kind)

/-- The kinds of the tokens still to be read. -/
def Cursor.kinds (c : Cursor) : List Kind := c.rest.map (·.kind)

namespace Cursor

variable {c c' : Cursor} {k : Kind}

/-- A token of a known kind, unless it is the end of the file, is read by a step with its span. -/
lemma rest_of_kind (hk : c.kind = k) (hne : k ≠ .eof) :
    c.rest = ⟨k, c.span⟩ :: c.advance.2.rest := by
  obtain ⟨rest, previous⟩ := c
  cases rest with
  | nil => exact absurd hk.symm hne
  | cons t ts =>
    obtain rfl : t.kind = k := hk
    have hend : atEnd ⟨t :: ts, previous⟩ = false := by
      simpa [atEnd, kind, current] using hne
    simp [advance, hend, span, current]

lemma kinds_of_rest {s : Span} (h : c.rest = ⟨k, s⟩ :: c'.rest) : c.kinds = k :: c'.kinds := by
  rw [kinds, h]
  rfl

lemma kinds_advance (hk : c.kind = k) (hne : k ≠ .eof) : c.kinds = k :: c.advance.2.kinds :=
  kinds_of_rest (rest_of_kind hk hne)

lemma headD_kinds_of_atEnd (h : c.atEnd = true) : c.kinds.headD .eof = .eof := by
  obtain ⟨rest, previous⟩ := c
  cases rest with
  | nil => rfl
  | cons t ts => exact of_decide_eq_true h

lemma rest_of_expect {s : Span} (h : c.expect k = (.ok s, c')) (hne : k ≠ .eof) :
    c.rest = ⟨k, s⟩ :: c'.rest := by
  unfold expect at h
  split at h
  · next hcheck =>
    cases h
    exact rest_of_kind (of_decide_eq_true hcheck) hne
  · cases h

lemma rest_of_expectIdent {i : Ident} (h : c.expectIdent = (.ok i, c')) :
    c.rest = ⟨.ident i.name, i.span⟩ :: c'.rest := by
  unfold expectIdent at h
  split at h
  · next name hkind =>
    cases h
    exact rest_of_kind hkind (by simp)
  · cases h

lemma kinds_of_expectIdent {i : Ident} (h : c.expectIdent = (.ok i, c')) :
    c.kinds = .ident i.name :: c'.kinds := kinds_of_rest (rest_of_expectIdent h)

end Cursor

namespace Parse

variable {α β : Type} {c c' : Cursor}

/-- Where two parsers succeed one after the other, each of them does. -/
lemma bind_ok {p : Parse α} {f : α → Parse β} {b : β} (h : (p >>= f) c = (.ok b, c')) :
    ∃ a c₁, p c = (.ok a, c₁) ∧ f a c₁ = (.ok b, c') := by
  change Parse.bind p f c = _ at h
  unfold Parse.bind at h
  split at h
  · next a c₁ hp => exact ⟨a, c₁, hp, h⟩
  · cases h

lemma pure_ok {a b : α} (h : (pure a : Parse α) c = (.ok b, c')) : a = b ∧ c = c' := by
  cases h
  exact ⟨rfl, rfl⟩

lemma within_ok {context : Context} {p : Parse α} {a : α} (h : within context p c = (.ok a, c')) :
    p c = (.ok a, c') := by
  unfold within at h
  split at h
  · cases h
  · exact h

lemma see_ok {f : Cursor → α} {a : α} (h : see f c = (.ok a, c')) : f c = a ∧ c = c' := by
  cases h
  exact ⟨rfl, rfl⟩

lemma eat_token {k : Kind} (h : eat k c = (.ok true, c')) (hne : k ≠ .eof) :
    c.rest = ⟨k, c.span⟩ :: c'.rest := by
  unfold eat Cursor.eat at h
  split at h
  · next hcheck =>
    cases h
    exact Cursor.rest_of_kind (of_decide_eq_true hcheck) hne
  · cases h

lemma eat_true {k : Kind} (h : eat k c = (.ok true, c')) (hne : k ≠ .eof) :
    c.kinds = k :: c'.kinds := Cursor.kinds_of_rest (eat_token h hne)

lemma eat_false {k : Kind} (h : eat k c = (.ok false, c')) : c = c' := by
  unfold eat Cursor.eat at h
  split at h
  · cases h
  · cases h
    rfl

lemma sign_token {sign : Token.Symbol} {s : Span} (h : Parse.sign sign c = (.ok s, c')) :
    c.rest = ⟨.symbol sign, s⟩ :: c'.rest := Cursor.rest_of_expect h (by simp)

lemma sign_ok {sign : Token.Symbol} {s : Span} (h : Parse.sign sign c = (.ok s, c')) :
    c.kinds = .symbol sign :: c'.kinds := Cursor.kinds_of_rest (sign_token h)

lemma keyword_token {word : Token.Keyword} {s : Span} (h : keyword word c = (.ok s, c')) :
    c.rest = ⟨.keyword word, s⟩ :: c'.rest := Cursor.rest_of_expect h (by simp)

lemma keyword_ok {word : Token.Keyword} {s : Span} (h : keyword word c = (.ok s, c')) :
    c.kinds = .keyword word :: c'.kinds := Cursor.kinds_of_rest (keyword_token h)

lemma close_token {opened s : Span} {closer : Token.Symbol}
    (h : close opened closer c = (.ok s, c')) : c.rest = ⟨.symbol closer, s⟩ :: c'.rest := by
  obtain ⟨ended, c₁, hsee, h⟩ := bind_ok h
  obtain ⟨-, rfl⟩ := see_ok hsee
  split at h
  · cases h
  · exact sign_token h

lemma close_ok {opened s : Span} {closer : Token.Symbol} (h : close opened closer c = (.ok s, c')) :
    c.kinds = .symbol closer :: c'.kinds := Cursor.kinds_of_rest (close_token h)

end Parse

/-- A parser that reads nothing but what derives from a phrase. -/
def Sound (p : Phrase) (parser : Parse p.Tree) : Prop :=
  ∀ c a c', parser c = (.ok a, c') → ∃ ts, c.kinds = ts ++ c'.kinds ∧ Derives p ts (p.erase a)

open Parse

lemma ident_sound : Sound .ident ident := by
  intro c i c' h
  exact ⟨[.ident i.name], Cursor.kinds_of_expectIdent h, .ident i.name⟩

/-- A list whose rounds run out derives too: it ends there, and the tokens behind it are left. -/
lemma separated_sound {p : Phrase} {item : Parse p.Tree} (hitem : Sound p item)
    (separator closer : Token.Symbol) (rounds : Nat) :
    Sound (.listOf separator p) (separated separator closer item rounds) := by
  induction rounds with
  | zero =>
    intro c as c' h
    obtain ⟨rfl, rfl⟩ := pure_ok h
    exact ⟨[], rfl, .listNil separator p⟩
  | succ rounds ih =>
    intro c as c' h
    rw [separated] at h
    obtain ⟨stop, c₁, hsee, h⟩ := bind_ok h
    obtain ⟨-, rfl⟩ := see_ok hsee
    split at h
    · obtain ⟨rfl, rfl⟩ := pure_ok h
      exact ⟨[], rfl, .listNil separator p⟩
    · obtain ⟨a, c₂, ha, h⟩ := bind_ok h
      obtain ⟨ts, hts, hda⟩ := hitem _ _ _ ha
      obtain ⟨ate, c₃, heat, h⟩ := bind_ok h
      cases ate with
      | true =>
        obtain ⟨as', c₄, has, h⟩ := bind_ok h
        obtain ⟨rfl, rfl⟩ := pure_ok h
        obtain ⟨us, hus, hdas⟩ := ih _ _ _ has
        refine ⟨ts ++ .symbol separator :: us, ?_, .listCons hda hdas⟩
        rw [hts, eat_true heat (by simp), hus]
        simp
      | false =>
        obtain rfl := eat_false heat
        obtain ⟨rfl, rfl⟩ := pure_ok h
        exact ⟨ts, hts, .listOne separator hda⟩

lemma closedList_sound {p : Phrase} {item : Parse p.Tree} (hitem : Sound p item)
    {separator closer : Token.Symbol} {opened s : Span} {bound : Nat} {c c' : Cursor}
    {as : List p.Tree} (h : closedList separator closer opened item bound c = (.ok (as, s), c')) :
    ∃ ts, c.kinds = ts ++ .symbol closer :: c'.kinds ∧
      Derives (.listOf separator p) ts (as.map p.erase) := by
  obtain ⟨as', c₁, has, h⟩ := bind_ok h
  obtain ⟨s', c₂, hclose, h⟩ := bind_ok h
  obtain ⟨heq, rfl⟩ := pure_ok h
  cases heq
  obtain ⟨ts, hts, hd⟩ := separated_sound hitem separator closer bound _ _ _ has
  exact ⟨ts, by rw [hts, close_ok hclose], hd⟩

section Expressions

/-- What was read so far is the left operand of the next operator. -/
lemma operations_sound {l l' : Level} (hl : l.operand? = some l') {operand : Parse Expr}
    (hoperand : Sound (.expr l') operand) {rounds : Nat} {a e : Expr} {c c' : Cursor}
    (h : chain l.op? binary operand rounds a c = (.ok e, c')) :
    ∃ ts, c.kinds = ts ++ c'.kinds ∧ Derives (.operations l a.erase) ts e.erase := by
  induction rounds generalizing a c with
  | zero =>
    obtain ⟨rfl, rfl⟩ := pure_ok h
    exact ⟨[], rfl, .operationsNil l _⟩
  | succ rounds ih =>
    rw [chain] at h
    obtain ⟨t, c₁, hkind, h⟩ := bind_ok h
    obtain ⟨ht, rfl⟩ := see_ok hkind
    cases hop : l.op? t with
    | none =>
      rw [hop] at h
      obtain ⟨rfl, rfl⟩ := pure_ok h
      exact ⟨[], rfl, .operationsNil l _⟩
    | some op =>
      rw [hop] at h
      have hne : t ≠ .eof := by
        rintro rfl
        rw [l.op?_eof] at hop
        cases hop
      obtain ⟨t', c₂, hnext, h⟩ := bind_ok h
      cases hnext
      obtain ⟨b, c₃, hb, h⟩ := bind_ok h
      obtain ⟨ts, hts, hdb⟩ := hoperand _ _ _ hb
      obtain ⟨us, hus, hde⟩ := ih h
      refine ⟨t :: ts ++ us, ?_, .operationsCons hl hop hdb hde⟩
      rw [Cursor.kinds_advance ht hne, hts, hus]
      simp

lemma level_sound {l l' : Level} (hl : l.operand? = some l') {operand : Parse Expr}
    (hoperand : Sound (.expr l') operand) (bound : Nat) :
    Sound (.expr l) (level l.op? bound operand) := by
  intro c e c' h
  obtain ⟨a, c₁, ha, h⟩ := bind_ok h
  obtain ⟨ts, hts, hda⟩ := hoperand _ _ _ ha
  obtain ⟨us, hus, hde⟩ := operations_sound hl hoperand h
  exact ⟨ts ++ us, by rw [hts, hus, List.append_assoc], .level hl hda hde⟩

lemma signed_sound {operand : Parse Expr} (hoperand : Sound (.expr .unary) operand) (rounds : Nat) :
    Sound (.expr .unary) (signed operand rounds) := by
  induction rounds with
  | zero => exact hoperand
  | succ rounds ih =>
    intro c e c' h
    rw [signed] at h
    obtain ⟨minus, c₁, hsee, h⟩ := bind_ok h
    obtain ⟨-, rfl⟩ := see_ok hsee
    split at h
    · obtain ⟨s, c₂, hsign, h⟩ := bind_ok h
      obtain ⟨a, c₃, ha, h⟩ := bind_ok h
      obtain ⟨rfl, rfl⟩ := pure_ok h
      obtain ⟨ts, hts, hda⟩ := ih _ _ _ ha
      refine ⟨.symbol .minus :: ts, by rw [sign_ok hsign, hts]; rfl, ?_⟩
      have hneg := Derives.negation hda
      simpa [Phrase.erase, binary, Expr.erase] using hneg
    · exact hoperand _ _ _ h

variable {inner : Parse Expr}

/-- What was read so far is called with the next argument list. -/
lemma calls_sound (hinner : Sound (.expr .comparison) inner) {bound rounds : Nat} {f e : Expr}
    {c c' : Cursor} (h : calls inner bound rounds f c = (.ok e, c')) :
    ∃ ts, c.kinds = ts ++ c'.kinds ∧ Derives (.calls f.erase) ts e.erase := by
  induction rounds generalizing f c with
  | zero =>
    obtain ⟨rfl, rfl⟩ := pure_ok h
    exact ⟨[], rfl, .callsNil _⟩
  | succ rounds ih =>
    rw [calls] at h
    obtain ⟨paren, c₁, hsee, h⟩ := bind_ok h
    obtain ⟨-, rfl⟩ := see_ok hsee
    split at h
    · obtain ⟨s, c₂, hsign, h⟩ := bind_ok h
      obtain ⟨⟨args, closed⟩, c₃, hargs, h⟩ := bind_ok h
      obtain ⟨ts, hts, hdargs⟩ := closedList_sound hinner (within_ok hargs)
      obtain ⟨us, hus, hde⟩ := ih h
      refine ⟨.symbol .leftParen :: ts ++ .symbol .rightParen :: us, ?_, ?_⟩
      · rw [sign_ok hsign, hts, hus]
        simp
      · rw [Expr.erase, eraseExprs_eq_map] at hde
        exact .callsCons hdargs hde
    · obtain ⟨rfl, rfl⟩ := pure_ok h
      exact ⟨[], rfl, .callsNil _⟩

lemma stmt_sound (hinner : Sound (.expr .comparison) inner) : Sound .stmt (stmt inner) := by
  intro c st c' h
  obtain ⟨bound, c₁, heat, h⟩ := bind_ok h
  cases bound with
  | true =>
    obtain ⟨i, c₂, hi, h⟩ := bind_ok h
    obtain ⟨s, c₃, hsign, h⟩ := bind_ok h
    obtain ⟨e, c₄, he, h⟩ := bind_ok h
    obtain ⟨rfl, rfl⟩ := pure_ok h
    obtain ⟨ts, hts, hdi⟩ := ident_sound _ _ _ hi
    obtain ⟨us, hus, hde⟩ := hinner _ _ _ he
    refine ⟨.keyword .let :: ts ++ .symbol .assign :: us, ?_, .bind hdi hde⟩
    rw [eat_true heat (by simp), hts, sign_ok hsign, hus]
    simp
  | false =>
    obtain rfl := eat_false heat
    obtain ⟨e, c₂, he, h⟩ := bind_ok h
    obtain ⟨rfl, rfl⟩ := pure_ok h
    obtain ⟨ts, hts, hde⟩ := hinner _ _ _ he
    exact ⟨ts, hts, .stmt hde⟩

lemma block_sound (hinner : Sound (.expr .comparison) inner) (bound : Nat) :
    Sound .block (block inner bound) := by
  intro c e c' h
  obtain ⟨opened, c₁, hsign, h⟩ := bind_ok (within_ok h)
  obtain ⟨⟨ss, closed⟩, c₂, hss, h⟩ := bind_ok h
  obtain ⟨rfl, rfl⟩ := pure_ok h
  obtain ⟨ts, hts, hd⟩ := closedList_sound (stmt_sound hinner) hss
  refine ⟨.symbol .leftBrace :: ts ++ [.symbol .rightBrace], ?_, ?_⟩
  · rw [sign_ok hsign, hts]
    simp
  · simp only [Phrase.erase, Expr.erase, eraseStmts_eq_map]
    exact .block hd

lemma conditional_sound (hinner : Sound (.expr .comparison) inner) (bound rounds : Nat) :
    Sound .conditional (conditional inner bound rounds) := by
  induction rounds with
  | zero =>
    intro c e c' h
    cases h
  | succ rounds ih =>
    intro c e c' h
    rw [conditional] at h
    obtain ⟨start, c₁, hif, h⟩ := bind_ok (within_ok h)
    obtain ⟨test, c₂, htest, h⟩ := bind_ok h
    obtain ⟨yes, c₃, hyes, h⟩ := bind_ok h
    obtain ⟨s, c₄, helse, h⟩ := bind_ok h
    obtain ⟨again, c₅, hsee, h⟩ := bind_ok h
    obtain ⟨-, rfl⟩ := see_ok hsee
    obtain ⟨ts, hts, hdtest⟩ := hinner _ _ _ htest
    obtain ⟨us, hus, hdyes⟩ := block_sound hinner bound _ _ _ hyes
    have hread : ∀ vs, c₄.kinds = vs ++ c'.kinds →
        c.kinds = (.keyword .if :: ts ++ us ++ .keyword .else :: vs) ++ c'.kinds := by
      intro vs hvs
      rw [keyword_ok hif, hts, hus, keyword_ok helse, hvs]
      simp
    split at h
    · obtain ⟨no, c₆, hno, h⟩ := bind_ok h
      obtain ⟨rfl, rfl⟩ := pure_ok h
      obtain ⟨vs, hvs, hdno⟩ := ih _ _ _ hno
      exact ⟨_, hread vs hvs, .ifIf hdtest hdyes hdno⟩
    · obtain ⟨no, c₆, hno, h⟩ := bind_ok h
      obtain ⟨rfl, rfl⟩ := pure_ok h
      obtain ⟨vs, hvs, hdno⟩ := block_sound hinner bound _ _ _ hno
      exact ⟨_, hread vs hvs, .ifBlock hdtest hdyes hdno⟩

/-- Reads a token of a known kind. -/
lemma next_token {t : Token} {c c' : Cursor} (h : next c = (.ok t, c')) {k : Kind}
    (hk : c.kind = k) (hne : k ≠ .eof) : c.rest = ⟨k, t.span⟩ :: c'.rest := by
  cases h
  exact Cursor.rest_of_kind hk hne

lemma next_ok {t : Token} {c c' : Cursor} (h : next c = (.ok t, c')) {k : Kind} (hk : c.kind = k)
    (hne : k ≠ .eof) : c.kinds = k :: c'.kinds := Cursor.kinds_of_rest (next_token h hk hne)

lemma param_sound : Sound .param param := by
  intro c a c' h
  obtain ⟨t, c₁, hkind, h⟩ := bind_ok h
  obtain ⟨ht, rfl⟩ := see_ok hkind
  split at h
  · obtain ⟨t', c₂, hnext, h⟩ := bind_ok h
    obtain ⟨rfl, rfl⟩ := pure_ok h
    exact ⟨_, next_ok hnext ht (by simp), .paramWildcard⟩
  · next name =>
    obtain ⟨t', c₂, hnext, h⟩ := bind_ok h
    obtain ⟨rfl, rfl⟩ := pure_ok h
    exact ⟨[.ident name], next_ok hnext ht (by simp), .paramIdent (.ident name)⟩
  · cases h

lemma pattern_sound (bound : Nat) : Sound .pattern (pattern bound) := by
  intro c a c' h
  obtain ⟨t, c₁, hkind, h⟩ := bind_ok h
  obtain ⟨ht, rfl⟩ := see_ok hkind
  split at h
  · obtain ⟨t', c₂, hnext, h⟩ := bind_ok h
    obtain ⟨rfl, rfl⟩ := pure_ok h
    exact ⟨_, next_ok hnext ht (by simp), .patternDefault⟩
  · next name =>
    obtain ⟨t', c₂, hnext, h⟩ := bind_ok h
    have hlabel := next_ok hnext ht (by simp)
    obtain ⟨u, c₃, hkind', h⟩ := bind_ok h
    obtain ⟨hu, rfl⟩ := see_ok hkind'
    split at h
    · obtain ⟨paren, c₃, hparen, h⟩ := bind_ok h
      obtain ⟨⟨params, closed⟩, c₄, hparams, h⟩ := bind_ok h
      obtain ⟨rfl, rfl⟩ := pure_ok h
      obtain ⟨ts, hts, hd⟩ := closedList_sound param_sound hparams
      refine ⟨.ident name :: .symbol .leftParen :: ts ++ [.symbol .rightParen], ?_,
        .patternList (.ident name) hd⟩
      rw [hlabel, next_ok hparen hu (by simp), hts]
      simp
    · obtain ⟨p, c₃, hp, h⟩ := bind_ok h
      obtain ⟨rfl, rfl⟩ := pure_ok h
      obtain ⟨ts, hts, hd⟩ := param_sound _ _ _ hp
      exact ⟨.ident name :: ts, by rw [hlabel, hts]; rfl, .patternRest (.ident name) hd⟩
    · obtain ⟨p, c₃, hp, h⟩ := bind_ok h
      obtain ⟨rfl, rfl⟩ := pure_ok h
      obtain ⟨ts, hts, hd⟩ := param_sound _ _ _ hp
      exact ⟨.ident name :: ts, by rw [hlabel, hts]; rfl, .patternRest (.ident name) hd⟩
    · cases h
  · cases h

lemma clauseBody_erase (e : Expr) : (clauseBody e).map Stmt.erase = clauseBody e.erase := by
  cases e <;> simp [clauseBody, Expr.erase, Stmt.erase]

lemma clause_sound (hinner : Sound (.expr .comparison) inner) (bound : Nat) :
    Sound .clause (clause inner bound) := by
  intro c a c' h
  obtain ⟨start, c₁, hsee, h⟩ := bind_ok (within_ok h)
  obtain ⟨-, rfl⟩ := see_ok hsee
  obtain ⟨p, c₂, hp, h⟩ := bind_ok h
  obtain ⟨s, c₃, harrow, h⟩ := bind_ok h
  obtain ⟨e, c₄, he, h⟩ := bind_ok h
  obtain ⟨rfl, rfl⟩ := pure_ok h
  obtain ⟨ts, hts, hdp⟩ := pattern_sound bound _ _ _ hp
  obtain ⟨us, hus, hde⟩ := hinner _ _ _ he
  refine ⟨ts ++ .symbol .arrow :: us, ?_, ?_⟩
  · rw [hts, sign_ok harrow, hus]
    simp
  · simp only [Phrase.erase, Clause.erase, eraseStmts_eq_map, clauseBody_erase]
    exact .clause hdp hde

lemma matchUse_sound (hinner : Sound (.expr .comparison) inner) (bound : Nat) :
    Sound .primary (matchUse inner bound) := by
  intro c a c' h
  obtain ⟨operator, c₁, hoperator, h⟩ := bind_ok (within_ok h)
  obtain ⟨s₁, c₂, hbang, h⟩ := bind_ok h
  obtain ⟨s₂, c₃, hparen, h⟩ := bind_ok h
  obtain ⟨e, c₄, he, h⟩ := bind_ok h
  obtain ⟨s₃, c₅, hclose, h⟩ := bind_ok h
  obtain ⟨s₄, c₆, hbrace, h⟩ := bind_ok h
  obtain ⟨⟨clauses, closed⟩, c₇, hclauses, h⟩ := bind_ok h
  obtain ⟨rfl, rfl⟩ := pure_ok h
  obtain ⟨ts, hts, hde⟩ := hinner _ _ _ he
  obtain ⟨us, hus, hdc⟩ := closedList_sound (clause_sound hinner bound) hclauses
  refine ⟨.ident operator.name :: .symbol .bang :: .symbol .leftParen :: ts ++
    .symbol .rightParen :: .symbol .leftBrace :: us ++ [.symbol .rightBrace], ?_, ?_⟩
  · rw [Cursor.kinds_of_expectIdent hoperator, sign_ok hbang, sign_ok hparen, hts, close_ok hclose,
      sign_ok hbrace, hus]
    simp
  · simp only [Phrase.erase, Expr.erase, eraseClauses_eq_map]
    exact .matchUse operator.name hde hdc

lemma parenthesized_sound (hinner : Sound (.expr .comparison) inner) {opened : Span} {e : Expr}
    {c c' : Cursor} (h : parenthesized inner opened c = (.ok e, c')) :
    ∃ ts, c.kinds = ts ++ c'.kinds ∧ Derives .primary (.symbol .leftParen :: ts) e.erase := by
  obtain ⟨closed, c₁, hsee, h⟩ := bind_ok h
  obtain ⟨-, rfl⟩ := see_ok hsee
  split at h
  · obtain ⟨s, c₂, hsign, h⟩ := bind_ok h
    obtain ⟨rfl, rfl⟩ := pure_ok h
    exact ⟨[.symbol .rightParen], sign_ok hsign, .parensNone⟩
  · obtain ⟨e', c₂, he, h⟩ := bind_ok h
    obtain ⟨s, c₃, hclose, h⟩ := bind_ok h
    obtain ⟨rfl, rfl⟩ := pure_ok h
    obtain ⟨ts, hts, hde⟩ := hinner _ _ _ he
    refine ⟨ts ++ [.symbol .rightParen], by rw [hts, close_ok hclose]; simp, ?_⟩
    rw [Expr.erase_withSpan]
    exact .parens hde

lemma primary_sound (hinner : Sound (.expr .comparison) inner) (bound : Nat) :
    Sound .primary (primary inner bound) := by
  intro c e c' h
  obtain ⟨t, c₁, hkind, h⟩ := bind_ok h
  obtain ⟨ht, rfl⟩ := see_ok hkind
  -- Apart from blocks, conditionals and matches, the token tells the tree.
  have hleaf : ∀ {k : Kind} (f : Span → Expr), t = k → k ≠ .eof →
      Derives .primary [k] (f .none) → (∀ s, (f s).erase = f .none) →
      (do return f (← next).span : Parse Expr) c = (.ok e, c') →
      ∃ ts, c.kinds = ts ++ c'.kinds ∧ Derives .primary ts e.erase := by
    intro k f hk hne hd hf h
    obtain ⟨t', c₂, hnext, h⟩ := bind_ok h
    obtain ⟨rfl, rfl⟩ := pure_ok h
    exact ⟨[k], next_ok hnext (ht.trans hk) hne, (hf _).symm ▸ hd⟩
  split at h
  · next n => exact hleaf (.int · n) rfl (by simp) (.int n) (fun _ => rfl) h
  · next text => exact hleaf (.str · text) rfl (by simp) (.str text) (fun _ => rfl) h
  · exact hleaf (.bool · true) rfl (by simp) .boolTrue (fun _ => rfl) h
  · exact hleaf (.bool · false) rfl (by simp) .boolFalse (fun _ => rfl) h
  · obtain ⟨t', c₂, hnext, h⟩ := bind_ok h
    obtain ⟨ts, hts, hd⟩ := parenthesized_sound hinner h
    exact ⟨_, by rw [next_ok hnext ht (by simp), hts]; rfl, hd⟩
  · obtain ⟨ts, hts, hd⟩ := block_sound hinner bound _ _ _ h
    exact ⟨ts, hts, .primaryBlock hd⟩
  · obtain ⟨ts, hts, hd⟩ := conditional_sound hinner bound bound _ _ _ h
    exact ⟨ts, hts, .primaryIf hd⟩
  · next name =>
    obtain ⟨bang, c₂, hsee, h⟩ := bind_ok h
    obtain ⟨-, rfl⟩ := see_ok hsee
    split at h
    · exact matchUse_sound hinner bound _ _ _ h
    · exact hleaf (.ident · name) rfl (by simp) (.name name) (fun _ => rfl) h
  · cases within_ok h

lemma operand_sound (hinner : Sound (.expr .comparison) inner) (bound : Nat) :
    Sound (.expr .unary) (operand inner bound) := by
  refine signed_sound ?_ bound
  intro c e c' h
  obtain ⟨f, c₁, hf, h⟩ := bind_ok h
  obtain ⟨ts, hts, hdf⟩ := primary_sound hinner bound _ _ _ hf
  obtain ⟨us, hus, hde⟩ := calls_sound hinner h
  exact ⟨ts ++ us, by rw [hts, hus, List.append_assoc], .applied hdf hde⟩

/-- Expressions of every depth derive. -/
theorem exprAt_sound (depth : Nat) : Sound (.expr .comparison) (exprAt depth) := by
  induction depth with
  | zero =>
    intro c e c' h
    cases within_ok h
  | succ depth ih =>
    have hproduct := level_sound (l := .product) rfl (operand_sound ih (depth + 1)) (depth + 1)
    have hsum := level_sound (l := .sum) rfl hproduct (depth + 1)
    exact level_sound (l := .comparison) rfl hsum (depth + 1)

theorem expr_sound : Sound (.expr .comparison) expr := fun c e c' h =>
  exprAt_sound c.rest.length c e c' h

end Expressions

section Modules

lemma takeAttributes_sound (previous : Span) (ts : List Token) :
    ∃ ks, ts.map (·.kind) = ks ++ (takeAttributes previous ts).2.kinds ∧
      Derives .attributes ks ((takeAttributes previous ts).1.map (·.erase)) := by
  induction ts generalizing previous with
  | nil => exact ⟨[], rfl, .attributesNil⟩
  | cons t ts ih =>
    obtain ⟨kind, span⟩ := t
    cases kind with
    | attr text =>
      obtain ⟨ks, hks, hd⟩ := ih span
      refine ⟨.attr text :: ks, ?_, .attributesCons text hd⟩
      rw [List.map_cons, hks]
      rfl
    | _ => exact ⟨[], rfl, .attributesNil⟩

lemma attributes_sound : Sound .attributes attributes := by
  intro c as c' h
  cases h
  exact takeAttributes_sound c.previous c.rest

lemma field_sound : Sound .field field := by
  intro c f c' h
  obtain ⟨as, c₁, has, h⟩ := bind_ok h
  obtain ⟨i, c₂, hi, h⟩ := bind_ok h
  obtain ⟨rfl, rfl⟩ := pure_ok h
  obtain ⟨ts, hts, hda⟩ := attributes_sound _ _ _ has
  obtain ⟨us, hus, hdi⟩ := ident_sound _ _ _ (within_ok hi)
  exact ⟨ts ++ us, by rw [hts, hus, List.append_assoc], .field hda hdi⟩

lemma caseSpec_sound (bound : Nat) : Sound .case (caseSpec bound) := by
  intro c spec c' h
  obtain ⟨as, c₁, has, h⟩ := bind_ok h
  obtain ⟨i, c₂, hi, h⟩ := bind_ok h
  obtain ⟨ts, hts, hda⟩ := attributes_sound _ _ _ has
  obtain ⟨us, hus, hdi⟩ := ident_sound _ _ _ (within_ok hi)
  obtain ⟨paren, c₃, hsee, h⟩ := bind_ok h
  obtain ⟨-, rfl⟩ := see_ok hsee
  split at h
  · obtain ⟨opened, c₄, hsign, h⟩ := bind_ok h
    obtain ⟨⟨fs, closed⟩, c₅, hfs, h⟩ := bind_ok h
    obtain ⟨rfl, rfl⟩ := pure_ok h
    obtain ⟨vs, hvs, hdf⟩ := closedList_sound field_sound hfs
    refine ⟨ts ++ us ++ .symbol .leftParen :: vs ++ [.symbol .rightParen], ?_,
      .caseFields hda hdi hdf⟩
    rw [hts, hus, sign_ok hsign, hvs]
    simp
  · obtain ⟨⟨fs, closed⟩, c₄, hfs, h⟩ := bind_ok h
    obtain ⟨heq, rfl⟩ := pure_ok hfs
    cases heq
    obtain ⟨rfl, rfl⟩ := pure_ok h
    exact ⟨ts ++ us, by rw [hts, hus, List.append_assoc], .caseBare hda hdi⟩

lemma variantSpec_sound {options : List Attribute} {bound : Nat} {spec : Variant.Spec}
    {c c' : Cursor} (h : variantSpec options bound c = (.ok spec, c')) {ts : List Kind}
    (ha : Derives .attributes ts (options.map (·.erase))) :
    ∃ us, c.kinds = us ++ c'.kinds ∧ Derives .item (ts ++ us) (Item.variant spec.erase) := by
  obtain ⟨start, c₁, hsee, h⟩ := bind_ok (within_ok h)
  obtain ⟨-, rfl⟩ := see_ok hsee
  obtain ⟨s₁, c₂, hvariant, h⟩ := bind_ok h
  obtain ⟨i, c₃, hi, h⟩ := bind_ok h
  obtain ⟨s₂, c₄, hbrace, h⟩ := bind_ok h
  obtain ⟨⟨cases', closed⟩, c₅, hcases, h⟩ := bind_ok h
  obtain ⟨rfl, rfl⟩ := pure_ok h
  obtain ⟨us, hus, hdi⟩ := ident_sound _ _ _ hi
  obtain ⟨vs, hvs, hdc⟩ := closedList_sound (caseSpec_sound bound) hcases
  refine ⟨.keyword .variant :: us ++ .symbol .leftBrace :: vs ++ [.symbol .rightBrace], ?_, ?_⟩
  · rw [keyword_ok hvariant, hus, sign_ok hbrace, hvs]
    simp
  · have hassoc : ts ++ (.keyword .variant :: us ++ .symbol .leftBrace :: vs ++
        [.symbol .rightBrace]) = ts ++ .keyword .variant :: us ++ .symbol .leftBrace :: vs ++
          [.symbol .rightBrace] := by simp
    rw [hassoc]
    exact .variant ha hdi hdc

lemma function_sound {bound : Nat} {f : Function} {c c' : Cursor}
    (h : function bound c = (.ok f, c')) :
    ∃ ts, c.kinds = ts ++ c'.kinds ∧ Derives .item ts (Item.function f.erase) := by
  obtain ⟨s₁, c₁, hfn, h⟩ := bind_ok (within_ok h)
  obtain ⟨i, c₂, hi, h⟩ := bind_ok h
  obtain ⟨s₂, c₃, hparen, h⟩ := bind_ok h
  obtain ⟨⟨ps, closed⟩, c₄, hps, h⟩ := bind_ok h
  obtain ⟨s₃, c₅, hassign, h⟩ := bind_ok h
  obtain ⟨e, c₆, he, h⟩ := bind_ok h
  obtain ⟨rfl, rfl⟩ := pure_ok h
  obtain ⟨ts, hts, hdi⟩ := ident_sound _ _ _ hi
  obtain ⟨us, hus, hdp⟩ := closedList_sound ident_sound hps
  obtain ⟨vs, hvs, hde⟩ := expr_sound _ _ _ he
  refine ⟨_, ?_, .function hdi hdp hde⟩
  rw [keyword_ok hfn, hts, sign_ok hparen, hus, sign_ok hassign, hvs]
  simp

lemma item_sound (bound : Nat) : Sound .item (item bound) := by
  intro c i c' h
  obtain ⟨options, c₁, hoptions, h⟩ := bind_ok h
  obtain ⟨ts, hts, hda⟩ := attributes_sound _ _ _ hoptions
  obtain ⟨t, c₂, hsee, h⟩ := bind_ok h
  obtain ⟨-, rfl⟩ := see_ok hsee
  split at h
  · obtain ⟨spec, c₃, hspec, h⟩ := bind_ok h
    obtain ⟨rfl, rfl⟩ := pure_ok h
    obtain ⟨us, hus, hd⟩ := variantSpec_sound hspec hda
    exact ⟨ts ++ us, by rw [hts, hus, List.append_assoc], hd⟩
  · split at h
    · next hempty =>
      obtain ⟨f, c₃, hf, h⟩ := bind_ok h
      obtain ⟨rfl, rfl⟩ := pure_ok h
      obtain rfl : options = [] := List.isEmpty_iff.mp hempty
      cases hda
      obtain ⟨us, hus, hd⟩ := function_sound hf
      exact ⟨us, by rw [hts, hus]; rfl, hd⟩
    · cases h
  · cases h

/-- A list of items without faults derives up to the end of the file. -/
theorem items_sound {rounds : Nat} {c : Cursor} {is : List Item} (h : items rounds c = (is, []))
    (hrounds : c.kinds.length ≤ rounds) :
    ∃ ts us, c.kinds = ts ++ us ∧ us.headD .eof = .eof ∧
      Derives .module ts (is.map (·.erase)) := by
  induction rounds generalizing c is with
  | zero =>
    cases h
    have hnil : c.kinds = [] := List.length_eq_zero_iff.mp (Nat.le_zero.mp hrounds)
    exact ⟨[], [], by simp [hnil], rfl, .moduleNil⟩
  | succ rounds ih =>
    rw [items] at h
    split at h
    · next hend =>
      cases h
      exact ⟨[], c.kinds, rfl, Cursor.headD_kinds_of_atEnd hend, .moduleNil⟩
    · cases hitem : item c.rest.length c with
      | mk result c₁ =>
        rw [hitem] at h
        cases result with
        | error f => cases h
        | ok i =>
          dsimp only at h
          obtain ⟨ts, hts, hdi⟩ := item_sound _ _ _ _ hitem
          cases hrest : items rounds c₁ with
          | mk is' fs =>
            rw [hrest] at h
            cases h
            obtain ⟨t, us, rfl, -⟩ := hdi.head rfl
            have hlen : c₁.kinds.length ≤ rounds := by
              rw [hts] at hrounds
              simp only [List.length_append, List.length_cons] at hrounds
              omega
            obtain ⟨vs, ws, hvs, hend, hdis⟩ := ih hrest hlen
            exact ⟨t :: us ++ vs, ws, by rw [hts, hvs, List.append_assoc], hend,
              .moduleCons hdi hdis⟩

/-- A parse without faults reads a module, up to the end of the file. -/
theorem parse_sound {tokens : List Token} (h : (parse tokens).faults = []) :
    ∃ ts us, tokens.map (·.kind) = ts ++ us ∧ us.headD .eof = .eof ∧
      Derives .module ts ((parse tokens).tree.items.map (·.erase)) := by
  have hitems : items tokens.length (.ofTokens tokens) = ((parse tokens).tree.items, []) :=
    Prod.ext rfl h
  exact items_sound hitems (by simp [Cursor.kinds, Cursor.ofTokens])

end Modules

end ClosedSum.Grammar
