import ClosedSum.Proofs.Derivation

/-!
# Spans of trees

The grammar once more, as tokens with their places and the tree that is read from them. A node spans
all of its tokens: it starts where the first starts and stops where the last stops. Parentheses
belong to the expression that they are around, and attributes to what they are written on. The zero
that a sign subtracts from has no token of its own and takes the span of the sign.
-/

namespace ClosedSum.Grammar

open Surface
open Token (Kind)

/-- From the start of the first token to the end of the last one. -/
def extent (ts : List Token) : Span :=
  ⟨(ts.headD Cursor.missing).span.start, (ts.getLastD Cursor.missing).span.stop⟩

/-- Tokens as they stand in a text, one behind the other. -/
structure InOrder (ts : List Token) : Prop where
  upright : ∀ t ∈ ts, t.span.start ≤ t.span.stop
  apart : ts.Pairwise fun t u => t.span.stop ≤ u.span.start

section Extents

variable {ts us vs : List Token} {t : Token}

lemma InOrder.sublist (h : InOrder ts) (hs : us.Sublist ts) : InOrder us :=
  ⟨fun t ht => h.upright t (hs.subset ht), h.apart.sublist hs⟩

lemma InOrder.behind (h : InOrder ts) (heq : ts = us ++ vs) : InOrder vs :=
  h.sublist (heq ▸ List.sublist_append_right us vs)

lemma InOrder.tail (h : InOrder ts) (heq : ts = t :: us) : InOrder us :=
  h.sublist (heq ▸ List.sublist_cons_self t us)

lemma InOrder.front (h : InOrder (ts ++ us)) : InOrder ts :=
  h.sublist (List.sublist_append_left ts us)

lemma extent_cons (t : Token) (ts : List Token) : (extent (t :: ts)).start = t.span.start := rfl

lemma extent_concat (ts : List Token) (t : Token) :
    (extent (ts ++ [t])).stop = t.span.stop := by
  simp [extent, List.getLastD_eq_getLast?]

lemma InOrder.extent_mem (h : InOrder ts) (ht : t ∈ ts) :
    (extent ts).start ≤ t.span.start ∧ t.span.stop ≤ (extent ts).stop := by
  constructor
  · cases ts with
    | nil => cases ht
    | cons u us =>
      rw [extent_cons]
      rcases List.mem_cons.mp ht with rfl | ht
      · exact Nat.le_refl _
      · have hu := h.upright u List.mem_cons_self
        have hut := List.rel_of_pairwise_cons h.apart ht
        omega
  · rcases List.eq_nil_or_concat ts with rfl | ⟨us, u, rfl⟩
    · cases ht
    · rw [List.concat_eq_append] at h ht ⊢
      rw [extent_concat]
      rcases List.mem_append.mp ht with ht | ht
      · have hu := h.upright u (by simp)
        have htu := (List.pairwise_append.mp h.apart).2.2 t ht u (List.mem_singleton_self u)
        omega
      · exact Nat.le_of_eq (by rw [List.mem_singleton.mp ht])

lemma exists_extent (hts : ts ≠ []) :
    ∃ t ∈ ts, ∃ u ∈ ts, extent ts = ⟨t.span.start, u.span.stop⟩ := by
  refine ⟨ts.head hts, List.head_mem hts, ts.getLast hts, List.getLast_mem hts, ?_⟩
  simp [extent, List.headD_eq_head?_getD, List.head?_eq_some_head hts,
    List.getLastD_eq_getLast?, List.getLast?_eq_some_getLast hts]

lemma InOrder.extent_subset (h : InOrder ts) (hus : us ≠ []) (hsub : us ⊆ ts) :
    (extent ts).start ≤ (extent us).start ∧ (extent us).stop ≤ (extent ts).stop := by
  obtain ⟨t, ht, u, hu, heq⟩ := exists_extent hus
  rw [heq]
  exact ⟨(h.extent_mem (hsub ht)).1, (h.extent_mem (hsub hu)).2⟩

lemma InOrder.extent_append_le (h : InOrder (ts ++ us)) (hts : ts ≠ []) (hus : us ≠ []) :
    (extent ts).stop ≤ (extent us).start := by
  obtain ⟨_, _, t, ht, hfirst⟩ := exists_extent hts
  obtain ⟨u, hu, _, _, hlast⟩ := exists_extent hus
  rw [hfirst, hlast]
  exact (List.pairwise_append.mp h.apart).2.2 t ht u hu

/-- The first and the last of some stretches of tokens span them all. -/
lemma InOrder.merge_extent (h : InOrder (ts ++ us ++ vs)) (hts : ts ≠ []) (hvs : vs ≠ []) :
    (extent ts).merge (extent vs) = extent (ts ++ us ++ vs) := by
  have hstart : (extent (ts ++ us ++ vs)).start = (extent ts).start := by
    obtain ⟨t, ts, rfl⟩ := List.exists_cons_of_ne_nil hts
    rfl
  have hstop : (extent (ts ++ us ++ vs)).stop = (extent vs).stop := by
    rcases List.eq_nil_or_concat vs with rfl | ⟨vs, v, rfl⟩
    · exact absurd rfl hvs
    · rw [List.concat_eq_append, ← List.append_assoc, extent_concat, extent_concat]
  have hfirst := h.extent_subset hts fun t ht => by simp [ht]
  have hlast := h.extent_subset hvs fun t ht => by simp [ht]
  rw [Span.merge, Nat.min_eq_left (by omega), Nat.max_eq_right (by omega), ← hstart, ← hstop]

/-- The first token and the last one, which may be the same, span them all. -/
lemma InOrder.merge_ends (h : InOrder ts) {u : Token} (ht : ts.head? = some t)
    (hu : ts.getLast? = some u) : t.span.merge u.span = extent ts := by
  have hextent : extent ts = ⟨t.span.start, u.span.stop⟩ := by
    simp [extent, List.headD_eq_head?_getD, ht, List.getLastD_eq_getLast?, hu]
  have hfirst := h.extent_mem (List.mem_of_head? ht)
  have hlast := h.extent_mem (List.mem_of_getLast? hu)
  rw [hextent] at hfirst hlast ⊢
  rw [Span.merge, Nat.min_eq_left hlast.1, Nat.max_eq_right hfirst.2]

end Extents

/-- Things read from stretches of the tokens, one behind the other. -/
inductive Rows {α : Type} (R : List Token → α → Prop) : List Token → List α → Prop
  | nil (ts : List Token) : Rows R ts []
  | cons (gap : List Token) {ts us : List Token} {a : α} {as : List α} (h : R ts a)
    (hs : Rows R us as) : Rows R (gap ++ ts ++ us) (a :: as)

namespace Rows

variable {α : Type} {R : List Token → α → Prop} {ts us : List Token} {a : α} {as bs : List α}

lemma single (h : R ts a) : Rows R ts [a] := by
  simpa using cons [] h (nil [])

lemma append (has : Rows R ts as) (hbs : Rows R us bs) : Rows R (ts ++ us) (as ++ bs) := by
  induction has with
  | nil ts =>
    cases hbs with
    | nil us => exact nil _
    | cons gap h hs =>
      rw [← List.append_assoc, ← List.append_assoc]
      exact cons (ts ++ gap) h hs
  | @cons gap ts us' a as h hs ih =>
    rw [List.append_assoc (gap ++ ts)]
    exact cons gap h ih

lemma behind (gap : List Token) (h : Rows R us as) : Rows R (gap ++ us) as :=
  (nil gap).append h

lemma around (front back : List Token) (h : Rows R ts as) : Rows R (front ++ ts ++ back) as := by
  simpa using (h.behind front).append (nil back)

lemma map {β : Type} {S : List Token → β → Prop} {f : α → β} (h : Rows R ts as)
    (hf : ∀ {us a}, R us a → S us (f a)) : Rows S ts (as.map f) := by
  induction h with
  | nil ts => exact .nil ts
  | cons gap h hs ih => exact .cons gap (hf h) ih

lemma exists_infix (h : Rows R ts as) (ha : a ∈ as) : ∃ us, us <:+: ts ∧ R us a := by
  induction h with
  | nil ts => cases ha
  | @cons gap ts us b as h hs ih =>
    rcases List.mem_cons.mp ha with rfl | ha
    · exact ⟨ts, List.infix_append gap ts us, h⟩
    · obtain ⟨vs, hvs, hR⟩ := ih ha
      exact ⟨vs, hvs.trans (List.suffix_append _ us).isInfix, hR⟩

end Rows

/-- The tokens that a phrase is read from, with the tree that is read. In the tree each node spans
its tokens. -/
inductive Spans : (p : Phrase) → List Token → p.Tree → Prop
  | ident (name : String) (s : Span) : Spans .ident [⟨.ident name, s⟩] (⟨name, s⟩ : Ident)
  | attributesNil : Spans .attributes [] ([] : List Attribute)
  | attributesCons (text : String) (s : Span) {ts : List Token} {as : List Attribute}
    (h : Spans .attributes ts as) :
    Spans .attributes (⟨.attr text, s⟩ :: ts) (⟨text, s⟩ :: as : List Attribute)
  | field {ts us : List Token} {as : List Attribute} {i : Ident} (ha : Spans .attributes ts as)
    (hi : Spans .ident us i) : Spans .field (ts ++ us) (⟨i, as⟩ : Variant.FieldSpec)
  | caseBare {ts us ws : List Token} {as : List Attribute} {i : Ident}
    (ha : Spans .attributes ts as) (hi : Spans .ident us i) (hws : ws = ts ++ us) :
    Spans .case ws (⟨i, as, [], extent ws⟩ : Variant.CaseSpec)
  | caseFields {ts us vs ws : List Token} {as : List Attribute} {i : Ident}
    {fs : List Variant.FieldSpec} {s s' : Span} (ha : Spans .attributes ts as)
    (hi : Spans .ident us i) (hf : Spans (.listOf .comma .field) vs fs)
    (hws : ws = ts ++ us ++ ⟨.symbol .leftParen, s⟩ :: vs ++ [⟨.symbol .rightParen, s'⟩]) :
    Spans .case ws (⟨i, as, fs, extent ws⟩ : Variant.CaseSpec)
  | variant {ts us vs ws : List Token} {as : List Attribute} {i : Ident}
    {cs : List Variant.CaseSpec} {s s' s'' : Span} (ha : Spans .attributes ts as)
    (hi : Spans .ident us i) (hc : Spans (.listOf .comma .case) vs cs)
    (hws : ws = ts ++ ⟨.keyword .variant, s⟩ :: us ++ ⟨.symbol .leftBrace, s'⟩ :: vs ++
      [⟨.symbol .rightBrace, s''⟩]) :
    Spans .item ws (.variant ⟨i, as, cs, extent ws⟩ : Item)
  | function {ts us vs ws : List Token} {i : Ident} {ps : List Ident} {e : Expr}
    {s s₁ s₂ s₃ : Span} (hi : Spans .ident ts i) (hp : Spans (.listOf .comma .ident) us ps)
    (he : Spans (.expr .comparison) vs e)
    (hws : ws = ⟨.keyword .fn, s⟩ :: ts ++ ⟨.symbol .leftParen, s₁⟩ :: us ++
      ⟨.symbol .rightParen, s₂⟩ :: ⟨.symbol .assign, s₃⟩ :: vs) :
    Spans .item ws (.function ⟨i, ps, e, extent ws⟩ : Item)
  | operand {l l' : Level} {ts : List Token} {e : Expr} (hl : l.operand? = some l')
    (h : Spans (.expr l') ts e) : Spans (.expr l) ts e
  | binary {l l' : Level} {t : Token} {op : BinaryOp} {ts us ws : List Token} {a b : Expr}
    (hl : l.operand? = some l') (hop : l.op? t.kind = some op) (ha : Spans (.expr l) ts a)
    (hb : Spans (.expr l') us b) (hws : ws = ts ++ t :: us) :
    Spans (.expr l) ws (Expr.binary (extent ws) op a b)
  | negation {ts ws : List Token} {e : Expr} {s : Span} (h : Spans (.expr .unary) ts e)
    (hws : ws = ⟨.symbol .minus, s⟩ :: ts) :
    Spans (.expr .unary) ws (Expr.binary (extent ws) .sub (.int s 0) e)
  | unary {ts : List Token} {e : Expr} (h : Spans .primary ts e) : Spans (.expr .unary) ts e
  | call {ts us ws : List Token} {f : Expr} {args : List Expr} {s s' : Span}
    (hf : Spans .primary ts f) (ha : Spans (.listOf .comma (.expr .comparison)) us args)
    (hws : ws = ts ++ ⟨.symbol .leftParen, s⟩ :: us ++ [⟨.symbol .rightParen, s'⟩]) :
    Spans .primary ws (Expr.call (extent ws) f args)
  | int (n : Int) (s : Span) : Spans .primary [⟨.int n, s⟩] (Expr.int s n)
  | str (text : String) (s : Span) : Spans .primary [⟨.str text, s⟩] (Expr.str s text)
  | boolTrue (s : Span) : Spans .primary [⟨.keyword .true, s⟩] (Expr.bool s true)
  | boolFalse (s : Span) : Spans .primary [⟨.keyword .false, s⟩] (Expr.bool s false)
  | name (name : String) (s : Span) : Spans .primary [⟨.ident name, s⟩] (Expr.ident s name)
  | parensNone {ws : List Token} {s s' : Span}
    (hws : ws = [⟨.symbol .leftParen, s⟩, ⟨.symbol .rightParen, s'⟩]) :
    Spans .primary ws (Expr.unit (extent ws))
  | parens {ts ws : List Token} {e : Expr} {s s' : Span} (h : Spans (.expr .comparison) ts e)
    (hws : ws = ⟨.symbol .leftParen, s⟩ :: ts ++ [⟨.symbol .rightParen, s'⟩]) :
    Spans .primary ws (e.withSpan (extent ws))
  | primaryBlock {ts : List Token} {e : Expr} (h : Spans .block ts e) : Spans .primary ts e
  | primaryIf {ts : List Token} {e : Expr} (h : Spans .conditional ts e) : Spans .primary ts e
  | matchUse {ts us vs ws : List Token} {i : Ident} {e : Expr} {cs : List Clause}
    {s₁ s₂ s₃ s₄ s₅ : Span} (hi : Spans .ident ts i) (he : Spans (.expr .comparison) us e)
    (hc : Spans (.listOf .comma .clause) vs cs)
    (hws : ws = ts ++ ⟨.symbol .bang, s₁⟩ :: ⟨.symbol .leftParen, s₂⟩ :: us ++
      ⟨.symbol .rightParen, s₃⟩ :: ⟨.symbol .leftBrace, s₄⟩ :: vs ++
      [⟨.symbol .rightBrace, s₅⟩]) :
    Spans .primary ws (Expr.matchUse (extent ws) i e cs (extent ws))
  | ifBlock {ts us vs ws : List Token} {test yes no : Expr} {s s' : Span}
    (ht : Spans (.expr .comparison) ts test) (hy : Spans .block us yes) (hn : Spans .block vs no)
    (hws : ws = ⟨.keyword .if, s⟩ :: ts ++ us ++ ⟨.keyword .else, s'⟩ :: vs) :
    Spans .conditional ws (Expr.ifElse (extent ws) test yes no)
  | ifIf {ts us vs ws : List Token} {test yes no : Expr} {s s' : Span}
    (ht : Spans (.expr .comparison) ts test) (hy : Spans .block us yes)
    (hn : Spans .conditional vs no)
    (hws : ws = ⟨.keyword .if, s⟩ :: ts ++ us ++ ⟨.keyword .else, s'⟩ :: vs) :
    Spans .conditional ws (Expr.ifElse (extent ws) test yes no)
  | block {ts ws : List Token} {ss : List Stmt} {s s' : Span}
    (h : Spans (.listOf .semicolon .stmt) ts ss)
    (hws : ws = ⟨.symbol .leftBrace, s⟩ :: ts ++ [⟨.symbol .rightBrace, s'⟩]) :
    Spans .block ws (Expr.block (extent ws) ss)
  | bind {ts us : List Token} {i : Ident} {e : Expr} {s s' : Span} (hi : Spans .ident ts i)
    (he : Spans (.expr .comparison) us e) :
    Spans .stmt (⟨.keyword .let, s⟩ :: ts ++ ⟨.symbol .assign, s'⟩ :: us) (Stmt.bind i e)
  | stmt {ts : List Token} {e : Expr} (h : Spans (.expr .comparison) ts e) :
    Spans .stmt ts (Stmt.expr e)
  | paramIdent {ts : List Token} {i : Ident} (h : Spans .ident ts i) :
    Spans .param ts (.named i : Match.Param)
  | paramWildcard (s : Span) :
    Spans .param [⟨.symbol .underscore, s⟩] (.wildcard s : Match.Param)
  | patternDefault (s : Span) :
    Spans .pattern [⟨.symbol .underscore, s⟩] (.default : Match.Pattern)
  | patternList {ts us : List Token} {i : Ident} {ps : List Match.Param} {s s' : Span}
    (hi : Spans .ident ts i) (hp : Spans (.listOf .comma .param) us ps) :
    Spans .pattern (ts ++ ⟨.symbol .leftParen, s⟩ :: us ++ [⟨.symbol .rightParen, s'⟩])
      (.case i (.list ps) : Match.Pattern)
  | patternRest {ts us : List Token} {i : Ident} {p : Match.Param} (hi : Spans .ident ts i)
    (hp : Spans .param us p) : Spans .pattern (ts ++ us) (.case i (.rest p) : Match.Pattern)
  | clause {ts us ws : List Token} {p : Match.Pattern} {e : Expr} {s : Span}
    (hp : Spans .pattern ts p) (he : Spans (.expr .comparison) us e)
    (hws : ws = ts ++ ⟨.symbol .arrow, s⟩ :: us) :
    Spans .clause ws (Clause.mk p (clauseBody e) (extent ws))
  | listNil (separator : Token.Symbol) (p : Phrase) :
    Spans (.listOf separator p) [] ([] : List p.Tree)
  | listOne (separator : Token.Symbol) {p : Phrase} {ts : List Token} {a : p.Tree}
    (h : Spans p ts a) : Spans (.listOf separator p) ts ([a] : List p.Tree)
  | listCons {separator : Token.Symbol} {s : Span} {p : Phrase} {ts us : List Token} {a : p.Tree}
    {as : List p.Tree} (ha : Spans p ts a) (h : Spans (.listOf separator p) us as) :
    Spans (.listOf separator p) (ts ++ ⟨.symbol separator, s⟩ :: us) (a :: as : List p.Tree)

namespace Spans

lemma ne_nil {p : Phrase} {ts : List Token} {a : p.Tree} (h : Spans p ts a)
    (hp : p.isSolid = true) : ts ≠ [] := by
  induction h with
  | attributesNil | attributesCons | listNil | listOne | listCons => cases hp
  | field ha hi _ ihi => simp [ihi rfl]
  | caseBare ha hi hws _ ihi => simp [hws, ihi rfl]
  | operand hl h ih => exact ih rfl
  | unary h ih | primaryBlock h ih | primaryIf h ih | stmt h ih | paramIdent h ih => exact ih rfl
  | patternRest hi hp ihi => simp [ihi rfl]
  | _ => simp [*]

end Spans

/-- What has a span of its own in the tree of a module. -/
inductive Node where
  | item (i : Item)
  | case (c : Variant.CaseSpec)
  | clause (c : Clause)
  | expr (e : Expr)

namespace Node

def span : Node → Span
  | .item (.variant spec) => spec.span
  | .item (.function f) => f.span
  | .case c => c.span
  | .clause c => c.span
  | .expr e => e.span

def ofStmt : Stmt → Node
  | .bind _ value | .expr value => .expr value

/-- The nodes right inside a node, as they are written one after the other. -/
def children : Node → List Node
  | .item (.variant spec) => spec.cases.map .case
  | .item (.function f) => [.expr f.body]
  | .case _ => []
  | .clause c => c.body.map ofStmt
  | .expr (.call _ callee args) => .expr callee :: args.map .expr
  | .expr (.binary _ _ lhs rhs) => [.expr lhs, .expr rhs]
  | .expr (.ifElse _ test yes no) => [.expr test, .expr yes, .expr no]
  | .expr (.block _ stmts) => stmts.map ofStmt
  | .expr (.matchUse _ _ scrutinee clauses _) => .expr scrutinee :: clauses.map .clause
  | .expr (.unit _) | .expr (.bool _ _) | .expr (.int _ _) | .expr (.str _ _) | .expr (.ident _ _)
  | .expr (.error _) => []

@[simp] lemma children_withSpan (s : Span) (e : Expr) :
    (expr (e.withSpan s)).children = (expr e).children := by
  cases e <;> rfl

/-- A clause with a block takes its statements; with anything else, it has just that inside. -/
lemma children_clause (p : Match.Pattern) (e : Expr) (s : Span) :
    (clause (.mk p (clauseBody e) s)).children = (expr e).children ∨
      (clause (.mk p (clauseBody e) s)).children = [expr e] := by
  cases e with
  | block _ ss => exact .inl rfl
  | _ => exact .inr rfl

end Node

/-- The tree of a phrase as a node, if it is one. -/
def Phrase.node? : (p : Phrase) → p.Tree → Option Node
  | .case, c => some (.case c)
  | .item, i => some (.item i)
  | .clause, c => some (.clause c)
  | .expr _, e | .primary, e | .conditional, e | .block, e => some (.expr e)
  | _, _ => none

/-- Each node spans its tokens. -/
lemma Spans.span_eq {p : Phrase} {ts : List Token} {a : p.Tree} (h : Spans p ts a) :
    ∀ n ∈ p.node? a, n.span = extent ts := by
  intro n hn
  induction h with
  | operand hl h ih => exact ih hn
  | unary h ih | primaryBlock h ih | primaryIf h ih => exact ih hn
  | parens h hws =>
    cases hn
    exact Expr.span_withSpan _ _
  | _ => cases hn <;> rfl

end ClosedSum.Grammar
