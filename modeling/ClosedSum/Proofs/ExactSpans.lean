import ClosedSum.Proofs.Scanning
import ClosedSum.Proofs.SpanReading

/-!
# Exact spans

Every node of a module spans the tokens that it was read from. So what is inside a node lies within
its span, and what stands side by side does not overlap and comes in the order of the text.
-/

namespace ClosedSum.Grammar

open Surface

/-- A node and the tokens that it was read from. The zero in front of a sign was read from the
sign. -/
def Node.ReadFrom (ts : List Token) : Node → Prop
  | .item i => Spans .item ts i
  | .case c => Spans .case ts c
  | .clause c => Spans .clause ts c
  | .expr e => Spans (.expr .comparison) ts e ∨ ∃ s, ts = [⟨.symbol .minus, s⟩] ∧ e = .int s 0

namespace Node

variable {ts : List Token} {n : Node}

lemma ReadFrom.ne_nil (h : n.ReadFrom ts) : ts ≠ [] := by
  cases n with
  | item i => exact Spans.ne_nil h rfl
  | case c => exact Spans.ne_nil h rfl
  | clause c => exact Spans.ne_nil h rfl
  | expr e =>
    rcases h with h | ⟨s, rfl, -⟩
    · exact h.ne_nil rfl
    · simp

lemma ReadFrom.span_eq (h : n.ReadFrom ts) : n.span = extent ts := by
  cases n with
  | item i => exact Spans.span_eq h _ rfl
  | case c => exact Spans.span_eq h _ rfl
  | clause c => exact Spans.span_eq h _ rfl
  | expr e =>
    rcases h with h | ⟨s, rfl, rfl⟩
    · exact h.span_eq _ rfl
    · rfl

end Node

namespace Spans

variable {p : Phrase} {ts us vs : List Token}

lemma loosen {l : Level} {e : Expr} (h : Spans (.expr l) ts e) :
    Spans (.expr .comparison) ts e := by
  cases l with
  | comparison => exact h
  | sum => exact .operand rfl h
  | product => exact .operand rfl (.operand rfl h)
  | unary => exact .operand rfl (.operand rfl (.operand rfl h))

lemma loosen_primary {e : Expr} (h : Spans .primary ts e) : Spans (.expr .comparison) ts e :=
  (unary h).loosen

lemma readFrom {a : p.Tree} (h : Spans p ts a) : ∀ n ∈ p.node? a, n.ReadFrom ts := by
  intro n hn
  cases p with
  | case | item | clause =>
    cases hn
    exact h
  | expr l =>
    cases hn
    exact .inl h.loosen
  | primary =>
    cases hn
    exact .inl h.loosen_primary
  | conditional =>
    cases hn
    exact .inl (primaryIf h).loosen_primary
  | block =>
    cases hn
    exact .inl (primaryBlock h).loosen_primary
  | _ => cases hn

lemma row {a : p.Tree} (h : Spans p ts a) {n : Node} (hn : n ∈ p.node? a) :
    Rows Node.ReadFrom ts [n] := .single (h.readFrom n hn)

lemma row_stmt {st : Stmt} (h : Spans .stmt ts st) : Rows Node.ReadFrom ts [.ofStmt st] := by
  cases h with
  | @bind ts us i e s s' hi he =>
    have hrow := (he.row rfl).behind (⟨.keyword .let, s⟩ :: ts ++ [⟨.symbol .assign, s'⟩])
    rwa [List.append_assoc] at hrow
  | stmt h => exact h.row rfl

lemma rows_list {separator : Token.Symbol} {f : p.Tree → Node}
    (hp : ∀ {ts a}, Spans p ts a → Rows Node.ReadFrom ts [f a]) :
    (as : List p.Tree) → {ts : List Token} → Spans (.listOf separator p) ts as →
      Rows Node.ReadFrom ts (as.map f)
  | [], ts, _ => .nil ts
  | a :: as, ts, h => by
    cases h with
    | listOne _ h => exact hp h
    | listCons ha h => exact (hp ha).append ((rows_list hp as h).behind [_])

/-- What is inside a node is read from stretches of its tokens, one behind the other. -/
lemma rows_children {a : p.Tree} (h : Spans p ts a) :
    ∀ n ∈ p.node? a, Rows Node.ReadFrom ts n.children := by
  induction h with
  | operand hl h ih => exact ih
  | unary h ih | primaryBlock h ih | primaryIf h ih => exact ih
  | caseBare | caseFields =>
    rintro _ ⟨⟩
    exact .nil _
  | @variant ts us vs ws as i cs s s' s'' ha hi hc hws =>
    rintro _ ⟨⟩
    have hcases := rows_list (p := .case) (fun h => h.row rfl) cs hc
    rw [show ws = (ts ++ ⟨.keyword .variant, s⟩ :: us ++ [⟨.symbol .leftBrace, s'⟩]) ++ vs ++
      [⟨.symbol .rightBrace, s''⟩] by simp [hws]]
    exact hcases.around _ _
  | @function ts us vs ws i ps e s s₁ s₂ s₃ hi hp he hws =>
    rintro _ ⟨⟩
    rw [show ws = (⟨.keyword .fn, s⟩ :: ts ++ ⟨.symbol .leftParen, s₁⟩ :: us ++
      [⟨.symbol .rightParen, s₂⟩, ⟨.symbol .assign, s₃⟩]) ++ vs by simp [hws]]
    exact (he.row rfl).behind _
  | @binary l l' t op ts us ws a b hl hop ha hb hws =>
    rintro _ ⟨⟩
    rw [hws]
    exact (ha.row rfl).append ((hb.row rfl).behind [t])
  | @negation ts ws e s h hws =>
    rintro _ ⟨⟩
    have hzero : Rows Node.ReadFrom [⟨.symbol .minus, s⟩] [.expr (.int s 0)] :=
      .single (.inr ⟨s, rfl, rfl⟩)
    rw [hws]
    exact hzero.append (h.row rfl)
  | @call ts us ws f args s s' hf ha hws =>
    rintro _ ⟨⟩
    have hargs := rows_list (p := .expr .comparison) (fun h => h.row rfl) args ha
    rw [show ws = ts ++ ([⟨.symbol .leftParen, s⟩] ++ us ++ [⟨.symbol .rightParen, s'⟩]) by
      simp [hws]]
    exact (hf.row rfl).append (hargs.around _ _)
  | parens h hws ih =>
    rintro _ ⟨⟩
    rw [hws, Node.children_withSpan]
    exact (ih _ rfl).around [_] [_]
  | @matchUse ts us vs ws i e cs s₁ s₂ s₃ s₄ s₅ hi he hc hws =>
    rintro _ ⟨⟩
    have hclauses := rows_list (p := .clause) (fun h => h.row rfl) cs hc
    rw [show ws = ((ts ++ [⟨.symbol .bang, s₁⟩, ⟨.symbol .leftParen, s₂⟩]) ++ us) ++
      ([⟨.symbol .rightParen, s₃⟩, ⟨.symbol .leftBrace, s₄⟩] ++ vs ++ [⟨.symbol .rightBrace, s₅⟩])
      by simp [hws]]
    exact ((he.row rfl).behind _).append (hclauses.around _ _)
  | ifBlock ht hy hn hws =>
    rintro _ ⟨⟩
    rw [hws]
    exact (((ht.row rfl).behind [_]).append (hy.row rfl)).append ((hn.row rfl).behind [_])
  | ifIf ht hy hn hws =>
    rintro _ ⟨⟩
    rw [hws]
    exact (((ht.row rfl).behind [_]).append (hy.row rfl)).append ((hn.row rfl).behind [_])
  | block h hws =>
    rintro _ ⟨⟩
    rw [hws]
    exact (rows_list row_stmt _ h).around [_] [_]
  | @clause ts us ws p e s hp he hws ihp ih =>
    rintro _ ⟨⟩
    have hrows : Rows Node.ReadFrom us
        (Node.clause (.mk p (clauseBody e) (extent ws))).children := by
      rcases Node.children_clause p e (extent ws) with hchildren | hchildren
      · rw [hchildren]
        exact ih _ rfl
      · rw [hchildren]
        exact he.row rfl
    rw [show ws = (ts ++ [⟨.symbol .arrow, s⟩]) ++ us by simp [hws]] at hrows ⊢
    exact hrows.behind _
  | _ =>
    rintro _ ⟨⟩ <;> exact .nil _

end Spans

theorem Node.ReadFrom.children {n : Node} {ts : List Token} (h : n.ReadFrom ts) :
    Rows Node.ReadFrom ts n.children := by
  cases n with
  | item i => exact Spans.rows_children h _ rfl
  | case c => exact Spans.rows_children h _ rfl
  | clause c => exact Spans.rows_children h _ rfl
  | expr e =>
    rcases h with h | ⟨s, rfl, rfl⟩
    · exact h.rows_children _ rfl
    · exact .nil _

lemma Rows.pairwise {ts : List Token} {ns : List Node} (h : Rows Node.ReadFrom ts ns)
    (hts : InOrder ts) : ns.Pairwise fun m n => m.span.stop ≤ n.span.start := by
  induction h with
  | nil ts => exact .nil
  | @cons gap ts us n ns h hs ih =>
    have hboth : InOrder (ts ++ us) := hts.behind (List.append_assoc gap ts us)
    refine List.pairwise_cons.mpr ⟨fun m hm => ?_, ih (hboth.behind rfl)⟩
    obtain ⟨vs, hvs, hread⟩ := hs.exists_infix hm
    have hpair : InOrder (ts ++ vs) := hboth.sublist (hvs.sublist.append_left ts)
    rw [h.span_eq, hread.span_eq]
    exact hpair.extent_append_le h.ne_nil hread.ne_nil

/-- The nodes of a list of items: the items and what is inside of their nodes. -/
inductive Occurs (items : List Item) : Node → Prop
  | item {i : Item} (h : i ∈ items) : Occurs items (.item i)
  | child {n m : Node} (h : Occurs items n) (hm : m ∈ n.children) : Occurs items m

/-- What it means that the spans of items are exact, where `tokens` are those of their text. -/
structure ExactSpans (tokens : List Token) (items : List Item) : Prop where
  rows : Rows Node.ReadFrom tokens (items.map .item)
  /-- A node was read from tokens in a row, and goes from the start of the first of them to the end
  of the last. What is inside was read from stretches of them. -/
  spans : ∀ n, Occurs items n → ∃ ts, ts <:+: tokens ∧ ts ≠ [] ∧ n.ReadFrom ts ∧
    n.span = extent ts ∧ Rows Node.ReadFrom ts n.children
  nested : ∀ n, Occurs items n → ∀ m ∈ n.children,
    n.span.start ≤ m.span.start ∧ m.span.stop ≤ n.span.stop
  apart : ∀ n, Occurs items n → n.children.Pairwise fun l m => l.span.stop ≤ m.span.start
  items_apart : (items.map Node.item).Pairwise fun l m => l.span.stop ≤ m.span.start
  /-- The offsets are ones that a span can hold. -/
  offsets : ∀ n, Occurs items n → Span.ofOffsets n.span.start n.span.stop = .ok n.span

lemma exactSpans_of_rows {tokens : List Token} {items : List Item} (hts : InOrder tokens)
    (hstop : ∀ t ∈ tokens, t.span.stop ≤ Span.maxOffset)
    (h : Rows Node.ReadFrom tokens (items.map .item)) : ExactSpans tokens items := by
  have hoccurs : ∀ n, Occurs items n → ∃ ts, ts <:+: tokens ∧ n.ReadFrom ts := by
    intro n hn
    induction hn with
    | item hi => exact h.exists_infix (List.mem_map_of_mem hi)
    | child hn hm ih =>
      obtain ⟨ts, hinside, hread⟩ := ih
      obtain ⟨us, hus, hread⟩ := hread.children.exists_infix hm
      exact ⟨us, hus.trans hinside, hread⟩
  refine ⟨h, fun n hn => ?_, fun n hn m hm => ?_, fun n hn => ?_, h.pairwise hts,
    fun n hn => ?_⟩
  all_goals
    obtain ⟨ts, hinside, hread⟩ := hoccurs n hn
    have hin : InOrder ts := hts.sublist hinside.sublist
  · exact ⟨ts, hinside, hread.ne_nil, hread, hread.span_eq, hread.children⟩
  · obtain ⟨us, hus, hread'⟩ := hread.children.exists_infix hm
    rw [hread.span_eq, hread'.span_eq]
    exact hin.extent_subset hread'.ne_nil hus.subset
  · exact hread.children.pairwise hin
  · obtain ⟨t, ht, u, hu, hextent⟩ := exists_extent hread.ne_nil
    have hstart := (hin.extent_mem hu).1
    have hu' := hin.upright u hu
    have hmax := hstop u (hinside.subset hu)
    rw [hread.span_eq]
    rw [hextent] at hstart ⊢
    exact Token.ofOffsets_of_le hmax (hstart.trans hu')

lemma inOrder_of_lossless {source : List Char} {s : Token.Scan} {ts : List Token}
    (h : Token.Lossless source s ts) : InOrder s.tokens := by
  rw [h.tokens]
  refine ⟨fun t ht => ?_, List.pairwise_append.mpr
    ⟨h.ordered, List.pairwise_singleton _ _, fun t ht u hu => ?_⟩⟩
  · rcases List.mem_append.mp ht with ht | ht
    · exact Nat.le_of_lt (h.nonempty t ht)
    · rw [List.mem_singleton.mp ht]
      exact Nat.le_refl _
  · rw [List.mem_singleton.mp hu]
    exact h.inside t ht

/-- The spans of all that is read from a text are exact, whether the text has faults or not. -/
theorem parse_spans (source : List Char) (hsize : Text.byteLength source ≤ Span.maxOffset) :
    ExactSpans (Token.scan source).tokens (parse (Token.scan source).tokens).tree.items := by
  obtain ⟨ts, hlossless⟩ := Token.scan_lossless source hsize
  have hts := inOrder_of_lossless hlossless
  have hstop : ∀ t ∈ (Token.scan source).tokens, t.span.stop ≤ Span.maxOffset := by
    intro t ht
    rw [hlossless.tokens] at ht
    rcases List.mem_append.mp ht with ht | ht
    · exact (hlossless.inside t ht).trans hsize
    · rw [List.mem_singleton.mp ht]
      exact hsize
  have hitems : Rows (Spans .item) (Token.scan source).tokens
      (parse (Token.scan source).tokens).tree.items :=
    items_spans _ (c := .ofTokens (Token.scan source).tokens) hts
  exact exactSpans_of_rows hts hstop (hitems.map id)

/-- A function whose body is a sign in front of parentheses. -/
def signSource : List Char := "fn f() = -(1)".toList

def signTokens : List Token :=
  [⟨.symbol .minus, ⟨9, 10⟩⟩, ⟨.symbol .leftParen, ⟨10, 11⟩⟩, ⟨.int 1, ⟨11, 12⟩⟩,
    ⟨.symbol .rightParen, ⟨12, 13⟩⟩]

/-- The zero takes the span of the sign, the one that of its parentheses. -/
def signBody : Expr := .binary ⟨9, 13⟩ .sub (.int ⟨9, 10⟩ 0) (.int ⟨10, 13⟩ 1)

lemma scan_signSource : (Token.scan signSource).tokens =
    [⟨.keyword .fn, ⟨0, 2⟩⟩, ⟨.ident "f", ⟨3, 4⟩⟩, ⟨.symbol .leftParen, ⟨4, 5⟩⟩,
      ⟨.symbol .rightParen, ⟨5, 6⟩⟩, ⟨.symbol .assign, ⟨7, 8⟩⟩] ++ signTokens ++
      [⟨.eof, ⟨13, 13⟩⟩] := by decide +kernel

lemma parse_signSource : (parse (Token.scan signSource).tokens).tree.items =
    [.function ⟨⟨"f", ⟨3, 4⟩⟩, [], signBody, ⟨0, 13⟩⟩] := by decide +kernel

/-- The body is a node of the tree, and its tokens go from the sign to the closing parenthesis. -/
theorem parse_spans_sign : Text.byteLength signSource ≤ Span.maxOffset ∧
    ExactSpans (Token.scan signSource).tokens (parse (Token.scan signSource).tokens).tree.items ∧
    Occurs (parse (Token.scan signSource).tokens).tree.items (.expr signBody) ∧
    signTokens <:+: (Token.scan signSource).tokens ∧
    Node.ReadFrom signTokens (.expr signBody) ∧
    (Node.expr signBody).span = extent signTokens := by
  have hsize : Text.byteLength signSource ≤ Span.maxOffset := by decide
  have hoccurs : Occurs (parse (Token.scan signSource).tokens).tree.items (.expr signBody) := by
    rw [parse_signSource]
    exact .child (.item List.mem_cons_self) List.mem_cons_self
  have hparens : Spans .primary signTokens.tail (.int ⟨10, 13⟩ 1) :=
    .parens (Spans.loosen_primary (.int 1 ⟨11, 12⟩)) rfl
  have hread : Node.ReadFrom signTokens (.expr signBody) :=
    .inl (Spans.loosen (.negation (.unary hparens) rfl))
  exact ⟨hsize, parse_spans _ hsize, hoccurs, ⟨_, _, scan_signSource.symm⟩, hread, hread.span_eq⟩

end ClosedSum.Grammar
