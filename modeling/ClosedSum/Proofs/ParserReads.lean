import ClosedSum.Proofs.ParserSoundness

/-!
# Reading

What it is that a parser reads given tokens as a given tree, and how its steps read. A parser that
stands before tokens that derive from its phrase reads just these, if the next token cannot go on
the phrase and the bounds allow for as many tokens.
-/

namespace ClosedSum.Grammar

open Surface Parse
open Token (Kind)

variable {α β : Type} {c : Cursor} {k : Kind} {ks ls : List Kind}

/-- A parser reads up to the given tokens and gives a result that satisfies a condition. -/
def Reads (p : Parse α) (c : Cursor) (ls : List Kind) (Q : α → Prop) : Prop :=
  ∃ a c', p c = (.ok a, c') ∧ c'.kinds = ls ∧ Q a

namespace Reads

variable {Q : α → Prop} {R : β → Prop}

lemma pure {a : α} (hc : c.kinds = ls) (hQ : Q a) : Reads (Pure.pure a) c ls Q :=
  ⟨a, c, rfl, hc, hQ⟩

lemma bind {p : Parse α} {f : α → Parse β} (hp : Reads p c ks Q)
    (hf : ∀ a c₁, c₁.kinds = ks → Q a → Reads (f a) c₁ ls R) : Reads (p >>= f) c ls R := by
  obtain ⟨a, c₁, ha, hc₁, hQ⟩ := hp
  obtain ⟨b, c₂, hb, hc₂, hR⟩ := hf a c₁ hc₁ hQ
  refine ⟨b, c₂, ?_, hc₂, hR⟩
  change Parse.bind p f c = _
  rw [Parse.bind, ha]
  exact hb

lemma within {context : Context} {p : Parse α} (hp : Reads p c ls Q) :
    Reads (Parse.within context p) c ls Q := by
  obtain ⟨a, c₁, ha, hc₁, hQ⟩ := hp
  exact ⟨a, c₁, by rw [Parse.within, ha], hc₁, hQ⟩

end Reads

lemma Cursor.kind_eq (c : Cursor) : c.kind = c.kinds.headD .eof := by
  obtain ⟨rest, previous⟩ := c
  cases rest <;> rfl

lemma Cursor.kinds_next (hc : c.kinds = k :: ks) (hk : k ≠ .eof) :
    c.kind = k ∧ c.advance.2.kinds = ks := by
  have hkind : c.kind = k := by rw [Cursor.kind_eq, hc, List.headD_cons]
  have hadvance := Cursor.kinds_advance hkind hk
  rw [hc] at hadvance
  exact ⟨hkind, (List.cons.inj hadvance).2.symm⟩

lemma next_reads (hc : c.kinds = k :: ks) (hk : k ≠ .eof) : Reads next c ks fun t => t.kind = k :=
  ⟨_, _, rfl, (Cursor.kinds_next hc hk).2, (Cursor.kinds_next hc hk).1⟩

lemma expect_reads (hc : c.kinds = k :: ks) (hk : k ≠ .eof) :
    Reads (expect k) c ks fun _ => True := by
  obtain ⟨hkind, hadvance⟩ := Cursor.kinds_next hc hk
  refine ⟨c.span, c.advance.2, ?_, hadvance, trivial⟩
  simp only [expect, Cursor.expect, Cursor.check, hkind, decide_true, if_true]

lemma sign_reads {sgn : Token.Symbol} (hc : c.kinds = .symbol sgn :: ks) :
    Reads (sign sgn) c ks fun _ => True := expect_reads hc (by simp)

lemma keyword_reads {word : Token.Keyword} (hc : c.kinds = .keyword word :: ks) :
    Reads (keyword word) c ks fun _ => True := expect_reads hc (by simp)

lemma ident_reads {name : String} (hc : c.kinds = .ident name :: ks) :
    Reads ident c ks fun i => i.erase = ⟨name, .none⟩ := by
  obtain ⟨hkind, hadvance⟩ := Cursor.kinds_next hc (by simp)
  refine ⟨⟨name, c.span⟩, c.advance.2, ?_, hadvance, rfl⟩
  simp only [ident, Cursor.expectIdent, hkind]

lemma eat_reads (hc : c.kinds = k :: ks) (hk : k ≠ .eof) : Reads (eat k) c ks (· = true) := by
  obtain ⟨hkind, hadvance⟩ := Cursor.kinds_next hc hk
  refine ⟨true, c.advance.2, ?_, hadvance, rfl⟩
  simp only [eat, Cursor.eat, Cursor.check, hkind, decide_true, if_true]

lemma eat_leaves (hc : c.kinds = ls) (hk : ls.headD .eof ≠ k) : Reads (eat k) c ls (· = false) := by
  have hkind : c.kind ≠ k := by rwa [Cursor.kind_eq, hc]
  refine ⟨false, c, ?_, hc, rfl⟩
  simp only [eat, Cursor.eat, Cursor.check, hkind, decide_false, Bool.false_eq_true, if_false]

lemma kind_reads (hc : c.kinds = ls) : Reads kind c ls (· = ls.headD .eof) :=
  ⟨_, c, rfl, hc, by rw [← hc, ← Cursor.kind_eq]⟩

lemma span_reads (hc : c.kinds = ls) : Reads span c ls fun _ => True := ⟨_, c, rfl, hc, trivial⟩

lemma isNext_reads (hc : c.kinds = k :: ks) : Reads (isNext k) c (k :: ks) (· = true) := by
  refine ⟨_, c, rfl, hc, ?_⟩
  change decide (c.kind = k) = true
  rw [Cursor.kind_eq, hc, List.headD_cons]
  exact decide_eq_true rfl

lemma isNext_leaves (hc : c.kinds = ls) (hk : ls.headD .eof ≠ k) :
    Reads (isNext k) c ls (· = false) := by
  refine ⟨_, c, rfl, hc, ?_⟩
  change decide (c.kind = k) = false
  rw [Cursor.kind_eq, hc, decide_eq_false hk]

lemma isSecond_reads (hc : c.kinds = k :: ks) {k' : Kind} (hk : k ≠ k') (hk' : k' ≠ .eof) :
    Reads (isSecond k') c (k :: ks) (· = decide (ks.headD .eof = k')) := by
  refine ⟨_, c, rfl, hc, ?_⟩
  obtain ⟨rest, previous⟩ := c
  match rest, hc with
  | [t], hc =>
    obtain ⟨rfl, rfl⟩ : t.kind = k ∧ [] = ks := List.cons.inj hc
    simp [Cursor.peek, hk, hk'.symm]
  | t :: t' :: ts, hc =>
    obtain ⟨rfl, rfl⟩ : t.kind = k ∧ t'.kind :: ts.map (·.kind) = ks := List.cons.inj hc
    rfl

lemma close_reads {opened : Span} {closer : Token.Symbol} (hc : c.kinds = .symbol closer :: ks) :
    Reads (close opened closer) c ks fun _ => True := by
  have hend : c.atEnd = false := by
    have hkind := (Cursor.kinds_next hc (by simp)).1
    simp [Cursor.atEnd, hkind]
  refine Reads.bind (Q := (· = false)) ⟨_, c, rfl, hc, hend⟩ fun ended c₁ hc₁ hended => ?_
  subst hended
  exact sign_reads hc₁

namespace Level

/-- A token that cannot go on an expression of a level. -/
def Ends : Level → Kind → Prop
  | .unary, t => t ≠ .symbol .leftParen ∧ t ≠ .symbol .bang
  | .product, t => multiplicative? t = none ∧ t ≠ .symbol .leftParen ∧ t ≠ .symbol .bang
  | .sum, t => additive? t = none ∧ multiplicative? t = none ∧ t ≠ .symbol .leftParen ∧
    t ≠ .symbol .bang
  | .comparison, t => comparison? t = none ∧ additive? t = none ∧ multiplicative? t = none ∧
    t ≠ .symbol .leftParen ∧ t ≠ .symbol .bang

variable {l l' : Level} {t : Kind}

lemma op?_of_ends (h : l.Ends t) : l.op? t = none := by
  cases l with
  | unary => rfl
  | _ => exact h.1

lemma Ends.operand (hl : l.operand? = some l') (h : l.Ends t) : l'.Ends t := by
  cases l with
  | unary => cases hl
  | _ =>
    cases hl
    exact h.2

/-- The operators of a level end its operands. -/
lemma ends_of_op? (hl : l.operand? = some l') {op : BinaryOp} (hop : l.op? t = some op) :
    l'.Ends t := by
  cases l with
  | unary => cases hl
  | _ =>
    cases hl
    match t with
    | .symbol sgn => cases sgn <;> first | simp [Ends, additive?, multiplicative?]; done | cases hop
    | .int _ | .str _ | .attr _ | .ident _ | .keyword _ | .invalid | .eof => cases hop

/-- The parser of a level, for expressions with so many tokens at most. -/
def parser : Level → Nat → Parse Expr
  | .comparison, d => exprAt d
  | .sum, d => level additive? d <| level multiplicative? d <| operand (exprAt (d - 1)) d
  | .product, d => level multiplicative? d <| operand (exprAt (d - 1)) d
  | .unary, d => operand (exprAt (d - 1)) d

lemma parser_operand (hl : l.operand? = some l') (d : Nat) :
    l.parser (d + 1) = level l.op? (d + 1) (l'.parser (d + 1)) := by
  cases l with
  | unary => cases hl
  | _ =>
    cases hl
    rfl

end Level

/-- How a phrase is read with a bound on its tokens. The other phrases take more than a bound. -/
def Phrase.parser : (p : Phrase) → Nat → Parse p.Tree
  | .ident, _ => Parse.ident
  | .attributes, _ => Grammar.attributes
  | .field, _ => Grammar.field
  | .case, d => caseSpec d
  | .item, d => Grammar.item d
  | .expr l, d => l.parser d
  | .primary, d => Grammar.primary (exprAt (d - 1)) d
  | .conditional, d => Grammar.conditional (exprAt (d - 1)) d d
  | .block, d => Grammar.block (exprAt (d - 1)) d
  | .stmt, d => Grammar.stmt (exprAt d)
  | .param, _ => Grammar.param
  | .pattern, d => Grammar.pattern d
  | .clause, d => Grammar.clause (exprAt d) (d + 1)
  | .module, _ | .listOf .., _ => pure []
  | .operations _ e, _ | .calls e, _ => pure e

/-- A token that may stand behind a phrase. -/
def Phrase.Follows : Phrase → Kind → Prop
  | .attributes, t => ∀ text, t ≠ .attr text
  | .case, t => t ≠ .symbol .leftParen
  | .item, t | .stmt, t | .clause, t => Level.comparison.Ends t
  | .expr l, t => l.Ends t
  | .primary, t => t ≠ .symbol .bang
  | _, _ => True

/-- The parser of a phrase reads these tokens as this tree. -/
def ReadBy (p : Phrase) (ts : List Kind) (a : p.Tree) : Prop :=
  ∀ (d : Nat) (c : Cursor) (ls : List Kind), ts.length ≤ d → c.kinds = ts ++ ls →
    p.Follows (ls.headD .eof) → Reads (p.parser d) c ls (p.erase · = a)

/-- Phrases that stand in lists. -/
def Phrase.isListed : Phrase → Bool
  | .ident | .field | .case | .expr .comparison | .stmt | .param | .clause => true
  | _ => false

def separates (s : Token.Symbol) : Bool := s = .comma || s = .semicolon

def closes (s : Token.Symbol) : Bool := s = .rightParen || s = .rightBrace

/-- An item of a list ends at a separator and where the list is closed. -/
lemma Phrase.follows_of_isListed {p : Phrase} (hp : p.isListed = true) {s : Token.Symbol}
    (hs : separates s = true ∨ closes s = true) : p.Follows (.symbol s) := by
  have hends : Level.comparison.Ends (.symbol s) := by
    simp only [separates, closes, Bool.or_eq_true, decide_eq_true_eq] at hs
    rcases hs with (rfl | rfl) | (rfl | rfl) <;>
      simp [Level.Ends, comparison?, additive?, multiplicative?]
  cases p with
  | expr l =>
    cases l with
    | comparison => exact hends
    | _ => cases hp
  | stmt | clause => exact hends
  | case =>
    rintro ⟨⟩
    simp [separates, closes] at hs
  | attributes | item | primary => cases hp
  | _ => trivial

/-- What reading comes to, for every phrase: where a tree is begun, given bounds that suffice. -/
def Read : (p : Phrase) → List Kind → p.Tree → Prop
  | .expr .unary, ts, e => ∀ (d rounds : Nat) (c : Cursor) (ls : List Kind), ts.length ≤ d →
    ts.length ≤ rounds → c.kinds = ts ++ ls → Level.unary.Ends (ls.headD .eof) →
      Reads (signed (do calls (exprAt (d - 1)) d d (← primary (exprAt (d - 1)) d)) rounds) c ls
        (·.erase = e)
  | .operations l a, ts, e => ∀ (l' : Level) (d rounds : Nat) (a' : Expr) (c : Cursor)
    (ls : List Kind), l.operand? = some l' → ts.length ≤ d → ts.length ≤ rounds → a'.erase = a →
      c.kinds = ts ++ ls → l.Ends (ls.headD .eof) →
        Reads (chain l.op? binary (l'.parser d) rounds a') c ls (·.erase = e)
  | .calls f, ts, e => ∀ (d rounds : Nat) (f' : Expr) (c : Cursor) (ls : List Kind),
    ts.length ≤ d → ts.length ≤ rounds → f'.erase = f → c.kinds = ts ++ ls →
      Level.unary.Ends (ls.headD .eof) →
        Reads (calls (exprAt (d - 1)) d rounds f') c ls (·.erase = e)
  | .conditional, ts, e => ∀ (d rounds : Nat) (c : Cursor) (ls : List Kind), ts.length ≤ d →
    ts.length ≤ rounds → c.kinds = ts ++ ls →
      Reads (conditional (exprAt (d - 1)) d rounds) c ls (·.erase = e)
  | .module, ts, is => ∀ (rounds : Nat) (c : Cursor), ts.length ≤ rounds → c.kinds = ts ++ [.eof] →
    ∃ is', items rounds c = (is', []) ∧ is'.map Item.erase = is
  | .listOf separator p, ts, as => ∀ (closer : Token.Symbol) (d rounds : Nat) (c : Cursor)
    (ls : List Kind), p.isListed = true → separates separator = true → closes closer = true →
      ts.length ≤ d → ts.length ≤ rounds → c.kinds = ts ++ .symbol closer :: ls →
        Reads (separated separator closer (p.parser d) rounds) c (.symbol closer :: ls)
          (List.map p.erase · = as)
  | p, ts, a => ReadBy p ts a

lemma Read.of_isListed {p : Phrase} (hp : p.isListed = true) {ts : List Kind} {a : p.Tree}
    (h : Read p ts a) : ReadBy p ts a := by
  cases p with
  | expr l =>
    cases l with
    | comparison => exact h
    | _ => cases hp
  | attributes | item | module | operations | calls | primary | conditional | block | pattern
  | listOf => cases hp
  | _ => exact h

lemma Read.of_expr {l : Level} {ts : List Kind} {e : Expr} (h : Read (.expr l) ts e) :
    ReadBy (.expr l) ts e := by
  cases l with
  | unary => exact fun d c ls hlen => h d d c ls hlen hlen
  | _ => exact h

section Lists

variable {p : Phrase} {separator : Token.Symbol} {ts us : List Kind} {a : p.Tree} {as : List p.Tree}

lemma listNil_read : Read (.listOf separator p) [] ([] : List p.Tree) := by
  intro closer d rounds c ls _ _ _ _ _ hc
  cases rounds with
  | zero => exact .pure hc rfl
  | succ rounds =>
    have hstop : (c.check (.symbol closer) || c.atEnd) = true := by
      rw [Cursor.check, Cursor.kind_eq, hc]
      simp
    refine Reads.bind (Q := (· = true)) ⟨_, c, rfl, hc, hstop⟩ fun stop c₁ hc₁ hstop => ?_
    subst hstop
    exact .pure hc₁ rfl

/-- No item begins with the sign that closes its list. -/
lemma stop_reads {closer : Token.Symbol} (hcloser : closes closer = true) {t : Kind}
    (ht : opens t) (hc : c.kinds = t :: ks) :
    Reads (see fun c => c.check (.symbol closer) || c.atEnd) c (t :: ks) (· = false) := by
  refine ⟨_, c, rfl, hc, ?_⟩
  have hne : t ≠ .symbol closer := by
    rintro rfl
    obtain ⟨-, hparen, hbrace⟩ := ht
    simp only [closes, Bool.or_eq_true, decide_eq_true_eq] at hcloser
    rcases hcloser with rfl | rfl
    · exact hparen rfl
    · exact hbrace rfl
  change (c.check (.symbol closer) || c.atEnd) = false
  rw [Cursor.check, Cursor.atEnd, Cursor.kind_eq, hc]
  simp [hne, ht.1]

lemma Phrase.isSolid_of_isListed (hp : p.isListed = true) : p.isSolid = true := by
  cases p with
  | attributes | module | operations | calls | listOf => cases hp
  | _ => rfl

lemma listOne_read (hd : Derives p ts a) (h : Read p ts a) :
    Read (.listOf separator p) ts ([a] : List p.Tree) := by
  intro closer d rounds c ls hp hsep hcloser hlen hrounds hc
  obtain ⟨t, us, rfl, ht⟩ := hd.head (Phrase.isSolid_of_isListed hp)
  obtain ⟨rounds, rfl⟩ : ∃ n, rounds = n + 1 := ⟨rounds - 1, by simp at hrounds; omega⟩
  refine (stop_reads hcloser ht hc).bind fun stop c₁ hc₁ hstop => ?_
  subst hstop
  have hfollows := Phrase.follows_of_isListed hp (.inr hcloser)
  refine (h.of_isListed hp d c₁ _ hlen hc₁ hfollows).bind fun b c₂ hc₂ hb => ?_
  have hne : Kind.symbol closer ≠ .symbol separator := by
    rintro ⟨⟩
    simp only [separates, closes, Bool.or_eq_true, decide_eq_true_eq] at hsep hcloser
    rcases hsep with rfl | rfl <;> simp at hcloser
  refine (eat_leaves hc₂ hne).bind fun ate c₃ hc₃ hate => ?_
  subst hate
  exact .pure hc₃ (by simp [hb])

lemma listCons_read (hd : Derives p ts a) (h : Read p ts a)
    (ih : Read (.listOf separator p) us as) :
    Read (.listOf separator p) (ts ++ .symbol separator :: us) ((a :: as : List p.Tree)) := by
  intro closer d rounds c ls hp hsep hcloser hlen hrounds hc
  obtain ⟨t, vs, rfl, ht⟩ := hd.head (Phrase.isSolid_of_isListed hp)
  obtain ⟨rounds, rfl⟩ : ∃ n, rounds = n + 1 := ⟨rounds - 1, by simp at hrounds; omega⟩
  simp only [List.length_append, List.length_cons] at hlen hrounds
  refine (stop_reads hcloser ht (by simpa using hc)).bind fun stop c₁ hc₁ hstop => ?_
  subst hstop
  have hread := h.of_isListed hp d c₁ (.symbol separator :: us ++ .symbol closer :: ls)
    (by simp only [List.length_cons]; omega) (by simpa using hc₁)
    (Phrase.follows_of_isListed hp (.inl hsep))
  refine hread.bind fun b c₂ hc₂ hb => ?_
  refine (eat_reads hc₂ (by simp)).bind fun ate c₃ hc₃ hate => ?_
  subst hate
  refine (ih closer d rounds c₃ ls hp hsep hcloser (by omega) (by omega) hc₃).bind
    fun bs c₄ hc₄ hbs => ?_
  exact .pure hc₄ (by simp [hb, hbs])

/-- A list with the sign that closes it. -/
lemma closedList_reads (h : Read (.listOf separator p) ts as) (hp : p.isListed = true)
    (hsep : separates separator = true) {closer : Token.Symbol} (hcloser : closes closer = true)
    (opened : Span) {d bound : Nat} (hlen : ts.length ≤ d) (hbound : ts.length ≤ bound)
    (hc : c.kinds = ts ++ .symbol closer :: ls) :
    Reads (closedList separator closer opened (p.parser d) bound) c ls
      (fun r => r.1.map p.erase = as) := by
  refine (h closer d bound c ls hp hsep hcloser hlen hbound hc).bind fun bs c₁ hc₁ hbs => ?_
  exact (close_reads hc₁).bind fun s c₂ hc₂ _ => .pure hc₂ hbs

end Lists

end ClosedSum.Grammar
