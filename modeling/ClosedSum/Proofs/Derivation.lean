import ClosedSum.Grammar.Module
import Mathlib.Tactic.Common

/-!
# Derivations

The grammar of the language, as the token lists that derive from each phrase and the tree of each
derivation. The trees carry no spans; a tree from a parse is compared with them once its own spans
are erased.
-/

namespace ClosedSum

def Ident.erase (i : Ident) : Ident := ⟨i.name, .none⟩

def Attribute.erase (a : Attribute) : Attribute := ⟨a.text, .none⟩

namespace Variant

def FieldSpec.erase (f : FieldSpec) : FieldSpec := ⟨f.name.erase, f.options.map (·.erase)⟩

def CaseSpec.erase (c : CaseSpec) : CaseSpec :=
  ⟨c.label.erase, c.options.map (·.erase), c.fields.map (·.erase), .none⟩

def Spec.erase (s : Spec) : Spec :=
  ⟨s.name.erase, s.options.map (·.erase), s.cases.map (·.erase), .none⟩

end Variant

namespace Match

def Param.erase : Param → Param
  | .named ident => .named ident.erase
  | .wildcard _ => .wildcard .none

def Pattern.erase : Pattern → Pattern
  | .case label (.list params) => .case label.erase (.list (params.map (·.erase)))
  | .case label (.rest param) => .case label.erase (.rest param.erase)
  | .default => .default

end Match

namespace Surface

mutual

/-- A tree without its spans. -/
def Expr.erase : Expr → Expr
  | .unit _ => .unit .none
  | .bool _ value => .bool .none value
  | .int _ value => .int .none value
  | .str _ text => .str .none text
  | .ident _ name => .ident .none name
  | .call _ callee args => .call .none callee.erase (eraseExprs args)
  | .binary _ op lhs rhs => .binary .none op lhs.erase rhs.erase
  | .ifElse _ test yes no => .ifElse .none test.erase yes.erase no.erase
  | .block _ stmts => .block .none (eraseStmts stmts)
  | .matchUse _ operator scrutinee clauses _ =>
    .matchUse .none operator.erase scrutinee.erase (eraseClauses clauses) .none
  | .error _ => .error .none

def eraseExprs : List Expr → List Expr
  | [] => []
  | e :: es => e.erase :: eraseExprs es

def Stmt.erase : Stmt → Stmt
  | .bind name value => .bind name.erase value.erase
  | .expr value => .expr value.erase

def eraseStmts : List Stmt → List Stmt
  | [] => []
  | s :: ss => s.erase :: eraseStmts ss

def Clause.erase : Clause → Clause
  | .mk pattern body _ => .mk pattern.erase (eraseStmts body) .none

def eraseClauses : List Clause → List Clause
  | [] => []
  | c :: cs => c.erase :: eraseClauses cs

end

@[simp] lemma eraseExprs_eq_map (es : List Expr) : eraseExprs es = es.map Expr.erase := by
  induction es with
  | nil => rw [eraseExprs, List.map_nil]
  | cons e es ih => rw [eraseExprs, List.map_cons, ih]

@[simp] lemma eraseStmts_eq_map (ss : List Stmt) : eraseStmts ss = ss.map Stmt.erase := by
  induction ss with
  | nil => rw [eraseStmts, List.map_nil]
  | cons s ss ih => rw [eraseStmts, List.map_cons, ih]

@[simp] lemma eraseClauses_eq_map (cs : List Clause) : eraseClauses cs = cs.map Clause.erase := by
  induction cs with
  | nil => rw [eraseClauses, List.map_nil]
  | cons c cs ih => rw [eraseClauses, List.map_cons, ih]

/-- Parentheses change no more than the span of what they are around. -/
@[simp] lemma Expr.erase_withSpan (s : Span) (e : Expr) : (e.withSpan s).erase = e.erase := by
  cases e <;> simp [withSpan, erase]

def Function.erase (f : Function) : Function :=
  ⟨f.name.erase, f.params.map (·.erase), f.body.erase, .none⟩

def Item.erase : Item → Item
  | .variant spec => .variant spec.erase
  | .function definition => .function definition.erase

def Module.erase (m : Module) : Module := ⟨m.items.map (·.erase)⟩

end Surface

namespace Grammar

open Surface
open Token (Kind)

/-- The levels of expressions, from the loosest. -/
inductive Level where
  | comparison | sum | product | unary
  deriving DecidableEq

namespace Level

/-- The level of the operands. -/
def operand? : Level → Option Level
  | .comparison => some .sum
  | .sum => some .product
  | .product => some .unary
  | .unary => none

def op? : Level → Kind → Option BinaryOp
  | .comparison => comparison?
  | .sum => additive?
  | .product => multiplicative?
  | .unary => fun _ => none

end Level

/-- What token lists derive from. -/
inductive Phrase where
  | ident | attributes | field | case | item | module
  | expr (level : Level)
  /-- Operators with their operands, behind what is read of the expression already. -/
  | operations (level : Level) (first : Expr)
  /-- Argument lists behind a callee. -/
  | calls (callee : Expr)
  | primary | conditional | block | stmt | param | pattern | clause
  /-- Items with separators between them; one may follow the last item. -/
  | listOf (separator : Token.Symbol) (item : Phrase)

/-- The trees of a phrase. -/
def Phrase.Tree : Phrase → Type
  | .ident => Ident
  | .attributes => List Attribute
  | .field => Variant.FieldSpec
  | .case => Variant.CaseSpec
  | .item => Item
  | .module => List Item
  | .expr _ | .operations .. | .calls _ | .primary | .conditional | .block => Expr
  | .stmt => Stmt
  | .param => Match.Param
  | .pattern => Match.Pattern
  | .clause => Clause
  | .listOf _ p => List p.Tree

def Phrase.erase : (p : Phrase) → p.Tree → p.Tree
  | .ident => Ident.erase
  | .attributes => List.map Attribute.erase
  | .field => Variant.FieldSpec.erase
  | .case => Variant.CaseSpec.erase
  | .item => Item.erase
  | .module => List.map Item.erase
  | .expr _ | .operations .. | .calls _ | .primary | .conditional | .block => Expr.erase
  | .stmt => Stmt.erase
  | .param => Match.Param.erase
  | .pattern => Match.Pattern.erase
  | .clause => Clause.erase
  | .listOf _ p => List.map p.erase

/-- The token lists that derive from a phrase, each with the tree of the derivation. -/
inductive Derives : (p : Phrase) → List Kind → p.Tree → Prop
  | ident (name : String) : Derives .ident [.ident name] (⟨name, .none⟩ : Ident)
  | attributesNil : Derives .attributes [] ([] : List Attribute)
  | attributesCons (text : String) {ts : List Kind} {as : List Attribute}
    (h : Derives .attributes ts as) :
    Derives .attributes (.attr text :: ts) ((⟨text, .none⟩ :: as : List Attribute))
  | field {ts us : List Kind} {as : List Attribute} {i : Ident} (ha : Derives .attributes ts as)
    (hi : Derives .ident us i) : Derives .field (ts ++ us) (⟨i, as⟩ : Variant.FieldSpec)
  | caseBare {ts us : List Kind} {as : List Attribute} {i : Ident} (ha : Derives .attributes ts as)
    (hi : Derives .ident us i) : Derives .case (ts ++ us) (⟨i, as, [], .none⟩ : Variant.CaseSpec)
  | caseFields {ts us vs : List Kind} {as : List Attribute} {i : Ident}
    {fs : List Variant.FieldSpec} (ha : Derives .attributes ts as) (hi : Derives .ident us i)
    (hf : Derives (.listOf .comma .field) vs fs) :
    Derives .case (ts ++ us ++ .symbol .leftParen :: vs ++ [.symbol .rightParen])
      (⟨i, as, fs, .none⟩ : Variant.CaseSpec)
  | variant {ts us vs : List Kind} {as : List Attribute} {i : Ident} {cs : List Variant.CaseSpec}
    (ha : Derives .attributes ts as) (hi : Derives .ident us i)
    (hc : Derives (.listOf .comma .case) vs cs) :
    Derives .item
      (ts ++ .keyword .variant :: us ++ .symbol .leftBrace :: vs ++ [.symbol .rightBrace])
      (.variant ⟨i, as, cs, .none⟩ : Item)
  | function {ts us vs : List Kind} {i : Ident} {ps : List Ident} {e : Expr}
    (hi : Derives .ident ts i) (hp : Derives (.listOf .comma .ident) us ps)
    (he : Derives (.expr .comparison) vs e) :
    Derives .item (.keyword .fn :: ts ++ .symbol .leftParen :: us ++ .symbol .rightParen ::
      .symbol .assign :: vs) (.function ⟨i, ps, e, .none⟩ : Item)
  | moduleNil : Derives .module [] ([] : List Item)
  | moduleCons {ts us : List Kind} {i : Item} {is : List Item} (hi : Derives .item ts i)
    (h : Derives .module us is) : Derives .module (ts ++ us) ((i :: is : List Item))
  | level {l l' : Level} {ts us : List Kind} {a e : Expr} (hl : l.operand? = some l')
    (ha : Derives (.expr l') ts a) (h : Derives (.operations l a) us e) :
    Derives (.expr l) (ts ++ us) e
  | operationsNil (l : Level) (a : Expr) : Derives (.operations l a) [] a
  | operationsCons {l l' : Level} {t : Kind} {op : BinaryOp} {ts us : List Kind} {a b e : Expr}
    (hl : l.operand? = some l') (hop : l.op? t = some op) (hb : Derives (.expr l') ts b)
    (h : Derives (.operations l (.binary .none op a b)) us e) :
    Derives (.operations l a) (t :: ts ++ us) e
  | negation {ts : List Kind} {e : Expr} (h : Derives (.expr .unary) ts e) :
    Derives (.expr .unary) (.symbol .minus :: ts) (Expr.binary .none .sub (.int .none 0) e)
  | applied {ts us : List Kind} {f e : Expr} (hf : Derives .primary ts f)
    (h : Derives (.calls f) us e) : Derives (.expr .unary) (ts ++ us) e
  | callsNil (f : Expr) : Derives (.calls f) [] f
  | callsCons {ts us : List Kind} {f e : Expr} {args : List Expr}
    (ha : Derives (.listOf .comma (.expr .comparison)) ts args)
    (h : Derives (.calls (.call .none f args)) us e) :
    Derives (.calls f) (.symbol .leftParen :: ts ++ .symbol .rightParen :: us) e
  | int (n : Int) : Derives .primary [.int n] (Expr.int .none n)
  | str (text : String) : Derives .primary [.str text] (Expr.str .none text)
  | boolTrue : Derives .primary [.keyword .true] (Expr.bool .none true)
  | boolFalse : Derives .primary [.keyword .false] (Expr.bool .none false)
  | parensNone : Derives .primary [.symbol .leftParen, .symbol .rightParen] (Expr.unit .none)
  | parens {ts : List Kind} {e : Expr} (h : Derives (.expr .comparison) ts e) :
    Derives .primary (.symbol .leftParen :: ts ++ [.symbol .rightParen]) e
  | primaryBlock {ts : List Kind} {e : Expr} (h : Derives .block ts e) : Derives .primary ts e
  | primaryIf {ts : List Kind} {e : Expr} (h : Derives .conditional ts e) : Derives .primary ts e
  | matchUse (name : String) {ts us : List Kind} {s : Expr} {cs : List Clause}
    (hs : Derives (.expr .comparison) ts s) (hc : Derives (.listOf .comma .clause) us cs) :
    Derives .primary (.ident name :: .symbol .bang :: .symbol .leftParen :: ts ++
      .symbol .rightParen :: .symbol .leftBrace :: us ++ [.symbol .rightBrace])
      (Expr.matchUse .none ⟨name, .none⟩ s cs .none)
  | name (name : String) : Derives .primary [.ident name] (Expr.ident .none name)
  | ifBlock {ts us vs : List Kind} {test yes no : Expr} (ht : Derives (.expr .comparison) ts test)
    (hy : Derives .block us yes) (hn : Derives .block vs no) :
    Derives .conditional (.keyword .if :: ts ++ us ++ .keyword .else :: vs)
      (Expr.ifElse .none test yes no)
  | ifIf {ts us vs : List Kind} {test yes no : Expr} (ht : Derives (.expr .comparison) ts test)
    (hy : Derives .block us yes) (hn : Derives .conditional vs no) :
    Derives .conditional (.keyword .if :: ts ++ us ++ .keyword .else :: vs)
      (Expr.ifElse .none test yes no)
  | block {ts : List Kind} {ss : List Stmt} (h : Derives (.listOf .semicolon .stmt) ts ss) :
    Derives .block (.symbol .leftBrace :: ts ++ [.symbol .rightBrace]) (Expr.block .none ss)
  | bind {ts us : List Kind} {i : Ident} {e : Expr} (hi : Derives .ident ts i)
    (he : Derives (.expr .comparison) us e) :
    Derives .stmt (.keyword .let :: ts ++ .symbol .assign :: us) (Stmt.bind i e)
  | stmt {ts : List Kind} {e : Expr} (h : Derives (.expr .comparison) ts e) :
    Derives .stmt ts (Stmt.expr e)
  | paramIdent {ts : List Kind} {i : Ident} (h : Derives .ident ts i) :
    Derives .param ts (.named i : Match.Param)
  | paramWildcard : Derives .param [.symbol .underscore] (.wildcard .none : Match.Param)
  | patternDefault : Derives .pattern [.symbol .underscore] (.default : Match.Pattern)
  | patternList {ts us : List Kind} {i : Ident} {ps : List Match.Param} (hi : Derives .ident ts i)
    (hp : Derives (.listOf .comma .param) us ps) :
    Derives .pattern (ts ++ .symbol .leftParen :: us ++ [.symbol .rightParen])
      (.case i (.list ps) : Match.Pattern)
  | patternRest {ts us : List Kind} {i : Ident} {p : Match.Param} (hi : Derives .ident ts i)
    (hp : Derives .param us p) : Derives .pattern (ts ++ us) (.case i (.rest p) : Match.Pattern)
  | clause {ts us : List Kind} {p : Match.Pattern} {e : Expr} (hp : Derives .pattern ts p)
    (he : Derives (.expr .comparison) us e) :
    Derives .clause (ts ++ .symbol .arrow :: us) (Clause.mk p (clauseBody e) .none)
  | listNil (separator : Token.Symbol) (p : Phrase) :
    Derives (.listOf separator p) [] ([] : List p.Tree)
  | listOne (separator : Token.Symbol) {p : Phrase} {ts : List Kind} {a : p.Tree}
    (h : Derives p ts a) : Derives (.listOf separator p) ts ([a] : List p.Tree)
  | listCons {separator : Token.Symbol} {p : Phrase} {ts us : List Kind} {a : p.Tree}
    {as : List p.Tree} (ha : Derives p ts a) (h : Derives (.listOf separator p) us as) :
    Derives (.listOf separator p) (ts ++ .symbol separator :: us) ((a :: as : List p.Tree))

/-- Whether every derivation of a phrase has a token. -/
def Phrase.isSolid : Phrase → Bool
  | .attributes | .module | .operations .. | .calls _ | .listOf .. => false
  | _ => true

/-- Tokens that may begin something; they end no list. -/
def opens (t : Kind) : Prop := t ≠ .eof ∧ t ≠ .symbol .rightParen ∧ t ≠ .symbol .rightBrace

lemma Level.op?_eof (l : Level) : l.op? .eof = none := by
  cases l <;> rfl

lemma Derives.attributes_append {ts us : List Kind} {as : List Attribute}
    (h : Derives .attributes ts as) (hus : ∃ t vs, us = t :: vs ∧ opens t) :
    ∃ t vs, ts ++ us = t :: vs ∧ opens t := by
  cases h with
  | attributesNil => exact hus
  | attributesCons text h => exact ⟨_, _, rfl, by simp [opens]⟩

/-- What derives from a solid phrase begins with a token that may begin something. -/
lemma Derives.head {p : Phrase} {ts : List Kind} {a : p.Tree} (h : Derives p ts a)
    (hp : p.isSolid = true) : ∃ t us, ts = t :: us ∧ opens t := by
  induction h with
  | attributesNil | attributesCons | moduleNil | moduleCons | operationsNil | operationsCons
  | callsNil | callsCons | listNil | listOne | listCons => cases hp
  | field ha hi _ ihi => exact ha.attributes_append (ihi rfl)
  | caseBare ha hi _ ihi => exact ha.attributes_append (ihi rfl)
  | caseFields ha hi hf _ ihi =>
    obtain ⟨t, vs, heq, ht⟩ := ha.attributes_append (ihi rfl)
    exact ⟨t, _, by rw [heq]; rfl, ht⟩
  | variant ha hi hc =>
    cases ha with
    | attributesNil => exact ⟨_, _, rfl, by simp [opens]⟩
    | attributesCons text ha => exact ⟨_, _, rfl, by simp [opens]⟩
  | level hl ha h iha =>
    obtain ⟨t, vs, rfl, ht⟩ := iha rfl
    exact ⟨t, _, rfl, ht⟩
  | applied hf h ihf =>
    obtain ⟨t, vs, rfl, ht⟩ := ihf rfl
    exact ⟨t, _, rfl, ht⟩
  | primaryBlock h ih => exact ih rfl
  | primaryIf h ih => exact ih rfl
  | stmt h ih => exact ih rfl
  | paramIdent h ih => exact ih rfl
  | patternList hi hp ihi =>
    obtain ⟨t, vs, rfl, ht⟩ := ihi rfl
    exact ⟨t, _, rfl, ht⟩
  | patternRest hi hp ihi =>
    obtain ⟨t, vs, rfl, ht⟩ := ihi rfl
    exact ⟨t, _, rfl, ht⟩
  | clause hp he ihp =>
    obtain ⟨t, vs, rfl, ht⟩ := ihp rfl
    exact ⟨t, _, rfl, ht⟩
  | _ => exact ⟨_, _, rfl, by simp [opens]⟩

/-- The end of the file derives from nothing. -/
lemma Derives.eof_not_mem {p : Phrase} {ts : List Kind} {a : p.Tree} (h : Derives p ts a) :
    Kind.eof ∉ ts := by
  induction h with
  | @operationsCons l l' t op _ _ _ _ _ hl hop hb h ihb ih =>
    have ht : Kind.eof ≠ t := by
      rintro rfl
      rw [l.op?_eof] at hop
      cases hop
    simp [ht, ihb, ih]
  | _ => simp [*]

end Grammar

end ClosedSum
