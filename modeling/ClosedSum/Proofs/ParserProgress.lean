import ClosedSum.Proofs.WholeTrees
import ClosedSum.Proofs.WrittenNames

/-!
# Parsers only go forward

Whether it succeeds or not, a parser leaves the tokens from some place on. So the items of a parse
are all read from tokens of the text, also behind faults: they are whole, and their names are names
of tokens.
-/

namespace ClosedSum.Grammar

open Surface

/-- A parser leaves the last of the tokens that it finds, whatever it comes to. -/
def Parse.Advances {α : Type} (p : Parse α) : Prop := ∀ c, (p c).2.rest <:+ c.rest

lemma Cursor.rest_advance (c : Cursor) : c.advance.2.rest <:+ c.rest := by
  unfold advance
  split
  · exact List.suffix_rfl
  · exact List.tail_suffix c.rest

lemma Cursor.rest_expect (c : Cursor) (k : Token.Kind) : (c.expect k).2.rest <:+ c.rest := by
  unfold expect
  split
  · exact c.rest_advance
  · exact List.suffix_rfl

lemma Cursor.rest_dropUntil (stop : Token.Kind → Bool) (previous : Span) (ts : List Token) :
    (dropUntil stop previous ts).rest <:+ ts := by
  induction ts generalizing previous with
  | nil => exact List.suffix_rfl
  | cons t ts ih =>
    rw [dropUntil]
    split
    · exact List.suffix_rfl
    · exact (ih t.span).trans (List.suffix_cons t ts)

/-- Skipping takes one token in any case and then stops somewhere in the rest. -/
lemma Cursor.rest_skipUntil (c : Cursor) (stop : Token.Kind → Bool) :
    (c.skipUntil stop).rest <:+ c.rest :=
  (rest_dropUntil stop _ _).trans c.rest_advance

namespace Parse.Advances

variable {α β : Type} {p : Parse α}

lemma pure (a : α) : Advances (Pure.pure a) := fun _ => List.suffix_rfl

lemma see (f : Cursor → α) : Advances (see f) := fun _ => List.suffix_rfl

lemma failHere (cause : Token.Kind → Cause) : Advances (failHere cause : Parse α) :=
  fun _ => List.suffix_rfl

/-- The second parser goes on where the first left off. If the first fails, nothing more is read. -/
lemma bind (hp : p.Advances) {f : α → Parse β} (hf : ∀ a, (f a).Advances) :
    (p >>= f).Advances := by
  intro c
  have hfirst := hp c
  change (Parse.bind p f c).2.rest <:+ c.rest
  unfold Parse.bind
  generalize p c = r at hfirst
  obtain ⟨_ | a, c'⟩ := r
  · exact hfirst
  · exact (hf a c').trans hfirst

lemma within (hp : p.Advances) (context : Context) : (within context p).Advances := by
  intro c
  have hread := hp c
  unfold Parse.within
  generalize p c = r at hread
  obtain ⟨_ | a, c'⟩ := r <;> exact hread

lemma next : Advances next := fun c => c.rest_advance

lemma eat (k : Token.Kind) : Advances (eat k) := by
  intro c
  unfold Parse.eat Cursor.eat
  split
  · exact c.rest_advance
  · exact List.suffix_rfl

lemma expect (k : Token.Kind) : Advances (expect k) := fun c => c.rest_expect k

lemma ident : Advances ident := by
  intro c
  unfold Parse.ident Cursor.expectIdent
  split
  · exact c.rest_advance
  · exact List.suffix_rfl

lemma close (opened : Span) (closer : Token.Symbol) : Advances (close opened closer) := by
  refine .bind (.see _) fun ended => ?_
  split
  · exact .failHere _
  · exact .expect _

variable {item : Parse α}

/-- A list whose rounds run out ends there. -/
lemma separated (hitem : item.Advances) (separator closer : Token.Symbol) :
    (rounds : Nat) → (separated separator closer item rounds).Advances
  | 0 => .pure _
  | rounds + 1 => by
    refine .bind (.see _) fun stop => ?_
    split
    · exact .pure _
    · refine .bind hitem fun a => .bind (.eat _) fun ate => ?_
      split
      · exact .bind (hitem.separated separator closer rounds) fun as => .pure _
      · exact .pure _

lemma closedList (hitem : item.Advances) (separator closer : Token.Symbol) (opened : Span)
    (bound : Nat) : (closedList separator closer opened item bound).Advances :=
  .bind (hitem.separated separator closer bound) fun _ => .bind (.close opened closer) fun _ =>
    .pure _

lemma chain {op? : Token.Kind → Option β} {combine : β → α → α → α} (hitem : item.Advances) :
    (rounds : Nat) → (a : α) → (chain op? combine item rounds a).Advances
  | 0, _ => .pure _
  | rounds + 1, _ => by
    refine .bind (.see _) fun t => ?_
    split
    · exact .pure _
    · exact .bind .next fun _ => .bind hitem fun _ => hitem.chain rounds _

end Parse.Advances

open Parse (Advances)

section Expressions

variable {inner : Parse Expr}

lemma signed_advances (h : inner.Advances) : (rounds : Nat) → (signed inner rounds).Advances
  | 0 => h
  | rounds + 1 => by
    refine .bind (.see _) fun minus => ?_
    split
    · exact .bind (.expect _) fun _ => .bind (signed_advances h rounds) fun _ => .pure _
    · exact h

/-- Each argument list is read behind the one before. -/
lemma calls_advances (h : inner.Advances) (bound : Nat) :
    (rounds : Nat) → (callee : Expr) → (calls inner bound rounds callee).Advances
  | 0, _ => .pure _
  | rounds + 1, _ => by
    refine .bind (.see _) fun paren => ?_
    split
    · refine .bind (.expect _) fun opened => ?_
      exact .bind ((h.closedList .comma .rightParen opened bound).within .call) fun _ =>
        calls_advances h bound rounds _
    · exact .pure _

lemma stmt_advances (h : inner.Advances) : (stmt inner).Advances := by
  refine .bind (.eat _) fun ate => ?_
  split
  · exact .bind .ident fun _ => .bind (.expect _) fun _ => .bind h fun _ => .pure _
  · exact .bind h fun _ => .pure _

lemma block_advances (h : inner.Advances) (bound : Nat) : (block inner bound).Advances :=
  .within (.bind (.expect _) fun opened =>
    .bind ((stmt_advances h).closedList .semicolon .rightBrace opened bound) fun _ => .pure _) _

/-- A chain of conditionals that runs out of rounds fails where it is. -/
lemma conditional_advances (h : inner.Advances) (bound : Nat) :
    (rounds : Nat) → (conditional inner bound rounds).Advances
  | 0 => .failHere _
  | rounds + 1 => by
    refine .within (.bind (.expect _) fun start => .bind h fun test => ?_) _
    refine .bind (block_advances h bound) fun yes => .bind (.expect _) fun _ => ?_
    refine .bind (.see _) fun again => ?_
    split
    · exact .bind (conditional_advances h bound rounds) fun _ => .pure _
    · exact .bind (block_advances h bound) fun _ => .pure _

lemma param_advances : Advances param := by
  refine .bind (.see _) fun t => ?_
  split
  · exact .bind .next fun _ => .pure _
  · exact .bind .next fun _ => .pure _
  · exact .failHere _

lemma pattern_advances (bound : Nat) : (pattern bound).Advances := by
  refine .bind (.see _) fun t => ?_
  split
  · exact .bind .next fun _ => .pure _
  · refine .bind .next fun label => .bind (.see _) fun t => ?_
    split
    · exact .bind .next fun opened =>
        .bind (param_advances.closedList .comma .rightParen _ bound) fun _ => .pure _
    · exact .bind param_advances fun _ => .pure _
    · exact .bind param_advances fun _ => .pure _
    · exact .failHere _
  · exact .failHere _

lemma clause_advances (h : inner.Advances) (bound : Nat) : (clause inner bound).Advances :=
  .within (.bind (.see _) fun _ => .bind (pattern_advances bound) fun _ =>
    .bind (.expect _) fun _ => .bind h fun _ => .pure _) _

lemma matchUse_advances (h : inner.Advances) (bound : Nat) : (matchUse inner bound).Advances :=
  .within (.bind .ident fun _ => .bind (.expect _) fun _ => .bind (.expect _) fun _ =>
    .bind h fun _ => .bind (.close _ _) fun _ => .bind (.expect _) fun _ =>
      .bind ((clause_advances h bound).closedList _ _ _ _) fun _ => .pure _) _

lemma parenthesized_advances (h : inner.Advances) (opened : Span) :
    (parenthesized inner opened).Advances := by
  refine .bind (.see _) fun closed => ?_
  split
  · exact .bind (.expect _) fun _ => .pure _
  · exact .bind h fun _ => .bind (.close _ _) fun _ => .pure _

/-- What may begin an expression is told by its first token, and anything else fails there. -/
lemma primary_advances (h : inner.Advances) (bound : Nat) : (primary inner bound).Advances := by
  refine .bind (.see _) fun t => ?_
  split
  · exact .bind .next fun _ => .pure _
  · exact .bind .next fun _ => .pure _
  · exact .bind .next fun _ => .pure _
  · exact .bind .next fun _ => .pure _
  · exact .bind .next fun _ => parenthesized_advances h _
  · exact block_advances h bound
  · exact conditional_advances h bound bound
  · refine .bind (.see _) fun bang => ?_
    split
    · exact matchUse_advances h bound
    · exact .bind .next fun _ => .pure _
  · exact .within (.failHere _) _

/-- Expressions go forward at every depth, also at the one where they are refused. -/
lemma exprAt_advances : (depth : Nat) → (exprAt depth).Advances
  | 0 => .within (.failHere _) _
  | depth + 1 => by
    have hoperand : (operand (exprAt depth) (depth + 1)).Advances :=
      signed_advances (.bind (primary_advances (exprAt_advances depth) _) fun _ =>
        calls_advances (exprAt_advances depth) _ _ _) _
    have hlevel : ∀ {op? : Token.Kind → Option BinaryOp} {operand : Parse Expr},
        operand.Advances → (level op? (depth + 1) operand).Advances := fun h =>
      .bind h fun _ => h.chain _ _
    exact hlevel (hlevel (hlevel hoperand))

lemma expr_advances : Advances expr := fun c => exprAt_advances c.rest.length c

end Expressions

/-- Attributes are taken from the front of the tokens, as many as there are in a row. -/
lemma rest_takeAttributes (previous : Span) (ts : List Token) :
    (takeAttributes previous ts).2.rest <:+ ts := by
  induction ts generalizing previous with
  | nil => exact List.suffix_rfl
  | cons t ts ih =>
    obtain ⟨kind, span⟩ := t
    cases kind with
    | attr text => exact (ih span).trans (List.suffix_cons _ ts)
    | _ => exact List.suffix_rfl

lemma attributes_advances : Advances attributes := fun c => rest_takeAttributes c.previous c.rest

lemma field_advances : Advances field :=
  .bind attributes_advances fun _ => .bind (.within .ident _) fun _ => .pure _

lemma caseSpec_advances (bound : Nat) : (caseSpec bound).Advances := by
  refine .bind attributes_advances fun options => .bind (.within .ident _) fun label => ?_
  refine .bind (.see _) fun paren => ?_
  split
  · exact .bind (.expect _) fun _ => .bind (field_advances.closedList _ _ _ _) fun _ => .pure _
  · exact .bind (.pure _) fun _ => .pure _

lemma variantSpec_advances (options : List Attribute) (bound : Nat) :
    (variantSpec options bound).Advances :=
  .within (.bind (.see _) fun _ => .bind (.expect _) fun _ => .bind .ident fun _ =>
    .bind (.expect _) fun _ => .bind ((caseSpec_advances bound).closedList _ _ _ _) fun _ =>
      .pure _) _

/-- How deep the body may be nested depends on where it begins. -/
lemma function_advances (bound : Nat) : (function bound).Advances :=
  .within (.bind (.expect _) fun _ => .bind .ident fun _ => .bind (.expect _) fun _ =>
    .bind (Advances.ident.closedList _ _ _ _) fun _ => .bind (.expect _) fun _ =>
      .bind expr_advances fun _ => .pure _) _

/-- An item leaves the tokens from some place on also where it fails, and skipping begins there. -/
theorem item_advances (bound : Nat) : (item bound).Advances := by
  refine .bind attributes_advances fun options => .bind (.see _) fun t => ?_
  split
  · exact .bind (variantSpec_advances options bound) fun _ => .pure _
  · split
    · exact .bind (function_advances bound) fun _ => .pure _
    · exact .failHere _
  · exact .failHere _

/-- Each item is read from tokens of the list, in a row. -/
theorem items_derive {rounds : Nat} {c : Cursor} {i : Item} (h : i ∈ (items rounds c).1) :
    ∃ ts, ts <:+: c.kinds ∧ Derives .item ts i.erase := by
  induction rounds generalizing c with
  | zero => cases h
  | succ rounds ih =>
    rw [items] at h
    split at h
    · cases h
    · have hadvances := item_advances c.rest.length c
      cases hitem : item c.rest.length c with
      | mk result c' =>
        rw [hitem] at h hadvances
        have hrest : ∀ {c₁ : Cursor}, c₁.rest <:+ c.rest → i ∈ (items rounds c₁).1 →
            ∃ ts, ts <:+: c.kinds ∧ Derives .item ts i.erase := fun hsuffix hi => by
          obtain ⟨ts, hts, hd⟩ := ih hi
          exact ⟨ts, hts.trans (hsuffix.map _).isInfix, hd⟩
        cases result with
        | error f => exact hrest ((c'.rest_skipUntil startsItem).trans hadvances) h
        | ok j =>
          rcases List.mem_cons.mp h with rfl | hi
          · obtain ⟨ts, hts, hd⟩ := item_sound _ _ _ _ hitem
            exact ⟨ts, hts ▸ (List.prefix_append ts c'.kinds).isInfix, hd⟩
          · exact hrest hadvances hi

/-- An item of a parse is whole, and its names are names of tokens. -/
theorem parse_items {tokens : List Token} {i : Item} (h : i ∈ (parse tokens).tree.items) :
    i.Whole ∧ ∀ name ∈ i.names, .ident name ∈ tokens.map (·.kind) := by
  obtain ⟨ts, hts, hd⟩ := items_derive h
  refine ⟨i.whole_erase.mp hd.whole, fun name hname => hts.subset ?_⟩
  have hnames : i.erase.names = identifiers ts := hd.names trivial
  rw [← i.names_erase, hnames] at hname
  exact mem_of_mem_identifiers hname

/-- No name in the tree of a text holds a percent sign, whether the text has faults or not. -/
theorem noPercent_of_parse {source : List Char} {m : Module}
    (hm : (parse (Token.scan source).tokens).tree = m) :
    ∀ a ∈ m.names, NoPercent a := by
  intro a ha
  obtain ⟨i, hi, ha⟩ := List.mem_flatMap.mp ha
  rw [← hm] at hi
  exact Token.noPercent_of_mem_scan ((parse_items hi).2 a ha)

end ClosedSum.Grammar
