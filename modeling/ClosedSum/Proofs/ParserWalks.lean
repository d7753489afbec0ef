import ClosedSum.Proofs.Walks

/-!
# Every parser is traced

The grammar once more, as walks, and one lemma for each of its rules: where the number of rounds is
that of the tokens left, no loop and no nesting is cut off. A loop reads a token in every round, and
an expression inside another stands behind a token that was read.
-/

namespace ClosedSum.Grammar

open Surface
open Token (Kind)

namespace Walk

section Expressions

variable (inner : Walk Expr) (bound : Nat)

/-- Operands of one level, with the operators of the level between them. -/
def level (op? : Kind → Option BinaryOp) (bound : Nat) (operand : Walk Expr) : Walk Expr := do
  chain op? binary operand bound (← operand)

/-- Signs in front of an operand, one in each round. -/
def signed (operand : Walk Expr) : Nat → Walk Expr
  | 0 => cutOff
  | rounds + 1 => do
    if ← isNext (.symbol .minus) then
      let minus ← sign .minus
      return binary .sub (.int minus 0) (← signed operand rounds)
    else operand

/-- Argument lists behind what is called, one in each round. -/
def calls : Nat → Expr → Walk Expr
  | 0, _ => cutOff
  | rounds + 1, callee => do
    if ← isNext (.symbol .leftParen) then
      let opened ← sign .leftParen
      let (args, closed) ← within .call (closedList .comma .rightParen opened inner bound)
      calls rounds (.call (callee.span.merge closed) callee args)
    else return callee

def stmt : Walk Stmt := do
  if ← isNext (.keyword .let) then
    let _ ← next
    let name ← ident
    let _ ← sign .assign
    return .bind name (← inner)
  else return .expr (← inner)

def block : Walk Expr :=
  within .block do
    let opened ← sign .leftBrace
    let (stmts, closed) ← closedList .semicolon .rightBrace opened (stmt inner) bound
    return .block (opened.merge closed) stmts

/-- A conditional whose other branch is a conditional again takes a round for each. -/
def conditional : Nat → Walk Expr
  | 0 => cutOff
  | rounds + 1 => within .ifExpression do
    let start ← keyword .if
    let test ← inner
    let yes ← block inner bound
    let _ ← keyword .else
    let no ← if ← isNext (.keyword .if) then conditional rounds else block inner bound
    return .ifElse (start.merge no.span) test yes no

def param : Walk Match.Param := do
  match ← kind with
  | .symbol .underscore => return .wildcard (← next).span
  | .ident name => return .named ⟨name, (← next).span⟩
  | _ => failHere .badPattern

/-- A pattern. A bare parameter behind a label takes all fields. -/
def pattern : Walk Match.Pattern := do
  match ← kind with
  | .symbol .underscore =>
    let _ ← next
    return .default
  | .ident name =>
    let label : Ident := ⟨name, (← next).span⟩
    match ← kind with
    | .symbol .leftParen =>
      let opened := (← next).span
      let (params, _) ← closedList .comma .rightParen opened param bound
      return .case label (.list params)
    | .ident _ | .symbol .underscore => return .case label (.rest (← param))
    | _ => failHere .badPattern
  | _ => failHere .badPattern

def clause : Walk Clause :=
  within .clause do
    let start ← span
    let pattern ← pattern bound
    let _ ← sign .arrow
    let body ← inner
    return .mk pattern (clauseBody body) (start.merge body.span)

/-- The use of an operator, up to the brace that closes its clauses. -/
def matchUse : Walk Expr :=
  within .matchUse do
    let operator ← ident
    let _ ← sign .bang
    let paren ← sign .leftParen
    let scrutinee ← inner
    let _ ← close paren .rightParen
    let opened ← sign .leftBrace
    let (clauses, closed) ← closedList .comma .rightBrace opened (clause inner bound) bound
    let site := operator.span.merge closed
    return .matchUse site operator scrutinee clauses site

def parenthesized (opened : Span) : Walk Expr := do
  if ← isNext (.symbol .rightParen) then
    return .unit (opened.merge (← sign .rightParen))
  else
    let e ← inner
    return e.withSpan (opened.merge (← close opened .rightParen))

def primary : Walk Expr := do
  match ← kind with
  | .int value => return .int (← next).span value
  | .str text => return .str (← next).span text
  | .keyword .true => return .bool (← next).span true
  | .keyword .false => return .bool (← next).span false
  | .symbol .leftParen => parenthesized inner (← next).span
  | .symbol .leftBrace => block inner bound
  | .keyword .if => conditional inner bound bound
  | .ident name =>
    if ← isSecond (.symbol .bang) then matchUse inner bound
    else return .ident (← next).span name
  | _ => within .expression (failHere .noExpression)

/-- What stands between operators: signs, what is read first, and the calls of it. -/
def operand : Walk Expr :=
  signed (do calls inner bound bound (← primary inner bound)) bound

end Expressions

/-- Reads an expression of any depth below the number of rounds. -/
def expr : Nat → Walk Expr
  | 0 => cutOff
  | rounds + 1 =>
    level comparison? (rounds + 1) <| level additive? (rounds + 1) <|
      level multiplicative? (rounds + 1) <| operand (expr rounds) (rounds + 1)

section Modules

variable (bound : Nat)

/-- Attributes, one in each round. The parser has no rounds here, as it goes through the tokens. -/
def attributes : Nat → Walk (List Attribute)
  | 0 => cutOff
  | rounds + 1 => do
    match ← kind with
    | .attr text =>
      let span := (← next).span
      return ⟨text, span⟩ :: (← attributes rounds)
    | _ => return []

def field : Walk Variant.FieldSpec := do
  let options ← attributes bound
  return ⟨← within .case ident, options⟩

def caseSpec : Walk Variant.CaseSpec := do
  let options ← attributes bound
  let label ← within .case ident
  let (fields, closed) ← do
    if ← isNext (.symbol .leftParen) then
      let opened ← sign .leftParen
      closedList .comma .rightParen opened (field bound) bound
    else pure ([], label.span)
  return ⟨label, options, fields, (startOf options label.span).merge closed⟩

def variantSpec (options : List Attribute) : Walk Variant.Spec :=
  within .variant do
    let start := startOf options (← span)
    let _ ← keyword .variant
    let name ← ident
    let opened ← sign .leftBrace
    let (cases, closed) ← closedList .comma .rightBrace opened (caseSpec bound) bound
    return ⟨name, options, cases, start.merge closed⟩

def function : Walk Function :=
  within .function do
    let start ← keyword .fn
    let name ← ident
    let opened ← sign .leftParen
    let (params, _) ← closedList .comma .rightParen opened ident bound
    let _ ← sign .assign
    let body ← expr bound
    return ⟨name, params, body, start.merge body.span⟩

/-- An item of a file. A function has no attributes. -/
def item : Walk Item := do
  let options ← attributes bound
  match ← kind with
  | .keyword .variant => return .variant (← variantSpec bound options)
  | .keyword .fn =>
    if options.isEmpty then return .function (← function bound)
    else failHere (.unexpected "`variant` after attributes")
  | _ =>
    failHere (.unexpected
      (if options.isEmpty then "`variant` or `fn`" else "`variant` after attributes"))

end Modules

end Walk

namespace Traces

variable {P : Kind → Prop} {n bound bound' : Nat}

section Expressions

variable {part : Walk Expr} {part' : Parse Expr}

lemma level {op? : Kind → Option BinaryOp} (hop : op? .eof = none) (hn : n ≤ bound)
    (hn' : n ≤ bound') (hpart : Traces Any n part part') :
    Traces Any n (Walk.level op? bound part) (Grammar.level op? bound' part') :=
  hpart.bind fun a => chain hop a hn hn' hpart

/-- A round and a token are used up together, so that no sign is cut off. -/
lemma signed : ∀ {rounds rounds' n : Nat}, n ≤ rounds → n ≤ rounds' →
    Traces Any n part part' →
      Traces Any n (Walk.signed part rounds) (Grammar.signed part' rounds')
  | 0, _, _, hn, _, _ => zero hn
  | _, 0, _, _, hn, _ => zero hn
  | rounds + 1, rounds' + 1, n, hn, hn', hpart => by
    have hmore : Traces Any (n - 1) (Walk.signed part rounds) (Grammar.signed part' rounds') :=
      signed (by omega) (by omega) (hpart.weaken (by omega))
    exact ifNext (signThen fun _ => hmore.bind fun _ => pure _) hpart

variable {inner : Walk Expr} {inner' : Parse Expr}

/-- Neither the loop over argument lists nor the one over their arguments is cut off, since each
list stands behind a parenthesis. -/
lemma calls : ∀ {rounds rounds' n : Nat} (f : Expr), n ≤ rounds → n ≤ rounds' → n ≤ bound →
    n ≤ bound' → Traces Any (n - 1) inner inner' →
      Traces Any n (Walk.calls inner bound rounds f) (Grammar.calls inner' bound' rounds' f)
  | 0, _, _, _, hn, _, _, _, _ => zero hn
  | _, 0, _, _, _, hn, _, _, _ => zero hn
  | rounds + 1, rounds' + 1, n, f, hn, hn', hb, hb', hinner => by
    have hmore : ∀ f, Traces Any (n - 1) (Walk.calls inner bound rounds f)
        (Grammar.calls inner' bound' rounds' f) := fun f =>
      calls f (by omega) (by omega) (by omega) (by omega) (hinner.weaken (by omega))
    exact ifNext (signThen fun opened => ((closedList .comma .rightParen opened (by omega)
      (by omega) hinner).within .call).bind fun _ => hmore _) (pure f)

lemma stmt (hinner : Traces Any n inner inner') :
    Traces Any n (Walk.stmt inner) (Grammar.stmt inner') := by
  have hinner' := hinner.weaken (m := n - 1) (by omega)
  exact ifEat (by simp) (ident.bind fun i => sign.bind fun _ => hinner'.bind fun _ => pure _)
    (hinner.bind fun _ => pure _)

lemma block (hn : n ≤ bound) (hn' : n ≤ bound') (hinner : Traces Any (n - 1) inner inner') :
    Traces P n (Walk.block inner bound) (Grammar.block inner' bound') :=
  (signThen fun opened => (closedList .semicolon .rightBrace opened (by omega) (by omega)
    (stmt hinner)).bind fun _ => pure _).within _

lemma conditional : ∀ {rounds rounds' n : Nat}, n ≤ rounds → n ≤ rounds' → n ≤ bound →
    n ≤ bound' → Traces Any (n - 1) inner inner' →
      Traces Any n (Walk.conditional inner bound rounds) (Grammar.conditional inner' bound' rounds')
  | 0, _, _, hn, _, _, _, _ => zero hn
  | _, 0, _, _, hn, _, _, _ => zero hn
  | rounds + 1, rounds' + 1, n, hn, hn', hb, hb', hinner => by
    have hinner' := hinner.weaken (m := n - 1 - 1) (by omega)
    have hblock : ∀ {P : Kind → Prop}, Traces P (n - 1) (Walk.block inner bound)
        (Grammar.block inner' bound') := block (by omega) (by omega) hinner'
    have hmore : Traces Any (n - 1) (Walk.conditional inner bound rounds)
        (Grammar.conditional inner' bound' rounds') :=
      conditional (by omega) (by omega) (by omega) (by omega) hinner'
    exact (keywordThen fun _ => hinner.bind fun _ => hblock.bind fun _ => keyword.bind fun _ =>
      ifNext (hmore.atAny.bind fun _ => pure _) (hblock.bind fun _ => pure _)).within _

lemma param : Traces P n Walk.param Grammar.param := by
  refine see fun c _ => ?_
  generalize c.kind = k
  cases k with
  | ident name => exact next.bind fun _ => pure _
  | symbol s =>
    cases s with
    | underscore => exact next.bind fun _ => pure _
    | _ => exact failHere fun _ _ => rfl
  | _ => exact failHere fun _ _ => rfl

lemma pattern (hn : n ≤ bound) (hn' : n ≤ bound') :
    Traces P n (Walk.pattern bound) (Grammar.pattern bound') := by
  refine see fun c _ => ?_
  generalize c.kind = k
  cases k with
  | symbol s =>
    cases s with
    | underscore => exact next.bind fun _ => pure _
    | _ => exact failHere fun _ _ => rfl
  | ident name =>
    refine next.bind fun label => see fun c _ => ?_
    generalize c.kind = k
    cases k with
    | ident rest => exact param.bind fun _ => pure _
    | symbol s =>
      cases s with
      | leftParen =>
        exact next.bind fun opened => (closedList .comma .rightParen _ hn hn' param).bind
          fun _ => pure _
      | underscore => exact param.bind fun _ => pure _
      | _ => exact failHere fun _ _ => rfl
    | _ => exact failHere fun _ _ => rfl
  | _ => exact failHere fun _ _ => rfl

lemma clause (hn : n ≤ bound) (hn' : n ≤ bound') (hinner : Traces Any n inner inner') :
    Traces P n (Walk.clause inner bound) (Grammar.clause inner' bound') :=
  (see fun _ _ => (pattern hn hn').bind fun _ => sign.bind fun _ => hinner.bind
    fun _ => pure _).within _

lemma matchUse (hn : n ≤ bound) (hn' : n ≤ bound') {name : String}
    (hinner : Traces Any (n - 1) inner inner') :
    Traces (· = .ident name) n (Walk.matchUse inner bound) (Grammar.matchUse inner' bound') := by
  refine (ident.bind fun _ => signThen fun _ => sign.bind fun _ => hinner.bind fun _ =>
    (close _ _).bind fun _ => sign.bind fun opened => ?_).within _
  exact (closedList .comma .rightBrace opened (by omega) (by omega)
    (clause (by omega) (by omega) hinner)).bind fun _ => pure _

lemma parenthesized (opened : Span) (hinner : Traces Any n inner inner') :
    Traces Any n (Walk.parenthesized inner opened) (Grammar.parenthesized inner' opened) :=
  ifNext (sign.bind fun _ => pure _) (hinner.bind fun _ => (close _ _).bind fun _ => pure _)

/-- What stands inside is read behind a token: a parenthesis, a brace, a keyword or a name. -/
lemma primary (hn : n ≤ bound) (hn' : n ≤ bound') (hinner : Traces Any (n - 1) inner inner') :
    Traces Any n (Walk.primary inner bound) (Grammar.primary inner' bound') := by
  -- tokens that are trees by themselves
  have hleaf : ∀ {k : Kind} (g : Span → Expr), Traces (· = k) n
      (do return g (← Walk.next).span) (do return g (← Parse.next).span) := fun g =>
    next.bind fun _ => pure _
  refine see fun c _ => ?_
  generalize c.kind = k
  cases k with
  | int value => exact hleaf (.int · value)
  | str text => exact hleaf (.str · text)
  | ident name =>
    refine see fun c' hname => ?_
    rw [hname]
    split
    · exact matchUse hn hn' hinner
    · exact hleaf (.ident · name)
  | keyword w =>
    cases w with
    | true => exact hleaf (.bool · true)
    | false => exact hleaf (.bool · false)
    | «if» => exact (conditional hn hn' hn hn' hinner).atAny
    | _ => exact (failHere fun _ _ => rfl).within _
  | symbol s =>
    cases s with
    | leftParen => exact nextThen (by simp) fun _ => parenthesized _ hinner
    | leftBrace => exact block hn hn' hinner
    | _ => exact (failHere fun _ _ => rfl).within _
  | _ => exact (failHere fun _ _ => rfl).within _

lemma operand (hn : n ≤ bound) (hn' : n ≤ bound') (hinner : Traces Any (n - 1) inner inner') :
    Traces Any n (Walk.operand inner bound) (Grammar.operand inner' bound') :=
  signed hn hn' ((primary hn hn' hinner).bind fun f => calls f hn hn' hn hn' hinner)

/-- A nesting is no deeper than there are tokens. -/
theorem exprAt : ∀ {rounds depth n : Nat}, n ≤ rounds → n ≤ depth →
    Traces Any n (Walk.expr rounds) (Grammar.exprAt depth)
  | 0, _, _, hn, _ => zero hn
  | _, 0, _, _, hn => zero hn
  | rounds + 1, depth + 1, n, hn, hn' => by
    have hoperand : Traces Any n (Walk.operand (Walk.expr rounds) (rounds + 1))
        (Grammar.operand (Grammar.exprAt depth) (depth + 1)) :=
      operand hn hn' (exprAt (by omega) (by omega))
    exact level rfl hn hn' <| level rfl hn hn' <| level rfl hn hn' hoperand

/-- The parser takes the tokens that are left as its depth, and the walk may have more rounds. -/
theorem expr (hn : n ≤ bound) : Traces Any n (Walk.expr bound) Grammar.expr :=
  fun c hc heof hlen => exprAt (hlen.trans hn) (le_refl _) c hc heof (le_refl _)

end Expressions

section Modules

/-- The recursion of the parser on the tokens is a loop that looks at the next of them. -/
lemma attributes : ∀ {rounds n : Nat}, n ≤ rounds →
    Traces Any n (Walk.attributes rounds) Grammar.attributes
  | 0, _, hn => zero hn
  | rounds + 1, n, hn => by
    have heq : Grammar.attributes = Parse.kind >>= fun k => match k with
        | .attr text => Parse.next >>= fun t => Grammar.attributes >>= fun as =>
          Pure.pure (⟨text, t.span⟩ :: as)
        | _ => Pure.pure [] := by
      funext ⟨rest, previous⟩
      cases rest with
      | nil => rfl
      | cons t ts =>
        obtain ⟨k, span⟩ := t
        cases k <;> rfl
    rw [heq]
    refine see fun c _ => ?_
    generalize c.kind = k
    cases k with
    | attr text => exact nextThen (by simp) fun _ => (attributes (by omega)).bind fun _ => pure _
    | _ => exact pure []

lemma field (hn : n ≤ bound) : Traces Any n (Walk.field bound) Grammar.field :=
  (attributes hn).bind fun _ => (ident.within _).bind fun _ => pure _

lemma caseSpec (hn : n ≤ bound) (hn' : n ≤ bound') :
    Traces Any n (Walk.caseSpec bound) (Grammar.caseSpec bound') :=
  (attributes hn).bind fun _ => (ident.within _).bind fun _ => ifNext
    (sign.bind fun _ => (closedList _ _ _ hn hn' (field hn)).bind fun _ => pure _)
    ((pure _).bind fun _ => pure _)

lemma variantSpec (options : List Attribute) (hn : n ≤ bound) (hn' : n ≤ bound') :
    Traces P n (Walk.variantSpec bound options) (Grammar.variantSpec options bound') :=
  (see fun _ _ => keyword.bind fun _ => ident.bind fun _ => sign.bind fun _ =>
    (closedList _ _ _ hn hn' (caseSpec hn hn')).bind fun _ => pure _).within _

lemma function (hn : n ≤ bound) (hn' : n ≤ bound') :
    Traces P n (Walk.function bound) (Grammar.function bound') :=
  (keyword.bind fun _ => ident.bind fun _ => sign.bind fun _ =>
    (closedList _ _ _ hn hn' ident).bind fun _ => sign.bind fun _ => (expr hn).bind
      fun _ => pure _).within _

/-- No loop and no nesting of an item is cut off, with as many rounds as tokens are left. -/
theorem item (hn : n ≤ bound) (hn' : n ≤ bound') :
    Traces Any n (Walk.item bound) (Grammar.item bound') := by
  refine (attributes hn).bind fun options => see fun c _ => ?_
  generalize c.kind = k
  cases k with
  | keyword w =>
    cases w with
    | variant => exact (variantSpec options hn hn').bind fun _ => pure _
    | fn =>
      dsimp only
      split
      · exact (function hn hn').bind fun _ => pure _
      · exact failHere fun _ _ => rfl
    | _ => exact failHere fun _ _ => rfl
  | _ => exact failHere fun _ _ => rfl

end Modules

end Traces

end ClosedSum.Grammar
