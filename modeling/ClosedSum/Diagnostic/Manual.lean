import ClosedSum.Diagnostic.Code

/-!
# Manual pages

The long explanations of codes. A page is a title and a series of blocks set apart by blank lines.
-/

namespace ClosedSum.Manual

inductive Block where
  | heading (text : String)
  | paragraph (lines : List String)
  | sample (lines : List String)

def Block.text : Block → String
  | .heading text => "## " ++ text
  | .paragraph lines => "\n".intercalate lines
  | .sample lines => "\n".intercalate ("```tagsum" :: lines ++ ["```"])

structure Page where
  code : Code
  title : String
  blocks : List Block

def Page.text (p : Page) : String :=
  "\n\n".intercalate (s!"# {p.code.id}: {p.title}" :: p.blocks.map Block.text) ++ "\n"

def pages : List Page := [
  { code := .invalidPattern, title := "Invalid Match Clause Pattern", blocks := [
    .paragraph [
      "A match clause selector must be one of:"],
    .paragraph [
      "- `_` (the default clause),",
      "- `label(p1, p2, ...)` where each parameter is an identifier or `_`,",
      "- `label rest`, a bare identifier that accepts and ignores every field."],
    .heading "Example",
    .sample [
      "match_tree!(t) \x7b",
      "    node(1, _, _) => \"one\",   // error: literal patterns are not supported",
      "\x7d"],
    .heading "Solution",
    .paragraph [
      "Bind the field and compare in the body:"],
    .sample [
      "match_tree!(t) \x7b",
      "    node(v, _, _) => if v == 1 \x7b \"one\" \x7d else \x7b \"other\" \x7d,",
      "    _ => \"other\",",
      "\x7d"]] },
  { code := .emptyMatch, title := "Empty Match", blocks := [
    .paragraph [
      "A match use site supplied no clauses at all. There is nothing to dispatch to,",
      "so the expression is rejected."],
    .heading "Example",
    .sample [
      "fn f(t) = match_tree!(t) \x7b \x7d"],
    .heading "Solution",
    .paragraph [
      "Add a clause for each case, or a default clause:"],
    .sample [
      "fn f(t) = match_tree!(t) \x7b _ => 0 \x7d"]] },
  { code := .defaultNotLast, title := "Default Clause Is Not Last", blocks := [
    .paragraph [
      "The default clause `_ => ...` matches everything, so any clause after it could",
      "never run. A default clause must be the final clause."],
    .heading "Example",
    .sample [
      "match_tree!(t) \x7b",
      "    leaf() => 0,",
      "    _ => 1,",
      "    node(v, l, r) => v,   // unreachable",
      "\x7d"],
    .heading "Solution",
    .paragraph [
      "Move the default clause to the end, or remove the clauses after it."]] },
  { code := .repeatedClause, title := "Duplicate Case", blocks := [
    .paragraph [
      "Two clauses of the same match name the same case. Dispatch is first-match, so",
      "the second clause could never run."],
    .heading "Example",
    .sample [
      "match_tree!(t) \x7b",
      "    leaf() => 0,",
      "    leaf() => 1,",
      "\x7d"],
    .heading "Solution",
    .paragraph [
      "Remove one of the clauses, or merge their bodies."]] },
  { code := .unknownCase, title := "No Such Case", blocks := [
    .paragraph [
      "A clause names a label that the variant does not declare. Labels are matched",
      "exactly as written in the `variant` declaration."],
    .heading "Example",
    .sample [
      "variant Tree \x7b leaf, node(val, left, right) \x7d",
      "",
      "fn f(t) = match_tree!(t) \x7b branch(a, b) => a, _ => 0 \x7d"],
    .heading "Solution",
    .paragraph [
      "Use one of the declared labels. The diagnostic lists them."]] },
  { code := .duplicateCase, title := "Duplicate Case Label", blocks := [
    .paragraph [
      "A variant declares the same case label more than once. Each case must have a",
      "distinct label because labels select clauses and name generated types."],
    .heading "Example",
    .sample [
      "variant Shape \x7b circle(r), circle(d) \x7d"],
    .heading "Solution",
    .paragraph [
      "Rename one of the cases."]] },
  { code := .duplicateField, title := "Duplicate Field", blocks := [
    .paragraph [
      "A case declares the same field name twice, which would generate two accessors",
      "with the same name."],
    .heading "Example",
    .sample [
      "variant Pair \x7b pair(x, x) \x7d"],
    .heading "Solution",
    .paragraph [
      "Give every field of a case a distinct name."]] },
  { code := .duplicateGlobal, title := "Duplicate Definition", blocks := [
    .paragraph [
      "Two top-level definitions produce the same global name. Generated names count:",
      "every variant defines a constructor per case (`TreeNode`), an accessor per field",
      "(`tree_node_val`), a predicate per case (`is_tree_node`) and a match operator",
      "(`match_tree`)."],
    .heading "Example",
    .sample [
      "variant Tree \x7b leaf \x7d",
      "",
      "fn is_tree_leaf(x) = true   // clashes with the generated predicate"],
    .heading "Solution",
    .paragraph [
      "Rename the function, or rename the variant or case."]] },
  { code := .unknownOperator, title := "Unknown Match Operator", blocks := [
    .paragraph [
      "A `name!(...)` use site names no registered match operator. Every variant",
      "`Foo` registers exactly one operator, `match_foo`."],
    .heading "Example",
    .sample [
      "variant Tree \x7b leaf \x7d",
      "",
      "fn f(t) = match_trees!(t) \x7b _ => 0 \x7d"],
    .heading "Solution",
    .paragraph [
      "Use the operator generated for the variant, e.g. `match_tree!`."]] },
  { code := .matchFailure, title := "Match Failure", blocks := [
    .paragraph [
      "At runtime, no clause of a match without a default handled the scrutinee. This",
      "happens when the value is a case the match does not list (the generator warned",
      "about it with W3001), or when the value is not a member of the variant at all."],
    .heading "Example",
    .sample [
      "variant Tree \x7b leaf, bnode(l, r), tnode(l, m, r) \x7d",
      "",
      "fn main() = match_tree!(TreeBnode(1, 2)) \x7b",
      "    leaf() => 0,",
      "    tnode(l, m, r) => 3,",
      "\x7d"],
    .heading "Solution",
    .paragraph [
      "Handle every case, or add a default clause `_ => ...`."]] },
  { code := .wrongCase, title := "Wrong Case", blocks := [
    .paragraph [
      "A field accessor was applied to a value of a different case, for example",
      "`tree_node_val(TreeLeaf())`. Accessors are only defined on the case that",
      "declares the field."],
    .heading "Solution",
    .paragraph [
      "Check the case first with its predicate (`is_tree_node`) or use the match",
      "operator, which only calls accessors of the case it selected."]] },
  { code := .nonExhaustive, title := "Non-Exhaustive Match", blocks := [
    .paragraph [
      "A match without a default clause does not handle every declared case. The",
      "generated code falls through to a runtime match failure (E6001) for the",
      "missing cases."],
    .heading "Example",
    .sample [
      "variant Tree \x7b leaf, bnode(l, r), tnode(l, m, r) \x7d",
      "",
      "fn f(t) = match_tree!(t) \x7b",
      "    leaf() => 0,",
      "    tnode(l, m, r) => 3,",
      "\x7d"],
    .paragraph [
      "The warning lists `bnode` as missing."],
    .heading "Solution",
    .paragraph [
      "Add clauses for the missing cases or a trailing default clause."]] },
  { code := .redundantDefault, title := "Redundant Default", blocks := [
    .paragraph [
      "Every declared case already has a clause, so the default clause can never run."],
    .heading "Example",
    .sample [
      "variant Bit \x7b zero, one \x7d",
      "",
      "fn f(b) = match_bit!(b) \x7b",
      "    zero() => 0,",
      "    one() => 1,",
      "    _ => 2,",
      "\x7d"],
    .heading "Solution",
    .paragraph [
      "Remove the default clause."]] },
  { code := .clauseArity, title := "Clause Arity Mismatch", blocks := [
    .paragraph [
      "A clause with a parameter list binds a different number of parameters than the",
      "case has fields. Binding is positional, so the compiled clause is called with",
      "one argument per field and fails at runtime if it is ever reached."],
    .heading "Example",
    .sample [
      "variant Tree \x7b leaf, node(val, left, right) \x7d",
      "",
      "fn f(t) = match_tree!(t) \x7b node(v) => v, _ => 0 \x7d"],
    .heading "Solution",
    .paragraph [
      "List one parameter per field (use `_` for fields you ignore), or use a bare",
      "identifier (`node rest => ...`) to ignore all of them."]] },
  { code := .unusedParameter, title := "Unused Clause Parameter", blocks := [
    .paragraph [
      "A named clause parameter is never used in the clause body."],
    .heading "Solution",
    .paragraph [
      "Replace the parameter with `_`. Wildcard parameters still occupy their field",
      "position but are never reported."]] }]

def page? (code : Code) : Option Page := pages.find? (·.code = code)

end ClosedSum.Manual
