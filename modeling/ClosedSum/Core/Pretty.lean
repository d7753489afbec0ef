import ClosedSum.Core.Program
import ClosedSum.Text.Quoted

/-!
# Text of generated code

Core expressions and declarations as text. The text of an expression depends on how deep it stands,
for the lines inside it are indented.
-/

namespace ClosedSum.Core

open Text

/-- A line break followed by the indentation of a depth. -/
def newline (depth : Nat) : String := "\n" ++ "".pushn ' ' (4 * depth)

def Literal.text : Literal → String
  | .unit => "()"
  | .bool value => toString value
  | .int value => toString value
  | .str text => quoteString text

def Test.text : Test → String
  | .always => "else"
  | .case scrutinee _ _ predicate => s!"{predicate}({scrutinee})"

def Param.text (p : Param) : String := if p.unused then "#" ++ p.name else p.name

/-- The text between the parentheses of a function. -/
def paramsText (params : List Param) (variadic : Bool) : String :=
  ", ".intercalate (params.map Param.text ++ if variadic then [".."] else [])

namespace Expr

def isLambda : Expr → Bool
  | .lambda .. => true
  | _ => false

mutual

def text (depth : Nat) : Expr → String
  | .lit value => value.text
  | .var name => name
  | .call callee args =>
    let f := callee.text depth
    (if callee.isLambda then "(" ++ f ++ ")" else f) ++
      "(" ++ ", ".intercalate (texts depth args) ++ ")"
  | .lambda params variadic body => "fn(" ++ paramsText params variadic ++ ") " ++ body.text depth
  | .letIn name value body =>
    "let " ++ name ++ " = " ++ value.text depth ++ " in" ++ newline depth ++ body.text depth
  | .seq exprs =>
    match texts (depth + 1) exprs with
    | [] => "\x7b\x7d"
    | ts =>
      "\x7b" ++ newline (depth + 1) ++ (";" ++ newline (depth + 1)).intercalate ts ++
        newline depth ++ "\x7d"
  | .ifElse test yes no =>
    "if " ++ test.text depth ++ " then " ++ yes.text depth ++ " else " ++ no.text depth
  | .binary op lhs rhs => "(" ++ lhs.text depth ++ " " ++ op.symbol ++ " " ++ rhs.text depth ++ ")"
  | .dispatch branches =>
    "cond \x7b" ++ branchesText (depth + 1) branches ++ newline depth ++ "\x7d"
  | .fail variant => "fail \"" ++ variant ++ "\""
  | .error => "<error>"

def texts (depth : Nat) : List Expr → List String
  | [] => []
  | e :: es => e.text depth :: texts depth es

def branchesText (depth : Nat) : List Branch → String
  | [] => ""
  | .mk test action :: bs =>
    newline depth ++ test.text ++ " => " ++ action.text depth ++ branchesText depth bs

end

end Expr

def optionsText (separator : String) (options : List Attribute) : String :=
  String.join (options.map fun a => "#[" ++ a.text ++ "]" ++ separator)

def fieldText (f : Variant.FieldDecl) : String :=
  "    " ++ optionsText " " f.options ++ f.name ++ " via " ++ f.accessor ++ "\n"

def caseText (c : Variant.CaseDecl) : String :=
  optionsText "\n" c.options ++ s!"type {c.name} <: {c.parent}" ++
    s!" [tag {c.tag}, label {c.label}, predicate {c.predicate}]\n" ++
    String.join (c.fields.map fieldText)

def declsText (d : Variant.Decls) : String :=
  optionsText "\n" d.options ++ s!"abstract type {d.name}\n" ++ String.join (d.cases.map caseText)

def Function.text (f : Function) : String :=
  let params := ", ".intercalate f.params
  s!"fn {f.name}({params}) =" ++ newline 1 ++ f.body.text 1 ++ "\n"

/-- The declarations of a program, then its functions, each followed by a blank line. -/
def Program.text (p : Program) : String :=
  String.join (p.decls.map fun d => declsText d ++ "\n") ++
    String.join (p.functions.map fun f => f.text ++ "\n")

end ClosedSum.Core
