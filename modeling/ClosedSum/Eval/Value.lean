import ClosedSum.Core.Program
import ClosedSum.Text.Quoted

/-!
# Values

What expressions evaluate to. The value of a variant carries the tag of its case, and tests ask for
the tag, never for a name. Functions are values too, and equal only to themselves.
-/

namespace ClosedSum.Eval

inductive Builtin where
  | print | max | min | toString
  deriving DecidableEq, Repr

namespace Builtin

def all : List Builtin := [.print, .max, .min, .toString]

def name : Builtin → String
  | .print => "print"
  | .max => "max"
  | .min => "min"
  | .toString => "to_string"

/-- How many arguments it takes; printing takes any number. -/
def arity? : Builtin → Option Nat
  | .print => none
  | .max | .min => some 2
  | .toString => some 1

end Builtin

/-- One case of a variant as evaluation sees it. -/
structure Case where
  variant : String
  typeName : String
  tag : Nat
  predicate : String
  fields : List String
  deriving DecidableEq, Repr, Inhabited

namespace Case

def ofDecl (d : Variant.CaseDecl) : Case :=
  ⟨d.parent, d.name, d.tag, d.predicate, d.fields.map (·.name)⟩

def arity (c : Case) : Nat := c.fields.length

end Case

inductive Callable where
  /-- A function with the scope that it was made in. Its number tells it from all others. -/
  | closure (number : Nat) (lambda : Core.Lambda) (scope : Nat)
  | function (definition : Core.Function)
  | constructor (case : Case)
  | accessor (case : Case) (index : Nat) (name : String)
  | predicate (case : Case)
  | builtin (b : Builtin)

namespace Callable

def describe : Callable → String
  | .closure .. => "closure"
  | .function f => "fn " ++ f.name
  | .constructor c => "constructor " ++ c.typeName
  | .accessor _ _ name => "accessor " ++ name
  | .predicate c => "predicate " ++ c.predicate
  | .builtin b => "builtin " ++ b.name

/-- Whether two are the same function. Global names are distinct, so those tell functions apart. -/
def same : Callable → Callable → Bool
  | .closure n _ _, .closure m _ _ => n = m
  | .function f, .function g => f.name = g.name
  | .constructor c, .constructor d => c = d
  | .accessor c i _, .accessor d j _ => c = d && i = j
  | .predicate c, .predicate d => c = d
  | .builtin a, .builtin b => a = b
  | _, _ => false

end Callable

inductive Value where
  | unit
  | bool (b : Bool)
  | int (n : Int)
  | str (s : String)
  | variant (variant typeName : String) (tag : Nat) (fields : List Value)
  | callable (f : Callable)

instance : Inhabited Value := ⟨.unit⟩

inductive ValueType where
  | unit | bool | int | string | variant | callable
  deriving DecidableEq, Repr

def ValueType.name : ValueType → String
  | .unit => "unit"
  | .bool => "bool"
  | .int => "int"
  | .string => "string"
  | .variant => "variant"
  | .callable => "callable"

/-- Whether a value belongs to the case. -/
def Case.holds (c : Case) : Value → Bool
  | .variant variant _ tag _ => variant = c.variant && tag = c.tag
  | _ => false

namespace Value

def type : Value → ValueType
  | .unit => .unit
  | .bool _ => .bool
  | .int _ => .int
  | .str _ => .string
  | .variant .. => .variant
  | .callable _ => .callable

def ofLiteral : Core.Literal → Value
  | .unit => .unit
  | .bool b => .bool b
  | .int n => .int n
  | .str s => .str s

mutual

/-- Equality of values; those of different types differ. -/
def same : Value → Value → Bool
  | .unit, .unit => true
  | .bool a, .bool b => a = b
  | .int a, .int b => a = b
  | .str a, .str b => a = b
  | .variant v n t fs, .variant w m u gs => v = w && n = m && t = u && sameAll fs gs
  | .callable f, .callable g => f.same g
  | _, _ => false

def sameAll : List Value → List Value → Bool
  | [], [] => true
  | v :: vs, w :: ws => same v w && sameAll vs ws
  | _, _ => false

end

mutual

/-- The text of a value inside another, where strings are quoted. -/
def innerText : Value → String
  | .unit => "()"
  | .bool b => toString b
  | .int n => toString n
  | .str s => Text.quoteString s
  | .variant _ name _ fields =>
    match innerTexts fields with
    | [] => name
    | texts => name ++ "(" ++ ", ".intercalate texts ++ ")"
  | .callable f => "<" ++ f.describe ++ ">"

def innerTexts : List Value → List String
  | [] => []
  | v :: vs => innerText v :: innerTexts vs

end

/-- The text of a value as it is printed. -/
def text : Value → String
  | .str s => s
  | v => v.innerText

end Value

end ClosedSum.Eval
