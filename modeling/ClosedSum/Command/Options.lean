import ClosedSum.Compile.Build
import ClosedSum.Diagnostic.Render
import ClosedSum.Eval.Interpreter

/-!
# Options

Flags begin with two dashes and may stand anywhere among the arguments of a command. Of two that set
the same option the later counts.
-/

namespace ClosedSum.Command

structure Options where
  build : Compile.Settings := {}
  color : Render.ColorMode := .auto
  /-- Whether diagnostics go to a terminal. -/
  terminal : Bool := false
  maxDepth : Nat := Eval.Interpreter.defaultLimit
  deriving DecidableEq, Repr, Inhabited

inductive OptionFault where
  | unknownFlag (flag : String)
  | invalidValue (flag value : String)
  deriving DecidableEq, Repr

def OptionFault.message : OptionFault → String
  | .unknownFlag flag => s!"unknown option '{flag}'"
  | .invalidValue flag value => s!"invalid value '{value}' for '{flag}'"

/-- The greatest count that a flag takes. -/
def maxCount : Nat := Nat.pow 2 64 - 1

/-- Reads decimal digits, which may follow a plus sign. -/
def count? (text : List Char) : Option Nat :=
  let digits := match text with
    | '+' :: cs => cs
    | cs => cs
  let n := Integer.ofDigits digits
  if !digits.isEmpty && digits.all (·.isDigit) && n ≤ maxCount then some n else none

/-- What follows the flag and an equals sign. -/
def valueOf? (flag arg : String) : Option String :=
  ((flag ++ "=").toList.isPrefixOf? arg.toList).map String.ofList

def readCount (flag value : String) : Except OptionFault Nat :=
  match count? value.toList with
  | some n => .ok n
  | none => .error (.invalidValue flag value)

def readColor (flag value : String) : Except OptionFault Render.ColorMode :=
  match Render.ColorMode.parse? value with
  | some mode => .ok mode
  | none => .error (.invalidValue flag value)

namespace Options

def denyWarnings (o : Options) : Options :=
  { o with build := { o.build with denyWarnings := true } }

/-- The flags that take a value, with what they do. -/
def setters : List (String × (Options → String → Except OptionFault Options)) := [
  ("--color", fun o value => do return { o with color := ← readColor "--color" value }),
  ("--error-limit", fun o value => do
    return { o with build := { o.build with errorLimit := ← readCount "--error-limit" value } }),
  ("--max-depth", fun o value => do
    return { o with maxDepth := ← readCount "--max-depth" value })]

def setFlag (o : Options) (arg : String) : Except OptionFault Options :=
  if arg = "--deny-warnings" then .ok o.denyWarnings
  else
    let found := setters.findSome? fun (flag, set) => (valueOf? flag arg).map (set o)
    found.getD (.error (.unknownFlag arg))

def isFlag (arg : String) : Bool := ['-', '-'].isPrefixOf arg.toList

/-- Sets the flags among the arguments and gives back the others. -/
def read (o : Options) : List String → Except OptionFault (Options × List String)
  | [] => .ok (o, [])
  | arg :: args => do
    if isFlag arg then (← o.setFlag arg).read args
    else
      let (o, others) ← o.read args
      return (o, arg :: others)

end Options

end ClosedSum.Command
