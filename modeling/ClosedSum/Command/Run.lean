import ClosedSum.Command.Options
import ClosedSum.Command.Output
import ClosedSum.Core.Pretty

/-!
# Commands on source files

Each command builds a source text. With errors it only reports them; else warnings go beside what it
does: it counts what was generated, shows it, or runs it.
-/

namespace ClosedSum.Command

/-- A source text and the path under which it is shown. -/
structure Input where
  path : String
  source : List Char

/-- Diagnostics with the line that counts them. -/
def renderAll (o : Options) (i : Input) (ds : List Diagnostic) : String :=
  let pieces := ds.flatMap (Render.diagnostic (some { path := i.path, text := i.source })) ++
    Render.tally (ds.countP (·.isError)) (ds.countP (·.isWarning))
  Render.write (o.color.useColors o.terminal) pieces

def renderBuild (o : Options) (i : Input) (b : Compile.Build) : String :=
  if b.diagnostics.isEmpty then "" else renderAll o i b.diagnostics

/-- Builds the source and, without errors, goes on with the program and the rendered warnings. -/
def withProgram (o : Options) (i : Input) (go : Core.Program → String → Output) : Output :=
  let b := Compile.Build.ofSource o.build i.source
  let stderr := renderBuild o i b
  if b.hasErrors then .failure stderr else go b.program stderr

def check (o : Options) (i : Input) : Output :=
  withProgram o i fun p stderr =>
    let variants := p.decls.length
    let functions := p.functions.length
    { stdout := s!"OK: {i.path} ({variants} variants, {functions} functions)\n", stderr }

def expand (o : Options) (i : Input) : Output :=
  withProgram o i fun p stderr => { stdout := p.text, stderr }

/-- Runs `main`. What it printed comes first, then its value unless that is unit. -/
def run (o : Options) (i : Input) : Output :=
  withProgram o i fun p stderr =>
    let (result, interpreter) := (Eval.Interpreter.ofProgram p o.maxDepth).runMain
    let printed := interpreter.output
    match result with
    | .ok .unit => { stdout := printed, stderr }
    | .ok v => { stdout := printed ++ v.text ++ "\n", stderr }
    | .error f =>
      { stdout := printed, stderr := stderr ++ renderAll o i [f.diagnostic], success := false }

end ClosedSum.Command
