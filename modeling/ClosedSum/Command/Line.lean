import ClosedSum.Command.ReadFault
import ClosedSum.Command.Run

/-!
# Command line

The first argument names the command; flags are read before anything else is done with the others.
What a command line asks for is either known at once or needs a file to be read first.
-/

namespace ClosedSum.Command

def version : String := "0.1.0"

def usage : String := "\n".intercalate [
  "Tagsum: closed sum types with exhaustive match dispatch",
  "",
  "Usage: tagsum <command> [options]",
  "",
  "Commands:",
  "  check <file.tsum>    Report errors and warnings",
  "  expand <file.tsum>   Print generated declarations and expanded matches",
  "  run <file.tsum>      Run `main` and print its result",
  "  explain <code>       Explain an error code (e.g., E3003)",
  "  help                 Show this help message",
  "  version              Show version information",
  "",
  "Options:",
  "  --deny-warnings      Treat warnings as errors",
  "  --color=<mode>       Colored diagnostics: auto, always, never",
  "  --error-limit=<n>    Stop reporting after n errors (0 = unlimited)",
  "  --max-depth=<n>      Maximum call depth when running (default 256)",
  "",
  "Logging:",
  "  RUST_LOG=debug tagsum run main.tsum",
  "",
  "Examples:",
  "  tagsum check shapes.tsum",
  "  tagsum expand shapes.tsum",
  "  tagsum run shapes.tsum --max-depth=1000",
  "  tagsum explain W3001",
  ""]

inductive Request where
  | done (output : Output)
  /-- The file at `path` is wanted. -/
  | file (path : String) (go : Except ReadFault (List Char) → Output)

/-- The command that works on a file, if `name` is one. -/
def fileCommand? : String → Option (Options → Input → Output)
  | "check" => some check
  | "expand" => some expand
  | "run" => some run
  | _ => none

def onFile (command : Options → Input → Output) (o : Options) (path : String)
    (text : Except ReadFault (List Char)) : Output :=
  match text with
  | .ok source => command o ⟨path, source⟩
  | .error f => .failure s!"error: cannot read '{path}': {f.message}\n"

/-- A message with the usage behind it. -/
def misuse (message : String) : Output :=
  { stdout := usage, stderr := message ++ "\n\n", success := false }

def dispatch (o : Options) (command : String) (args : List String) : Request :=
  match fileCommand? command with
  | some go =>
    match args with
    | path :: _ => .file path (onFile go o path)
    | [] => .done (.failure s!"Usage: tagsum {command} <file.tsum> [options]\n")
  | none =>
    match command with
    | "explain" | "--explain" =>
      match args with
      | code :: _ => .done (explain code)
      | [] => .done
        (.failure "Usage: tagsum explain <ERROR_CODE>\nExample: tagsum explain E3003\n")
    | "help" | "--help" | "-h" => .done { stdout := usage }
    | "version" | "--version" | "-v" => .done { stdout := s!"Tagsum {version}\n" }
    | _ => .done (misuse s!"Unknown command: {command}")

/-- What a command line asks for. Without any argument it asks for the usage. -/
def request (o : Options) : List String → Request
  | [] => .done { stdout := usage }
  | command :: args =>
    match o.read args with
    | .ok (o, args) => dispatch o command args
    | .error f => .done (misuse s!"error: {f.message}")

end ClosedSum.Command
