import ClosedSum.Command.Line

/-!
# The program

Reads the arguments and the file they name, and writes what the command gives.
-/

open ClosedSum.Command

namespace ClosedSum

/-- The number that the system gave. It may come with its sign turned. -/
def systemNumber : IO.Error → UInt32
  | .noFileOrDirectory _ n _ | .permissionDenied _ n _ | .inappropriateType _ n _
  | .invalidArgument _ n _ | .resourceExhausted _ n _ | .noSuchThing _ n _ | .interrupted _ n _
  | .alreadyExists _ n _ => n
  | .otherError n _ | .resourceBusy n _ | .resourceVanished n _ | .unsupportedOperation n _
  | .hardwareFault n _ | .unsatisfiedConstraints n _ | .illegalOperation n _
  | .protocolError n _ | .timeExpired n _ => n
  | .unexpectedEof | .userError _ => 5

def readFaultOf (e : IO.Error) : ReadFault :=
  let n := systemNumber e
  .system (if n < 0x80000000 then n else 0 - n).toNat

def readSource (path : String) : IO (Except ReadFault (List Char)) := do
  try
    let bytes ← IO.FS.readBinFile path
    return match String.fromUTF8? bytes with
      | some text => .ok text.toList
      | none => .error .notUtf8
  catch e => return .error (readFaultOf e)

def answer : Request → IO Output
  | .done output => pure output
  | .file path go => do return go (← readSource path)

end ClosedSum

def main (args : List String) : IO UInt32 := do
  let terminal ← (← IO.getStderr).isTty
  let output ← ClosedSum.answer (request { terminal } args)
  IO.print output.stdout
  IO.eprint output.stderr
  return if output.success then 0 else 1
