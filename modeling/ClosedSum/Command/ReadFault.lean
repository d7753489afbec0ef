/-!
# Files that cannot be read

A file is refused by the system, which gives a number, or holds no text.
-/

namespace ClosedSum.Command

/-- What the numbers of the system say of a file. -/
def systemTexts : List (Nat × String) := [
  (1, "Operation not permitted"), (2, "No such file or directory"), (5, "Input/output error"),
  (6, "No such device or address"), (12, "Cannot allocate memory"), (13, "Permission denied"),
  (16, "Device or resource busy"), (20, "Not a directory"), (21, "Is a directory"),
  (22, "Invalid argument"), (23, "Too many open files in system"), (24, "Too many open files"),
  (36, "File name too long"), (40, "Too many levels of symbolic links")]

inductive ReadFault where
  | system (number : Nat)
  | notUtf8
  deriving DecidableEq, Repr

def ReadFault.message : ReadFault → String
  | .system number =>
    let text := (systemTexts.lookup number).getD s!"Unknown error {number}"
    s!"{text} (os error {number})"
  | .notUtf8 => "stream did not contain valid UTF-8"

end ClosedSum.Command
