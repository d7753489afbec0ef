import ClosedSum.Diagnostic.Basic
import ClosedSum.Source.Lines

/-!
# Rendering for a terminal

A diagnostic is laid out as a list of pieces, some of them with a style. Colour comes in only when
the pieces are written, so it cannot change the text.
-/

namespace ClosedSum

open Text

namespace Render

inductive Style where
  | error | warning | help | bold | related
  deriving DecidableEq, Repr

/-- The escape sequence that starts a style. -/
def Style.start : Style → String
  | .error => "\x1b[1;31m"
  | .warning => "\x1b[1;33m"
  | .help => "\x1b[1;32m"
  | .bold => "\x1b[1m"
  | .related => "\x1b[1;34m"

def styleEnd : String := "\x1b[0m"

structure Piece where
  text : String
  style : Option Style := none

def plain (text : String) : Piece := { text }

def styled (style : Style) (text : String) : Piece := { text, style := some style }

def Piece.write (colors : Bool) (p : Piece) : String :=
  match p.style with
  | some style => if colors then style.start ++ p.text ++ styleEnd else p.text
  | none => p.text

def write (colors : Bool) (pieces : List Piece) : String :=
  String.join (pieces.map (Piece.write colors))

inductive ColorMode where
  /-- Colours on a terminal only. -/
  | auto
  | always
  | never
  deriving DecidableEq, Repr, Inhabited

def ColorMode.useColors (mode : ColorMode) (terminal : Bool) : Bool :=
  match mode with
  | .auto => terminal
  | .always => true
  | .never => false

def ColorMode.parse? : String → Option ColorMode
  | "auto" => some .auto
  | "always" => some .always
  | "never" => some .never
  | _ => none

/-- A source text with the path under which it is shown. -/
structure Source where
  path : String
  text : List Char
  lines : LineTable := .ofText text

def spaces (n : Nat) : String := "".pushn ' ' n

def labelStyle (l : Label) : Style := if l.primary then .error else .related

def marker (l : Label) : String := if l.primary then "-->" else ":::"

/-- Glyphs under a span: one at least, and none past the end of its line. -/
def underlineWidth (line : List Char) (column : Nat) (span : Span) : Nat :=
  max 1 (min span.size (max 1 (line.length - (column - 1))))

/-- The line of a label with the label's message under its glyphs. -/
def snippet (source : Source) (l : Label) : List Piece :=
  let (line, column) := source.lines.lineColumn source.text l.span.start
  let number := toString line
  let pad := spaces number.length
  let location := plain s!"{pad}{marker l} {source.path}:{line}:{column}\n"
  match source.lines.lineText? source.text line with
  | none => [location]
  | some text =>
    let glyph := if l.primary then '^' else '-'
    let underline := "".pushn glyph (underlineWidth text column l.span)
    [location, plain s!"{pad} |\n{number} | {String.ofList text}\n{pad} | {spaces (column - 1)}",
      styled (labelStyle l) s!"{underline} {l.message}", plain "\n"]

def label (source? : Option Source) (l : Label) : List Piece :=
  match source? with
  | some source => snippet source l
  | none => [plain s!"  {marker l} {l.span}: ", styled (labelStyle l) l.message, plain "\n"]

def severity (s : Severity) : Piece :=
  match s with
  | .error => styled .error s.name
  | .warning => styled .warning s.name

def diagnostic (source? : Option Source) (d : Diagnostic) : List Piece :=
  [severity d.severity, styled .bold s!"[{d.code.id}]", plain s!": {d.message}\n"] ++
    d.labels.flatMap (label source?) ++
    d.notes.flatMap (fun n => [plain "  = ", styled .bold "note", plain s!": {n}\n"]) ++
    d.suggestions.flatMap (fun s => [plain "  = ", styled .help "help", plain s!": {s}\n"]) ++
    [plain "\n"]

def plural (n : Nat) : String := if n = 1 then "" else "s"

/-- The closing line, which counts what was shown. Nothing shown needs no line. -/
def tally (errors warnings : Nat) : List Piece :=
  let emitted := s!"{warnings} warning{plural warnings} emitted"
  if 0 < errors then
    let previous := if errors = 1 then "previous error" else s!"{errors} previous errors"
    let rest := if 0 < warnings then s!"; {emitted}" else ""
    [severity .error, plain s!": aborting due to {previous}{rest}\n"]
  else if 0 < warnings then [severity .warning, plain s!": {emitted}\n"]
  else []

end Render

end ClosedSum
