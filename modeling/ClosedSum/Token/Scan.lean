import ClosedSum.Integer
import ClosedSum.Text.Blank
import ClosedSum.Text.Utf8
import ClosedSum.Token.Basic

/-!
# Scanning

A text is cut into lexemes, each as long as it can be, with blanks and comments between them. No
character is lost: `read_append` splits the text at each lexeme.
-/

namespace ClosedSum.Token

open Text

def isSpace (c : Char) : Bool := c = ' ' || c = '\t' || c = '\r' || c = '\n'

def isWordStart (c : Char) : Bool := c.isAlpha || c = '_'

def isWordChar (c : Char) : Bool := c.isAlphanum || c = '_'

def isNumberChar (c : Char) : Bool := c.isDigit || c = '_'

def ofWord (word : List Char) : Kind :=
  let name := String.ofList word
  if name = Symbol.underscore.text then .symbol .underscore
  else match Keyword.all.find? (·.text = name) with
    | some word => .keyword word
    | none => .ident name

def ofNumber (digits : List Char) : Except Cause Kind :=
  let value := Integer.ofDigits (digits.filter (·.isDigit))
  if value ≤ Integer.greatest then .ok (.int value) else .error .integerOutOfRange

/-- The character that an escape stands for. -/
def unescape : Char → Char
  | 'n' => '\n'
  | 't' => '\t'
  | 'r' => '\r'
  | '0' => '\x00'
  | c => c

/-- Splits the text after an opening quote into a value, the body that spells it and the rest. The
body ends with a closing quote, or without a value where none can follow: at the end of the text, or
at a backslash that ends its line. -/
def readString : List Char → Option (List Char) × List Char × List Char
  | [] => (none, [], [])
  | '"' :: cs => (some [], ['"'], cs)
  | ['\\'] => (none, [], ['\\'])
  | '\\' :: c :: cs =>
    if c = '\n' then (none, [], '\\' :: c :: cs)
    else
      let (value, body, rest) := readString cs
      (value.map (unescape c :: ·), '\\' :: c :: body, rest)
  | c :: cs =>
    let (value, body, rest) := readString cs
    (value.map (c :: ·), c :: body, rest)

/-- Splits the text after `#[` at the bracket that closes it, given the brackets open inside. An
attribute that is never closed takes all the text and has no value. -/
def readAttribute (depth : Nat) : List Char → Option (List Char) × List Char × List Char
  | [] => (none, [], [])
  | c :: cs =>
    if c = ']' ∧ depth = 0 then (some [], [c], cs)
    else
      let inner := if c = '[' then depth + 1 else if c = ']' then depth - 1 else depth
      let (value, body, rest) := readAttribute inner cs
      (value.map (c :: ·), c :: body, rest)

/-- One lexeme: what it reads as, the text it takes and the text behind it. -/
structure Reading where
  kind : Except Cause Kind
  text : List Char
  rest : List Char

/-- Reads the lexeme that starts with `c`, which is neither blank nor the start of a comment. -/
def read (c : Char) (cs : List Char) : Reading :=
  if c = '"' then
    let (value, body, rest) := readString cs
    ⟨match value with
      | some value => .ok (.str (String.ofList value))
      | none => .error .unterminatedString, c :: body, rest⟩
  else if isWordStart c then
    let word := c :: cs.takeWhile isWordChar
    ⟨.ok (ofWord word), word, cs.dropWhile isWordChar⟩
  else if c.isDigit then
    let number := c :: cs.takeWhile isNumberChar
    ⟨ofNumber number, number, cs.dropWhile isNumberChar⟩
  else if c = '#' ∧ cs.head? = some '[' then
    let (value, body, rest) := readAttribute 0 cs.tail
    ⟨match value with
      | some value => .ok (.attr (String.ofList (trim value)))
      | none => .error .unterminatedAttribute, c :: '[' :: body, rest⟩
  else match Symbol.scanned.find? (·.text.toList.isPrefixOf (c :: cs)) with
    | some sign =>
      ⟨.ok (.symbol sign), sign.text.toList, (c :: cs).drop sign.text.length⟩
    | none => ⟨.error (.invalidCharacter c), [c], cs⟩

theorem readString_append (cs : List Char) : (readString cs).2.1 ++ (readString cs).2.2 = cs := by
  fun_induction readString cs <;> simp_all

theorem readAttribute_append (depth : Nat) (cs : List Char) :
    (readAttribute depth cs).2.1 ++ (readAttribute depth cs).2.2 = cs := by
  fun_induction readAttribute depth cs <;> simp_all

theorem symbol_text_ne_empty (sign : Symbol) : sign.text ≠ "" := by
  cases sign <;> decide

theorem read_append (c : Char) (cs : List Char) :
    (read c cs).text ++ (read c cs).rest = c :: cs := by
  unfold read
  split
  · simp [readString_append]
  · split
    · simp
    · split
      · simp
      · split
        · next h =>
          obtain ⟨tail, rfl⟩ : ∃ tail, cs = '[' :: tail := by
            cases cs with
            | nil => simp at h
            | cons d tail => exact ⟨tail, by simpa using h.2⟩
          simp [readAttribute_append]
        · split
          · next h =>
            have hp := List.find?_some h
            obtain ⟨rest, hrest⟩ := List.isPrefixOf_iff_prefix.mp hp
            simp [← hrest, ← String.length_toList]
          · simp

theorem read_text_ne_nil (c : Char) (cs : List Char) : (read c cs).text ≠ [] := by
  unfold read
  repeat' split
  all_goals simp [symbol_text_ne_empty]

theorem read_rest_length (c : Char) (cs : List Char) : (read c cs).rest.length ≤ cs.length := by
  have happ := congrArg List.length (read_append c cs)
  have hpos := List.length_pos_iff.mpr (read_text_ne_nil c cs)
  simp at happ
  omega

/-- A lexeme with its place in the source. -/
structure Lexeme where
  kind : Except Cause Kind
  span : Span

def Lexeme.token (l : Lexeme) : Token := ⟨l.kind.toOption.getD .invalid, l.span⟩

def Lexeme.fault? (l : Lexeme) : Option Fault :=
  match l.kind with
  | .ok _ => none
  | .error cause => some ⟨cause, l.span⟩

/-- The lexemes of a text that starts at `offset`. -/
def lexemes (offset : Nat) : List Char → List Lexeme
  | [] => []
  | c :: cs =>
    if isSpace c then lexemes (offset + c.utf8Size) cs
    else if c = '/' ∧ cs.head? = some '/' then
      lexemes (offset + byteLength (c :: cs.takeWhile (· ≠ '\n'))) (cs.dropWhile (· ≠ '\n'))
    else
      let r := read c cs
      let stop := offset + byteLength r.text
      ⟨r.kind, ⟨offset, stop⟩⟩ :: lexemes stop r.rest
  termination_by cs => cs.length
  decreasing_by
  · simp
  · exact Nat.lt_succ_of_le (List.dropWhile_sublist _).length_le
  · exact Nat.lt_succ_of_le (read_rest_length c cs)

/-- The tokens of a source text, closed by the end of the file, and its faults in order. -/
structure Scan where
  tokens : List Token
  faults : List Fault

def scan (source : List Char) : Scan :=
  let ls := lexemes 0 source
  ⟨ls.map (·.token) ++ [⟨.eof, .point (byteLength source)⟩], ls.filterMap (·.fault?)⟩

end ClosedSum.Token
