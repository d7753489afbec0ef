import ClosedSum.Diagnostic.Render
import ClosedSum.Proofs.LineTables

/-!
# Underlines

A snippet shows the line of its label, and glyphs that start under the first character of the span.
How many there are is counted in the bytes of the span, up to the end of the line; so they end under
its last character just if the span has no wider characters than one byte, or ends the line.
-/

namespace ClosedSum

namespace Text

lemma exists_eq_dropEnd_append (p : Char → Bool) (cs : List Char) :
    ∃ ds, cs = dropEnd p cs ++ ds := by
  refine ⟨(cs.reverse.takeWhile p).reverse, ?_⟩
  rw [dropEnd, ← List.reverse_append, List.takeWhile_append_dropWhile, List.reverse_reverse]

lemma length_le_byteLength (cs : List Char) : cs.length ≤ byteLength cs := by
  induction cs with
  | nil => exact Nat.le_refl 0
  | cons c cs ih =>
    have := c.utf8Size_pos
    rw [List.length_cons, byteLength_cons]
    omega

lemma byteLength_eq_length_iff (cs : List Char) :
    byteLength cs = cs.length ↔ ∀ c ∈ cs, c.utf8Size = 1 := by
  induction cs with
  | nil => simp
  | cons c cs ih =>
    have hpos := c.utf8Size_pos
    have hle := length_le_byteLength cs
    rw [byteLength_cons, List.length_cons, List.forall_mem_cons, ← ih]
    omega

end Text

open Text

namespace Render

section Snippets

variable {text before line after pre mid post : List Char} {l : Label}

/-- Glyphs under a part of a line: its bytes, and no more than characters are left. -/
lemma underlineWidth_eq (hmid : mid ≠ []) (start : Nat) :
    underlineWidth (pre ++ (mid ++ post)) (pre.length + 1) ⟨start, start + byteLength mid⟩ =
      min (byteLength mid) (mid.length + post.length) := by
  have hpos := List.length_pos_iff.mpr hmid
  have hle := length_le_byteLength mid
  simp only [underlineWidth, Span.size, List.length_append, Nat.add_sub_cancel,
    Nat.add_sub_cancel_left]
  omega

/-- The glyphs are as many as the characters over them just if these are one byte each, or the last
ones of the line. -/
lemma min_byteLength_eq_length_iff (mid post : List Char) :
    min (byteLength mid) (mid.length + post.length) = mid.length ↔
      (∀ c ∈ mid, c.utf8Size = 1) ∨ post = [] := by
  have hle := length_le_byteLength mid
  rw [← byteLength_eq_length_iff, ← List.length_eq_zero_iff]
  omega

lemma line_of_label (hline : LineTable.IsLine text before line after)
    (hshown : dropEnd (· = '\r') line = pre ++ (mid ++ post)) :
    (LineTable.ofText text).lineColumn text (byteLength before + byteLength pre) =
        (before.count '\n' + 1, pre.length + 1) ∧
      (LineTable.ofText text).lineText? text (before.count '\n' + 1) =
        some (pre ++ (mid ++ post)) := by
  obtain ⟨returns, hreturns⟩ := exists_eq_dropEnd_append (· = '\r') line
  rw [hshown, List.append_assoc] at hreturns
  exact ⟨hline.lineColumn_eq hreturns, hshown ▸ hline.lineText?_eq⟩

/-- The snippet of a label on a part of a line shows the line, and glyphs from the first character
of the part. They are as many as its characters just if these are one byte each, or end the
line. -/
theorem write_snippet (path : String) (hline : LineTable.IsLine text before line after)
    (hshown : dropEnd (· = '\r') line = pre ++ (mid ++ post)) (hmid : mid ≠ [])
    (hstart : l.span.start = byteLength before + byteLength pre)
    (hstop : l.span.stop = l.span.start + byteLength mid) (colors : Bool) :
    let number := toString (before.count '\n' + 1)
    let pad := spaces number.length
    let glyph := if l.primary then '^' else '-'
    let glyphs := min (byteLength mid) (mid.length + post.length)
    let underline := "".pushn glyph glyphs
    write colors (snippet { path, text } l) =
        s!"{pad}{marker l} {path}:{number}:{pre.length + 1}\n" ++
        s!"{pad} |\n{number} | {String.ofList (pre ++ (mid ++ post))}\n" ++
        s!"{pad} | {spaces pre.length}" ++
        (styled (labelStyle l) s!"{underline} {l.message}").write colors ++ "\n" ∧
      (glyphs = mid.length ↔ (∀ c ∈ mid, c.utf8Size = 1) ∨ post = []) := by
  intro number pad glyph glyphs underline
  refine ⟨?_, min_byteLength_eq_length_iff mid post⟩
  obtain ⟨hposition, htext⟩ := line_of_label hline hshown
  have hspan : l.span = ⟨l.span.start, l.span.start + byteLength mid⟩ := by rw [← hstop]
  have hwidth : underlineWidth (pre ++ (mid ++ post)) (pre.length + 1) l.span = glyphs := by
    rw [hspan]
    exact underlineWidth_eq hmid _
  simp only [snippet, hstart, hposition, htext, hwidth, write, List.map_cons, List.map_nil]
  simp [String.join, Piece.write, plain, String.append_assoc, number, pad, glyph, underline]
  rfl

end Snippets

/-- Two lines, the second with wider characters than one byte and a carriage return. -/
def accented : Source := { path := "a.tsum", text := "a = 1\né = ñ\r\n".toList }

def leftFault : Label := ⟨⟨6, 8⟩, "not known", true⟩

def rightFault : Label := ⟨⟨11, 13⟩, "not known", true⟩

lemma isLine_accented :
    LineTable.IsLine accented.text "a = 1\n".toList "é = ñ\r".toList ['\n'] where
  text_eq := by decide +kernel
  begins := .inr ⟨"a = 1".toList, by decide +kernel⟩
  whole := by decide +kernel
  ends := .inr ⟨[], rfl⟩

/-- One glyph stands under the one character at the end of a line, though it is two bytes. -/
theorem write_snippet_last :
    LineTable.IsLine accented.text "a = 1\n".toList "é = ñ\r".toList ['\n'] ∧
      dropEnd (· = '\r') "é = ñ\r".toList = "é = ".toList ++ (['ñ'] ++ []) ∧
      write true (snippet accented rightFault) =
        " --> a.tsum:2:5\n  |\n2 | é = ñ\n  |     \x1b[1;31m^ not known\x1b[0m\n" := by
  have hshown : dropEnd (· = '\r') "é = ñ\r".toList = "é = ".toList ++ (['ñ'] ++ []) := by
    decide +kernel
  obtain ⟨hwrite, -⟩ := write_snippet (l := rightFault) accented.path isLine_accented
    hshown (List.cons_ne_nil _ _) (by decide +kernel) (by decide +kernel) true
  exact ⟨isLine_accented, hshown, hwrite.trans (by decide +kernel)⟩

/-- Two glyphs stand under one character of two bytes, the second one under the blank behind it. -/
theorem write_snippet_wide :
    LineTable.IsLine accented.text "a = 1\n".toList "é = ñ\r".toList ['\n'] ∧
      dropEnd (· = '\r') "é = ñ\r".toList = [] ++ (['é'] ++ " = ñ".toList) ∧
      leftFault.span = ⟨byteLength "a = 1\n".toList, byteLength ("a = 1\n".toList ++ ['é'])⟩ ∧
      write false (snippet accented leftFault) =
        " --> a.tsum:2:1\n  |\n2 | é = ñ\n  | ^^ not known\n" :=
  ⟨isLine_accented, by decide +kernel, by decide +kernel, by decide +kernel⟩

end Render

end ClosedSum
