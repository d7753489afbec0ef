import ClosedSum.Command.Run
import ClosedSum.Proofs.Positions

/-!
# Colours

Colours are put around pieces of a rendered text as escape sequences. A text that has no escape
character of its own comes back when the sequences are deleted: nothing else of it is lost, and
nothing of a sequence is left.
-/

namespace ClosedSum

namespace Render

/-- The character that begins an escape sequence. -/
def escape : Char := '\x1b'

def isParameter (c : Char) : Bool := c.isDigit || c = ';'

/-- What follows a colour sequence: an escape character, a bracket, parameters and an `m`. -/
def afterColor? : List Char → Option (List Char)
  | '\x1b' :: '[' :: cs =>
    match cs.dropWhile isParameter with
    | 'm' :: rest => some rest
    | _ => none
  | _ => none

lemma length_lt_of_afterColor? {cs rest : List Char} (h : afterColor? cs = some rest) :
    rest.length < cs.length := by
  unfold afterColor? at h
  split at h
  · next cs =>
    split at h
    · next rest' hdrop =>
      cases h
      have hle := (List.dropWhile_suffix isParameter (l := cs)).length_le
      rw [hdrop] at hle
      simp only [List.length_cons] at hle ⊢
      omega
    · cases h
  · cases h

/-- Deletes the colour sequences of a text. -/
def uncolored (cs : List Char) : List Char :=
  match h : afterColor? cs with
  | some rest =>
    have := length_lt_of_afterColor? h
    uncolored rest
  | none =>
    match cs with
    | [] => []
    | c :: cs => c :: uncolored cs
termination_by cs.length

section Deleting

variable {cs ds : List Char}

lemma uncolored_nil : uncolored [] = [] := by
  rw [uncolored]
  rfl

lemma uncolored_of_afterColor? (h : afterColor? cs = some ds) : uncolored cs = uncolored ds := by
  rw [uncolored]
  split
  · next rest hrest =>
    rw [h] at hrest
    cases hrest
    rfl
  · next hnone =>
    rw [h] at hnone
    cases hnone

lemma uncolored_cons {c : Char} (hc : c ≠ escape) (cs : List Char) :
    uncolored (c :: cs) = c :: uncolored cs := by
  have hnone : afterColor? (c :: cs) = none := by
    unfold afterColor?
    split
    · next heq => exact absurd (List.cons.inj heq).1 hc
    · rfl
  rw [uncolored]
  split
  · next hsome =>
    rw [hnone] at hsome
    cases hsome
  · rfl

/-- Text without escape characters stays. -/
lemma uncolored_append (hcs : escape ∉ cs) (ds : List Char) :
    uncolored (cs ++ ds) = cs ++ uncolored ds := by
  induction cs with
  | nil => rfl
  | cons c cs ih =>
    rw [List.mem_cons, not_or] at hcs
    rw [List.cons_append, uncolored_cons (Ne.symm hcs.1), ih hcs.2, List.cons_append]

lemma uncolored_start (style : Style) (ds : List Char) :
    uncolored (style.start.toList ++ ds) = uncolored ds := by
  cases style <;> exact uncolored_of_afterColor? rfl

lemma uncolored_styleEnd (ds : List Char) : uncolored (styleEnd.toList ++ ds) = uncolored ds :=
  uncolored_of_afterColor? rfl

end Deleting

section Pieces

/-- A text without escape characters. -/
def Clean (s : String) : Prop := escape ∉ s.toList

variable {p : Piece} {ps : List Piece}

lemma uncolored_piece (hp : Clean p.text) (ds : List Char) :
    uncolored ((p.write true).toList ++ ds) = (p.write false).toList ++ uncolored ds := by
  unfold Piece.write
  split
  · next style _ =>
    rw [if_pos rfl, if_neg Bool.false_ne_true, String.toList_append, String.toList_append,
      List.append_assoc, List.append_assoc, uncolored_start, uncolored_append hp,
      uncolored_styleEnd]
  · exact uncolored_append hp ds

lemma write_cons (colors : Bool) (p : Piece) (ps : List Piece) :
    write colors (p :: ps) = p.write colors ++ write colors ps := by
  rw [write, List.map_cons, String.join_cons, write]

/-- Pieces are written alike, but for colour sequences. -/
theorem uncolored_write (h : ∀ p ∈ ps, Clean p.text) :
    uncolored (write true ps).toList = (write false ps).toList := by
  induction ps with
  | nil => exact uncolored_nil
  | cons p ps ih =>
    obtain ⟨hp, hps⟩ := List.forall_mem_cons.mp h
    rw [write_cons, write_cons, String.toList_append, String.toList_append, uncolored_piece hp,
      ih hps]

end Pieces

section Texts

instance (s : String) : Decidable (Clean s) := inferInstanceAs (Decidable (escape ∉ s.toList))

@[simp] lemma clean_append {s t : String} : Clean (s ++ t) ↔ Clean s ∧ Clean t := by
  simp [Clean]

@[simp] lemma clean_toString {s : String} : Clean (toString s) ↔ Clean s := Iff.rfl

@[simp] lemma clean_ofList {cs : List Char} : Clean (String.ofList cs) ↔ escape ∉ cs := by
  simp [Clean]

@[simp] lemma clean_repr (n : Nat) : Clean n.repr := by
  intro h
  rw [Nat.repr, String.toList_ofList] at h
  exact absurd (Nat.isDigit_of_mem_toDigits (by decide) (by decide) h) (by decide)

lemma toList_pushn (s : String) (c : Char) (n : Nat) :
    (s.pushn c n).toList = s.toList ++ List.replicate n c := by
  induction n with
  | zero => simp [String.pushn, Nat.repeat]
  | succ n ih =>
    have hstep : s.pushn c (n + 1) = (s.pushn c n).push c := rfl
    rw [hstep, String.toList_push, ih, List.append_assoc, ← List.replicate_succ']

lemma clean_pushn {c : Char} (hc : c ≠ escape) (n : Nat) : Clean ("".pushn c n) := by
  intro h
  rw [toList_pushn] at h
  simp only [String.toList_empty, List.nil_append, List.mem_replicate] at h
  exact hc h.2.symm

@[simp] lemma clean_spaces (n : Nat) : Clean (spaces n) := clean_pushn (by decide) n

@[simp] lemma clean_marker (l : Label) : Clean (marker l) := by
  unfold marker
  split <;> decide

end Texts

section Diagnostics

/-- A diagnostic without escape characters. -/
structure CleanDiagnostic (d : Diagnostic) : Prop where
  message : Clean d.message
  labels : ∀ l ∈ d.labels, Clean l.message
  notes : ∀ n ∈ d.notes, Clean n
  suggestions : ∀ s ∈ d.suggestions, Clean s

variable {path : String} {text : List Char} {l : Label} {d : Diagnostic}

lemma clean_snippet (hpath : Clean path) (htext : escape ∉ text) (hl : Clean l.message) :
    ∀ p ∈ snippet { path, text } l, Clean p.text := by
  simp only [snippet]
  split
  · simp +decide [plain, hpath]
  · next shown hshown =>
    have hline : escape ∉ shown := fun h => htext (LineTable.lineText?_subset hshown h)
    have hglyphs : ∀ n, Clean ("".pushn (if l.primary = true then '^' else '-') n) := fun n =>
      clean_pushn (by split <;> decide) n
    simp +decide [plain, styled, hpath, hline, hglyphs, hl]

lemma clean_diagnostic (hpath : Clean path) (htext : escape ∉ text) (hd : CleanDiagnostic d) :
    ∀ p ∈ diagnostic (some { path, text }) d, Clean p.text := by
  have hseverity : Clean (severity d.severity).text := by
    cases d.severity <;> decide
  have hcode : Clean d.code.id := by
    cases d.code <;> decide
  simp only [diagnostic, List.forall_mem_append, List.forall_mem_flatMap, List.forall_mem_cons]
  refine ⟨⟨⟨⟨⟨hseverity, ?_, ?_, List.forall_mem_nil _⟩, ?_⟩, ?_⟩, ?_⟩, ?_⟩
  · simp +decide [styled, hcode]
  · simp +decide [plain, hd.message]
  · exact fun l hl => clean_snippet hpath htext (hd.labels l hl)
  · intro n hn
    simp +decide [plain, hd.notes n hn]
  · intro s hs
    simp +decide [plain, hd.suggestions s hs]
  · simp +decide

lemma clean_tally (errors warnings : Nat) : ∀ p ∈ tally errors warnings, Clean p.text := by
  have hplural : ∀ n, Clean (plural n) := fun n => by
    unfold plural
    split <;> decide
  unfold tally
  dsimp only
  split
  · split <;> split <;> simp +decide [plain, severity, styled, hplural, Severity.name]
  · split <;> simp +decide [plain, severity, styled, hplural, Severity.name]

lemma clean_write {ps : List Piece} (h : ∀ p ∈ ps, Clean p.text) : Clean (write false ps) := by
  induction ps with
  | nil => decide
  | cons p ps ih =>
    obtain ⟨hp, hps⟩ := List.forall_mem_cons.mp h
    have hpiece : p.write false = p.text := by
      unfold Piece.write
      split <;> rfl
    rw [write_cons, clean_append, hpiece]
    exact ⟨hp, ih hps⟩

/-- A styled piece in front is written with colours. -/
lemma not_clean_write (style : Style) (text : String) (ps : List Piece) :
    ¬ Clean (write true (styled style text :: ps)) := by
  have hstart : ¬ Clean style.start := by
    cases style <;> decide
  have hwrite : (styled style text).write true = style.start ++ text ++ styleEnd := rfl
  rw [write_cons, hwrite]
  simp [hstart]

lemma exists_severity_eq (s : Severity) : ∃ style, severity s = styled style s.name := by
  cases s
  · exact ⟨.error, rfl⟩
  · exact ⟨.warning, rfl⟩

end Diagnostics

end Render

namespace Command

open Render (uncolored Clean CleanDiagnostic escape)

variable {on off : Options} {i : Input} {ds : List Diagnostic}

/-- Colours never change the text. Rendered with colours, diagnostics and the line that counts them
are the text that is rendered without, once the colour sequences are deleted. Without colours there
are no sequences, and with colours there are, unless there is nothing to report. -/
theorem uncolored_renderAll (hpath : Clean i.path) (hsource : escape ∉ i.source)
    (hds : ∀ d ∈ ds, CleanDiagnostic d) (hon : on.color.useColors on.terminal = true)
    (hoff : off.color.useColors off.terminal = false) :
    uncolored (renderAll on i ds).toList = (renderAll off i ds).toList ∧
      Clean (renderAll off i ds) ∧ (Clean (renderAll on i ds) ↔ ds = []) := by
  have hclean : ∀ p ∈ ds.flatMap (Render.diagnostic (some { path := i.path, text := i.source })) ++
      Render.tally (ds.countP (·.isError)) (ds.countP (·.isWarning)), Clean p.text := by
    refine List.forall_mem_append.mpr ⟨?_, Render.clean_tally _ _⟩
    exact List.forall_mem_flatMap.mpr fun d hd =>
      Render.clean_diagnostic hpath hsource (hds d hd)
  unfold renderAll
  rw [hon, hoff]
  refine ⟨Render.uncolored_write hclean, Render.clean_write hclean, ?_, ?_⟩
  · intro h
    cases ds with
    | nil => rfl
    | cons d ds =>
      obtain ⟨style, hstyle⟩ := Render.exists_severity_eq d.severity
      simp only [List.flatMap_cons, Render.diagnostic, hstyle, List.cons_append] at h
      exact absurd h (Render.not_clean_write style d.severity.name _)
  · rintro rfl
    exact List.not_mem_nil

/-- A text with brackets, a digit and an `m`, but no escape character. -/
def bracketed : Input := { path := "a.tsum", source := "a = 1\né = [1m".toList }

def bracketedFault : Diagnostic :=
  ({ code := .repeatedClause, message := "bad `é`" } : Diagnostic).label ⟨6, 8⟩ "this"
    |>.related ⟨0, 1⟩ "and [1m" |>.note "twice" |>.suggest "remove one"

/-- What is rendered without colours. -/
def bracketedText : String :=
  "error[E3003]: bad `é`\n --> a.tsum:2:1\n  |\n2 | é = [1m\n  | ^^ this\n" ++
    " ::: a.tsum:1:1\n  |\n1 | a = 1\n  | - and [1m\n  = note: twice\n" ++
    "  = help: remove one\n\nerror: aborting due to previous error\n"

/-- Brackets and digits that belong to no colour stay where they are. -/
theorem uncolored_renderAll_bracketed :
    Clean bracketed.path ∧ escape ∉ bracketed.source ∧ CleanDiagnostic bracketedFault ∧
      uncolored (renderAll { color := .always } bracketed [bracketedFault]).toList =
        bracketedText.toList := by
  have hpath : Clean bracketed.path := by decide
  have hsource : escape ∉ bracketed.source := by decide +kernel
  have hfault : CleanDiagnostic bracketedFault :=
    ⟨by decide, by decide, by decide, by decide⟩
  obtain ⟨hsame, -⟩ := @uncolored_renderAll { color := .always } { color := .never } bracketed
    [bracketedFault] hpath hsource (List.forall_mem_singleton.mpr hfault) rfl rfl
  have htext : renderAll { color := .never } bracketed [bracketedFault] = bracketedText := by
    decide +kernel
  exact ⟨hpath, hsource, hfault, hsame.trans (congrArg String.toList htext)⟩

end Command

end ClosedSum
