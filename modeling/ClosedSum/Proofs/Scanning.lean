import ClosedSum.Source.Span
import ClosedSum.Token.Scan
import Mathlib.Data.List.TakeWhile
import Mathlib.Tactic.Common

/-!
# Scanned texts

A scan cuts its text into lexemes and skips blanks and comments between them, and no character is
lost. `Laid` says how lexemes lie in a text. Offsets count bytes; the text in front of one is
carried along as a list of characters, so an offset that a lemma speaks of never falls inside a
character.
-/

namespace ClosedSum.Token

open Text

/-- Blanks and comments in front of `rest`. A comment runs to the end of its line. -/
inductive Skipped (rest : List Char) : List Char → Prop
  | nil : Skipped rest []
  | blank {c : Char} {gap : List Char} (hc : isSpace c = true) (h : Skipped rest gap) :
    Skipped rest (c :: gap)
  | comment {line gap : List Char} (hline : '\n' ∉ line)
    (hend : gap ++ rest = [] ∨ (gap ++ rest).head? = some '\n') (h : Skipped rest gap) :
    Skipped rest ('/' :: '/' :: (line ++ gap))

/-- Between two offsets of a text there are only blanks and comments. -/
def SkippedBetween (source : List Char) (start stop : Nat) : Prop :=
  ∃ gap rest, slice? source start stop = some gap ∧ dropBytes? source stop = some rest ∧
    Skipped rest gap

/-- Lexemes in a text that starts at `offset`. -/
inductive Laid : Nat → List Lexeme → List Char → Prop
  | done {offset : Nat} {gap : List Char} (h : Skipped [] gap) : Laid offset [] gap
  | lexeme {offset : Nat} {gap text rest : List Char} {l : Lexeme} {ls : List Lexeme}
    (hgap : Skipped (text ++ rest) gap) (htext : text ≠ [])
    (hstart : l.span.start = offset + byteLength gap)
    (hstop : l.span.stop = l.span.start + byteLength text) (h : Laid l.span.stop ls rest) :
    Laid offset (l :: ls) (gap ++ (text ++ rest))

lemma Laid.skip {offset : Nat} {front cs : List Char} {ls : List Lexeme}
    (hfront : ∀ gap rest, cs = gap ++ rest → Skipped rest gap → Skipped rest (front ++ gap))
    (h : Laid (offset + byteLength front) ls cs) : Laid offset ls (front ++ cs) := by
  cases h with
  | done h => exact .done (hfront _ [] (List.append_nil _).symm h)
  | @lexeme _ gap text rest l ls hgap htext hstart hstop h =>
    rw [← List.append_assoc]
    refine .lexeme (hfront gap _ rfl hgap) htext ?_ hstop h
    rw [hstart, byteLength_append, Nat.add_assoc]

lemma head?_dropWhile_newline (cs : List Char) :
    cs.dropWhile (· ≠ '\n') = [] ∨ (cs.dropWhile (· ≠ '\n')).head? = some '\n' := by
  have hhead := List.head?_dropWhile_not (· ≠ '\n') cs
  by_cases hnil : cs.dropWhile (· ≠ '\n') = []
  · exact .inl hnil
  · rw [List.head?_eq_some_head hnil] at hhead ⊢
    exact .inr (by simpa using hhead)

theorem lexemes_laid (offset : Nat) (cs : List Char) : Laid offset (lexemes offset cs) cs := by
  fun_induction lexemes offset cs with
  | case1 offset => exact .done .nil
  | case2 offset c cs hspace ih =>
    have hrest : Laid (offset + byteLength [c]) (lexemes (offset + c.utf8Size) cs) cs := by
      simpa using ih
    exact hrest.skip fun gap rest _ h => .blank hspace h
  | case3 offset c cs hspace hcomment ih =>
    obtain ⟨rfl, hslash⟩ := hcomment
    obtain ⟨cs, rfl⟩ := List.head?_eq_some_iff.mp hslash
    have hsplit : '/' :: '/' :: cs =
        ('/' :: '/' :: cs.takeWhile (· ≠ '\n')) ++ cs.dropWhile (· ≠ '\n') := by simp
    have hline : '\n' ∉ cs.takeWhile (· ≠ '\n') := fun h => by
      simpa using List.mem_takeWhile_imp h
    rw [hsplit]
    apply Laid.skip
    · intro gap rest heq h
      exact .comment hline (heq ▸ head?_dropWhile_newline cs) h
    · simpa using ih
  | case4 offset c cs hspace hcomment r stop ih =>
    have hread : Laid offset (⟨r.kind, ⟨offset, stop⟩⟩ :: lexemes stop r.rest)
        ([] ++ (r.text ++ r.rest)) := .lexeme .nil (read_text_ne_nil c cs) rfl rfl ih
    rwa [List.nil_append, read_append] at hread

lemma byteLength_pos {cs : List Char} (h : cs ≠ []) : 0 < byteLength cs := by
  obtain ⟨c, cs, rfl⟩ := List.exists_cons_of_ne_nil h
  have hc := Char.utf8Size_pos c
  rw [byteLength_cons]
  omega

section Laid

variable {offset : Nat} {pre cs : List Char} {ls : List Lexeme}

lemma Laid.advances (h : Laid offset ls cs) :
    ∀ l ∈ ls, offset ≤ l.span.start ∧ l.span.start < l.span.stop := by
  induction h with
  | done => exact List.forall_mem_nil _
  | @lexeme offset gap text rest l ls hgap htext hstart hstop h ih =>
    have hpos := byteLength_pos htext
    intro l' hl'
    by_cases hhead : l' = l
    · subst hhead
      omega
    · have hrest := ih l' ((List.mem_cons.mp hl').resolve_left hhead)
      omega

lemma Laid.pairwise (h : Laid offset ls cs) :
    ls.Pairwise fun a b => a.span.stop ≤ b.span.start := by
  induction h with
  | done => exact .nil
  | lexeme hgap htext hstart hstop h ih => exact .cons (fun l hl => (h.advances l hl).1) ih

lemma Laid.takes (h : Laid (byteLength pre) ls cs) : ∀ l ∈ ls,
    l.span.stop ≤ byteLength (pre ++ cs) ∧
      (slice? (pre ++ cs) l.span.start l.span.stop).isSome := by
  generalize hoffset : byteLength pre = offset at h
  induction h generalizing pre with
  | done => exact List.forall_mem_nil _
  | @lexeme offset gap text rest l ls hgap htext hstart hstop h ih =>
    have hsource : pre ++ (gap ++ (text ++ rest)) = (pre ++ gap) ++ (text ++ rest) := by simp
    have hfront : byteLength (pre ++ gap) = l.span.start := by
      rw [byteLength_append, hstart, hoffset]
    have hthrough : byteLength (pre ++ gap ++ text) = l.span.stop := by
      rw [byteLength_append, hfront, hstop]
    intro l' hl'
    rw [hsource]
    by_cases hhead : l' = l
    · subst hhead
      constructor
      · rw [← List.append_assoc, byteLength_append, hthrough]
        omega
      · rw [hstop, ← hfront, slice?_append]
        rfl
    · rw [← List.append_assoc]
      exact ih hthrough l' ((List.mem_cons.mp hl').resolve_left hhead)

/-- The stretches in front of each span and the one behind the last, up to `stop`. -/
def gaps (offset stop : Nat) : List Span → List (Nat × Nat)
  | [] => [(offset, stop)]
  | s :: ss => (offset, s.start) :: gaps s.stop stop ss

lemma Laid.skips (h : Laid (byteLength pre) ls cs) :
    ∀ gap ∈ gaps (byteLength pre) (byteLength (pre ++ cs)) (ls.map (·.span)),
      SkippedBetween (pre ++ cs) gap.1 gap.2 := by
  generalize hoffset : byteLength pre = offset at h
  induction h generalizing pre with
  | @done offset gap h =>
    subst hoffset
    refine List.forall_mem_singleton.mpr ⟨gap, [], ?_, ?_, h⟩
    · simpa using slice?_append pre gap []
    · simpa using dropBytes?_append (pre ++ gap) [] 0
  | @lexeme offset gap text rest l ls hgap htext hstart hstop h ih =>
    subst hoffset
    have hsource : pre ++ (gap ++ (text ++ rest)) = (pre ++ gap) ++ (text ++ rest) := by simp
    have hthrough : byteLength (pre ++ gap ++ text) = l.span.stop := by
      rw [byteLength_append, byteLength_append, hstop, hstart]
    have hrest := ih hthrough
    rw [List.append_assoc] at hrest
    rw [hsource]
    refine List.forall_mem_cons.mpr ⟨⟨gap, text ++ rest, ?_, ?_, hgap⟩, hrest⟩
    · rw [List.append_assoc, hstart, slice?_append]
    · rw [hstart, ← byteLength_append]
      simpa using dropBytes?_append (pre ++ gap) (text ++ rest) 0

end Laid

lemma forall_mem_lexemes {P : Except Cause Kind → Prop} (h : ∀ c cs, P (read c cs).kind)
    (offset : Nat) (cs : List Char) : ∀ l ∈ lexemes offset cs, P l.kind := by
  fun_induction lexemes offset cs with
  | case1 => exact List.forall_mem_nil _
  | case2 offset c cs hspace ih => exact ih
  | case3 offset c cs hspace hcomment ih => exact ih
  | case4 offset c cs hspace hcomment r stop ih => exact List.forall_mem_cons.mpr ⟨h c cs, ih⟩

lemma read_kind_ne (c : Char) (cs : List Char) :
    (read c cs).kind ≠ .ok .invalid ∧ (read c cs).kind ≠ .ok .eof := by
  unfold read
  by_cases hquote : c = '"'
  · rw [if_pos hquote]
    dsimp only
    split <;> simp
  · rw [if_neg hquote]
    by_cases hword : isWordStart c = true
    · rw [if_pos hword]
      unfold ofWord
      dsimp only
      repeat' split
      all_goals simp
    · rw [if_neg hword]
      unfold ofNumber
      dsimp only
      repeat' split
      all_goals simp

lemma map_span_fault? {ls : List Lexeme} (h : ∀ l ∈ ls, l.kind ≠ .ok .invalid) :
    (ls.filterMap (·.fault?)).map (·.span) =
      ((ls.map (·.token)).filter (·.kind = .invalid)).map (·.span) := by
  induction ls with
  | nil => rfl
  | cons l ls ih =>
    have hls := ih fun l' hl' => h l' (List.mem_cons_of_mem l hl')
    cases hkind : l.kind with
    | error cause =>
      have hfault : l.fault? = some ⟨cause, l.span⟩ := by rw [Lexeme.fault?, hkind]
      have htoken : l.token.kind = .invalid := by
        rw [Lexeme.token, hkind]
        rfl
      rw [List.filterMap_cons_some hfault, List.map_cons, List.map_cons,
        List.filter_cons_of_pos (by simpa using htoken), List.map_cons, hls]
      rfl
    | ok kind =>
      have hfault : l.fault? = none := by rw [Lexeme.fault?, hkind]
      have htoken : l.token.kind ≠ .invalid := fun heq => by
        rw [Lexeme.token, hkind] at heq
        exact h l List.mem_cons_self (hkind.trans (congrArg Except.ok heq))
      rw [List.filterMap_cons_none hfault, List.map_cons,
        List.filter_cons_of_neg (by simpa using htoken), hls]

lemma ofOffsets_of_le {s : Span} (hstop : s.stop ≤ Span.maxOffset) (hle : s.start ≤ s.stop) :
    Span.ofOffsets s.start s.stop = .ok s := by
  unfold Span.ofOffsets
  rw [if_neg (by omega), if_neg (by omega)]

/-- What it means that a scan loses nothing, where `ts` are the tokens before the end of file. -/
structure Lossless (source : List Char) (s : Scan) (ts : List Token) : Prop where
  tokens : s.tokens = ts ++ [⟨.eof, .point (byteLength source)⟩]
  not_eof : ∀ t ∈ ts, t.kind ≠ .eof
  nonempty : ∀ t ∈ ts, t.span.start < t.span.stop
  inside : ∀ t ∈ ts, t.span.stop ≤ byteLength source
  /-- Both ends of a span stand between two characters. -/
  boundaries : ∀ t ∈ ts, (slice? source t.span.start t.span.stop).isSome
  ordered : ts.Pairwise fun a b => a.span.stop ≤ b.span.start
  skips : ∀ gap ∈ gaps 0 (byteLength source) (ts.map (·.span)), SkippedBetween source gap.1 gap.2
  faults : s.faults.map (·.span) = (ts.filter (·.kind = .invalid)).map (·.span)
  /-- The offsets of all tokens, the last included, are ones that a span can hold. -/
  offsets : ∀ t ∈ s.tokens, Span.ofOffsets t.span.start t.span.stop = .ok t.span

/-- Scanning loses nothing: the tokens take stretches of the text one after the other, between them
there are only blanks and comments, and each invalid token has its fault. -/
theorem scan_lossless (source : List Char) (hsize : byteLength source ≤ Span.maxOffset) :
    ∃ ts, Lossless source (scan source) ts := by
  have hlaid : Laid (byteLength []) (lexemes 0 source) source := lexemes_laid 0 source
  have hkinds : ∀ l ∈ lexemes 0 source, l.kind ≠ .ok .invalid ∧ l.kind ≠ .ok .eof :=
    forall_mem_lexemes (P := fun kind => kind ≠ .ok .invalid ∧ kind ≠ .ok .eof) read_kind_ne 0
      source
  have hspans : ((lexemes 0 source).map (·.token)).map (·.span) =
      (lexemes 0 source).map (·.span) := by
    rw [List.map_map]
    rfl
  have hinside : ∀ t ∈ (lexemes 0 source).map (·.token), t.span.start < t.span.stop ∧
      t.span.stop ≤ byteLength source ∧ (slice? source t.span.start t.span.stop).isSome := by
    intro t ht
    obtain ⟨l, hl, rfl⟩ := List.mem_map.mp ht
    exact ⟨(hlaid.advances l hl).2, hlaid.takes l hl⟩
  refine ⟨(lexemes 0 source).map Lexeme.token, {
    tokens := rfl
    not_eof := ?_
    nonempty := fun t ht => (hinside t ht).1
    inside := fun t ht => (hinside t ht).2.1
    boundaries := fun t ht => (hinside t ht).2.2
    ordered := List.pairwise_map.mpr hlaid.pairwise
    skips := hspans ▸ hlaid.skips
    faults := map_span_fault? fun l hl => (hkinds l hl).1
    offsets := ?_ }⟩
  · intro t ht heof
    obtain ⟨l, hl, rfl⟩ := List.mem_map.mp ht
    cases hkind : l.kind with
    | error cause => simp [Lexeme.token, hkind, Except.toOption] at heof
    | ok kind =>
      rw [Lexeme.token, hkind] at heof
      exact (hkinds l hl).2 (hkind.trans (congrArg Except.ok heof))
  · intro t ht
    rcases List.mem_append.mp ht with hmem | hlast
    · have hspan := hinside t hmem
      exact ofOffsets_of_le (by omega) (by omega)
    · rw [List.mem_singleton.mp hlast]
      exact ofOffsets_of_le hsize (Nat.le_refl _)

/-- A letter of two bytes, a lone slash before a comment, and a string that ends with its line. -/
theorem scan_lossless_faults : byteLength "é / // no\n\"cut\\\n".toList ≤ Span.maxOffset ∧
    ∃ ts, Lossless "é / // no\n\"cut\\\n".toList (scan "é / // no\n\"cut\\\n".toList) ts := by
  have hsize : byteLength "é / // no\n\"cut\\\n".toList ≤ Span.maxOffset := by decide
  exact ⟨hsize, scan_lossless _ hsize⟩

end ClosedSum.Token
