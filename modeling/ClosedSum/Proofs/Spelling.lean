import ClosedSum.Token.Scan
import Mathlib.Data.List.Infix
import Mathlib.Data.List.TakeWhile
import Mathlib.Tactic.Common

/-!
# Spelled tokens

Tokens that are written down one blank apart are read back as they were. Numbers, strings and
attributes may be written in several ways, and each of them is read as the same token. What makes
the reading unique is that no lexeme goes on behind a blank, unless a bracket or a quote is open.
-/

namespace ClosedSum.Token

open Text

/-- The digits of a number: zeros may stand in front, and underscores behind the first digit. -/
def Numeral (n : Nat) (cs : List Char) : Prop :=
  cs.head? ≠ some '_' ∧
    ∃ zeros, cs.filter (· ≠ '_') = List.replicate zeros '0' ++ Nat.toDigits 10 n

/-- The characters that have an escape, with the character that stands for them behind the
backslash. -/
def escapes : List (Char × Char) :=
  [('\\', '\\'), ('"', '"'), ('\n', 'n'), ('\t', 't'), ('\r', 'r'), ('\x00', '0')]

/-- What stands between the quotes of a string. Quotes and backslashes are always escaped. -/
inductive Quoted : List Char → List Char → Prop
  | nil : Quoted [] []
  | plain {c : Char} {cs body : List Char} (hquote : c ≠ '"') (hslash : c ≠ '\\')
    (h : Quoted cs body) : Quoted (c :: cs) (c :: body)
  | escape {c e : Char} {cs body : List Char} (he : (c, e) ∈ escapes) (h : Quoted cs body) :
    Quoted (c :: cs) ('\\' :: e :: body)

/-- Every bracket is closed, and none before it was opened. -/
def Balanced (cs : List Char) : Prop :=
  (∀ front, front <+: cs → front.count ']' ≤ front.count '[') ∧ cs.count ']' = cs.count '['

instance (cs : List Char) : Decidable (Balanced cs) :=
  decidable_of_iff ((∀ front ∈ cs.inits, front.count ']' ≤ front.count '[') ∧
    cs.count ']' = cs.count '[') (by simp only [Balanced, List.mem_inits])

def Trimmed (cs : List Char) : Prop :=
  (∀ c ∈ cs.head?, isBlank c = false) ∧ ∀ c ∈ cs.getLast?, isBlank c = false

instance (cs : List Char) : Decidable (Trimmed cs) :=
  decidable_of_iff (cs.head?.all (!isBlank ·) = true ∧ cs.getLast?.all (!isBlank ·) = true)
    (by simp [Trimmed, Option.all_eq_true])

/-- A letter or an underscore, and any letters, digits and underscores behind it. -/
def IsWord (cs : List Char) : Prop :=
  (∃ c ∈ cs.head?, isWordStart c = true) ∧ ∀ c ∈ cs, isWordChar c = true

instance (cs : List Char) : Decidable (IsWord cs) :=
  decidable_of_iff (cs.head?.any isWordStart = true ∧ cs.all isWordChar = true)
    (by simp [IsWord, Option.any_eq_true])

/-- How a token is written, and how a number is that is none for its size. -/
inductive Spells : Except Cause Kind → List Char → Prop
  | keyword (word : Keyword) : Spells (.ok (.keyword word)) word.text.toList
  | symbol (sign : Symbol) : Spells (.ok (.symbol sign)) sign.text.toList
  | ident {name : String} (h : IsWord name.toList) (hsymbol : name ≠ Symbol.underscore.text)
    (hkeyword : ∀ word : Keyword, word.text ≠ name) : Spells (.ok (.ident name)) name.toList
  | int {n : Nat} {cs : List Char} (h : Numeral n cs) (hn : n ≤ Integer.greatest) :
    Spells (.ok (.int n)) cs
  | tooLarge {n : Nat} {cs : List Char} (h : Numeral n cs) (hn : Integer.greatest < n) :
    Spells (.error .integerOutOfRange) cs
  | str {text : String} {body : List Char} (h : Quoted text.toList body) :
    Spells (.ok (.str text)) ('"' :: body ++ ['"'])
  | attr {text : String} (htrim : Trimmed text.toList) (h : Balanced text.toList) :
    Spells (.ok (.attr text)) ('#' :: '[' :: text.toList ++ [']'])

/-- A text that spells tokens, with one blank behind each but the last. -/
inductive Written : List (Except Cause Kind) → List Char → Prop
  | nil : Written [] []
  | one {r : Except Cause Kind} {text : List Char} (h : Spells r text) : Written [r] text
  | cons {r : Except Cause Kind} {rs : List (Except Cause Kind)} {text source : List Char}
    {blank : Char} (h : Spells r text) (hblank : isSpace blank = true) (hrs : rs ≠ [])
    (hs : Written rs source) : Written (r :: rs) (text ++ blank :: source)

/-- A text that begins with a blank, if it does not end at once. -/
def Apart (rest : List Char) : Prop := ∀ c ∈ rest.head?, isSpace c = true

section Words

variable {cs rest : List Char}

lemma takeWhile_apart {p : Char → Bool} (hp : ∀ c, p c = true → isSpace c = false)
    (hcs : ∀ c ∈ cs, p c = true) (hrest : Apart rest) :
    (cs ++ rest).takeWhile p = cs ∧ (cs ++ rest).dropWhile p = rest := by
  rw [List.takeWhile_append_of_pos hcs, List.dropWhile_append_of_pos hcs]
  cases rest with
  | nil => simp
  | cons c rest =>
    have hspace : isSpace c = true := hrest c rfl
    have hstop : p c = false := Bool.eq_false_iff.mpr fun hc => by
      rw [hp c hc] at hspace
      cases hspace
    simp [hstop]

lemma isSpace_eq_false_of_isWordChar {c : Char} (h : isWordChar c = true) : isSpace c = false := by
  rw [Bool.eq_false_iff]
  intro hspace
  simp only [isSpace, Bool.or_eq_true, decide_eq_true_eq] at hspace
  rcases hspace with ((rfl | rfl) | rfl) | rfl <;> exact absurd h (by decide)

lemma isWordChar_of_isWordStart {c : Char} (h : isWordStart c = true) : isWordChar c = true := by
  simp only [isWordStart, isWordChar, Char.isAlphanum, Bool.or_eq_true] at h ⊢
  exact h.imp_left .inl

lemma isWordChar_of_isNumberChar {c : Char} (h : isNumberChar c = true) : isWordChar c = true := by
  simp only [isNumberChar, isWordChar, Char.isAlphanum, Bool.or_eq_true] at h ⊢
  exact h.imp_left .inr

lemma isWordStart_eq_false_of_isDigit {c : Char} (h : c.isDigit = true) :
    isWordStart c = false := by
  have hdigits : ∀ k : Fin 10, isWordStart (Char.ofNat (48 + k)) = false := by decide
  simp only [Char.isDigit, Bool.and_eq_true, decide_eq_true_eq, UInt32.le_iff_toNat_le,
    ge_iff_le] at h
  have h0 : 48 ≤ c.toNat := h.1
  have h9 : c.toNat ≤ 57 := h.2
  have hc : Char.ofNat (48 + (c.toNat - 48)) = c := by
    rw [Nat.add_sub_cancel' h0, Char.ofNat_toNat]
  have hdigit := hdigits ⟨c.toNat - 48, by omega⟩
  rwa [hc] at hdigit

end Words

section Payloads

variable {n : Nat} {cs body rest : List Char}

lemma Numeral.isNumberChar_of_mem (h : Numeral n cs) : ∀ c ∈ cs, isNumberChar c = true := by
  intro c hc
  obtain ⟨-, zeros, hdigits⟩ := h
  by_cases hunderscore : c = '_'
  · rw [hunderscore]
    rfl
  · have hmem : c ∈ List.replicate zeros '0' ++ Nat.toDigits 10 n := by
      rw [← hdigits]
      simp [hc, hunderscore]
    have hdigit : c.isDigit = true := by
      rcases List.mem_append.mp hmem with hzero | hmem
      · rw [List.eq_of_mem_replicate hzero]
        rfl
      · exact Nat.isDigit_of_mem_toDigits (by decide) (by decide) hmem
    simp [isNumberChar, hdigit]

lemma Numeral.head (h : Numeral n cs) : ∃ c tail, cs = c :: tail ∧ c.isDigit = true := by
  cases cs with
  | nil =>
    obtain ⟨-, zeros, hdigits⟩ := h
    exact absurd (List.append_eq_nil_iff.mp hdigits.symm).2 Nat.toDigits_ne_nil
  | cons c tail =>
    have hnumber := h.isNumberChar_of_mem c List.mem_cons_self
    have hne : c ≠ '_' := by simpa using h.1
    exact ⟨c, tail, rfl, by simpa [isNumberChar, hne] using hnumber⟩

/-- Neither zeros in front nor underscores change the value. -/
lemma Numeral.ofDigits_eq (h : Numeral n cs) : Integer.ofDigits (cs.filter (·.isDigit)) = n := by
  have hfilter : cs.filter (·.isDigit) = cs.filter (· ≠ '_') := by
    refine List.filter_congr fun c hc => ?_
    have hnumber := h.isNumberChar_of_mem c hc
    by_cases hunderscore : c = '_'
    · rw [hunderscore]
      rfl
    · simpa [isNumberChar, hunderscore] using hnumber
  have hzeros : ∀ zeros, Nat.ofDigitChars 10 (List.replicate zeros '0') 0 = 0 := by
    intro zeros
    induction zeros with
    | zero => rfl
    | succ zeros ih => exact ih
  obtain ⟨-, zeros, hdigits⟩ := h
  have happend : Nat.ofDigitChars 10 (List.replicate zeros '0' ++ Nat.toDigits 10 n) 0 =
      Nat.ofDigitChars 10 (Nat.toDigits 10 n) (Nat.ofDigitChars 10 (List.replicate zeros '0') 0) :=
    List.foldl_append
  change Nat.ofDigitChars 10 (cs.filter (·.isDigit)) 0 = n
  rw [hfilter, hdigits, happend, hzeros, Nat.ofDigitChars_toDigits (by decide) (by decide)]

lemma Numeral.ofNumber_eq (h : Numeral n cs) : ofNumber cs =
    if n ≤ Integer.greatest then .ok (.int n) else .error .integerOutOfRange := by
  rw [ofNumber, h.ofDigits_eq]

lemma readString_quoted (h : Quoted cs body) :
    readString (body ++ '"' :: rest) = (some cs, body ++ ['"'], rest) := by
  induction h with
  | nil => simp [readString]
  | plain hquote hslash h ih => simp [readString, hslash, ih]
  | @escape c e cs body he h ih =>
    simp only [escapes, List.mem_cons, Prod.mk.injEq, List.not_mem_nil, or_false] at he
    rcases he with ⟨rfl, rfl⟩ | ⟨rfl, rfl⟩ | ⟨rfl, rfl⟩ | ⟨rfl, rfl⟩ | ⟨rfl, rfl⟩ | ⟨rfl, rfl⟩ <;>
      simp [readString, unescape, ih]

/-- A text that closes `depth` brackets more than it opens, and none that is not open, is read up to
the bracket behind it. -/
lemma readAttribute_closing {depth : Nat}
    (hfront : ∀ front, front <+: cs → front.count ']' ≤ depth + front.count '[')
    (hcount : cs.count ']' = depth + cs.count '[') :
    readAttribute depth (cs ++ ']' :: rest) = (some cs, cs ++ [']'], rest) := by
  induction cs generalizing depth with
  | nil =>
    obtain rfl : depth = 0 := by simpa using hcount.symm
    simp [readAttribute]
  | cons c cs ih =>
    have hopen : ¬(c = ']' ∧ depth = 0) := by
      rintro ⟨rfl, rfl⟩
      simpa using hfront [']'] (List.prefix_append [']'] cs)
    have hbehind : ∀ front, front <+: cs →
        (c :: front).count ']' ≤ depth + (c :: front).count '[' :=
      fun front hpre => hfront (c :: front) (List.cons_prefix_cons.mpr ⟨rfl, hpre⟩)
    have hfirst := hbehind [] List.nil_prefix
    rw [List.cons_append, readAttribute, if_neg hopen]
    dsimp only
    simp only [List.count_cons, beq_iff_eq, List.count_nil] at hbehind hcount hfirst
    generalize hinner :
      (if c = '[' then depth + 1 else if c = ']' then depth - 1 else depth) = inner
    -- a closing bracket goes from one side of the balance to the other
    have hdepth : inner + (if c = ']' then 1 else 0) = depth + if c = '[' then 1 else 0 := by
      rw [← hinner]
      by_cases hleft : c = '['
      · simp [hleft]
      · by_cases hright : c = ']'
        · simp only [hright, Char.reduceEq, if_true, if_false] at hfirst ⊢
          omega
        · simp [hleft, hright]
    rw [ih (fun front hpre => by have := hbehind front hpre; omega) (by omega)]
    rfl

lemma trim_of_trimmed (h : Trimmed cs) : trim cs = cs := by
  have hdrop : ∀ {cs : List Char}, (∀ c ∈ cs.head?, isBlank c = false) →
      cs.dropWhile isBlank = cs := by
    intro cs hhead
    cases cs with
    | nil => rfl
    | cons c cs => rw [List.dropWhile_cons_of_neg (by simp [hhead c rfl])]
  have hend : ∀ c ∈ cs.reverse.head?, isBlank c = false := by
    rw [List.head?_reverse]
    exact h.2
  rw [trim, hdrop h.1, dropEnd, hdrop hend, List.reverse_reverse]

end Payloads

section Reading

variable {r : Except Cause Kind} {text rest : List Char}

lemma read_word (hword : IsWord text) (hrest : Apart rest) :
    ∃ c tail, text = c :: tail ∧ isSpace c = false ∧ c ≠ '/' ∧
      read c (tail ++ rest) = ⟨.ok (ofWord text), text, rest⟩ := by
  obtain ⟨⟨c, hhead, hstart⟩, hchars⟩ := hword
  obtain ⟨tail, rfl⟩ := List.head?_eq_some_iff.mp hhead
  have hspace := isSpace_eq_false_of_isWordChar (isWordChar_of_isWordStart hstart)
  have hquote : c ≠ '"' := by
    rintro rfl
    exact absurd hstart (by decide)
  have hslash : c ≠ '/' := by
    rintro rfl
    exact absurd hstart (by decide)
  obtain ⟨htake, hdrop⟩ := takeWhile_apart (fun _ => isSpace_eq_false_of_isWordChar)
    (fun d hd => hchars d (List.mem_cons_of_mem c hd)) hrest
  refine ⟨c, tail, rfl, hspace, hslash, ?_⟩
  rw [read, if_neg hquote, if_pos hstart, htake, hdrop]

lemma read_numeral {n : Nat} (h : Numeral n text) (hrest : Apart rest) :
    ∃ c tail, text = c :: tail ∧ isSpace c = false ∧ c ≠ '/' ∧
      read c (tail ++ rest) = ⟨if n ≤ Integer.greatest then .ok (.int n)
        else .error .integerOutOfRange, text, rest⟩ := by
  obtain ⟨c, tail, rfl, hdigit⟩ := h.head
  have hchars := h.isNumberChar_of_mem
  have hspace := isSpace_eq_false_of_isWordChar
    (isWordChar_of_isNumberChar (hchars c List.mem_cons_self))
  have hquote : c ≠ '"' := by
    rintro rfl
    exact absurd hdigit (by decide)
  have hslash : c ≠ '/' := by
    rintro rfl
    exact absurd hdigit (by decide)
  have hword : ¬isWordStart c = true := by simp [isWordStart_eq_false_of_isDigit hdigit]
  obtain ⟨htake, hdrop⟩ := takeWhile_apart
    (fun _ hd => isSpace_eq_false_of_isWordChar (isWordChar_of_isNumberChar hd))
    (fun d hd => hchars d (List.mem_cons_of_mem c hd)) hrest
  refine ⟨c, tail, rfl, hspace, hslash, ?_⟩
  rw [read, if_neg hquote, if_neg hword, if_pos hdigit, htake, hdrop, ← h.ofNumber_eq]

lemma read_keyword (word : Keyword) : IsWord word.text.toList ∧
    ofWord word.text.toList = .keyword word := by
  cases word <;> decide +kernel

lemma ofWord_ident {name : String} (hsymbol : name ≠ Symbol.underscore.text)
    (hkeyword : ∀ word : Keyword, word.text ≠ name) : ofWord name.toList = .ident name := by
  have hfind : Keyword.all.find? (·.text = name) = none := by
    rw [List.find?_eq_none]
    exact fun word _ => by simpa using hkeyword word
  rw [ofWord, String.ofList_toList, if_neg hsymbol, hfind]

lemma symbol_head {sign : Symbol} (h : sign ≠ .underscore) : ∃ c tail,
    sign.text.toList = c :: tail ∧ isSpace c = false ∧ c ≠ '/' ∧ c ≠ '"' ∧ c ≠ '#' ∧
      ¬isWordStart c = true ∧ ¬c.isDigit = true := by
  cases sign with
  | underscore => exact absurd rfl h
  | _ => exact ⟨_, _, by simp [Symbol.text]; exact ⟨rfl, rfl⟩, by decide⟩

/-- A sign is not taken for a longer one, since a blank follows it. -/
lemma find?_scanned {sign : Symbol} (h : sign ≠ .underscore) (hrest : Apart rest) :
    Symbol.scanned.find? (·.text.toList.isPrefixOf (sign.text.toList ++ rest)) = some sign := by
  cases rest with
  | nil =>
    simp only [List.append_nil]
    revert h
    cases sign <;> decide +kernel
  | cons d rest =>
    have hspace : isSpace d = true := hrest d rfl
    have hequal : d ≠ '=' := by
      rintro rfl
      exact absurd hspace (by decide)
    have hgreater : d ≠ '>' := by
      rintro rfl
      exact absurd hspace (by decide)
    cases sign with
    | underscore => exact absurd rfl h
    | _ => simp [Symbol.scanned, Symbol.text, hequal.symm, hgreater.symm]

lemma read_symbol (sign : Symbol) (hrest : Apart rest) :
    ∃ c tail, sign.text.toList = c :: tail ∧ isSpace c = false ∧ c ≠ '/' ∧
      read c (tail ++ rest) = ⟨.ok (.symbol sign), sign.text.toList, rest⟩ := by
  by_cases hunderscore : sign = .underscore
  · subst hunderscore
    have hof : ofWord Symbol.underscore.text.toList = .symbol .underscore := by decide +kernel
    have hword : IsWord Symbol.underscore.text.toList := by decide +kernel
    simpa only [hof] using read_word hword hrest
  obtain ⟨c, tail, htext, hspace, hslash, hquote, hhash, hword, hdigit⟩ := symbol_head hunderscore
  have hfind := find?_scanned hunderscore hrest
  have hdrop : (sign.text.toList ++ rest).drop sign.text.length = rest :=
    List.drop_left' String.length_toList
  rw [htext, List.cons_append] at hfind hdrop
  refine ⟨c, tail, htext, hspace, hslash, ?_⟩
  rw [read, if_neg hquote, if_neg hword, if_neg hdigit, if_neg fun h => hhash h.1, hfind]
  dsimp only
  rw [hdrop]

/-- What is spelled in front of a blank is read as it was meant. -/
lemma read_spelled (h : Spells r text) (hrest : Apart rest) :
    ∃ c tail, text = c :: tail ∧ isSpace c = false ∧ c ≠ '/' ∧
      read c (tail ++ rest) = ⟨r, text, rest⟩ := by
  cases h with
  | keyword word =>
    obtain ⟨hword, hof⟩ := read_keyword word
    simpa only [hof] using read_word hword hrest
  | symbol sign => exact read_symbol sign hrest
  | @ident name hword hsymbol hkeyword =>
    simpa only [ofWord_ident hsymbol hkeyword] using read_word hword hrest
  | int h hn => simpa only [if_pos hn] using read_numeral h hrest
  | tooLarge h hn => simpa only [if_neg (Int.not_le.mpr hn)] using read_numeral h hrest
  | @str text body h =>
    refine ⟨'"', body ++ ['"'], rfl, by decide, by decide, ?_⟩
    rw [List.append_assoc, List.singleton_append, read, if_pos rfl, readString_quoted h]
    simp
  | @attr text htrim h =>
    refine ⟨'#', '[' :: text.toList ++ [']'], rfl, by decide, by decide, ?_⟩
    have hread : readAttribute 0 (text.toList ++ ']' :: rest) =
        (some text.toList, text.toList ++ [']'], rest) :=
      readAttribute_closing (by simpa using h.1) (by simpa using h.2)
    simp [read, isWordStart, hread, trim_of_trimmed htrim]

lemma lexemes_spelled (h : Spells r text) (hrest : Apart rest) (offset : Nat) :
    lexemes offset (text ++ rest) = ⟨r, ⟨offset, offset + byteLength text⟩⟩ ::
      lexemes (offset + byteLength text) rest := by
  obtain ⟨c, tail, rfl, hspace, hslash, hread⟩ := read_spelled h hrest
  rw [List.cons_append, lexemes, if_neg (by simp [hspace]), if_neg fun h => hslash h.1, hread]

end Reading

variable {rs : List (Except Cause Kind)} {source : List Char}

/-- Each of the tokens of a text is one lexeme, wherever the text starts. -/
theorem lexemes_written (h : Written rs source) (offset : Nat) :
    (lexemes offset source).map (·.kind) = rs := by
  induction h generalizing offset with
  | nil => simp [lexemes]
  | one h =>
    have hend : Apart [] := by simp [Apart]
    have hlexemes := lexemes_spelled h hend offset
    rw [List.append_nil] at hlexemes
    simp [hlexemes, lexemes]
  | @cons r rs text source blank h hblank hrs hs ih =>
    have hapart : Apart (blank :: source) := fun c hc => Option.some.inj hc ▸ hblank
    rw [lexemes_spelled h hapart, lexemes, if_pos hblank, List.map_cons, ih]

/-- A scan gives a token for each reading, an invalid one where there is a fault, and then the end
of the file. -/
structure Scan.Gives (s : Scan) (rs : List (Except Cause Kind)) : Prop where
  tokens : s.tokens.map (·.kind) = rs.map (·.toOption.getD .invalid) ++ [.eof]
  faults : s.faults.map (·.cause) = rs.filterMap fun
    | .ok _ => none
    | .error cause => some cause

lemma scan_gives (h : Written rs source) : (scan source).Gives rs := by
  rw [← lexemes_written h 0]
  constructor
  · simp [scan, Lexeme.token]
  · rw [List.filterMap_map, scan, List.map_filterMap]
    congr 1
    funext l
    cases hkind : l.kind <;> simp [Lexeme.fault?, hkind]

/-- Scanning undoes spelling: tokens that are written one blank apart are read back as they were,
without a fault. A number beyond the largest takes one invalid token in its place, and one fault. -/
theorem scan_written :
    (∀ ks source, Written (ks.map .ok) source →
      (scan source).tokens.map (·.kind) = ks ++ [.eof] ∧ (scan source).faults = []) ∧
    ∀ rs source, Written rs source → (scan source).Gives rs := by
  refine ⟨fun ks source h => ?_, fun rs source => scan_gives⟩
  obtain ⟨htokens, hfaults⟩ := scan_gives h
  constructor
  · simpa [Except.toOption, Function.comp_def] using htokens
  · simpa [List.filterMap_map, Function.comp_def, List.filterMap_eq_nil_iff.mpr] using hfaults

/-- A string that holds a line break as it is and another one as an escape, and an attribute with
brackets of its own; then a number with zeros in front, and one that is too large by one. -/
theorem scan_written_spellings :
    (Written ([.str "\n\n", .attr "a[b]"].map .ok) "\"\n\\n\" #[a[b]]".toList ∧
      (scan "\"\n\\n\" #[a[b]]".toList).tokens.map (·.kind) =
        [.str "\n\n", .attr "a[b]", .eof] ∧ (scan "\"\n\\n\" #[a[b]]".toList).faults = []) ∧
    Written [.ok (.int 7), .error .integerOutOfRange] "0_07\n9223372036854775808".toList ∧
      (scan "0_07\n9223372036854775808".toList).Gives
        [.ok (.int 7), .error .integerOutOfRange] := by
  have hstr : Quoted "\n\n".toList ['\n', '\\', 'n'] :=
    .plain (by decide) (by decide) (.escape (by decide) .nil)
  have hattr : Balanced "a[b]".toList := by decide
  have hseven : Numeral 7 "0_07".toList := ⟨by decide, 2, by decide +kernel⟩
  have hlarge : Numeral 9223372036854775808 "9223372036854775808".toList :=
    ⟨by decide, 0, by decide +kernel⟩
  have htokens : Written ([.str "\n\n", .attr "a[b]"].map .ok) "\"\n\\n\" #[a[b]]".toList :=
    @Written.cons _ _ _ _ ' ' (.str hstr) (by decide) (by simp) (.one (.attr (by decide) hattr))
  have hnumbers : Written [.ok (.int 7), .error .integerOutOfRange]
      "0_07\n9223372036854775808".toList :=
    @Written.cons _ _ _ _ '\n' (.int hseven (by decide)) (by decide) (by simp)
      (.one (.tooLarge hlarge (by decide)))
  obtain ⟨hfirst, hsecond⟩ := scan_written
  exact ⟨⟨htokens, hfirst _ _ htokens⟩, hnumbers, hsecond _ _ hnumbers⟩

end ClosedSum.Token
