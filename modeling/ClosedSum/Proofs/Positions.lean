import ClosedSum.Proofs.LineTables
import Mathlib.Data.List.DropRight
import Mathlib.Data.Prod.Lex

/-!
# Positions in a text

Newlines are counted among the bytes of a text, so every offset is on some line, one inside a
character as well. An offset between two characters also has a column, and these offsets are in the
order of their positions. The lines of a text are numbered from one up, and there is one more of
them than there are newlines.
-/

namespace ClosedSum

namespace Text

/-- The UTF-8 form of a text. -/
def bytes (cs : List Char) : List UInt8 := cs.flatMap String.utf8EncodeChar

def newline : UInt8 := 10

/-- An offset between two characters, or at an end of the text. -/
def IsBoundary (cs : List Char) (offset : Nat) : Prop :=
  ∃ pre post, cs = pre ++ post ∧ byteLength pre = offset

@[simp] lemma bytes_cons (c : Char) (cs : List Char) :
    bytes (c :: cs) = String.utf8EncodeChar c ++ bytes cs := rfl

@[simp] lemma bytes_append (cs ds : List Char) : bytes (cs ++ ds) = bytes cs ++ bytes ds :=
  List.flatMap_append

lemma length_bytes (cs : List Char) : (bytes cs).length = byteLength cs := by
  induction cs with
  | nil => rfl
  | cons c cs ih =>
    rw [bytes_cons, List.length_append, String.length_utf8EncodeChar, ih, byteLength_cons]

/-- The byte of a newline is in no other character. -/
lemma newline_notMem {c : Char} (hc : c ≠ '\n') : newline ∉ String.utf8EncodeChar c := by
  have hcode : c.toNat ≠ 10 := fun h => hc (Char.ext (UInt32.toNat_inj.mp h))
  intro hmem
  unfold newline String.utf8EncodeChar at hmem
  dsimp only at hmem
  -- one, two, three and four bytes
  split at hmem
  · next hsmall =>
    have hbyte : c.toNat ≤ 127 := hsmall
    simp [← UInt8.toNat_inj] at hmem
    omega
  split at hmem
  · simp [← UInt8.toNat_inj] at hmem
    omega
  split at hmem
  · simp [← UInt8.toNat_inj] at hmem
    omega
  · simp [← UInt8.toNat_inj] at hmem
    omega

lemma count_newline_bytes (cs : List Char) : (bytes cs).count newline = cs.count '\n' := by
  induction cs with
  | nil => rfl
  | cons c cs ih =>
    rw [bytes_cons, List.count_append, ih, List.count_cons]
    by_cases hc : c = '\n'
    · subst hc
      rw [if_pos (by decide), Nat.add_comm]
      rfl
    · rw [List.count_eq_zero.mpr (newline_notMem hc), if_neg (by simpa using hc), Nat.zero_add,
        Nat.add_zero]

end Text

open Text

namespace LineTable

section Lines

def newlinesBefore (text : List Char) (offset : Nat) : Nat :=
  ((bytes text).take offset).count newline

lemma newlinesBefore_append (pre post : List Char) :
    newlinesBefore (pre ++ post) (byteLength pre) = pre.count '\n' := by
  rw [newlinesBefore, bytes_append, ← length_bytes, List.take_left, count_newline_bytes]

lemma newlinesBefore_min (text : List Char) (offset : Nat) :
    newlinesBefore text (min offset (byteLength text)) = newlinesBefore text offset := by
  rw [newlinesBefore, newlinesBefore, ← length_bytes, ← List.take_eq_take_min]

lemma countP_startsAfterNewlines (base : Nat) (text : List Char) (offset : Nat) :
    (startsAfterNewlines base text).countP (· ≤ base + offset) = newlinesBefore text offset := by
  induction text generalizing base offset with
  | nil => simp [startsAfterNewlines, newlinesBefore, bytes]
  | cons c cs ih =>
    have hpos := c.utf8Size_pos
    rw [newlinesBefore, bytes_cons, List.take_append, List.count_append,
      String.length_utf8EncodeChar]
    change _ = _ + newlinesBefore cs (offset - c.utf8Size)
    have hrest : (startsAfterNewlines (base + c.utf8Size) cs).countP (· ≤ base + offset) =
        newlinesBefore cs (offset - c.utf8Size) := by
      by_cases hle : c.utf8Size ≤ offset
      · rw [← ih (base + c.utf8Size), show base + c.utf8Size + (offset - c.utf8Size) = base + offset
          by omega]
      · -- the offset is inside the character, and what follows starts behind it
        have hnone :
            (startsAfterNewlines (base + c.utf8Size) cs).countP (· ≤ base + offset) = 0 := by
          refine List.countP_eq_zero.mpr fun start hstart => ?_
          have := (bounds_of_mem_starts hstart).1
          simp only [decide_eq_true_eq]
          omega
        rw [hnone, show offset - c.utf8Size = 0 by omega]
        rfl
    rw [startsAfterNewlines]
    by_cases hc : c = '\n'
    · subst hc
      have hsize : ('\n').utf8Size = 1 := rfl
      rw [if_pos rfl, List.countP_cons, hrest, Nat.add_comm]
      congr 1
      cases offset with
      | zero => simp [hsize]
      | succ n =>
        have hwhole : (String.utf8EncodeChar '\n').length ≤ n + 1 := by
          rw [String.length_utf8EncodeChar, hsize]
          exact Nat.le_add_left 1 n
        rw [if_pos (by simp [hsize]), List.take_of_length_le hwhole]
        rfl
    · have hout : newline ∉ (String.utf8EncodeChar c).take offset := fun h =>
        newline_notMem hc (List.mem_of_mem_take h)
      rw [if_neg hc, hrest, List.count_eq_zero.mpr hout, Nat.zero_add]

theorem lineOf_eq_newlinesBefore (text : List Char) (offset : Nat) :
    (ofText text).lineOf offset = newlinesBefore text offset + 1 := by
  have hcount := countP_startsAfterNewlines 0 text offset
  rw [Nat.zero_add] at hcount
  rw [lineOf, ofText, List.countP_cons_of_pos (by simp), hcount]
  omega

/-- What a binary search for a number may come to: a place where it stands or, if there is none, the
place where it would be put in. -/
inductive Search (ns : List Nat) (n : Nat) : Except Nat Nat → Prop
  | found {i : Nat} (h : ns[i]? = some n) : Search ns n (.ok i)
  | missing {below above : List Nat} (h : ns = below ++ above) (hbelow : ∀ m ∈ below, m < n)
    (habove : ∀ m ∈ above, n < m) : Search ns n (.error below.length)

/-- The index of a line from a search among the starts. -/
def searched : Except Nat Nat → Nat
  | .ok i => i
  | .error i => i - 1

/-- The line of an offset is found by a search among the starts. -/
theorem Search.lineOf_eq {text : List Char} {offset : Nat} {r : Except Nat Nat}
    (h : Search (ofText text).starts offset r) :
    (ofText text).lineOf offset = searched r + 1 := by
  cases h with
  | @found i h =>
    obtain ⟨hi, heq⟩ := List.getElem?_eq_some_iff.mp h
    have hsorted := pairwise_starts text
    have hlow := (getElem_le_iff hsorted hi).mp (Nat.le_of_eq heq)
    have hhigh : (ofText text).starts.countP (· ≤ offset) ≤ i + 1 := by
      by_contra hmore
      have hlen := List.countP_le_length (p := (· ≤ offset)) (l := (ofText text).starts)
      have hnext : i + 1 < (ofText text).starts.length := by omega
      have hle := (getElem_le_iff hsorted (n := offset) hnext).mpr (by omega)
      have hlt := List.pairwise_iff_getElem.mp hsorted i (i + 1) hi hnext (Nat.lt_succ_self i)
      omega
    rw [lineOf, searched]
    omega
  | @missing below above h hbelow habove =>
    have hfront : below.countP (· ≤ offset) = below.length :=
      List.countP_eq_length.mpr fun m hm => by simpa using Nat.le_of_lt (hbelow m hm)
    have hback : above.countP (· ≤ offset) = 0 :=
      List.countP_eq_zero.mpr fun m hm => by simpa using habove m hm
    rw [lineOf, h, List.countP_append, hfront, hback, searched]
    omega

end Lines

section Columns

variable {text before mid : List Char}

lemma isLine_takeWhile (h : before = [] ∨ ∃ xs, before = xs ++ ['\n']) (rest : List Char) :
    IsLine (before ++ rest) before (rest.takeWhile (· ≠ '\n')) (rest.dropWhile (· ≠ '\n')) where
  text_eq := by rw [List.takeWhile_append_dropWhile]
  begins := h
  whole hmem := by simpa using List.mem_takeWhile_imp hmem
  ends := by
    cases hrest : rest.dropWhile (· ≠ '\n') with
    | nil => exact .inl rfl
    | cons c cs =>
      have hc := List.head?_dropWhile_not (fun c : Char => decide (c ≠ '\n')) rest
      rw [hrest] at hc
      exact .inr ⟨cs, by simpa using hc⟩

lemma begins_rdropWhile (pre : List Char) :
    pre.rdropWhile (· ≠ '\n') = [] ∨ ∃ xs, pre.rdropWhile (· ≠ '\n') = xs ++ ['\n'] := by
  by_cases h : pre.rdropWhile (· ≠ '\n') = []
  · exact .inl h
  · have hlast := List.rdropWhile_last_not (fun c : Char => decide (c ≠ '\n')) pre h
    refine .inr ⟨(pre.rdropWhile (· ≠ '\n')).dropLast, ?_⟩
    conv_lhs => rw [← List.dropLast_append_getLast h]
    simpa using hlast

lemma newline_notMem_rtakeWhile (pre : List Char) : '\n' ∉ pre.rtakeWhile (· ≠ '\n') := fun h => by
  simpa using List.mem_rtakeWhile_imp h

/-- The position of an offset between two characters. -/
theorem lineColumn_append (pre post : List Char) :
    (ofText (pre ++ post)).lineColumn (pre ++ post) (byteLength pre) =
      (pre.count '\n' + 1, (pre.rtakeWhile (· ≠ '\n')).length + 1) := by
  have hpre : pre.rdropWhile (· ≠ '\n') ++ pre.rtakeWhile (· ≠ '\n') = pre :=
    List.rdropWhile_append_rtakeWhile
  have hline := isLine_takeWhile (begins_rdropWhile pre) (pre.rtakeWhile (· ≠ '\n') ++ post)
  have hfront : ∀ c ∈ pre.rtakeWhile (· ≠ '\n'), decide (c ≠ '\n') = true := fun c hc => by
    simpa using List.mem_rtakeWhile_imp hc
  rw [← List.append_assoc, hpre] at hline
  have hcolumn := hline.lineColumn_eq (List.takeWhile_append_of_pos hfront)
  have hcount : (pre.rdropWhile (· ≠ '\n')).count '\n' = pre.count '\n' := by
    conv_rhs => rw [← hpre]
    rw [List.count_append, List.count_eq_zero.mpr (newline_notMem_rtakeWhile pre), Nat.add_zero]
  rw [← byteLength_append, hpre, hcount] at hcolumn
  exact hcolumn

/-- An offset past the end stands at the end. -/
lemma lineColumn_min (text : List Char) (offset : Nat) :
    (ofText text).lineColumn text (min offset (byteLength text)) =
      (ofText text).lineColumn text offset := by
  have hline :
      (ofText text).lineOf (min offset (byteLength text)) = (ofText text).lineOf offset := by
    rw [lineOf_eq_newlinesBefore, lineOf_eq_newlinesBefore, newlinesBefore_min]
  rw [lineColumn, lineColumn, hline, Nat.min_assoc, Nat.min_self]

/-- Positions go up with the characters before them. -/
theorem position_lt (pre : List Char) (hmid : mid ≠ []) :
    Prod.Lex (· < ·) (· < ·) (pre.count '\n' + 1, (pre.rtakeWhile (· ≠ '\n')).length + 1)
      ((pre ++ mid).count '\n' + 1, ((pre ++ mid).rtakeWhile (· ≠ '\n')).length + 1) := by
  rw [List.count_append]
  by_cases hnew : '\n' ∈ mid
  · have := List.count_pos_iff.mpr hnew
    exact .left _ _ (by omega)
  · have hwhole : ∀ c ∈ mid.reverse, decide (c ≠ '\n') = true := fun c hc => by
      simpa using ne_of_mem_of_not_mem (List.mem_reverse.mp hc) hnew
    have hlonger : (pre ++ mid).rtakeWhile (· ≠ '\n') = pre.rtakeWhile (· ≠ '\n') ++ mid := by
      rw [List.rtakeWhile, List.reverse_append, List.takeWhile_append_of_pos hwhole]
      simp [List.rtakeWhile]
    have := List.length_pos_iff.mpr hmid
    rw [List.count_eq_zero.mpr hnew, hlonger, List.length_append]
    exact .right _ (by omega)

lemma IsBoundary.exists_append {p q : Nat} (hp : IsBoundary text p) (hq : IsBoundary text q)
    (h : p < q) : ∃ pre mid post, mid ≠ [] ∧ text = pre ++ (mid ++ post) ∧
      byteLength pre = p ∧ byteLength (pre ++ mid) = q := by
  obtain ⟨pre, post, htext, rfl⟩ := hp
  obtain ⟨pre', post', htext', rfl⟩ := hq
  rw [htext] at htext'
  rcases List.append_eq_append_iff.mp htext' with ⟨mid, rfl, hpost⟩ | ⟨mid, rfl, -⟩
  · refine ⟨pre, mid, post', ?_, by rw [htext, hpost], rfl, rfl⟩
    rintro rfl
    simp at h
  · rw [byteLength_append] at h
    omega

end Columns

section Numbers

variable {text : List Char} {line : Nat}

lemma exists_begins (text : List Char) (n : Nat) (hn : n ≤ text.count '\n') :
    ∃ before rest, text = before ++ rest ∧ before.count '\n' = n ∧
      (before = [] ∨ ∃ xs, before = xs ++ ['\n']) := by
  induction n with
  | zero => exact ⟨[], text, rfl, rfl, .inl rfl⟩
  | succ n ih =>
    obtain ⟨before, rest, htext, hcount, -⟩ := ih (Nat.le_of_succ_le hn)
    have hmem : '\n' ∈ rest := by
      rw [htext, List.count_append] at hn
      exact List.count_pos_iff.mp (by omega)
    obtain ⟨line, rest, rfl, hline⟩ := List.eq_append_cons_of_mem hmem
    refine ⟨before ++ (line ++ ['\n']), rest, by simp [htext], ?_, .inr ⟨before ++ line, by simp⟩⟩
    rw [List.count_append, List.count_append, List.count_eq_zero.mpr hline, hcount]
    rfl

lemma exists_isLine (hlo : 1 ≤ line) (hhi : line ≤ text.count '\n' + 1) :
    ∃ before shown after, IsLine text before shown after ∧ before.count '\n' + 1 = line := by
  obtain ⟨before, rest, rfl, hcount, hbegins⟩ := exists_begins text (line - 1) (by omega)
  exact ⟨before, _, _, isLine_takeWhile hbegins rest, by omega⟩

lemma lineText?_eq_none (h : ¬ (1 ≤ line ∧ line ≤ text.count '\n' + 1)) :
    (ofText text).lineText? text line = none := by
  have hstart : (ofText text).start? line = none := by
    cases line with
    | zero => rfl
    | succ n =>
      rw [start?, List.getElem?_eq_none_iff]
      simp only [ofText, List.length_cons, length_startsAfterNewlines]
      omega
  simp [lineText?, hstart]

lemma lineText?_subset {shown : List Char} (h : (ofText text).lineText? text line = some shown) :
    shown ⊆ text := by
  by_cases hline : 1 ≤ line ∧ line ≤ text.count '\n' + 1
  · obtain ⟨before, whole, after, his, rfl⟩ := exists_isLine hline.1 hline.2
    rw [his.lineText?_eq] at h
    cases h
    intro c hc
    have hwhole : c ∈ whole :=
      List.mem_reverse.mp (List.dropWhile_subset _ (List.mem_reverse.mp hc))
    rw [his.text_eq]
    exact List.mem_append_right _ (List.mem_append_left _ hwhole)
  · rw [lineText?_eq_none hline] at h
    cases h

end Numbers

/-- Lines, columns and the texts of lines are what they are in the text: a line is counted by the
newlines before an offset, which a search among the starts finds, and the column of an offset
between two characters by the characters from the last newline on. Positions go up with these
offsets. A number up to that of the last line has the text between two newlines, less the carriage
returns at its end, and any other number has none. -/
theorem positions_exact (text : List Char) :
    (∀ offset, (ofText text).lineOf offset =
      newlinesBefore text (min offset (byteLength text)) + 1) ∧
    (∀ offset r, Search (ofText text).starts offset r →
      (ofText text).lineOf offset = searched r + 1) ∧
    (∀ offset pre post, text = pre ++ post → byteLength pre = min offset (byteLength text) →
      (ofText text).lineColumn text offset =
        ((ofText text).lineOf offset, (pre.rtakeWhile (· ≠ '\n')).length + 1)) ∧
    (∀ p q, IsBoundary text p → IsBoundary text q → p < q → Prod.Lex (· < ·) (· < ·)
      ((ofText text).lineColumn text p) ((ofText text).lineColumn text q)) ∧
    ∀ line, if 1 ≤ line ∧ line ≤ text.count '\n' + 1 then
        ∃ before shown after, IsLine text before shown after ∧ before.count '\n' + 1 = line ∧
          (ofText text).lineText? text line = some (dropEnd (· = '\r') shown)
      else (ofText text).lineText? text line = none := by
  have hlines : ∀ offset, (ofText text).lineOf offset =
      newlinesBefore text (min offset (byteLength text)) + 1 := fun offset => by
    rw [newlinesBefore_min, lineOf_eq_newlinesBefore]
  refine ⟨hlines, fun _ _ h => h.lineOf_eq, ?_, ?_, ?_⟩
  · intro offset pre post htext hpre
    rw [hlines, ← lineColumn_min, ← hpre, htext, lineColumn_append, newlinesBefore_append]
  · intro p q hp hq hlt
    obtain ⟨pre, mid, post, hmid, rfl, rfl, rfl⟩ := IsBoundary.exists_append hp hq hlt
    have hposition := lineColumn_append (pre ++ mid) post
    rw [List.append_assoc] at hposition
    rw [lineColumn_append, hposition]
    exact position_lt pre hmid
  · intro line
    split
    · next h =>
      obtain ⟨before, shown, after, hline, rfl⟩ := exists_isLine h.1 h.2
      exact ⟨before, shown, after, hline, rfl, hline.lineText?_eq⟩
    · next h => exact lineText?_eq_none h

/-- Three lines, of which the second is blank and the first has a character of two bytes. -/
def threeLines : List Char := "é\r\n\na".toList

/-- A search for the offset of the first newline ends behind the start of the first line, an offset
past the end stands behind the last character, and there is no fourth line. -/
theorem positions_exact_threeLines :
    (Search (ofText threeLines).starts 3 (.error 1) ∧ (ofText threeLines).lineOf 3 = 1) ∧
      (ofText threeLines).lineColumn threeLines 99 = (3, 2) ∧
      (IsBoundary threeLines 2 ∧ IsBoundary threeLines 5 ∧ Prod.Lex (· < ·) (· < ·)
        ((ofText threeLines).lineColumn threeLines 2)
        ((ofText threeLines).lineColumn threeLines 5)) ∧
      (ofText threeLines).lineText? threeLines 4 = none := by
  obtain ⟨-, hsearch, hcolumn, hlt, htext⟩ := positions_exact threeLines
  have hbelow : Search (ofText threeLines).starts 3 (.error [0].length) :=
    .missing (show _ = [0] ++ [4, 5] by decide +kernel) (by decide) (by decide)
  have htwo : IsBoundary threeLines 2 := ⟨['é'], "\r\n\na".toList, by decide +kernel⟩
  have hfive : IsBoundary threeLines 5 := ⟨"é\r\n\n".toList, ['a'], by decide +kernel⟩
  have hend := hcolumn 99 threeLines [] (List.append_nil _).symm (by decide +kernel)
  refine ⟨⟨hbelow, hsearch 3 _ hbelow⟩, hend.trans (by decide +kernel), ?_, ?_⟩
  · exact ⟨htwo, hfive, hlt 2 5 htwo hfive (by decide)⟩
  · have hfourth := htext 4
    rwa [if_neg (by decide +kernel)] at hfourth

end LineTable

end ClosedSum
