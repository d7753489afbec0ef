import ClosedSum.Source.Lines
import Mathlib.Data.List.Basic
import Mathlib.Tactic.Common

/-!
# Line tables

The starts in the table of a text increase, and there is one behind each newline. So the offsets on
a line are those from its start up to its newline, and the text, the line number and the columns of
a line are what they are in the text itself.
-/

namespace ClosedSum

open Text

namespace LineTable

section Starts

variable {offset start : Nat} {xs ys : List Char}

lemma startsAfterNewlines_append (offset : Nat) (xs ys : List Char) :
    startsAfterNewlines offset (xs ++ ys) =
      startsAfterNewlines offset xs ++ startsAfterNewlines (offset + byteLength xs) ys := by
  induction xs generalizing offset with
  | nil => simp [startsAfterNewlines]
  | cons x xs ih =>
    simp only [List.cons_append, startsAfterNewlines, ih, byteLength_cons, Nat.add_assoc]
    split <;> rfl

lemma length_startsAfterNewlines (offset : Nat) (xs : List Char) :
    (startsAfterNewlines offset xs).length = xs.count '\n' := by
  induction xs generalizing offset with
  | nil => rfl
  | cons x xs ih =>
    rw [startsAfterNewlines, List.count_cons]
    by_cases hx : x = '\n' <;> simp [hx, ih]

lemma startsAfterNewlines_of_notMem (offset : Nat) (h : '\n' ∉ xs) :
    startsAfterNewlines offset xs = [] := by
  rw [← List.length_eq_zero_iff, length_startsAfterNewlines]
  exact List.count_eq_zero.mpr h

lemma bounds_of_mem_starts (h : start ∈ startsAfterNewlines offset xs) :
    offset < start ∧ start ≤ offset + byteLength xs := by
  induction xs generalizing offset with
  | nil => cases h
  | cons x xs ih =>
    have hpos := x.utf8Size_pos
    have hrest : start ∈ startsAfterNewlines (offset + x.utf8Size) xs →
        offset < start ∧ start ≤ offset + byteLength (x :: xs) := fun h => by
      obtain ⟨hlo, hhi⟩ := ih h
      rw [byteLength_cons]
      omega
    rw [startsAfterNewlines] at h
    split at h
    · rcases List.mem_cons.mp h with rfl | h
      · rw [byteLength_cons]
        omega
      · exact hrest h
    · exact hrest h

lemma pairwise_startsAfterNewlines (offset : Nat) (xs : List Char) :
    (startsAfterNewlines offset xs).Pairwise (· < ·) := by
  induction xs generalizing offset with
  | nil => exact .nil
  | cons x xs ih =>
    rw [startsAfterNewlines]
    split
    · exact .cons (fun _ h => (bounds_of_mem_starts h).1) (ih _)
    · exact ih _

theorem pairwise_starts (text : List Char) : (ofText text).starts.Pairwise (· < ·) :=
  .cons (fun _ h => (bounds_of_mem_starts h).1) (pairwise_startsAfterNewlines 0 text)

end Starts

section Order

lemma getElem_le_iff {ns : List Nat} (h : ns.Pairwise (· < ·)) {n i : Nat} (hi : i < ns.length) :
    ns[i] ≤ n ↔ i < ns.countP (· ≤ n) := by
  induction ns generalizing i with
  | nil => cases hi
  | cons m ns ih =>
    obtain ⟨hm, hns⟩ := List.pairwise_cons.mp h
    by_cases hmn : m ≤ n
    · rw [List.countP_cons_of_pos (by simpa using hmn)]
      cases i with
      | zero => simpa using hmn
      | succ i =>
        rw [List.getElem_cons_succ, ih hns (Nat.lt_of_succ_lt_succ hi)]
        omega
    · have hnone : ns.countP (· ≤ n) = 0 := by
        refine List.countP_eq_zero.mpr fun k hk => ?_
        have := hm k hk
        simp only [decide_eq_true_eq]
        omega
      rw [List.countP_cons_of_neg (by simpa using hmn), hnone]
      refine iff_of_false (fun hle => ?_) (Nat.not_lt_zero i)
      cases i with
      | zero => exact hmn hle
      | succ i =>
        have := hm _ (List.getElem_mem (Nat.lt_of_succ_lt_succ hi))
        rw [List.getElem_cons_succ] at hle
        omega

variable {text : List Char} {a b : Nat}

lemma lineOf_mono (t : LineTable) (h : a ≤ b) : t.lineOf a ≤ t.lineOf b := by
  have hcount : t.starts.countP (· ≤ a) ≤ t.starts.countP (· ≤ b) :=
    List.countP_mono_left fun s _ hs => by
      simp only [decide_eq_true_eq] at hs ⊢
      omega
  unfold lineOf
  omega

lemma start_lineOf_le (text : List Char) (offset : Nat) :
    ((ofText text).start? ((ofText text).lineOf offset)).getD 0 ≤ offset := by
  cases hline : (ofText text).lineOf offset with
  | zero => exact Nat.zero_le offset
  | succ line =>
    rw [start?]
    by_cases hi : line < (ofText text).starts.length
    · rw [List.getElem?_eq_getElem hi, Option.getD_some, getElem_le_iff (pairwise_starts text) hi]
      have hpos : 0 < (ofText text).starts.countP (· ≤ offset) :=
        List.countP_pos_iff.mpr ⟨0, List.mem_cons_self, by simp⟩
      unfold lineOf at hline
      omega
    · rw [List.getElem?_eq_none (Nat.le_of_not_lt hi)]
      exact Nat.zero_le offset

/-- Offsets are in the order of their lines and, on one line, of their distances from its start. -/
theorem position_le_iff (text : List Char) (a b : Nat) :
    let line := (ofText text).lineOf
    let distance offset := offset - ((ofText text).start? (line offset)).getD 0
    line a < line b ∨ line a = line b ∧ distance a ≤ distance b ↔ a ≤ b := by
  have ha := start_lineOf_le text a
  have hb := start_lineOf_le text b
  dsimp only
  constructor
  · rintro (hlt | ⟨heq, hle⟩)
    · by_contra hba
      have := (ofText text).lineOf_mono (Nat.le_of_not_le hba)
      omega
    · rw [heq] at ha hle
      omega
  · intro hle
    rcases Nat.lt_or_eq_of_le ((ofText text).lineOf_mono hle) with hlt | heq
    · exact .inl hlt
    · exact .inr ⟨heq, by rw [heq]; omega⟩

end Order

/-- A line with the text before it and the text from its newline on. -/
structure IsLine (text before line after : List Char) : Prop where
  text_eq : text = before ++ (line ++ after)
  begins : before = [] ∨ ∃ xs, before = xs ++ ['\n']
  whole : '\n' ∉ line
  ends : after = [] ∨ ∃ xs, after = '\n' :: xs

namespace IsLine

variable {text before line after pre post : List Char} {offset : Nat}

/-- The starts up to that of a line, and those behind the line. -/
lemma starts_eq (h : IsLine text before line after) :
    ∃ starts, (ofText text).starts = starts ++ byteLength before ::
      startsAfterNewlines (byteLength before + byteLength line) after ∧
      starts.length = before.count '\n' ∧ ∀ start ∈ starts, start < byteLength before := by
  have hall : (ofText text).starts = 0 :: (startsAfterNewlines 0 before ++
      startsAfterNewlines (byteLength before + byteLength line) after) := by
    rw [h.text_eq, ofText, startsAfterNewlines_append, startsAfterNewlines_append,
      startsAfterNewlines_of_notMem _ h.whole, Nat.zero_add, List.nil_append]
  rcases h.begins with rfl | ⟨xs, rfl⟩
  · exact ⟨[], hall, rfl, List.forall_mem_nil _⟩
  · have hlast : startsAfterNewlines 0 (xs ++ ['\n']) =
        startsAfterNewlines 0 xs ++ [byteLength (xs ++ ['\n'])] := by
      rw [startsAfterNewlines_append]
      simp [startsAfterNewlines]
    refine ⟨0 :: startsAfterNewlines 0 xs, by rw [hall, hlast]; simp, ?_, ?_⟩
    · simp [length_startsAfterNewlines]
    · have hlonger : byteLength xs < byteLength (xs ++ ['\n']) := by
        have := Char.utf8Size_pos '\n'
        rw [byteLength_append, byteLength_cons]
        omega
      refine List.forall_mem_cons.mpr ⟨by omega, fun start hstart => ?_⟩
      have := (bounds_of_mem_starts hstart).2
      omega

/-- Lines are counted by the newlines before them, and an offset is on a line up to its newline. -/
theorem lineOf_eq (h : IsLine text before line after) (hlo : byteLength before ≤ offset)
    (hhi : offset ≤ byteLength before + byteLength line) :
    (ofText text).lineOf offset = before.count '\n' + 1 := by
  obtain ⟨starts, hstarts, hlen, hbefore⟩ := h.starts_eq
  have hfront : starts.countP (· ≤ offset) = starts.length := by
    refine List.countP_eq_length.mpr fun start hstart => ?_
    have := hbefore start hstart
    simp only [decide_eq_true_eq]
    omega
  have hback : (startsAfterNewlines (byteLength before + byteLength line) after).countP
      (· ≤ offset) = 0 := by
    refine List.countP_eq_zero.mpr fun start hstart => ?_
    have := (bounds_of_mem_starts hstart).1
    simp only [decide_eq_true_eq]
    omega
  rw [lineOf, hstarts, List.countP_append, List.countP_cons_of_pos (by simpa using hlo), hfront,
    hback, hlen]
  omega

lemma start?_eq (h : IsLine text before line after) :
    (ofText text).start? (before.count '\n' + 1) = some (byteLength before) := by
  obtain ⟨starts, hstarts, hlen, -⟩ := h.starts_eq
  rw [start?, hstarts, ← hlen]
  simp

/-- The next line, if there is one, starts behind the newline. -/
lemma start?_next (h : IsLine text before line after) :
    ((ofText text).start? (before.count '\n' + 1 + 1)).map (· - 1) =
      if after = [] then none else some (byteLength before + byteLength line) := by
  obtain ⟨starts, hstarts, hlen, -⟩ := h.starts_eq
  have hsize : ('\n').utf8Size = 1 := rfl
  rw [start?, hstarts, ← hlen, List.getElem?_append_right (Nat.le_succ _)]
  rcases h.ends with rfl | ⟨xs, rfl⟩ <;> simp [startsAfterNewlines, hsize]

/-- The text of a line is what stands between the newlines, less the carriage returns at its end. -/
theorem lineText?_eq (h : IsLine text before line after) :
    (ofText text).lineText? text (before.count '\n' + 1) = some (dropEnd (· = '\r') line) := by
  have hstop : (((ofText text).start? (before.count '\n' + 1 + 1)).map (· - 1)).getD
      (byteLength text) = byteLength before + byteLength line := by
    rw [h.start?_next]
    split
    · next hafter => simp [h.text_eq, hafter]
    · rfl
  have hslice : slice? text (byteLength before) (byteLength before + byteLength line) =
      some line := by
    rw [h.text_eq]
    exact slice?_append before line after
  simp [lineText?, h.start?_eq, hstop, hslice]

/-- Columns count the characters before an offset on its line. -/
theorem lineColumn_eq (h : IsLine text before line after) (hline : line = pre ++ post) :
    (ofText text).lineColumn text (byteLength before + byteLength pre) =
      (before.count '\n' + 1, pre.length + 1) := by
  have hwithin : byteLength before + byteLength pre ≤ byteLength before + byteLength line := by
    rw [hline, byteLength_append]
    omega
  have hsize : byteLength before + byteLength pre ≤ byteLength text := by
    rw [h.text_eq, byteLength_append, byteLength_append]
    omega
  have hslice : slice? text (byteLength before) (byteLength before + byteLength pre) =
      some pre := by
    rw [h.text_eq, hline, List.append_assoc]
    exact slice?_append before pre (post ++ after)
  have hstop : max (min (byteLength before + byteLength pre) (byteLength text))
      (byteLength before) = byteLength before + byteLength pre := by omega
  rw [lineColumn, h.lineOf_eq (Nat.le_add_right _ _) hwithin]
  simp [h.start?_eq, hstop, hslice]

end IsLine

end LineTable

end ClosedSum
