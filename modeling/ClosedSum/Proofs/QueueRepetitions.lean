import ClosedSum.Proofs.QueueRuns

/-!
# Repetitions in a queue

A repetition is not shown, and leaves no trace in a queue that still takes errors. Once the limit is
reached it is counted among the errors that are not shown, though it is shown already.
-/

namespace ClosedSum.Diagnostic.Queue

variable {q : Queue}

/-- The same queue with one more error refused because of the limit. -/
def suppress (q : Queue) : Queue := { q with suppressed := q.suppressed + 1 }

lemma add_suppress (q : Queue) (d : Diagnostic) : (q.suppress.add d).2 = (q.add d).2.suppress := by
  have hlimit : q.suppress.limitReached = q.limitReached := rfl
  rcases q.add_cases d with ⟨herror, hreached, hadd⟩ | ⟨hopen, hdedup, hmem, hadd⟩ |
    ⟨hopen, hnew, hadd⟩ <;> rw [hadd]
  · simp only [add, hlimit, herror, hreached, Bool.and_self, if_true]
    rfl
  · have hrepeated : (q.suppress.config.deduplicate && q.suppress.taken.contains d) = true := by
      simpa [suppress] using ⟨hdedup, hmem⟩
    rw [add, hlimit, if_neg (by simpa using hopen), if_pos hrepeated]
  · have hnew' : ¬(q.suppress.config.deduplicate && q.suppress.taken.contains d) = true := by
      simpa [suppress] using hnew
    rw [add, hlimit, if_neg (by simpa using hopen), if_neg hnew']
    rfl

lemma addAll_suppress (q : Queue) (ds : List Diagnostic) :
    q.suppress.addAll ds = (q.addAll ds).suppress := by
  induction ds generalizing q with
  | nil => rfl
  | cons d ds ih =>
    have hstep : ∀ p : Queue, p.addAll (d :: ds) = (p.add d).2.addAll ds := fun _ => rfl
    rw [hstep, hstep, add_suppress, ih]

lemma suppressed_eq_of_overflowNotice {p : Queue} (h : p.overflowNotice = q.overflowNotice) :
    p.suppressed = q.suppressed := by
  have hmessage := congrArg (fun d => d.message.toList) h
  simp only [overflowNotice, note, toString, String.toList_append,
    List.append_cancel_left_eq, List.append_cancel_right_eq] at hmessage
  have hdigits := congrArg (Nat.ofDigitChars 10 · 0) hmessage
  simpa [Nat.repr, Nat.ofDigitChars_toDigits] using hdigits

lemma flush_suppress_ne (q : Queue) : q.suppress.flush.1 ≠ q.flush.1 := by
  intro h
  have hnotices : (if 0 < q.suppress.suppressed then [q.suppress.overflowNotice] else []) =
      if 0 < q.suppressed then [q.overflowNotice] else [] := List.append_cancel_left h
  have hpos : 0 < q.suppress.suppressed := Nat.succ_pos q.suppressed
  rw [if_pos hpos] at hnotices
  split at hnotices
  · have hsame := suppressed_eq_of_overflowNotice (List.cons.inj hnotices).1
    exact absurd hsame (Nat.succ_ne_self q.suppressed)
  · cases hnotices

lemma add_of_mem {d : Diagnostic} (hdedup : q.config.deduplicate = true) (hd : d ∈ q.taken) :
    q.add d = (false, if d.isError = true ∧ q.limitReached = true then q.suppress else q) := by
  rcases q.add_cases d with ⟨herror, hlimit, hadd⟩ | ⟨hopen, -, -, hadd⟩ | ⟨-, hnew, -⟩
  · rw [hadd, if_pos ⟨herror, hlimit⟩]
    rfl
  · rw [hadd, if_neg hopen]
  · exact absurd ⟨hdedup, hd⟩ hnew

/-- A queue refuses what it holds already and shows the same as without it. What it gives back is
the same altogether just if the repetition is no error beyond the limit. -/
theorem readd_iff (source : List Char) (config : QueueConfig) (calls : List Call)
    (hdedup : config.deduplicate = true) {d : Diagnostic}
    (hd : d ∈ (run source config calls).1.taken) (ds : List Diagnostic) :
    let q := (run source config calls).1
    let log := (run source config calls).2
    (q.add d).1 = false ∧ ((q.add d).2.addAll ds).taken = (q.addAll ds).taken ∧
      (((q.add d).2.addAll ds).flush.1 = (q.addAll ds).flush.1 ↔
        ¬config.Exceeds log.accepted d) := by
  intro q log
  have h : Records source config q log := .run source config calls
  rw [add_of_mem (by rw [h.config_eq, hdedup]) hd, h.exceeds_iff]
  split
  · next hbeyond =>
    rw [addAll_suppress]
    exact ⟨rfl, rfl, iff_of_false (flush_suppress_ne _) (not_not_intro hbeyond)⟩
  · next hopen => exact ⟨rfl, rfl, iff_of_true rfl hopen⟩

/-- Below the limit, an error that comes again leaves no trace, whatever comes behind it. -/
theorem readd_iff_belowLimit :
    let q := (run "ab\ncd".toList {} [.add laterFault]).1
    laterFault ∈ q.taken ∧ (q.add laterFault).1 = false ∧
      ((q.add laterFault).2.addAll [advice]).flush.1 = (q.addAll [advice]).flush.1 := by
  have hmem : laterFault ∈ (run "ab\ncd".toList {} [.add laterFault]).1.taken := by
    decide +kernel
  obtain ⟨hrefused, -, hsame⟩ :=
    readd_iff "ab\ncd".toList {} [.add laterFault] rfl hmem [advice]
  exact ⟨hmem, hrefused, hsame.mpr (by decide +kernel)⟩

/-- An error that comes again beyond the limit is refused, and is counted among the errors that are
not shown, though it is the only one and is shown. -/
theorem readd_beyondLimit :
    let q := (run "ab\ncd".toList ⟨1, true⟩ [.add laterFault]).1
    laterFault ∈ q.taken ∧ (q.add laterFault).1 = false ∧ q.flush.1 = [laterFault] ∧
      (q.add laterFault).2.flush.1.map (·.message) =
        [laterFault.message, "too many errors; 1 more not shown"] :=
  ⟨by decide +kernel, by decide +kernel, by decide +kernel, by decide +kernel⟩

end ClosedSum.Diagnostic.Queue
