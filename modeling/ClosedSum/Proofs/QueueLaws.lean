import ClosedSum.Compile.Build
import Mathlib.Tactic.Common

/-!
# Laws of a queue

No error that is reported goes unnoticed. A queue may refuse an error for its limit or as a
repetition, but then it holds an error already.
-/

namespace ClosedSum

namespace Diagnostic.Queue

/-- The counters tell how many errors and warnings were taken. -/
structure Counted (q : Queue) : Prop where
  errors : q.errorCount = q.taken.countP (·.isError)
  warnings : q.warningCount = q.taken.countP (·.isWarning)

lemma Counted.ofSource (source : List Char) (config : QueueConfig) :
    Counted (ofSource source config) := ⟨rfl, rfl⟩

/-- The ways in which a queue takes an addition, and what it asks first. -/
lemma add_cases (q : Queue) (d : Diagnostic) :
    (d.isError = true ∧ q.limitReached = true ∧
        q.add d = (false, { q with suppressed := q.suppressed + 1 })) ∨
      (¬(d.isError = true ∧ q.limitReached = true) ∧ q.config.deduplicate = true ∧ d ∈ q.taken ∧
        q.add d = (false, q)) ∨
      (¬(d.isError = true ∧ q.limitReached = true) ∧
        ¬(q.config.deduplicate = true ∧ d ∈ q.taken) ∧ q.add d = (true, q.take d)) := by
  unfold add
  split
  · next hrefused =>
    obtain ⟨herror, hlimit⟩ := Bool.and_eq_true_iff.mp hrefused
    exact .inl ⟨herror, hlimit, rfl⟩
  · next hopen =>
    have hopen' : ¬(d.isError = true ∧ q.limitReached = true) := by simpa using hopen
    split
    · next hrepeated =>
      obtain ⟨hdedup, hmem⟩ := Bool.and_eq_true_iff.mp hrepeated
      exact .inr (.inl ⟨hopen', hdedup, by simpa using hmem, rfl⟩)
    · next hnew => exact .inr (.inr ⟨hopen', by simpa using hnew, rfl⟩)

lemma Counted.take {q : Queue} (h : q.Counted) (d : Diagnostic) : (q.take d).Counted := by
  constructor
  · simp only [Queue.take, h.errors, List.countP_append, List.countP_singleton]
  · simp only [Queue.take, h.warnings, List.countP_append, List.countP_singleton]

lemma Counted.add {q : Queue} (h : q.Counted) (d : Diagnostic) : (q.add d).2.Counted := by
  rcases q.add_cases d with ⟨-, -, hadd⟩ | ⟨-, -, -, hadd⟩ | ⟨-, -, hadd⟩ <;> rw [hadd]
  · exact ⟨h.errors, h.warnings⟩
  · exact h
  · exact h.take d

lemma Counted.addAll {q : Queue} (h : q.Counted) (ds : List Diagnostic) :
    (q.addAll ds).Counted := by
  induction ds generalizing q with
  | nil => exact h
  | cons d ds ih => exact ih (h.add d)

lemma Counted.hasErrors_iff {q : Queue} (h : q.Counted) :
    q.hasErrors = true ↔ ∃ d ∈ q.taken, d.isError = true := by
  rw [hasErrors, decide_eq_true_iff, h.errors, List.countP_pos_iff]

lemma hasErrors_of_limitReached {q : Queue} (h : q.limitReached = true) : q.hasErrors = true := by
  simp only [limitReached, Bool.and_eq_true, decide_eq_true_eq] at h
  rw [hasErrors, decide_eq_true_iff]
  omega

/-- A queue has an error after an addition just if it had one or was given one. -/
lemma Counted.hasErrors_add {q : Queue} (h : q.Counted) (d : Diagnostic) :
    (q.add d).2.hasErrors = true ↔ q.hasErrors = true ∨ d.isError = true := by
  rcases q.add_cases d with ⟨-, hlimit, hadd⟩ | ⟨-, -, hmem, hadd⟩ | ⟨-, -, hadd⟩
  · have hheld := hasErrors_of_limitReached hlimit
    rw [hadd]
    exact ⟨.inl, fun _ => hheld⟩
  · rw [hadd]
    refine ⟨.inl, fun hor => hor.elim id fun herror => ?_⟩
    exact h.hasErrors_iff.mpr ⟨d, hmem, herror⟩
  · rw [hadd, (h.take d).hasErrors_iff, h.hasErrors_iff]
    simp only [Queue.take, List.mem_append, List.mem_singleton, or_and_right, exists_or,
      exists_eq_left]

/-- Neither the limit nor the repetitions hide that there are errors. -/
theorem Counted.hasErrors_addAll {q : Queue} (h : q.Counted) (ds : List Diagnostic) :
    (q.addAll ds).hasErrors = true ↔ q.hasErrors = true ∨ ∃ d ∈ ds, d.isError = true := by
  induction ds generalizing q with
  | nil => simp [Queue.addAll]
  | cons d ds ih =>
    have hstep : q.addAll (d :: ds) = (q.add d).2.addAll ds := rfl
    rw [hstep, ih (h.add d), h.hasErrors_add, or_assoc]
    simp only [List.mem_cons, or_and_right, exists_or, exists_eq_left]

end Diagnostic.Queue

namespace Compile

/-- A build without errors has found none, and no warning either if warnings are denied. -/
theorem Build.isError_eq_false {settings : Settings} {source : List Char}
    (h : (Build.ofSource settings source).hasErrors = false) :
    ∀ d ∈ (front source).2, d.isError = false := by
  intro d hd
  by_contra herror
  have herror' : d.isError = true := by simpa using herror
  have hbuild : (Build.ofSource settings source).hasErrors = true := by
    refine ((Diagnostic.Queue.Counted.ofSource _ _).hasErrors_addAll _).mpr (.inr ?_)
    split
    · exact ⟨d.deny, List.mem_map_of_mem hd, d.isError_deny⟩
    · exact ⟨d, hd, herror'⟩
  rw [h] at hbuild
  cases hbuild

end Compile

end ClosedSum
