import ClosedSum.Proofs.LineTables
import ClosedSum.Proofs.QueueLaws

/-!
# Runs of a queue

A queue is seen through its answers alone: what it took since it was last emptied tells which
diagnostics it takes next, what its counters say, and what it gives back. What it gives back is in
the order of the source, though it compares lines and distances from their starts.
-/

namespace ClosedSum.Diagnostic

open Text

/-- Errors are refused once as many were accepted as the limit allows. -/
def QueueConfig.Exceeds (config : QueueConfig) (accepted : List Diagnostic) (d : Diagnostic) :
    Prop :=
  d.isError = true ∧ 0 < config.errorLimit ∧ config.errorLimit ≤ accepted.countP (·.isError)

def QueueConfig.Repeats (config : QueueConfig) (accepted : List Diagnostic) (d : Diagnostic) :
    Prop :=
  config.deduplicate = true ∧ d ∈ accepted

instance (config : QueueConfig) (accepted : List Diagnostic) (d : Diagnostic) :
    Decidable (config.Exceeds accepted d) := by
  unfold QueueConfig.Exceeds
  infer_instance

/-- Where a diagnostic stands in a source: at its first primary label, if it has one, and not
beyond the end. -/
def place (source : List Char) (d : Diagnostic) : Nat :=
  min ((d.primarySpan?.map (·.start)).getD 0) (byteLength source)

/-- What was added to a queue since it was last emptied, the latest first, each with the answer
whether it was taken. -/
abbrev Log := List (Diagnostic × Bool)

namespace Log

def accepted : Log → List Diagnostic
  | [] => []
  | (d, true) :: log => accepted log ++ [d]
  | (_, false) :: log => accepted log

/-- The errors that were refused because of the limit. -/
def beyondLimit (config : QueueConfig) : Log → List Diagnostic
  | [] => []
  | (_, true) :: log => beyondLimit config log
  | (d, false) :: log =>
    if config.Exceeds (accepted log) d then beyondLimit config log ++ [d]
    else beyondLimit config log

end Log

/-- The same elements by increasing value of `f`, and where the values are equal, in the same
order. -/
structure StablySorted {α : Type} (f : α → Nat) (as sorted : List α) : Prop where
  perm : sorted.Perm as
  increasing : sorted.Pairwise (f · ≤ f ·)
  stable : ∀ n, sorted.filter (f · = n) = as.filter (f · = n)

lemma stablySorted_mergeSort {α : Type} (f : α → Nat) (as : List α) :
    StablySorted f as (as.mergeSort fun a b => f a ≤ f b) := by
  have htrans : ∀ a b c, decide (f a ≤ f b) = true → decide (f b ≤ f c) = true →
      decide (f a ≤ f c) = true := fun a b c hab hbc => by
    simp only [decide_eq_true_eq] at hab hbc ⊢
    omega
  have htotal : ∀ a b, (decide (f a ≤ f b) || decide (f b ≤ f a)) = true := fun a b => by
    simpa using Nat.le_total (f a) (f b)
  have hperm := List.mergeSort_perm as fun a b => f a ≤ f b
  refine ⟨hperm, ?_, fun n => ?_⟩
  · simpa using List.pairwise_mergeSort htrans htotal as
  · -- those with one value are in order already, so they stay a sublist
    have hequal : (as.filter (f · = n)).Pairwise fun a b => decide (f a ≤ f b) = true := by
      refine List.pairwise_iff_forall_sublist.mpr fun {a b} hab => ?_
      have ha := List.of_mem_filter (hab.subset (List.mem_cons_self))
      have hb := List.of_mem_filter (hab.subset (List.mem_cons_of_mem _ List.mem_cons_self))
      simp only [decide_eq_true_eq] at ha hb ⊢
      omega
    have hsub := (List.sublist_mergeSort htrans htotal hequal List.filter_sublist).filter
      (f · = n)
    simp only [List.filter_filter, Bool.and_self] at hsub
    refine (hsub.eq_of_length ?_).symm
    simpa using ((hperm.filter (f · = n)).length_eq).symm

namespace Queue

inductive Call where
  | add (d : Diagnostic)
  | flush

def step : Queue × Log → Call → Queue × Log
  | (q, log), .add d => ((q.add d).2, (d, (q.add d).1) :: log)
  | (q, _), .flush => (q.flush.2, [])

/-- The queue of a source after some calls, and its log. -/
def run (source : List Char) (config : QueueConfig) (calls : List Call) : Queue × Log :=
  calls.foldl step (.ofSource source config, [])

/-- The state of a queue is told by its source, its settings and its log. -/
structure Records (source : List Char) (config : QueueConfig) (q : Queue) (log : Log) : Prop where
  lines_eq : q.lines = .ofText source
  sourceSize_eq : q.sourceSize = byteLength source
  config_eq : q.config = config
  taken_eq : q.taken = log.accepted
  counted : q.Counted
  suppressed_eq : q.suppressed = (log.beyondLimit config).length

namespace Records

variable {source : List Char} {config : QueueConfig} {q : Queue} {log : Log}

lemma ofSource (source : List Char) (config : QueueConfig) :
    Records source config (ofSource source config) [] :=
  ⟨rfl, rfl, rfl, rfl, .ofSource source config, rfl⟩

lemma exceeds_iff (h : Records source config q log) (d : Diagnostic) :
    config.Exceeds log.accepted d ↔ d.isError = true ∧ q.limitReached = true := by
  simp only [QueueConfig.Exceeds, limitReached, h.config_eq, h.counted.errors, h.taken_eq,
    Bool.and_eq_true, decide_eq_true_eq]

lemma repeats_iff (h : Records source config q log) (d : Diagnostic) :
    config.Repeats log.accepted d ↔ q.config.deduplicate = true ∧ d ∈ q.taken := by
  simp only [QueueConfig.Repeats, h.config_eq, h.taken_eq]

/-- A diagnostic is taken unless it is beyond the limit or a repetition. -/
theorem add_iff (h : Records source config q log) (d : Diagnostic) :
    (q.add d).1 = true ↔
      ¬config.Exceeds log.accepted d ∧ ¬config.Repeats log.accepted d := by
  rw [h.exceeds_iff, h.repeats_iff]
  rcases q.add_cases d with ⟨herror, hlimit, hadd⟩ | ⟨-, hdedup, hmem, hadd⟩ |
    ⟨hopen, hnew, hadd⟩ <;> rw [hadd]
  · exact iff_of_false Bool.false_ne_true fun hno => hno.1 ⟨herror, hlimit⟩
  · exact iff_of_false Bool.false_ne_true fun hno => hno.2 ⟨hdedup, hmem⟩
  · exact iff_of_true rfl ⟨hopen, hnew⟩

lemma add (h : Records source config q log) (d : Diagnostic) :
    Records source config (q.add d).2 ((d, (q.add d).1) :: log) := by
  have hcounted := h.counted.add d
  rcases q.add_cases d with ⟨herror, hlimit, hadd⟩ | ⟨hopen, -, -, hadd⟩ | ⟨-, -, hadd⟩
  · rw [hadd] at hcounted ⊢
    refine ⟨h.lines_eq, h.sourceSize_eq, h.config_eq, h.taken_eq, hcounted, ?_⟩
    rw [Log.beyondLimit, if_pos ((h.exceeds_iff d).mpr ⟨herror, hlimit⟩), List.length_append,
      ← h.suppressed_eq]
    rfl
  · rw [hadd]
    refine ⟨h.lines_eq, h.sourceSize_eq, h.config_eq, h.taken_eq, h.counted, ?_⟩
    rw [Log.beyondLimit, if_neg (mt (h.exceeds_iff d).mp hopen)]
    exact h.suppressed_eq
  · rw [hadd] at hcounted ⊢
    refine ⟨h.lines_eq, h.sourceSize_eq, h.config_eq, ?_, hcounted, h.suppressed_eq⟩
    rw [Log.accepted, ← h.taken_eq]
    rfl

lemma flush_eq (h : Records source config q log) : q.flush.2 = .ofSource source config := by
  simp only [flush, Queue.ofSource, h.lines_eq, h.sourceSize_eq, h.config_eq]

lemma step (h : Records source config q log) (call : Call) :
    Records source config (step (q, log) call).1 (Queue.step (q, log) call).2 := by
  cases call with
  | add d => exact h.add d
  | flush =>
    change Records source config q.flush.2 []
    rw [h.flush_eq]
    exact .ofSource source config

/-- Whatever was called, in whatever order. -/
theorem run (source : List Char) (config : QueueConfig) (calls : List Call) :
    Records source config (run source config calls).1 (Queue.run source config calls).2 :=
  List.foldlRecOn (motive := fun s : Queue × Log => Records source config s.1 s.2) calls
    Queue.step (.ofSource source config) fun _ h call _ => h.step call

lemma comesBefore_eq (h : Records source config q log) (d e : Diagnostic) :
    q.comesBefore d e = decide (place source d ≤ place source e) := by
  have hplace : ∀ d : Diagnostic,
      min (d.primarySpan?.getD .none).start (byteLength source) = place source d := fun d => by
    unfold place
    cases d.primarySpan? <;> rfl
  have hle := LineTable.position_le_iff source (place source d) (place source e)
  dsimp only at hle
  rw [Bool.eq_iff_iff, decide_eq_true_iff, ← hle]
  simp only [comesBefore, key, position, h.lines_eq, h.sourceSize_eq, hplace, Bool.or_eq_true,
    Bool.and_eq_true, decide_eq_true_eq, Nat.add_le_add_iff_right]

/-- A queue gives back what it accepted in the order of the source, and then one notice if errors
were refused because of the limit. -/
theorem flush_sorted (h : Records source config q log) :
    ∃ shown notices, q.flush.1 = shown ++ notices ∧
      StablySorted (place source) log.accepted shown ∧
      notices.map (·.code) = if log.beyondLimit config = [] then [] else [.tooManyErrors] := by
  refine ⟨_, _, rfl, ?_, ?_⟩
  · have hcompare : q.comesBefore = fun d e => decide (place source d ≤ place source e) := by
      funext d e
      exact h.comesBefore_eq d e
    rw [hcompare, h.taken_eq]
    exact stablySorted_mergeSort (place source) log.accepted
  · simp only [h.suppressed_eq, List.length_pos_iff, ne_eq, ite_not]
    split <;> rfl

end Records

/-- Between two flushes, a queue accepts a diagnostic unless it is an error beyond the limit or a
repetition, and no warning is refused for the limit; its counters tell what it accepted; a flush
gives that back in the order of the source, with a notice if errors were refused for the limit, and
leaves the queue as it was at first. -/
theorem run_refines (source : List Char) (config : QueueConfig) (calls : List Call) :
    let q := (run source config calls).1
    let log := (run source config calls).2
    (∀ d, (q.add d).1 = true ↔
      ¬config.Exceeds log.accepted d ∧ ¬config.Repeats log.accepted d) ∧
    (∀ d, d.isWarning = true → (q.add d).1 = false → config.Repeats log.accepted d) ∧
    q.errorCount = log.accepted.countP (·.isError) ∧
    q.warningCount = log.accepted.countP (·.isWarning) ∧
    (∃ shown notices, q.flush.1 = shown ++ notices ∧
      StablySorted (place source) log.accepted shown ∧
      notices.map (·.code) = if log.beyondLimit config = [] then [] else [.tooManyErrors]) ∧
    q.flush.2 = .ofSource source config ∧
    q.flush.2.isEmpty = true ∧ q.flush.2.errorCount = 0 ∧ q.flush.2.warningCount = 0 := by
  intro q log
  have h : Records source config q log := .run source config calls
  refine ⟨h.add_iff, fun d hwarning hrefused => ?_, ?_, ?_, h.flush_sorted, h.flush_eq, rfl, rfl,
    rfl⟩
  · have hnot : ¬config.Exceeds log.accepted d := fun hexceeds => by
      have hseverity : d.severity = .warning := of_decide_eq_true hwarning
      have herror : d.severity = .error := of_decide_eq_true hexceeds.1
      rw [hseverity] at herror
      cases herror
    by_contra hnew
    rw [(h.add_iff d).mpr ⟨hnot, hnew⟩] at hrefused
    cases hrefused
  · rw [h.counted.errors, h.taken_eq]
  · rw [h.counted.warnings, h.taken_eq]

def laterFault : Diagnostic := ({ code := .unexpectedToken } : Diagnostic).label ⟨3, 4⟩ "here"

def earlierFault : Diagnostic := ({ code := .unexpectedToken } : Diagnostic).label ⟨1, 2⟩ "here"

def advice : Diagnostic := ({ code := .unusedParameter } : Diagnostic).label ⟨0, 1⟩ "never used"

/-- A queue with room for one error, after two errors and a warning. -/
def limited : Queue :=
  (run "ab\ncd".toList ⟨1, true⟩ [.add laterFault, .add earlierFault, .add advice]).1

lemma flush_limited : limited.flush.1 = [advice, laterFault, limited.overflowNotice] := by
  have htaken : limited.taken = [laterFault, advice] := by decide +kernel
  have hbefore : limited.comesBefore laterFault advice = false := by decide +kernel
  have hsuppressed : 0 < limited.suppressed := by decide +kernel
  rw [flush, htaken]
  simp [List.mergeSort, hbefore, hsuppressed]

/-- Of two errors one is beyond the limit; a warning is not, and is refused as a repetition only. -/
theorem run_refines_limited :
    let q := (run "ab\ncd".toList ⟨1, true⟩ [.add laterFault, .add earlierFault, .add advice]).1
    q.flush.1.map (·.code) = [.unusedParameter, .unexpectedToken, .tooManyErrors] ∧
      advice.isWarning = true ∧ (q.add advice).1 = false ∧
      QueueConfig.Repeats ⟨1, true⟩ [laterFault, advice] advice := by
  have hrefused : (limited.add advice).1 = false := by decide +kernel
  exact ⟨congrArg (List.map (·.code)) flush_limited, rfl, hrefused,
    (run_refines "ab\ncd".toList ⟨1, true⟩ [.add laterFault, .add earlierFault, .add advice]).2.1
      advice rfl hrefused⟩

end Queue

end ClosedSum.Diagnostic
