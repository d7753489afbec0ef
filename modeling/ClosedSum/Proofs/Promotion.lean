import ClosedSum.Proofs.Lowering
import ClosedSum.Proofs.QueueLaws

/-!
# Promoted warnings

To deny warnings makes errors of them and changes nothing else. Every report that a build finds has
the severity of its code, so that two of them that differ still differ when they are denied, and the
queue of a build that denies warnings holds what the queue of the other holds, each one denied.
-/

namespace ClosedSum

namespace Diagnostic

/-- The severity is the one that the code has. -/
def Coded (d : Diagnostic) : Prop := d.severity = .ofCode d.code

lemma Coded.isWarning_eq {d : Diagnostic} (h : d.Coded) : d.isWarning = d.code.isWarning := by
  rw [isWarning, h, Severity.ofCode]
  cases d.code.isWarning <;> rfl

@[simp] lemma code_deny (d : Diagnostic) : d.deny.code = d.code := by
  unfold deny
  split <;> rfl

@[simp] lemma labels_deny (d : Diagnostic) : d.deny.labels = d.labels := by
  unfold deny
  split <;> rfl

/-- A denied report still tells what it was: its code says whether it was a warning. -/
lemma deny_inj {d e : Diagnostic} (hd : d.Coded) (he : e.Coded) (h : d.deny = e.deny) : d = e := by
  have hcode : d.code = e.code := by simpa using congrArg code h
  have hwarning : d.isWarning = e.isWarning := by rw [hd.isWarning_eq, he.isWarning_eq, hcode]
  have hseverity : d.severity = e.severity := by rw [hd, he, hcode]
  unfold deny at h
  rw [← hwarning, hcode] at h
  split at h
  · obtain ⟨-, -, hmessage, hlabels, hnotes, hsuggestions⟩ := Diagnostic.mk.inj h
    have hnotes' : d.notes = e.notes := List.append_cancel_right hnotes
    cases d
    cases e
    simp_all
  · exact h

namespace Queue

/-- The queue with all that it took denied. -/
def promote (q : Queue) : Queue :=
  { q with
    taken := q.taken.map (·.deny)
    errorCount := q.errorCount + q.warningCount
    warningCount := 0 }

/-- A report is counted once, as an error or as a warning. -/
lemma take_promote (q : Queue) (d : Diagnostic) : q.promote.take d.deny = (q.take d).promote := by
  have hwarning : d.deny.isWarning = false := by
    have herror : d.deny.severity = .error := by simpa [isError] using d.isError_deny
    simp [isWarning, herror]
  have hone : (if d.isError then 1 else 0) + (if d.isWarning then 1 else 0) = 1 := by
    cases h : d.severity <;> simp [isError, isWarning, h]
  simp only [take, promote, isError_deny, hwarning, List.map_append, List.map_cons, List.map_nil]
  congr 1
  simp only [if_true]
  omega

/-- Without a limit, denied reports are taken and refused as they were before. -/
lemma add_promote {q : Queue} {d : Diagnostic} (hlimit : q.config.errorLimit = 0)
    (htaken : ∀ e ∈ q.taken, e.Coded) (hd : d.Coded) :
    (q.promote.add d.deny).2 = (q.add d).2.promote := by
  have hopen : ∀ p : Queue, p.config = q.config → p.limitReached = false := fun p hp => by
    simp [limitReached, hp, hlimit]
  have hcontains : q.promote.taken.contains d.deny = q.taken.contains d := by
    rw [Bool.eq_iff_iff, List.contains_iff_mem, List.contains_iff_mem]
    constructor
    · intro hmem
      obtain ⟨e, he, heq⟩ := List.mem_map.mp hmem
      exact deny_inj (htaken e he) hd heq ▸ he
    · exact fun hmem => List.mem_map_of_mem hmem
  simp only [add, hopen q rfl, hopen q.promote rfl, Bool.and_false, Bool.false_eq_true, if_false,
    hcontains]
  have hconfig : q.promote.config = q.config := rfl
  rw [hconfig]
  split
  · rfl
  · exact q.take_promote d

lemma config_add (q : Queue) (d : Diagnostic) : (q.add d).2.config = q.config := by
  rcases q.add_cases d with ⟨-, -, hadd⟩ | ⟨-, -, -, hadd⟩ | ⟨-, -, hadd⟩ <;> rw [hadd]
  rfl

lemma coded_add {q : Queue} {d : Diagnostic} (htaken : ∀ e ∈ q.taken, e.Coded) (hd : d.Coded) :
    ∀ e ∈ (q.add d).2.taken, e.Coded := by
  rcases q.add_cases d with ⟨-, -, hadd⟩ | ⟨-, -, -, hadd⟩ | ⟨-, -, hadd⟩ <;> rw [hadd]
  · exact htaken
  · exact htaken
  · exact List.forall_mem_append.mpr ⟨htaken, List.forall_mem_singleton.mpr hd⟩

lemma addAll_promote {q : Queue} {ds : List Diagnostic} (hlimit : q.config.errorLimit = 0)
    (htaken : ∀ e ∈ q.taken, e.Coded) (hds : ∀ d ∈ ds, d.Coded) :
    q.promote.addAll (ds.map (·.deny)) = (q.addAll ds).promote := by
  induction ds generalizing q with
  | nil => rfl
  | cons d ds ih =>
    obtain ⟨hd, hds⟩ := List.forall_mem_cons.mp hds
    have hnext : q.promote.addAll ((d :: ds).map (·.deny)) =
        (q.promote.add d.deny).2.addAll (ds.map (·.deny)) := rfl
    have hlimit' : (q.add d).2.config.errorLimit = 0 := by rw [config_add, hlimit]
    rw [hnext, add_promote hlimit htaken hd, ih hlimit' (coded_add htaken hd) hds]
    rfl

/-- A denied report stands where it stood, and a notice on the limit is no warning. -/
lemma flush_promote (q : Queue) : q.promote.flush.1 = q.flush.1.map (·.deny) := by
  have hcompare : ∀ d ∈ q.taken, ∀ e ∈ q.taken,
      q.comesBefore d e = q.promote.comesBefore d.deny e.deny := fun d _ e _ => by
    simp only [comesBefore, key, primarySpan?, labels_deny]
    rfl
  have hnotice : q.overflowNotice.deny = q.overflowNotice := rfl
  have hsame : q.promote.overflowNotice = q.overflowNotice := rfl
  have hsuppressed : q.promote.suppressed = q.suppressed := rfl
  simp only [flush, List.map_append, List.map_mergeSort hcompare, hsame, hsuppressed]
  congr 1
  split <;> simp [hnotice]

/-- The first report is taken, or there was one before it. -/
lemma Counted.taken_add_ne_nil {q : Queue} (h : q.Counted) (d : Diagnostic) :
    (q.add d).2.taken ≠ [] := by
  rcases q.add_cases d with ⟨-, hlimit, hadd⟩ | ⟨-, -, hmem, hadd⟩ | ⟨-, -, hadd⟩ <;> rw [hadd]
  · obtain ⟨e, he, -⟩ := h.hasErrors_iff.mp (hasErrors_of_limitReached hlimit)
    exact List.ne_nil_of_mem he
  · exact List.ne_nil_of_mem hmem
  · simp [Queue.take]

lemma Counted.taken_addAll_ne_nil {ds : List Diagnostic} (hds : ds ≠ []) {q : Queue}
    (h : q.Counted) : (q.addAll ds).taken ≠ [] := by
  obtain ⟨ds, d, rfl⟩ := List.eq_nil_or_concat' ds |>.resolve_left hds
  have hlast : q.addAll (ds ++ [d]) = ((q.addAll ds).add d).2 := by simp [Queue.addAll]
  rw [hlast]
  exact (h.addAll ds).taken_add_ne_nil d

lemma flush_ne_nil {q : Queue} (h : q.taken ≠ []) : q.flush.1 ≠ [] := by
  obtain ⟨d, hd⟩ := List.exists_mem_of_ne_nil _ h
  have hsorted : d ∈ q.taken.mergeSort q.comesBefore := List.mem_mergeSort.mpr hd
  exact List.ne_nil_of_mem (List.mem_append_left _ hsorted)

end Queue

end Diagnostic

open Diagnostic (Coded)

lemma Token.Fault.coded_diagnostic (f : Token.Fault) : f.diagnostic.Coded := by
  obtain ⟨cause, span⟩ := f
  cases cause <;> rfl

lemma Grammar.Fault.coded_diagnostic (f : Grammar.Fault) : f.diagnostic.Coded := by
  obtain ⟨cause, span, context⟩ := f
  cases cause <;> cases context <;> rfl

lemma Variant.Fault.coded_diagnostic (f : Variant.Fault) : f.diagnostic.Coded := by
  cases f <;> rfl

lemma Match.Fault.coded_diagnostic (f : Match.Fault) : f.diagnostic.Coded := by
  cases f <;> rfl

lemma Match.Advice.coded_diagnostic (a : Match.Advice) : a.diagnostic.Coded := by
  cases a <;> rfl

namespace Compile

open Surface (Expr Stmt Clause)

variable {α β : Type} {registry : Match.Registry}

lemma clashes_coded (known gs : List Global) : ∀ d ∈ clashes known gs, d.Coded := by
  induction gs generalizing known with
  | nil => exact List.forall_mem_nil _
  | cons g gs ih =>
    rw [clashes]
    split
    · exact List.forall_mem_cons.mpr ⟨rfl, ih _⟩
    · exact ih _

lemma unusedParams_coded (pattern : Match.Pattern) (body : Core.Expr) :
    ∀ d ∈ unusedParams pattern body, d.Coded := by
  unfold unusedParams
  split
  · intro d hd
    obtain ⟨param, -, hparam⟩ := List.mem_filterMap.mp hd
    split at hparam
    · split at hparam
      · cases hparam
      · exact Option.some.inj hparam ▸ rfl
    · cases hparam
  · exact List.forall_mem_nil _

namespace Collected

lemma report_coded {c : Collected} {ds : List Diagnostic} (hc : ∀ d ∈ c.diagnostics, d.Coded)
    (hds : ∀ d ∈ ds, d.Coded) : ∀ d ∈ (c.report ds).diagnostics, d.Coded :=
  List.forall_mem_append.mpr ⟨hc, hds⟩

lemma add_coded {c : Collected} (hc : ∀ d ∈ c.diagnostics, d.Coded) (i : Surface.Item) :
    ∀ d ∈ (c.add i).diagnostics, d.Coded := by
  cases i with
  | variant s =>
    rw [add]
    split
    · next f _ => exact report_coded hc (List.forall_mem_singleton.mpr f.coded_diagnostic)
    · next d _ =>
      unfold take
      split
      · exact hc
      · exact report_coded hc (clashes_coded _ _)
  | function f =>
    rw [add]
    unfold take
    split
    · exact hc
    · exact report_coded hc (clashes_coded _ _)

lemma ofModule_coded (m : Surface.Module) : ∀ d ∈ (ofModule m).diagnostics, d.Coded :=
  List.foldlRecOn (motive := fun c => ∀ d ∈ c.diagnostics, d.Coded) m.items add
    (List.forall_mem_nil _) fun _ hc i _ => add_coded hc i

end Collected

/-- A step whose reports have the severity of their code. -/
def Codes (s : Step α) : Prop :=
  ∀ p : Progress, (∀ d ∈ p.diagnostics, d.Coded) → ∀ d ∈ (s p).2.diagnostics, d.Coded

namespace Codes

lemma pure (a : α) : Codes (Pure.pure a) := fun _ h => h

lemma bind {s : Step α} {f : α → Step β} (hs : Codes s) (hf : ∀ a, Codes (f a)) :
    Codes (s >>= f) := fun p h => hf (s p).1 (s p).2 (hs p h)

lemma report {ds : List Diagnostic} (hds : ∀ d ∈ ds, d.Coded) : Codes (report ds) :=
  fun _ h => List.forall_mem_append.mpr ⟨h, hds⟩

lemma mapM {f : α → Step β} (hf : ∀ a, Codes (f a)) (as : List α) : Codes (as.mapM f) := by
  induction as with
  | nil => exact .pure _
  | cons a as ih =>
    rw [List.mapM_cons]
    exact (hf a).bind fun _ => ih.bind fun _ => .pure _

end Codes

lemma expandMatch_codes (operator : Ident) (scrutinee : Core.Expr) (clauses : List Match.Clause)
    (site : Span) : Codes (expandMatch registry operator scrutinee clauses site) := by
  intro p h
  rw [expandMatch_apply]
  split
  · refine List.forall_mem_append.mpr ⟨h, List.forall_mem_map.mpr fun a _ => ?_⟩
    exact a.coded_diagnostic
  · next f _ _ =>
    exact List.forall_mem_append.mpr ⟨h, List.forall_mem_singleton.mpr f.coded_diagnostic⟩

mutual

lemma expr_codes : (e : Expr) → Codes (expr registry e)
  | .unit _ | .bool .. | .int .. | .str .. | .ident .. | .error _ => .pure _
  | .call _ callee args =>
    (expr_codes callee).bind fun _ => (exprs_codes args).bind fun _ => .pure _
  | .binary _ _ lhs rhs => (expr_codes lhs).bind fun _ => (expr_codes rhs).bind fun _ => .pure _
  | .ifElse _ test yes no =>
    (expr_codes test).bind fun _ => (expr_codes yes).bind fun _ =>
      (expr_codes no).bind fun _ => .pure _
  | .block _ body => (stmts_codes body).bind fun _ => .pure _
  | .matchUse _ operator scrutinee cs site =>
    (expr_codes scrutinee).bind fun s => (clauses_codes cs).bind fun clauses =>
      expandMatch_codes operator s clauses site

lemma exprs_codes : (es : List Expr) → Codes (exprs registry es)
  | [] => .pure _
  | e :: es => (expr_codes e).bind fun _ => (exprs_codes es).bind fun _ => .pure _

lemma stmts_codes : (ss : List Stmt) → Codes (stmts registry ss)
  | [] => .pure _
  | .expr e :: rest => (expr_codes e).bind fun _ => (stmts_codes rest).bind fun _ => .pure _
  | .bind _ value :: rest =>
    (expr_codes value).bind fun _ => (stmts_codes rest).bind fun _ => .pure _

lemma clauses_codes : (cs : List Clause) → Codes (clauses registry cs)
  | [] => .pure _
  | .mk pattern body _ :: rest =>
    (stmts_codes body).bind fun xs =>
      (Codes.report (unusedParams_coded pattern (sequence xs))).bind fun _ =>
        (clauses_codes rest).bind fun _ => .pure _

end

lemma function_codes (f : Surface.Function) : Codes (function registry f) :=
  (expr_codes f.body).bind fun _ => .pure _

lemma Compiled.ofModule_coded (m : Surface.Module) (fresh : Nat) :
    ∀ d ∈ (Compiled.ofModule m fresh).diagnostics, d.Coded :=
  Codes.mapM (@function_codes (Collected.ofModule m).registry) (Collected.ofModule m).functions
    ⟨fresh, (Collected.ofModule m).diagnostics⟩
    (Collected.ofModule_coded m)

namespace Build

/-- Whichever phase reports it, a report has the severity of its code. -/
theorem front_coded (source : List Char) : ∀ d ∈ (front source).2, d.Coded := by
  unfold front
  dsimp only
  split
  · exact Compiled.ofModule_coded _ 0
  · refine List.forall_mem_append.mpr ⟨?_, ?_⟩
    · exact List.forall_mem_map.mpr fun f _ => f.coded_diagnostic
    · exact List.forall_mem_map.mpr fun f _ => f.coded_diagnostic

/-- A build has errors just if it was given some: the limit keeps back errors behind others only. -/
lemma hasErrors_ofSource (settings : Settings) (source : List Char) :
    (ofSource settings source).hasErrors = true ↔
      ∃ d ∈ if settings.denyWarnings then (front source).2.map (·.deny) else (front source).2,
        d.isError = true := by
  refine ((Diagnostic.Queue.Counted.ofSource _ _).hasErrors_addAll _).trans ?_
  exact or_iff_right Bool.false_ne_true

lemma diagnostics_ne_nil_iff (limit : Nat) (source : List Char) :
    (ofSource ⟨false, limit⟩ source).diagnostics ≠ [] ↔ (front source).2 ≠ [] := by
  constructor
  · intro h hnone
    have hempty : (ofSource ⟨false, limit⟩ source).diagnostics = [] := by
      simp [ofSource, hnone, Diagnostic.Queue.addAll, Diagnostic.Queue.ofSource,
        Diagnostic.Queue.flush]
    exact h hempty
  · exact fun h => Diagnostic.Queue.flush_ne_nil
      (Diagnostic.Queue.Counted.taken_addAll_ne_nil h (.ofSource _ _))

/-- Where there is no limit, a build that denies warnings reports what the other does, each report
denied, in the same order. Whatever the limit, it has errors just if the other reports anything. -/
theorem deny_promotes (source : List Char) :
    (ofSource ⟨true, 0⟩ source).diagnostics =
        (ofSource ⟨false, 0⟩ source).diagnostics.map (·.deny) ∧
      ∀ limit, (ofSource ⟨true, limit⟩ source).hasErrors = true ↔
        (ofSource ⟨false, limit⟩ source).diagnostics ≠ [] := by
  constructor
  · have hqueue := Diagnostic.Queue.addAll_promote (q := .ofSource source ⟨0, true⟩) rfl
      (List.forall_mem_nil _) (front_coded source)
    have hflush := Diagnostic.Queue.flush_promote
      ((Diagnostic.Queue.ofSource source ⟨0, true⟩).addAll (front source).2)
    rw [← hqueue] at hflush
    exact hflush
  · intro limit
    rw [diagnostics_ne_nil_iff, hasErrors_ofSource, if_pos rfl]
    constructor
    · rintro ⟨d, hd, -⟩
      obtain ⟨e, he, -⟩ := List.mem_map.mp hd
      exact List.ne_nil_of_mem he
    · intro h
      obtain ⟨d, hd⟩ := List.exists_mem_of_ne_nil _ h
      exact ⟨d.deny, List.mem_map_of_mem hd, d.isError_deny⟩

end Build

end Compile

end ClosedSum
