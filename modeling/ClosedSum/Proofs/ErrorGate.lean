import ClosedSum.Proofs.Collecting
import ClosedSum.Proofs.Lowering
import ClosedSum.Proofs.QueueLaws

/-!
# The error gate

A program that is built without errors has no code that could not be compiled, and never comes to a
state that only such code could bring about, whatever is called on its interpreter, in whatever
order.
-/

namespace ClosedSum

namespace Eval

/-- The discipline of a program: its complete code, and the values that its constructors make. -/
def Discipline.ofProgram (p : Core.Program) (h : p.Distinct) : Discipline where
  strict := True
  variant v n t count := ∃ d ∈ p.decls, ∃ c ∈ d.cases,
    c.parent = v ∧ c.name = n ∧ c.tag = t ∧ c.fields.length = count
  constructor c := ∃ d ∈ p.decls, ∃ e ∈ d.cases, c = .ofDecl e
  accessor c i := ∃ d ∈ p.decls, ∃ e ∈ d.cases, c = .ofDecl e ∧ i < e.fields.length
  variant_of_constructor := by
    rintro c ⟨d, hd, e, he, rfl⟩
    exact ⟨d, hd, e, he, rfl, rfl, rfl, (List.length_map _).symm⟩
  index_lt := by
    rintro c i name count - ⟨d, hd, e, he, rfl, hi⟩ ⟨d', hd', e', he', hparent, -, htag, rfl⟩
    rwa [h d' hd' d hd e' he' e he hparent htag]

variable {p : Core.Program} {limit : Nat}

theorem Discipline.holds_ofProgram (h : p.Distinct)
    (hcode : ∀ f ∈ p.functions, f.body.Every Core.Expr.Complete) (limit : Nat) :
    (ofProgram p h).Holds (Interpreter.ofProgram p limit).machine := by
  refine .ofGlobals rfl fun b hb => ?_
  have hmem := List.mem_reverse.mp hb
  simp only [programGlobals, List.mem_append, List.mem_map, List.mem_flatMap] at hmem
  rcases hmem with (⟨builtin, -, rfl⟩ | ⟨d, hd, c, hc, hcase⟩) | ⟨f, hf, rfl⟩
  · exact .callable trivial
  · simp only [caseGlobals, List.mem_cons, List.mem_map] at hcase
    rcases hcase with rfl | rfl | ⟨⟨field, index⟩, hfield, rfl⟩
    · exact .callable ⟨d, hd, c, hc, rfl⟩
    · exact .callable trivial
    · have hindex : index < c.fields.length := by
        simpa using (List.mem_zipIdx hfield).2.1
      exact .callable ⟨d, hd, c, hc, rfl, hindex⟩
  · exact .callable ((hcode f hf).mono fun _ he _ => he)

/-- What can be done with the interpreter of a program: runs of `main` and calls of globals, with
arguments that are plain or came out of runs and calls before. The values that came out are listed.
Runs and calls that fail are done as well. -/
inductive Session (p : Core.Program) (limit : Nat) : Interpreter → List Value → Prop
  | start : Session p limit (.ofProgram p limit) []
  | main {i : Interpreter} {vs : List Value} (h : Session p limit i vs) :
    Session p limit i.runMain.2 (i.runMain.1.toOption.toList ++ vs)
  | call {i : Interpreter} {vs : List Value} (h : Session p limit i vs) (name : String)
    {args : List Value} (hargs : ∀ v ∈ args, v.IsPlain ∨ v ∈ vs) :
    Session p limit (i.callGlobal name args).2 ((i.callGlobal name args).1.toOption.toList ++ vs)

def Upholds (D : Discipline) (vs : List Value) (r : Except Fault Value × Interpreter) : Prop :=
  D.Holds r.2.machine ∧ (∀ v ∈ r.1.toOption.toList ++ vs, D.Fits r.2.machine v) ∧
    ∀ f, r.1 = .error f → D.strict → f.cause ≠ .uncompiled

variable {D : Discipline} {i : Interpreter} {vs args : List Value}

lemma call_upholds (h : D.Holds i.machine) (hvs : ∀ v ∈ vs, D.Fits i.machine v) {f : Value}
    (hf : D.Fits i.machine f) (hargs : ∀ v ∈ args, D.Fits i.machine v) :
    Upholds D vs (i.call f args) := by
  obtain ⟨hgrow, hholds, hresult⟩ :=
    Discipline.callAt_calls i.limit i.limit i.machine f args h hf hargs
  have hcall : i.call f args = ((callAt i.limit i.limit f args i.machine).1,
      { i with machine := (callAt i.limit i.limit f args i.machine).2 }) := rfl
  rw [hcall]
  have hold : ∀ v ∈ vs, D.Fits (callAt i.limit i.limit f args i.machine).2 v :=
    fun v hv => (hvs v hv).grow hgrow
  cases hrun : (callAt i.limit i.limit f args i.machine).1 with
  | ok v =>
    rw [hrun] at hresult
    exact ⟨hholds, List.forall_mem_cons.mpr ⟨hresult, hold⟩, nofun⟩
  | error e =>
    rw [hrun] at hresult
    refine ⟨hholds, hold, ?_⟩
    rintro f ⟨⟩
    exact hresult

lemma error_upholds (h : D.Holds i.machine) (hvs : ∀ v ∈ vs, D.Fits i.machine v) {cause : Cause}
    (hcause : cause ≠ .uncompiled) : Upholds D vs (.error { cause }, i) := by
  refine ⟨h, hvs, ?_⟩
  rintro f ⟨⟩ -
  exact hcause

lemma callGlobal_upholds (h : D.Holds i.machine) (hvs : ∀ v ∈ vs, D.Fits i.machine v)
    (name : String) (hargs : ∀ v ∈ args, v.IsPlain ∨ v ∈ vs) :
    Upholds D vs (i.callGlobal name args) := by
  unfold Interpreter.callGlobal
  split
  · next f hf =>
    refine call_upholds h hvs (h.fits _ name f hf) fun v hv => ?_
    exact (hargs v hv).elim Discipline.fits_of_isPlain (hvs v)
  · exact error_upholds h hvs (by simp)

lemma runMain_upholds (h : D.Holds i.machine) (hvs : ∀ v ∈ vs, D.Fits i.machine v) :
    Upholds D vs i.runMain := by
  unfold Interpreter.runMain
  split
  · next f hf => exact call_upholds h hvs (h.fits _ "main" _ hf) (List.forall_mem_nil _)
  · exact error_upholds h hvs (by simp)

/-- A session keeps to a discipline that its program starts by. -/
theorem Session.holds (h : Session p limit i vs)
    (hstart : D.Holds (Interpreter.ofProgram p limit).machine) :
    D.Holds i.machine ∧ ∀ v ∈ vs, D.Fits i.machine v := by
  induction h with
  | start => exact ⟨hstart, List.forall_mem_nil _⟩
  | main h ih =>
    obtain ⟨hholds, hvs⟩ := ih
    obtain ⟨hholds', hvs', -⟩ := runMain_upholds hholds hvs
    exact ⟨hholds', hvs'⟩
  | call h name hargs ih =>
    obtain ⟨hholds, hvs⟩ := ih
    obtain ⟨hholds', hvs', -⟩ := callGlobal_upholds hholds hvs name hargs
    exact ⟨hholds', hvs'⟩

end Eval

namespace Compile

open Eval (Session)

/-- The functions of a whole module are compiled completely, or an error is reported. -/
theorem Compiled.complete {m : Surface.Module} (hwhole : ∀ i ∈ m.items, i.Whole) {fresh : Nat}
    (hclean : ∀ d ∈ (ofModule m fresh).diagnostics, d.isError = false) :
    ∀ f ∈ (ofModule m fresh).program.functions, f.body.Every Core.Expr.Complete := by
  have hfaithful := Collected.faithful_ofModule m
  obtain ⟨-, hall⟩ := Ensures.mapM function_ensures (Collected.ofModule m).functions
    ⟨fresh, (Collected.ofModule m).diagnostics⟩ hclean
  intro g hg
  obtain ⟨f, hf, hbody⟩ := hall g hg
  exact hbody (hwhole _ (hfaithful.functions f hf))

variable {settings : Settings} {source : List Char}

lemma Build.front_distinct (source : List Char) : (Build.front source).1.Distinct := by
  unfold Build.front
  dsimp only
  split
  · exact (Collected.faithful_ofModule _).distinct _
  · exact fun d hd => absurd hd List.not_mem_nil

lemma Build.front_complete (h : ∀ d ∈ (Build.front source).2, d.isError = false) :
    ∀ f ∈ (Build.front source).1.functions, f.body.Every Core.Expr.Complete := by
  unfold Build.front at h ⊢
  dsimp only at h ⊢
  split at h
  · next hfaults =>
    rw [if_pos hfaults]
    have hparsed : (Grammar.parse (Token.scan source).tokens).faults = [] := by
      simp only [List.isEmpty_iff, List.append_eq_nil_iff, List.map_eq_nil_iff] at hfaults
      exact hfaults.2
    exact Compiled.complete (Grammar.parse_whole hparsed) h
  · next hfaults =>
    rw [if_neg hfaults]
    exact List.forall_mem_nil _

/-- The error gate is sound: a build that reports no error, whatever its settings, has compiled all
of its functions, and no session with its interpreter comes to code that was not compiled, to the
end of a dispatch or to a field that its value lacks. -/
theorem error_gate (h : (Build.ofSource settings source).hasErrors = false) :
    (∀ f ∈ (Build.ofSource settings source).program.functions, f.body.hasErrors = false) ∧
      ∀ limit i vs, Session (Build.ofSource settings source).program limit i vs →
        (∀ f, i.runMain.1 = .error f → f.cause ≠ .uncompiled) ∧
          ∀ name args, (∀ v ∈ args, v.IsPlain ∨ v ∈ vs) →
            ∀ f, (i.callGlobal name args).1 = .error f → f.cause ≠ .uncompiled := by
  have hcomplete := Build.front_complete (Build.isError_eq_false h)
  refine ⟨fun f hf => (hcomplete f hf).hasErrors_eq_false, fun limit i vs hsession => ?_⟩
  have hstart := Eval.Discipline.holds_ofProgram (Build.front_distinct source) hcomplete limit
  obtain ⟨hholds, hvs⟩ := hsession.holds hstart
  refine ⟨fun f hf => ?_, fun name args hargs f hf => ?_⟩
  · exact (Eval.runMain_upholds hholds hvs).2.2 f hf trivial
  · exact (Eval.callGlobal_upholds hholds hvs name hargs).2.2 f hf trivial

/-- A variant, and a function with a match on it that leaves a case out. -/
def boxes : List Char :=
  "variant Box { Empty, Full(value) } fn open(b) = match_box!(b) { Full(v) => v }".toList

/-- A warning does not close the gate, and an argument that is no box does not break it. -/
theorem error_gate_boxes : (Build.ofSource {} boxes).hasErrors = false ∧
    (∀ f ∈ (Build.ofSource {} boxes).program.functions, f.body.hasErrors = false) ∧
      ∀ f, ((Eval.Interpreter.ofProgram (Build.ofSource {} boxes).program 8).callGlobal "open"
        [.int 1]).1 = .error f → f.cause ≠ .uncompiled := by
  have hbuild : (Build.ofSource {} boxes).hasErrors = false := by decide +kernel
  obtain ⟨hfunctions, hsession⟩ := error_gate hbuild
  have hargs : ∀ v ∈ [Eval.Value.int 1], v.IsPlain ∨ v ∈ [] := by simp [Eval.Value.IsPlain]
  exact ⟨hbuild, hfunctions, (hsession 8 _ [] .start).2 "open" [.int 1] hargs⟩

end Compile

end ClosedSum
