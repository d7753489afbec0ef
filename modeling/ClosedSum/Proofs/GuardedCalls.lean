import ClosedSum.Proofs.ChangedModules
import ClosedSum.Proofs.GlobalNames
import ClosedSum.Proofs.GuardedRuns
import ClosedSum.Proofs.ParserProgress
import Mathlib.Data.List.Flatten

/-!
# Generated calls of accessors

What a module is compiled to is guarded, unless its source names an accessor. So no run of such a
program reads a field of a value of another case.
-/

namespace ClosedSum

namespace Surface

mutual

/-- The names that an expression refers to or binds. Operators and the labels of cases do not
count. -/
def Expr.variables : Expr → List String
  | .unit _ | .bool .. | .int .. | .str .. | .error _ => []
  | .ident _ name => [name]
  | .call _ callee args => callee.variables ++ exprsVariables args
  | .binary _ _ lhs rhs => lhs.variables ++ rhs.variables
  | .ifElse _ test yes no => test.variables ++ yes.variables ++ no.variables
  | .block _ stmts => stmtsVariables stmts
  | .matchUse _ _ scrutinee clauses _ => scrutinee.variables ++ clausesVariables clauses

def exprsVariables : List Expr → List String
  | [] => []
  | e :: es => e.variables ++ exprsVariables es

def Stmt.variables : Stmt → List String
  | .bind name value => name.name :: value.variables
  | .expr value => value.variables

def stmtsVariables : List Stmt → List String
  | [] => []
  | s :: ss => s.variables ++ stmtsVariables ss

def Clause.variables : Clause → List String
  | .mk pattern body _ => pattern.binders ++ stmtsVariables body

def clausesVariables : List Clause → List String
  | [] => []
  | c :: cs => c.variables ++ clausesVariables cs

end

def Function.variables (f : Function) : List String := f.params.map (·.name) ++ f.body.variables

def Module.variables (m : Module) : List String := m.functions.flatMap (·.variables)

end Surface

namespace Match

open ClosedSum.Core (IsAccessor)

variable {ds : List Variant.Decls}

/-- A clause that binds no accessor, with guarded code. -/
def Clause.Guarded (ds : List Variant.Decls) (c : Clause) : Prop :=
  (∀ x ∈ c.pattern.binders, ¬ IsAccessor ds x) ∧ c.body.Guarded ds

lemma Param.compile_guarded (hfresh : ∀ stem n, ¬ IsAccessor ds (freshName stem n))
    {params : List Param} (h : ∀ x ∈ params.filterMap (·.name?), ¬ IsAccessor ds x) (n : Nat) :
    ∀ q ∈ (params.mapM Param.compile n).1, ¬ IsAccessor ds q.name := by
  obtain ⟨-, hall⟩ := Param.mapM_compile params n
  generalize (params.mapM Param.compile n).1 = qs at hall
  generalize (params.mapM Param.compile n).2 = n' at hall
  induction hall with
  | nil => exact List.forall_mem_nil _
  | @cons p q params qs hpq _ ih =>
    cases hpq with
    | named i =>
      obtain ⟨hi, hrest⟩ := List.forall_mem_cons.mp h
      exact List.forall_mem_cons.mpr ⟨hi, ih hrest⟩
    | wildcard => exact List.forall_mem_cons.mpr ⟨hfresh _ _, ih h⟩

lemma Clause.Guarded.compile (hfresh : ∀ stem n, ¬ IsAccessor ds (freshName stem n)) {c : Clause}
    (h : c.Guarded ds) (n : Nat) : (c.pattern.compile c.body n).1.toExpr.Guarded ds := by
  obtain ⟨hbinders, hbody⟩ := h
  match c.pattern, hbinders with
  | .default, _ => exact .lambda false (List.forall_mem_nil _) hbody
  | .case _ (.rest _), _ => exact .lambda true (List.forall_mem_nil _) hbody
  | .case _ (.list params), hbinders =>
    exact .lambda false (Param.compile_guarded hfresh hbinders n) hbody

variable {s : Variant.Spec} {d : Definition}

/-- Guarded clauses become guarded branches: the accessors of a case occur in its own branch. -/
theorem Site.Compiles.branches_guarded (hfresh : ∀ stem n, ¬ IsAccessor ds (freshName stem n))
    (hd : Definition.ofSpec s = .ok d) (hmem : d.decls ∈ ds) {x : String}
    (hx : ¬ IsAccessor ds x) {span : Span} {seen : List Ident} {cs : List Clause} {n n' : Nat}
    {disp : Dispatch} (h : Compiles ⟨d.operator.schema, x, span⟩ seen cs n disp n')
    (hcs : ∀ c ∈ cs, c.Guarded ds) : ∀ b ∈ disp.branches, b.Guarded ds := by
  induction h with
  | close seen n => exact List.forall_mem_singleton.mpr (.always (.fail _))
  | @default seen c hc n =>
    rw [closeWith_default seen hc]
    have hbody := (hcs c (List.mem_singleton_self c)).2
    exact List.forall_mem_singleton.mpr (.always
      (.call (.lambda false (List.forall_mem_nil _) hbody) (List.forall_mem_nil _)))
  | @case seen c label params cs e disp n n' hc hnew he hrest ih =>
    obtain ⟨hclause, hcs⟩ := List.forall_mem_cons.mp hcs
    obtain ⟨decl, hdecl, -, rfl, hvariant⟩ := Definition.find?_schema hd he
    have hfunction := hclause.compile hfresh n
    have hbranch := Core.Branch.Guarded.case hmem hdecl hx decl.predicate hfunction
    rw [← fieldCalls_eq hd hdecl x, ← hvariant] at hbranch
    exact List.forall_mem_cons.mpr ⟨hbranch, ih hcs⟩

/-- The operators of a registry are those of variants that are among the declared ones. -/
def Registry.Serves (r : Registry) (ds : List Variant.Decls) : Prop :=
  ∀ o ∈ r.operators, ∃ s d, Definition.ofSpec s = .ok d ∧ d.decls ∈ ds ∧ o = d.operator

lemma Registry.Serves.expand {r : Registry} (hr : r.Serves ds)
    (hfresh : ∀ stem n, ¬ IsAccessor ds (freshName stem n)) {operator : Ident}
    {scrutinee : Core.Expr} {cs : List Clause} {span : Span} {n n' : Nat} {x : Operator.Expansion}
    (h : r.expand operator scrutinee cs span n = (.ok x, n')) (hscrutinee : scrutinee.Guarded ds)
    (hcs : ∀ c ∈ cs, c.Guarded ds) : x.expr.Guarded ds := by
  unfold Registry.expand at h
  cases hfind : r.find? operator.name with
  | none =>
    rw [hfind] at h
    cases h
  | some o =>
    rw [hfind] at h
    obtain ⟨s, d, hd, hmem, rfl⟩ := hr o (List.mem_of_find?_eq_some hfind)
    obtain ⟨name, k, hname, h₁⟩ := Compile.bind_eq_ok h
    obtain ⟨disp, k', hcompile, h₂⟩ := Compile.bind_eq_ok h₁
    cases hname
    cases h₂
    have hx := hfresh "scrutinee" n
    exact .letIn hx hscrutinee (.dispatch
      ((Site.compile_ok hcompile).branches_guarded hfresh hd hmem hx hcs))

end Match

namespace Compile

open ClosedSum.Core (IsAccessor)
open Surface (Expr Stmt Clause exprsVariables stmtsVariables clausesVariables)

variable {α β : Type} {registry : Match.Registry} {ds : List Variant.Decls}

/-- A step comes to results of which `Q` holds. -/
def Gives (s : Step α) (Q : α → Prop) : Prop := ∀ p, Q (s p).1

namespace Gives

variable {Q : α → Prop} {R : β → Prop}

lemma pure {a : α} (h : Q a) : Gives (Pure.pure a) Q := fun _ => h

lemma bind {s : Step α} {f : α → Step β} (hs : Gives s Q) (hf : ∀ a, Q a → Gives (f a) R) :
    Gives (s >>= f) R := fun p => hf _ (hs p) (s p).2

lemma mapM {f : α → Step β} {as : List α} (hf : ∀ a ∈ as, Gives (f a) R) :
    Gives (as.mapM f) fun bs => ∀ b ∈ bs, R b := by
  induction as with
  | nil => exact .pure (List.forall_mem_nil _)
  | cons a as ih =>
    obtain ⟨ha, has⟩ := List.forall_mem_cons.mp hf
    rw [List.mapM_cons]
    exact ha.bind fun b hb => (ih has).bind fun bs hbs =>
      .pure (List.forall_mem_cons.mpr ⟨hb, hbs⟩)

end Gives

lemma report_gives (ds : List Diagnostic) : Gives (report ds) fun _ => True := fun _ => trivial

lemma expandMatch_gives (hr : registry.Serves ds)
    (hfresh : ∀ stem n, ¬ IsAccessor ds (freshName stem n)) (operator : Ident)
    {scrutinee : Core.Expr} (hscrutinee : scrutinee.Guarded ds) {clauses : List Match.Clause}
    (hclauses : ∀ c ∈ clauses, c.Guarded ds) (site : Span) :
    Gives (expandMatch registry operator scrutinee clauses site) (·.Guarded ds) := by
  intro p
  rw [expandMatch_apply]
  cases hexpand : registry.expand operator scrutinee clauses site p.fresh with
  | mk result fresh =>
    cases result with
    | ok x => exact hr.expand hfresh hexpand hscrutinee hclauses
    | error f => exact .error

lemma sequence_guarded {es : List Core.Expr} (h : ∀ e ∈ es, e.Guarded ds) :
    (sequence es).Guarded ds := by
  match es with
  | [] => exact .lit _
  | [e] => exact h e (List.mem_singleton_self e)
  | e :: e' :: es => exact .seq h

mutual

/-- An expression that does not name an accessor becomes guarded code. -/
theorem expr_gives (hr : registry.Serves ds)
    (hfresh : ∀ stem n, ¬ IsAccessor ds (freshName stem n)) :
    (e : Expr) → (∀ x ∈ e.variables, ¬ IsAccessor ds x) →
      Gives (expr registry e) (·.Guarded ds)
  | .unit _, _ | .bool .., _ | .int .., _ | .str .., _ => .pure (.lit _)
  | .ident _ name, h => .pure (.var (h name (List.mem_singleton_self name)))
  | .call _ callee args, h => by
    simp only [Expr.variables, List.forall_mem_append] at h
    exact (expr_gives hr hfresh callee h.1).bind fun _ hf =>
      (exprs_gives hr hfresh args h.2).bind fun _ hargs => .pure (.call hf hargs)
  | .binary _ op lhs rhs, h => by
    simp only [Expr.variables, List.forall_mem_append] at h
    exact (expr_gives hr hfresh lhs h.1).bind fun _ hlhs =>
      (expr_gives hr hfresh rhs h.2).bind fun _ hrhs => .pure (.binary op hlhs hrhs)
  | .ifElse _ test yes no, h => by
    simp only [Expr.variables, List.forall_mem_append] at h
    exact (expr_gives hr hfresh test h.1.1).bind fun _ htest =>
      (expr_gives hr hfresh yes h.1.2).bind fun _ hyes =>
        (expr_gives hr hfresh no h.2).bind fun _ hno => .pure (.ifElse htest hyes hno)
  | .block _ body, h => by
    exact (stmts_gives hr hfresh body h).bind fun _ hbody => .pure (sequence_guarded hbody)
  | .matchUse _ operator scrutinee cs site, h => by
    simp only [Expr.variables, List.forall_mem_append] at h
    exact (expr_gives hr hfresh scrutinee h.1).bind fun _ hscrutinee =>
      (clauses_gives hr hfresh cs h.2).bind fun _ hcs =>
        expandMatch_gives hr hfresh operator hscrutinee hcs site
  | .error _, _ => .pure .error

theorem exprs_gives (hr : registry.Serves ds)
    (hfresh : ∀ stem n, ¬ IsAccessor ds (freshName stem n)) :
    (es : List Expr) → (∀ x ∈ exprsVariables es, ¬ IsAccessor ds x) →
      Gives (exprs registry es) fun xs => ∀ x ∈ xs, x.Guarded ds
  | [], _ => .pure (List.forall_mem_nil _)
  | e :: es, h => by
    simp only [exprsVariables, List.forall_mem_append] at h
    exact (expr_gives hr hfresh e h.1).bind fun _ he => (exprs_gives hr hfresh es h.2).bind
      fun _ hes => .pure (List.forall_mem_cons.mpr ⟨he, hes⟩)

theorem stmts_gives (hr : registry.Serves ds)
    (hfresh : ∀ stem n, ¬ IsAccessor ds (freshName stem n)) :
    (ss : List Stmt) → (∀ x ∈ stmtsVariables ss, ¬ IsAccessor ds x) →
      Gives (stmts registry ss) fun xs => ∀ x ∈ xs, x.Guarded ds
  | [], _ => .pure (List.forall_mem_nil _)
  | .expr e :: rest, h => by
    simp only [stmtsVariables, Surface.Stmt.variables, List.forall_mem_append] at h
    exact (expr_gives hr hfresh e h.1).bind fun _ he => (stmts_gives hr hfresh rest h.2).bind
      fun _ hrest => .pure (List.forall_mem_cons.mpr ⟨he, hrest⟩)
  | .bind name value :: rest, h => by
    simp only [stmtsVariables, Surface.Stmt.variables, List.cons_append, List.forall_mem_cons,
      List.forall_mem_append] at h
    exact (expr_gives hr hfresh value h.2.1).bind fun _ hvalue =>
      (stmts_gives hr hfresh rest h.2.2).bind fun _ hrest => .pure
        (List.forall_mem_singleton.mpr (.letIn h.1 hvalue (sequence_guarded hrest)))

theorem clauses_gives (hr : registry.Serves ds)
    (hfresh : ∀ stem n, ¬ IsAccessor ds (freshName stem n)) :
    (cs : List Clause) → (∀ x ∈ clausesVariables cs, ¬ IsAccessor ds x) →
      Gives (clauses registry cs) fun xs => ∀ c ∈ xs, c.Guarded ds
  | [], _ => .pure (List.forall_mem_nil _)
  | .mk pattern body span :: rest, h => by
    simp only [clausesVariables, Surface.Clause.variables, List.forall_mem_append] at h
    refine (stmts_gives hr hfresh body h.1.2).bind fun xs hxs => ?_
    refine (report_gives (unusedParams pattern (sequence xs))).bind fun _ _ => ?_
    exact (clauses_gives hr hfresh rest h.2).bind fun _ hcs =>
      .pure (List.forall_mem_cons.mpr ⟨⟨h.1.1, sequence_guarded hxs⟩, hcs⟩)

end

namespace Collected

lemma serves_ofModule (m : Surface.Module) :
    (ofModule m).registry.Serves (ofModule m).decls := by
  let P (c : Collected) : Prop := c.registry.Serves c.decls
  refine List.foldlRecOn (motive := P) m.items add (List.forall_mem_nil _) fun c hc i _ => ?_
  rcases c.add_cases i with ⟨ds, heq⟩ | ⟨s, d, -, hspec, -, heq⟩ | ⟨f, -, -, heq⟩ <;> rw [heq]
  · exact hc
  · intro o ho
    rcases List.mem_cons.mp ho with rfl | ho
    · exact ⟨s, d, hspec, List.mem_append_right _ (List.mem_singleton_self _), rfl⟩
    · obtain ⟨s', d', hspec', hmem, rfl⟩ := hc o (List.mem_of_mem_filter ho)
      exact ⟨s', d', hspec', List.mem_append_left _ hmem, rfl⟩
  · exact hc

end Collected

/-- The names that are kept are those that variants take and those of functions. -/
lemma perm_globalNames (is : List Surface.Item) : (is.flatMap (·.globalNames)).Perm
    ((Surface.Module.variants ⟨is⟩).flatMap (fun s => (Surface.Item.variant s).globalNames) ++
      (Surface.Module.functions ⟨is⟩).map (·.name.name)) := by
  induction is with
  | nil => exact .nil
  | cons i is ih =>
    rw [List.flatMap_cons]
    cases i with
    | variant s =>
      refine (ih.append_left _).trans ?_
      rw [← List.append_assoc]
      exact .refl _
    | function f => exact (ih.cons f.name.name).trans List.perm_middle.symm

/-- The names that a case binds. -/
lemma map_fst_caseGlobals (variant : String) (c : Variant.CaseSpec) (tag : Nat) :
    (Eval.caseGlobals (Variant.Decls.ofCase variant c tag)).map (·.1) =
      Variant.caseTypeName variant c.label.name :: Variant.predicateName variant c.label.name ::
        c.fields.map fun f => Variant.accessorName variant c.label.name f.name.name := by
  have hfields : (c.fields.zipIdx.map (·.1)).map
      (fun f => Variant.accessorName variant c.label.name f.name.name) = _ :=
    congrArg _ (List.zipIdx_map_fst 0 c.fields)
  rw [List.map_map] at hfields
  rw [← hfields]
  simp [Eval.caseGlobals, Variant.Decls.ofCase, List.zipIdx_map, Variant.Decls.ofField]

lemma caseGlobals_sublist (s : Variant.Spec) :
    (((Variant.Decls.ofSpec s).cases.flatMap Eval.caseGlobals).map (·.1)).Sublist
      (Surface.Item.variant s).globalNames := by
  have hcases : ((Variant.Decls.ofSpec s).cases.flatMap Eval.caseGlobals).map (·.1) =
      (s.cases.zipIdx.map (·.1)).flatMap fun c =>
        Variant.caseTypeName s.name.name c.label.name ::
          Variant.predicateName s.name.name c.label.name ::
            c.fields.map fun f => Variant.accessorName s.name.name c.label.name f.name.name := by
    simp only [Variant.Decls.ofSpec, List.flatMap_map, List.map_flatMap, map_fst_caseGlobals]
  rw [List.zipIdx_map_fst] at hcases
  rw [hcases]
  exact .cons _ (.cons _ (.refl _))

end Compile

namespace Eval

open ClosedSum.Core (IsAccessor)

/-- The globals of a program that are no builtin functions. -/
def generated (p : Core.Program) : List (String × Value) :=
  p.decls.flatMap (fun d => d.cases.flatMap caseGlobals) ++
    p.functions.map fun f => (f.name, .callable (.function f))

/-- What a program generates hides the builtin functions. -/
lemma lookup_programGlobals (p : Core.Program) (x : String) :
    (programGlobals p).reverse.lookup x = ((generated p).reverse.lookup x).or
      ((Builtin.all.map fun b => (b.name, Value.callable (.builtin b))).reverse.lookup x) := by
  rw [programGlobals, List.append_assoc, List.reverse_append, List.lookup_append]
  rfl

/-- Of several bindings, the one of a name that occurs once. -/
lemma lookup_reverse_of_nodup {bs : List (String × Value)} (h : (bs.map (·.1)).Nodup) {x : String}
    {v : Value} (hmem : (x, v) ∈ bs) : bs.reverse.lookup x = some v := by
  cases hlookup : bs.reverse.lookup x with
  | none =>
    have hne := List.lookup_eq_none_iff.mp hlookup (x, v) (List.mem_reverse.mpr hmem)
    simp at hne
  | some w =>
    obtain ⟨l, r, hl, -⟩ := List.lookup_eq_some_iff.mp hlookup
    have hmem' : (x, w) ∈ bs := List.mem_reverse.mp (by simp [hl])
    have heq : (x, w) = (x, v) := List.inj_on_of_nodup_map h hmem' hmem rfl
    rw [(Prod.mk.inj heq).2]

variable {p : Core.Program}

lemma mem_generated_of_mem {d : Variant.Decls} {c : Variant.CaseDecl} (hd : d ∈ p.decls)
    (hc : c ∈ d.cases) {b : String × Value} (hb : b ∈ caseGlobals c) : b ∈ generated p :=
  List.mem_append_left _ (List.mem_flatMap.mpr ⟨d, hd, List.mem_flatMap.mpr ⟨c, hc, hb⟩⟩)

lemma accessor_mem_caseGlobals {c : Variant.CaseDecl} {n : Nat} {f : Variant.FieldDecl}
    (hf : c.fields[n]? = some f) :
    (f.accessor, .callable (.accessor (.ofDecl c) n f.accessor)) ∈ caseGlobals c :=
  List.mem_cons_of_mem _ (List.mem_cons_of_mem _ (List.mem_map.mpr
    ⟨(f, n), List.mk_mem_zipIdx_iff_getElem?.mpr hf, rfl⟩))

/-- A name that a program generates once stands for just that when the program starts. -/
lemma lookup?_ofProgram (hnames : ((generated p).map (·.1)).Nodup) {b : String × Value}
    (hb : b ∈ generated p) (limit : Nat) :
    (Interpreter.ofProgram p limit).machine.store.lookup? Store.global b.1 = some b.2 := by
  have hlookup := lookup_reverse_of_nodup hnames hb
  rw [Interpreter.ofProgram, Store.lookup?_ofGlobals, lookup_programGlobals, hlookup,
    Option.some_or]

/-- A program starts on a guarded machine if its functions are guarded and no two of its globals
have one name. -/
theorem guards_ofProgram (hnames : ((generated p).map (·.1)).Nodup)
    (hfunctions : ∀ f ∈ p.functions,
      (∀ x ∈ f.params, ¬ IsAccessor p.decls x) ∧ f.body.Guarded p.decls) (limit : Nat) :
    (Interpreter.ofProgram p limit).machine.Guards p.decls := by
  refine ⟨by simp [Interpreter.ofProgram, Store.ofGlobals, Store.global, Store.size], ?_, ?_⟩
  · intro env henv d hd c hc i f hf
    have hglobal : env.current = Store.global := Nat.lt_one_iff.mp henv
    rw [Env.lookup?, hglobal]
    exact lookup?_ofProgram hnames (mem_generated_of_mem hd hc (accessor_mem_caseGlobals hf)) limit
  · intro s x v hx hv
    have hmem := List.mem_reverse.mp (Store.mem_of_lookup?_ofGlobals hv)
    simp only [programGlobals, List.mem_append, List.mem_map, List.mem_flatMap] at hmem
    rcases hmem with (⟨builtin, -, heq⟩ | ⟨d, hd, c, hc, hcase⟩) | ⟨f, hf, heq⟩
    · cases heq
      exact .callable trivial
    · simp only [caseGlobals, List.mem_cons, List.mem_map] at hcase
      rcases hcase with heq | heq | ⟨⟨field, index⟩, hfield, heq⟩
      · cases heq
        exact .callable trivial
      · cases heq
        exact .callable trivial
      · cases heq
        refine absurd ⟨d, hd, List.mem_flatMap.mpr ⟨c, hc, ?_⟩⟩ hx
        exact List.mem_map_of_mem (List.fst_mem_of_mem_zipIdx hfield)
    · cases heq
      exact .callable (hfunctions f hf)

variable {ds : List Variant.Decls} {i : Interpreter}

/-- A run of `main` comes to no fault of a wrong case, and leaves a guarded machine. -/
lemma runMain_spares (h : i.machine.Guards ds) :
    i.runMain.2.machine.Guards ds ∧ ∀ f, i.runMain.1 = .error f → f.cause.code ≠ .wrongCase := by
  unfold Interpreter.runMain
  split
  · next f hmain =>
    -- an accessor of this name would have hidden the function
    have hname : ¬ IsAccessor ds "main" := by
      rintro ⟨d, hd, haccessor⟩
      obtain ⟨c, hc, hfield⟩ := List.mem_flatMap.mp haccessor
      obtain ⟨field, hfield, heq⟩ := List.mem_map.mp hfield
      obtain ⟨index, hindex⟩ := List.mem_iff_getElem?.mp hfield
      have hresolves := h.resolves {} h.global_lt d hd c hc index field hindex
      rw [heq] at hresolves
      have hfunction := hmain.symm.trans hresolves
      cases hfunction
    have hcall := callWith_spares (enterAt_enters i.limit i.limit) h
      (h.guarded Store.global "main" _ hname hmain) (List.forall_mem_nil _)
    rw [← callAt_eq] at hcall
    obtain ⟨-, hguards, hresult⟩ := hcall
    refine ⟨hguards, fun fault hfault => ?_⟩
    have herror : (callAt i.limit i.limit (.callable (.function f)) [] i.machine).1 =
        .error fault := hfault
    rwa [herror] at hresult
  · exact ⟨h, fun f hf => by cases hf; simp [Cause.code]⟩

/-- An interpreter on which `main` was run so many times. -/
def Interpreter.afterRuns (i : Interpreter) : Nat → Interpreter
  | 0 => i
  | runs + 1 => (i.afterRuns runs).runMain.2

lemma afterRuns_guards (h : i.machine.Guards ds) (runs : Nat) :
    (i.afterRuns runs).machine.Guards ds := by
  induction runs with
  | zero => exact h
  | succ runs ih => exact (runMain_spares ih).1

end Eval

namespace Compile

open ClosedSum.Core (IsAccessor)

variable {m : Surface.Module}

lemma nodup_generated (m : Surface.Module) (fresh : Nat) :
    ((Eval.generated (Compiled.ofModule m fresh).program).map (·.1)).Nodup := by
  obtain ⟨hdecls, hkept⟩ := ofModule_program m fresh
  have hfunctions : (Compiled.ofModule m fresh).program.functions.map (·.name) =
      m.kept.functions.map (·.name.name) := by
    rw [← List.forall₂_eq_eq_eq, List.forall₂_map_left_iff, List.forall₂_map_right_iff]
    exact hkept.flip.imp fun _ _ h => h.1
  have hnames := (Collected.ofModule_keeps m).names
  rw [(perm_globalNames _).nodup_iff] at hnames
  refine hnames.sublist ?_
  rw [Eval.generated, List.map_append, hdecls, List.map_map, Function.comp_def, hfunctions]
  refine List.Sublist.append_right ?_ _
  rw [List.flatMap_map, List.map_flatMap]
  exact List.Sublist.flatMap_right _ fun s _ => caseGlobals_sublist s

/-- The functions of a module that names no accessor are guarded. -/
lemma functions_guarded
    (hfresh : ∀ stem n, ¬ IsAccessor (Collected.ofModule m).decls (freshName stem n))
    (hnames : ∀ x ∈ m.variables, ¬ IsAccessor (Collected.ofModule m).decls x) (fresh : Nat) :
    ∀ g ∈ (Compiled.ofModule m fresh).program.functions,
      (∀ x ∈ g.params, ¬ IsAccessor (Collected.ofModule m).decls x) ∧
        g.body.Guarded (Collected.ofModule m).decls := by
  have hserves := Collected.serves_ofModule m
  refine @Gives.mapM _ _ _ (function (Collected.ofModule m).registry)
    (Collected.ofModule m).functions (fun f hf => ?_)
    ⟨fresh, (Collected.ofModule m).diagnostics⟩
  have hitem := (Collected.faithful_ofModule m).functions f hf
  have hvariables : ∀ x ∈ f.variables, ¬ IsAccessor (Collected.ofModule m).decls x := fun x hx =>
    hnames x (List.mem_flatMap.mpr ⟨f, List.mem_filterMap.mpr ⟨_, hitem, rfl⟩, hx⟩)
  obtain ⟨hparams, hbody⟩ := List.forall_mem_append.mp hvariables
  exact (expr_gives hserves hfresh f.body hbody).bind fun body hbody => .pure ⟨hparams, hbody⟩

lemma freshName_not_isAccessor (hm : ∀ a ∈ m.names, NoPercent a) (stem : String) (n : Nat) :
    ¬ IsAccessor (Collected.ofModule m).decls (freshName stem n) := by
  rintro ⟨d, hd, hmem⟩
  obtain ⟨s, hs, rfl⟩ := (Collected.faithful_ofModule m).decls d hd
  refine Variant.Decls.freshName_not_mem_accessors (Variant.Spec.noPercent_of_names ?_) stem n hmem
  exact fun a ha => hm a (List.mem_flatMap.mpr ⟨_, hs, ha⟩)

open Eval (Interpreter)

/-- Generated calls of accessors are guarded. If nothing that is referred to or bound in the tree of
a text has the name of an accessor, then no run of `main` calls an accessor on a value of another
case, however deep calls may be nested, and however often `main` was run before. -/
theorem accessor_calls_guarded {source : List Char} {m : Surface.Module}
    (hm : (Grammar.parse (Token.scan source).tokens).tree = m) (fresh : Nat)
    (hnames : ∀ x ∈ m.variables, ∀ d ∈ (Compiled.ofModule m fresh).program.decls, x ∉ d.accessors)
    (limit runs : Nat) (f : Eval.Fault)
    (hf : ((Interpreter.ofProgram (Compiled.ofModule m fresh).program limit).afterRuns
      runs).runMain.1 = .error f) : f.cause.code ≠ .wrongCase := by
  have hfresh := freshName_not_isAccessor (Grammar.noPercent_of_parse hm)
  have hvariables : ∀ x ∈ m.variables, ¬ IsAccessor (Collected.ofModule m).decls x :=
    fun x hx ⟨d, hd, hmem⟩ => hnames x hx d hd hmem
  have hstart := Eval.guards_ofProgram (nodup_generated m fresh)
    (functions_guarded hfresh hvariables fresh) limit
  exact (Eval.runMain_spares (Eval.afterRuns_guards hstart runs)).2 f hf

/-- A program that opens two boxes, one inside the other, of which the inner one is empty. -/
def unboxing : List Char :=
  ("variant Box { Empty, Full(value) } fn main() = match_box!(BoxFull(BoxEmpty())) " ++
    "\x7b Full(v) => match_box!(v) \x7b Full(w) => w \x7d \x7d").toList

def unboxingTree : Surface.Module :=
  ⟨[.variant ⟨⟨"Box", ⟨8, 11⟩⟩, [], [⟨⟨"Empty", ⟨14, 19⟩⟩, [], [], ⟨14, 19⟩⟩,
      ⟨⟨"Full", ⟨21, 25⟩⟩, [], [⟨⟨"value", ⟨26, 31⟩⟩, []⟩], ⟨21, 32⟩⟩], ⟨0, 34⟩⟩,
    .function ⟨⟨"main", ⟨38, 42⟩⟩, [], .matchUse ⟨47, 124⟩ ⟨"match_box", ⟨47, 56⟩⟩
      (.call ⟨58, 77⟩ (.ident ⟨58, 65⟩ "BoxFull")
        [.call ⟨66, 76⟩ (.ident ⟨66, 74⟩ "BoxEmpty") []])
      [.mk (.case ⟨"Full", ⟨81, 85⟩⟩ (.list [.named ⟨"v", ⟨86, 87⟩⟩]))
        [.expr (.matchUse ⟨92, 122⟩ ⟨"match_box", ⟨92, 101⟩⟩ (.ident ⟨103, 104⟩ "v")
          [.mk (.case ⟨"Full", ⟨108, 112⟩⟩ (.list [.named ⟨"w", ⟨113, 114⟩⟩]))
            [.expr (.ident ⟨119, 120⟩ "w")] ⟨108, 120⟩] ⟨92, 122⟩)] ⟨81, 122⟩] ⟨47, 124⟩,
      ⟨35, 124⟩⟩]⟩

lemma parse_unboxing : (Grammar.parse (Token.scan unboxing).tokens).tree = unboxingTree := by
  decide +kernel

/-- The outer box is opened, and then no clause applies to the inner one. -/
theorem accessor_calls_guarded_unboxing :
    ∃ f, ((Interpreter.ofProgram (Compiled.ofModule unboxingTree 0).program 8).afterRuns
        1).runMain.1 = .error f ∧ f.cause = .matchFailure "Box" ∧ f.cause.code ≠ .wrongCase := by
  have hrun : ((Interpreter.ofProgram (Compiled.ofModule unboxingTree 0).program 8).afterRuns
      1).runMain.1.map Eval.Value.text = .error ⟨.matchFailure "Box", ["main"]⟩ := by
    decide +kernel
  cases hresult : ((Interpreter.ofProgram (Compiled.ofModule unboxingTree 0).program 8).afterRuns
      1).runMain.1 with
  | ok v =>
    rw [hresult] at hrun
    cases hrun
  | error f =>
    rw [hresult] at hrun
    refine ⟨f, rfl, congrArg Eval.Fault.cause (Except.error.inj hrun), ?_⟩
    exact accessor_calls_guarded parse_unboxing 0 (by decide +kernel) 8 1 f hresult

end Compile

end ClosedSum
