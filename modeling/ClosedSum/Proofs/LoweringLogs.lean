import ClosedSum.Proofs.Lowering

/-!
# What lowering reports

Compiling draws names and adds its reports behind those that are there. No report that it adds is on
a definition, and one of them is an error just if some part of the result could not be compiled.
-/

namespace ClosedSum

/-- Whether a code is of a report on a definition or on the names that it takes. -/
def Code.isDefinition : Code → Bool
  | .duplicateCase | .duplicateField | .duplicateGlobal => true
  | _ => false

namespace Match

lemma Fault.isDefinition_code (f : Fault) : f.diagnostic.code.isDefinition = false := by
  cases f <;> rfl

lemma Advice.isDefinition_code (a : Advice) : a.diagnostic.code.isDefinition = false := by
  cases a <;> rfl

/-- Advice is no error. -/
lemma Advice.isError_diagnostic (a : Advice) : a.diagnostic.isError = false := by
  cases a <;> rfl

namespace Site

variable {site : Site} {seen : List Ident} {cs : List Clause} {n n' : Nat} {disp : Dispatch}

lemma anyErrors_fieldCalls (s : Schema) (e : Entry) (scrutinee : String) :
    Core.Expr.anyErrors (s.fieldCalls e scrutinee) = false := by
  simp [Core.Expr.anyErrors_eq_any, Schema.fieldCalls, Core.Expr.hasErrors, Core.Expr.anyErrors]

lemma hasErrors_action (c : Clause) (args : List Core.Expr) (n : Nat) :
    (action c args n).1.hasErrors = (c.body.hasErrors || Core.Expr.anyErrors args) := by
  cases hc : c.pattern with
  | default => simp [action_of_default hc, Core.Expr.hasErrors]
  | case label params =>
    cases params with
    | list params => simp [action_of_list hc, Core.Expr.hasErrors]
    | rest param => simp [action_of_rest hc, Core.Expr.hasErrors]

/-- The bodies of all clauses are in the branches, and nothing else that could fail to compile. -/
lemma Compiles.branchErrors_eq (h : site.Compiles seen cs n disp n') :
    Core.Expr.branchErrors disp.branches = cs.any (·.body.hasErrors) := by
  induction h with
  | close seen n => simp [Site.close, Core.Expr.branchErrors, Core.Expr.hasErrors]
  | default seen hc n =>
    simp [closeWith_default seen hc, Core.Expr.branchErrors, Core.Expr.hasErrors,
      Core.Expr.anyErrors]
  | case hc hnew he hrest ih =>
    simp [Core.Expr.branchErrors, hasErrors_action, anyErrors_fieldCalls, ih]

end Site

/-- An expansion has errors just if the scrutinee has or the body of a clause. -/
lemma Operator.hasErrors_expand {o : Operator} {scrutinee : Core.Expr} {clauses : List Clause}
    {span : Span} {n n' : Nat} {x : Expansion}
    (h : o.expand scrutinee clauses span n = (.ok x, n')) :
    x.expr.hasErrors = (scrutinee.hasErrors || clauses.any (·.body.hasErrors)) := by
  obtain ⟨name, k, -, h₁⟩ := Compile.bind_eq_ok h
  obtain ⟨disp, k', hcompile, h₂⟩ := Compile.bind_eq_ok h₁
  have hbranches := (Site.compile_ok hcompile).branchErrors_eq
  cases h₂
  simp only [Core.Expr.hasErrors, hbranches]

/-- A compilation that draws names gives none back, whether it succeeds or not. -/
def Compile.Draws {α : Type} (s : Compile α) : Prop := ∀ n, n ≤ (s n).2

namespace Compile.Draws

variable {α β : Type}

lemma pure (a : α) : Draws (Pure.pure a) := fun _ => Nat.le_refl _

lemma throw (f : Fault) : Draws (throw f : Compile α) := fun _ => Nat.le_refl _

lemma lift {s : StateM Nat α} (h : ∀ n, n ≤ (s n).2) : Draws (liftM s) := fun n => h n

lemma bind {s : Compile α} (hs : Draws s) {f : α → Compile β} (hf : ∀ a, Draws (f a)) :
    Draws (s >>= f) := by
  intro n
  have hfirst := hs n
  rw [Compile.bind_apply]
  generalize s n = r at hfirst
  obtain ⟨_ | a, k⟩ := r
  · exact hfirst
  · exact Nat.le_trans hfirst (hf a k)

end Compile.Draws

lemma Site.compileFrom_draws (site : Site) (seen : List Ident) (cs : List Clause) :
    Compile.Draws (site.compileFrom seen cs) := by
  induction cs generalizing seen with
  | nil => exact .pure _
  | cons c cs ih =>
    rw [compileFrom.eq_def]
    dsimp only
    split
    · split
      · refine .lift fun n => ?_
        exact le_counter_action c [] n
      · exact .throw _
    · split
      · exact .throw _
      · have hentry : ∀ label : Ident,
            Compile.Draws (liftM (site.schema.entry label) : Compile Entry) := by
          intro label
          unfold Schema.entry
          split
          · exact .pure _
          · exact .throw _
        refine (hentry _).bind fun e => ?_
        refine Compile.Draws.bind (.lift fun n => le_counter_action c _ n) fun action => ?_
        exact (ih _).bind fun rest => .pure _

/-- The use of an operator draws names even where it fails. -/
theorem Registry.expand_draws (r : Registry) (operator : Ident) (scrutinee : Core.Expr)
    (clauses : List Clause) (span : Span) :
    Compile.Draws (r.expand operator scrutinee clauses span) := by
  unfold Registry.expand
  split
  · refine Compile.Draws.bind (.lift fun n => Nat.le_succ n) fun name => ?_
    refine Compile.Draws.bind ?_ fun d => .pure _
    unfold Site.compile
    split
    · exact .throw _
    · exact Site.compileFrom_draws _ _ _
  · exact .throw _

end Match

namespace Compile

open Surface (Expr Stmt Clause WholeExprs WholeStmts WholeClauses)

variable {α β : Type} {registry : Match.Registry}

/-- With the counter at `n` a step comes to `a`, draws `k` names and adds the reports `ds`, whatever
was reported before. -/
def Does (s : Step α) (n : Nat) (a : α) (k : Nat) (ds : List Diagnostic) : Prop :=
  ∀ before, s ⟨n, before⟩ = (a, ⟨n + k, before ++ ds⟩)

namespace Does

variable {s : Step α} {f : α → Step β} {n k k' : Nat} {a a' : α} {b : β} {ds ds' : List Diagnostic}

lemma pure (a : α) (n : Nat) : Does (Pure.pure a) n a 0 [] := fun before => by
  rw [List.append_nil]
  rfl

lemma report (ds : List Diagnostic) (n : Nat) : Does (report ds) n () 0 ds := fun _ => rfl

lemma bind (hs : Does s n a k ds) (hf : Does (f a) (n + k) b k' ds') :
    Does (s >>= f) n b (k + k') (ds ++ ds') := by
  intro before
  have hrun : (s >>= f) ⟨n, before⟩ = f (s ⟨n, before⟩).1 (s ⟨n, before⟩).2 := rfl
  rw [hrun, hs before, hf, Nat.add_assoc, List.append_assoc]

/-- What a step does is determined. -/
lemma unique (h : Does s n a k ds) (h' : Does s n a' k' ds') : a = a' ∧ k = k' ∧ ds = ds' := by
  obtain ⟨ha, hp⟩ := Prod.mk.inj ((h []).symm.trans (h' []))
  obtain ⟨hk, hds⟩ := Progress.mk.inj hp
  exact ⟨ha, Nat.add_left_cancel hk, hds⟩

end Does

/-- A step that draws names and adds reports, none of them on a definition. Of its result and of
what it reports, `Q` holds. -/
def Logs (s : Step α) (Q : α → List Diagnostic → Prop) : Prop :=
  ∀ n, ∃ a k ds, Does s n a k ds ∧ (∀ d ∈ ds, d.code.isDefinition = false) ∧ Q a ds

namespace Logs

variable {Q : α → List Diagnostic → Prop} {R : β → List Diagnostic → Prop}

lemma pure {a : α} (h : Q a []) : Logs (Pure.pure a) Q :=
  fun n => ⟨a, 0, [], .pure a n, List.forall_mem_nil _, h⟩

/-- The second step tells what both report, given what the first has reported. -/
lemma bind {s : Step α} {f : α → Step β} (hs : Logs s Q)
    (hf : ∀ a, Logs (f a) fun b ds => ∀ ds₀, Q a ds₀ → R b (ds₀ ++ ds)) : Logs (s >>= f) R := by
  intro n
  obtain ⟨a, k, ds, hdoes, hcodes, hQ⟩ := hs n
  obtain ⟨b, k', ds', hdoes', hcodes', hR⟩ := hf a (n + k)
  exact ⟨b, k + k', ds ++ ds', hdoes.bind hdoes', List.forall_mem_append.mpr ⟨hcodes, hcodes'⟩,
    hR ds hQ⟩

lemma mono {S : α → List Diagnostic → Prop} {s : Step α} (h : Logs s Q)
    (hQS : ∀ a ds, Q a ds → S a ds) : Logs s S := by
  intro n
  obtain ⟨a, k, ds, hdoes, hcodes, hQ⟩ := h n
  exact ⟨a, k, ds, hdoes, hcodes, hQS _ _ hQ⟩

/-- What a step does is one of the things that are known of it. -/
lemma does {s : Step α} (h : Logs s Q) :
    Logs s fun a ds => (∃ n k, Does s n a k ds) ∧ Q a ds := by
  intro n
  obtain ⟨a, k, ds, hdoes, hcodes, hQ⟩ := h n
  exact ⟨a, k, ds, hdoes, hcodes, ⟨n, k, hdoes⟩, hQ⟩

/-- One step after the other, each with its own reports. -/
lemma mapM {f : α → Step β} {S : α → β → List Diagnostic → Prop} (hf : ∀ a, Logs (f a) (S a))
    (as : List α) : Logs (as.mapM f) fun bs ds => ∃ rs : List (β × List Diagnostic),
      bs = rs.map (·.1) ∧ ds = rs.flatMap (·.2) ∧ List.Forall₂ (fun a r => S a r.1 r.2) as rs := by
  induction as with
  | nil => exact .pure ⟨[], rfl, rfl, .nil⟩
  | cons a as ih =>
    rw [List.mapM_cons]
    refine (hf a).bind fun b => ih.bind fun bs => .pure ?_
    rintro ds ⟨rs, rfl, rfl, hrs⟩ ds₀ hS
    exact ⟨(b, ds₀) :: rs, rfl, by simp, .cons hS hrs⟩

end Logs

lemma report_logs {ds : List Diagnostic} (h : ∀ d ∈ ds, d.code.isDefinition = false) :
    Logs (report ds) fun _ ds' => ds' = ds :=
  fun n => ⟨(), 0, ds, .report ds n, h, rfl⟩

/-- Advice on parameters that are not used. -/
lemma exists_of_mem_unusedParams {pattern : Match.Pattern} {body : Core.Expr} {d : Diagnostic}
    (hd : d ∈ unusedParams pattern body) : ∃ i, d = unusedParam i := by
  unfold unusedParams at hd
  split at hd
  · obtain ⟨param, -, hparam⟩ := List.mem_filterMap.mp hd
    split at hparam
    · split at hparam
      · cases hparam
      · exact ⟨_, (Option.some.inj hparam).symm⟩
    · cases hparam
  · cases hd

lemma unusedParams_isError (pattern : Match.Pattern) (body : Core.Expr) :
    (unusedParams pattern body).any (·.isError) = false := by
  refine List.any_eq_false.mpr fun d hd => ?_
  obtain ⟨i, rfl⟩ := exists_of_mem_unusedParams hd
  exact Bool.false_ne_true

lemma unusedParams_isDefinition (pattern : Match.Pattern) (body : Core.Expr) :
    ∀ d ∈ unusedParams pattern body, d.code.isDefinition = false := by
  intro d hd
  obtain ⟨i, rfl⟩ := exists_of_mem_unusedParams hd
  rfl

lemma expandMatch_does_ok {operator : Ident} {scrutinee : Core.Expr} {clauses : List Match.Clause}
    {site : Span} {n k : Nat} {x : Match.Operator.Expansion}
    (h : registry.expand operator scrutinee clauses site n = (.ok x, n + k)) :
    Does (expandMatch registry operator scrutinee clauses site) n x.expr k
      (x.advice.map (·.diagnostic)) := fun before => by
  rw [expandMatch_apply, h]

lemma expandMatch_does_error {operator : Ident} {scrutinee : Core.Expr}
    {clauses : List Match.Clause} {site : Span} {n k : Nat} {f : Match.Fault}
    (h : registry.expand operator scrutinee clauses site n = (.error f, n + k)) :
    Does (expandMatch registry operator scrutinee clauses site) n .error k [f.diagnostic] :=
  fun before => by rw [expandMatch_apply, h]

/-- A use of an operator has errors if it cannot be expanded, or if one of its parts has. -/
lemma expandMatch_logs (operator : Ident) (scrutinee : Core.Expr) (clauses : List Match.Clause)
    (site : Span) : Logs (expandMatch registry operator scrutinee clauses site) fun x ds =>
      x.hasErrors = (scrutinee.hasErrors || clauses.any (·.body.hasErrors) ||
        ds.any (·.isError)) := by
  intro n
  have hdraws := registry.expand_draws operator scrutinee clauses site n
  obtain ⟨k, hk⟩ := Nat.exists_eq_add_of_le hdraws
  cases hexpand : registry.expand operator scrutinee clauses site n with
  | mk result fresh =>
    rw [hexpand] at hk
    obtain rfl : fresh = n + k := hk
    cases result with
    | error f =>
      refine ⟨.error, k, _, expandMatch_does_error hexpand, ?_, ?_⟩
      · simpa using f.isDefinition_code
      · simp [Core.Expr.hasErrors, f.isError_diagnostic]
    | ok x =>
      refine ⟨x.expr, k, _, expandMatch_does_ok hexpand, ?_, ?_⟩
      · simpa using fun a _ => a.isDefinition_code
      · have hadvice : (x.advice.map (·.diagnostic)).any (·.isError) = false := by
          simp [Match.Advice.isError_diagnostic]
        dsimp only
        rw [hadvice, Bool.or_false]
        unfold Match.Registry.expand at hexpand
        cases hfind : registry.find? operator.name with
        | none =>
          rw [hfind] at hexpand
          cases hexpand
        | some o =>
          rw [hfind] at hexpand
          exact Match.Operator.hasErrors_expand hexpand

lemma hasErrors_sequence (es : List Core.Expr) :
    (sequence es).hasErrors = es.any (·.hasErrors) := by
  match es with
  | [] => simp [sequence, Core.Expr.unit, Core.Expr.hasErrors]
  | [e] => simp [sequence]
  | e :: e' :: es => simp [sequence, Core.Expr.hasErrors, Core.Expr.anyErrors_eq_any]

mutual

/-- What is compiled of a whole expression has errors just if one is reported. -/
theorem expr_logs : (e : Expr) → Logs (expr registry e) fun x ds =>
    e.Whole → x.hasErrors = ds.any (·.isError)
  | .unit _ | .bool .. | .int .. | .str .. | .ident .. => .pure fun _ => by
    simp [Core.Expr.unit, Core.Expr.hasErrors]
  | .call _ callee args =>
    (expr_logs callee).bind fun _ => (exprs_logs args).bind fun _ =>
      .pure fun _ hargs _ hcallee hwhole => by
        simp [Core.Expr.hasErrors, Core.Expr.anyErrors_eq_any, hcallee hwhole.1, hargs hwhole.2]
  | .binary _ _ lhs rhs =>
    (expr_logs lhs).bind fun _ => (expr_logs rhs).bind fun _ =>
      .pure fun _ hrhs _ hlhs hwhole => by
        simp [Core.Expr.hasErrors, hlhs hwhole.1, hrhs hwhole.2]
  | .ifElse _ test yes no =>
    (expr_logs test).bind fun _ => (expr_logs yes).bind fun _ => (expr_logs no).bind fun _ =>
      .pure fun _ hno _ hyes _ htest hwhole => by
        simp [Core.Expr.hasErrors, htest hwhole.1, hyes hwhole.2.1, hno hwhole.2.2, Bool.or_assoc]
  | .block _ body =>
    (stmts_logs body).bind fun _ => .pure fun _ hbody hwhole => by
      simp [hasErrors_sequence, hbody hwhole]
  | .matchUse _ operator scrutinee cs site =>
    (expr_logs scrutinee).bind fun s => (clauses_logs cs).bind fun clauses =>
      (expandMatch_logs operator s clauses site).mono fun _ _ hmatch _ hcs _ hs hwhole => by
        simp [hmatch, hs hwhole.1, hcs hwhole.2, Bool.or_assoc]
  | .error _ => .pure False.elim

theorem exprs_logs : (es : List Expr) → Logs (exprs registry es) fun xs ds =>
    WholeExprs es → xs.any (·.hasErrors) = ds.any (·.isError)
  | [] => .pure fun _ => rfl
  | e :: es =>
    (expr_logs e).bind fun _ => (exprs_logs es).bind fun _ => .pure fun _ hes _ he hwhole => by
      simp [he hwhole.1, hes hwhole.2]

theorem stmts_logs : (ss : List Stmt) → Logs (stmts registry ss) fun xs ds =>
    WholeStmts ss → xs.any (·.hasErrors) = ds.any (·.isError)
  | [] => .pure fun _ => rfl
  | .expr e :: rest =>
    (expr_logs e).bind fun _ => (stmts_logs rest).bind fun _ =>
      .pure fun _ hrest _ he hwhole => by simp [he hwhole.1, hrest hwhole.2]
  | .bind _ value :: rest =>
    (expr_logs value).bind fun _ => (stmts_logs rest).bind fun _ =>
      .pure fun _ hrest _ hvalue hwhole => by
        simp [Core.Expr.hasErrors, hasErrors_sequence, hvalue hwhole.1, hrest hwhole.2]

theorem clauses_logs : (cs : List Clause) → Logs (clauses registry cs) fun xs ds =>
    WholeClauses cs → xs.any (·.body.hasErrors) = ds.any (·.isError)
  | [] => .pure fun _ => rfl
  | .mk pattern body _ :: rest =>
    (stmts_logs body).bind fun xs =>
      (report_logs (unusedParams_isDefinition pattern (sequence xs))).bind fun _ =>
        (clauses_logs rest).bind fun _ => .pure fun _ hrest _ hunused _ hbody hwhole => by
          have hadvice := unusedParams_isError pattern (sequence xs)
          simp [hunused, hadvice, hasErrors_sequence, hbody hwhole.1, hrest hwhole.2]

end

/-- The body of a function has errors just if one is reported while the function is compiled. -/
theorem function_logs (f : Surface.Function) : Logs (function registry f) fun g ds =>
    g.name = f.name.name ∧ g.params = f.params.map (·.name) ∧
      (f.body.Whole → g.body.hasErrors = ds.any (·.isError)) :=
  (expr_logs f.body).bind fun _ => .pure fun _ hbody =>
    ⟨rfl, rfl, fun hwhole => by simp [hbody hwhole]⟩

/-- The functions of a module are compiled one after the other, each with its own reports. -/
lemma functions_log (m : Surface.Module) (fresh : Nat) :
    ∃ (rs : List (Core.Function × List Diagnostic)) (k : Nat),
      Does ((Collected.ofModule m).functions.mapM (function (Collected.ofModule m).registry)) fresh
        (rs.map (·.1)) k (rs.flatMap (·.2)) ∧
      (∀ d ∈ rs.flatMap (·.2), d.code.isDefinition = false) ∧
      List.Forall₂ (fun f r =>
        (∃ n k, Does (function (Collected.ofModule m).registry f) n r.1 k r.2) ∧
          r.1.name = f.name.name ∧ r.1.params = f.params.map (·.name) ∧
            (f.body.Whole → r.1.body.hasErrors = r.2.any (·.isError)))
        (Collected.ofModule m).functions rs := by
  obtain ⟨functions, k, ds, hdoes, hcodes, rs, rfl, rfl, hrs⟩ :=
    Logs.mapM (fun f => (@function_logs (Collected.ofModule m).registry f).does)
      (Collected.ofModule m).functions fresh
  exact ⟨rs, k, hdoes, hcodes, hrs⟩

/-- What a module becomes, if its functions are compiled without regard to earlier reports. -/
lemma Compiled.ofModule_eq {m : Surface.Module} {fresh k : Nat} {functions : List Core.Function}
    {ds : List Diagnostic}
    (h : Does ((Collected.ofModule m).functions.mapM (function (Collected.ofModule m).registry))
      fresh functions k ds) :
    Compiled.ofModule m fresh =
      ⟨⟨(Collected.ofModule m).decls, functions⟩, (Collected.ofModule m).diagnostics ++ ds⟩ := by
  have hrun := h (Collected.ofModule m).diagnostics
  rw [Compiled.ofModule, StateT.run, hrun]

end Compile

end ClosedSum
