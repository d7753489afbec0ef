import ClosedSum.Compile.Module
import ClosedSum.Proofs.Discipline
import ClosedSum.Proofs.Dispatch
import ClosedSum.Proofs.WholeTrees

/-!
# Compiled bodies

A whole tree either compiles to complete code or is reported with an error: a match that cannot be
expanded never goes unreported, and the dispatch of one that can has a branch for every value.
-/

namespace ClosedSum

namespace Core.Expr

lemma branchErrors_eq_any (bs : List Branch) : branchErrors bs = bs.any (·.action.hasErrors) := by
  induction bs with
  | nil => simp [branchErrors]
  | cons b bs ih =>
    obtain ⟨t, a⟩ := b
    simp [branchErrors, Branch.action, ih]

/-- Complete code has no part that could not be compiled. -/
lemma Every.hasErrors_eq_false {e : Expr} (h : e.Every Complete) : e.hasErrors = false := by
  induction h with
  | lit | var | fail => simp [hasErrors]
  | call _ _ _ ihf ihargs => simpa [hasErrors, anyErrors_eq_any, ihf] using ihargs
  | lambda _ _ ih => simpa [hasErrors] using ih
  | letIn _ _ _ ihv ihb => simp [hasErrors, ihv, ihb]
  | seq _ _ ih => simpa [hasErrors, anyErrors_eq_any] using ih
  | ifElse _ _ _ _ iht ihy ihn => simp [hasErrors, iht, ihy, ihn]
  | binary _ _ _ ihl ihr => simp [hasErrors, ihl, ihr]
  | dispatch _ _ ih => simpa [hasErrors, branchErrors_eq_any] using ih
  | error h => exact h.elim

end Core.Expr

namespace Match

open Core.Expr (Complete)

/-- A fault of a match is an error. -/
lemma Fault.isError_diagnostic (f : Fault) : f.diagnostic.isError = true := by
  cases f <;> rfl

namespace Site

variable {site : Site} {seen : List Ident} {cs : List Clause} {n n' : Nat} {disp : Dispatch}

lemma action_every {c : Clause} {args : List Core.Expr} (hbody : c.body.Every Complete)
    (hargs : ∀ e ∈ args, e.Every Complete) (n : Nat) : (action c args n).1.Every Complete := by
  cases hc : c.pattern with
  | default =>
    rw [action_of_default hc]
    exact .call trivial (.lambda trivial hbody) hargs
  | case label params =>
    cases params with
    | rest param =>
      rw [action_of_rest hc]
      exact .call trivial (.lambda trivial hbody) hargs
    | list params =>
      rw [action_of_list hc]
      exact .call trivial (.lambda trivial hbody) hargs

lemma fieldCalls_every (s : Schema) (e : Entry) (scrutinee : String) :
    ∀ call ∈ s.fieldCalls e scrutinee, call.Every Complete := by
  intro call hcall
  obtain ⟨f, -, rfl⟩ := List.mem_map.mp hcall
  exact .call trivial (.var trivial) (by simpa using .var trivial)

/-- The last branch of a dispatch is taken by every value that comes to it. -/
lemma Compiles.exists_always (h : site.Compiles seen cs n disp n') :
    ∃ b ∈ disp.branches, b.test = .always := by
  induction h with
  | close seen n => exact ⟨_, List.mem_singleton_self _, rfl⟩
  | default seen hc n =>
    rw [closeWith_default seen hc]
    exact ⟨_, List.mem_singleton_self _, rfl⟩
  | case _ _ _ _ ih =>
    obtain ⟨b, hb, halways⟩ := ih
    exact ⟨b, List.mem_cons_of_mem _ hb, halways⟩

lemma Compiles.actions_every (h : site.Compiles seen cs n disp n')
    (hcs : ∀ c ∈ cs, c.body.Every Complete) : ∀ b ∈ disp.branches, b.action.Every Complete := by
  induction h with
  | close seen n => exact List.forall_mem_singleton.mpr (.fail trivial)
  | @default seen c hc n =>
    rw [closeWith_default seen hc]
    have hbody := hcs c (List.mem_singleton_self c)
    exact List.forall_mem_singleton.mpr
      (.call trivial (.lambda trivial hbody) (List.forall_mem_nil _))
  | @case seen c label params cs e disp n n' hc hnew he hrest ih =>
    obtain ⟨hbody, hcs⟩ := List.forall_mem_cons.mp hcs
    have haction := action_every hbody (fieldCalls_every site.schema e site.scrutinee) n
    exact List.forall_mem_cons.mpr ⟨haction, ih hcs⟩

end Site

/-- An expansion of complete code is complete. -/
theorem Operator.expand_every {o : Operator} {scrutinee : Core.Expr} {clauses : List Clause}
    {span : Span} {n n' : Nat} {x : Expansion}
    (h : o.expand scrutinee clauses span n = (.ok x, n')) (hscrutinee : scrutinee.Every Complete)
    (hclauses : ∀ c ∈ clauses, c.body.Every Complete) : x.expr.Every Complete := by
  obtain ⟨name, k, -, h₁⟩ := Compile.bind_eq_ok h
  obtain ⟨disp, k', hcompile, h₂⟩ := Compile.bind_eq_ok h₁
  have hcompiles := Site.compile_ok hcompile
  cases h₂
  exact .letIn trivial hscrutinee
    (.dispatch hcompiles.exists_always (hcompiles.actions_every hclauses))

end Match

namespace Compile

open Core.Expr (Complete)
open Surface (Expr Stmt Clause WholeExprs WholeStmts WholeClauses)

variable {α β : Type} {registry : Match.Registry}

/-- No error was found so far. -/
def Progress.Clean (p : Progress) : Prop := ∀ d ∈ p.diagnostics, d.isError = false

/-- A step that takes no report back, and reports an error unless its result is as it should be. -/
def Ensures (s : Step α) (Q : α → Prop) : Prop :=
  ∀ p : Progress, (s p).2.Clean → p.Clean ∧ Q (s p).1

namespace Ensures

variable {Q : α → Prop} {R : β → Prop}

lemma pure {a : α} (h : Q a) : Ensures (Pure.pure a) Q := fun _ hclean => ⟨hclean, h⟩

/-- That the first step was clean follows from the second, so what it ensures comes last. -/
lemma bind {s : Step α} {f : α → Step β} (hs : Ensures s Q)
    (hf : ∀ a, Ensures (f a) fun b => Q a → R b) : Ensures (s >>= f) R := by
  intro p hclean
  obtain ⟨hmid, hR⟩ := hf (s p).1 (s p).2 hclean
  obtain ⟨hstart, hQ⟩ := hs p hmid
  exact ⟨hstart, hR hQ⟩

lemma mapM {f : α → Step β} {S : α → β → Prop} (hf : ∀ a, Ensures (f a) (S a)) (as : List α) :
    Ensures (as.mapM f) fun bs => ∀ b ∈ bs, ∃ a ∈ as, S a b := by
  induction as with
  | nil => exact .pure (List.forall_mem_nil _)
  | cons a as ih =>
    rw [List.mapM_cons]
    refine (hf a).bind fun b => ih.bind fun bs => .pure fun hbs hb => ?_
    refine List.forall_mem_cons.mpr ⟨⟨a, List.mem_cons_self .., hb⟩, fun b' hb' => ?_⟩
    obtain ⟨a', ha', hS⟩ := hbs b' hb'
    exact ⟨a', List.mem_cons_of_mem _ ha', hS⟩

end Ensures

lemma report_ensures (ds : List Diagnostic) :
    Ensures (report ds) fun _ => ∀ d ∈ ds, d.isError = false := by
  intro p hclean
  have hall : ∀ d ∈ p.diagnostics ++ ds, d.isError = false := hclean
  exact ⟨fun d hd => hall d (List.mem_append_left _ hd),
    fun d hd => hall d (List.mem_append_right _ hd)⟩

lemma expandMatch_apply (operator : Ident) (scrutinee : Core.Expr) (clauses : List Match.Clause)
    (site : Span) (p : Progress) : expandMatch registry operator scrutinee clauses site p =
      match registry.expand operator scrutinee clauses site p.fresh with
      | (.ok x, fresh) => (x.expr, ⟨fresh, p.diagnostics ++ x.advice.map (·.diagnostic)⟩)
      | (.error f, fresh) => (.error, ⟨fresh, p.diagnostics ++ [f.diagnostic]⟩) := by
  simp only [expandMatch, bind, StateT.bind, get, getThe, MonadStateOf.get, StateT.get, pure]
  generalize registry.expand operator scrutinee clauses site p.fresh = r
  obtain ⟨_ | _, _⟩ := r <;> rfl

/-- A match that cannot be expanded is reported. -/
lemma expandMatch_ensures (operator : Ident) (scrutinee : Core.Expr) (clauses : List Match.Clause)
    (site : Span) : Ensures (expandMatch registry operator scrutinee clauses site) fun x =>
      scrutinee.Every Complete → (∀ c ∈ clauses, c.body.Every Complete) → x.Every Complete := by
  intro p hclean
  rw [expandMatch_apply] at hclean ⊢
  cases hexpand : registry.expand operator scrutinee clauses site p.fresh with
  | mk result fresh =>
    rw [hexpand] at hclean
    cases result with
    | ok x =>
      have hall : ∀ d ∈ p.diagnostics ++ x.advice.map (·.diagnostic), d.isError = false := hclean
      refine ⟨fun d hd => hall d (List.mem_append_left _ hd), fun hscrutinee hclauses => ?_⟩
      unfold Match.Registry.expand at hexpand
      cases hfind : registry.find? operator.name with
      | none =>
        rw [hfind] at hexpand
        cases hexpand
      | some o =>
        rw [hfind] at hexpand
        exact Match.Operator.expand_every hexpand hscrutinee hclauses
    | error f =>
      have hall : ∀ d ∈ p.diagnostics ++ [f.diagnostic], d.isError = false := hclean
      have hfault := hall f.diagnostic (List.mem_append_right _ (List.mem_singleton_self _))
      rw [f.isError_diagnostic] at hfault
      cases hfault

lemma sequence_every {es : List Core.Expr} (h : ∀ e ∈ es, e.Every Complete) :
    (sequence es).Every Complete := by
  match es with
  | [] => exact .lit trivial
  | [e] => exact h e (List.mem_singleton_self e)
  | e :: e' :: es => exact .seq trivial h

mutual

/-- What is compiled of a whole expression is complete, or there is an error among the reports. -/
lemma expr_ensures : (e : Expr) → Ensures (expr registry e) fun x => e.Whole → x.Every Complete
  | .unit _ | .bool .. | .int .. | .str .. => .pure fun _ => .lit trivial
  | .ident .. => .pure fun _ => .var trivial
  | .call _ callee args =>
    (expr_ensures callee).bind fun _ => (exprs_ensures args).bind fun _ =>
      .pure fun hargs hcallee hwhole => .call trivial (hcallee hwhole.1) (hargs hwhole.2)
  | .binary _ _ lhs rhs =>
    (expr_ensures lhs).bind fun _ => (expr_ensures rhs).bind fun _ =>
      .pure fun hrhs hlhs hwhole => .binary trivial (hlhs hwhole.1) (hrhs hwhole.2)
  | .ifElse _ test yes no =>
    (expr_ensures test).bind fun _ => (expr_ensures yes).bind fun _ =>
      (expr_ensures no).bind fun _ => .pure fun hno hyes htest hwhole =>
        .ifElse trivial (htest hwhole.1) (hyes hwhole.2.1) (hno hwhole.2.2)
  | .block _ body =>
    (stmts_ensures body).bind fun _ => .pure fun hbody hwhole => sequence_every (hbody hwhole)
  | .matchUse _ operator scrutinee cs site =>
    (expr_ensures scrutinee).bind fun s => (clauses_ensures cs).bind fun clauses => fun p hclean =>
      have ⟨hstart, hmatch⟩ := expandMatch_ensures operator s clauses site p hclean
      ⟨hstart, fun hcs hs hwhole => hmatch (hs hwhole.1) (hcs hwhole.2)⟩
  | .error _ => .pure False.elim

lemma exprs_ensures : (es : List Expr) →
    Ensures (exprs registry es) fun xs => WholeExprs es → ∀ x ∈ xs, x.Every Complete
  | [] => .pure fun _ => List.forall_mem_nil _
  | e :: es =>
    (expr_ensures e).bind fun _ => (exprs_ensures es).bind fun _ =>
      .pure fun hes he hwhole => List.forall_mem_cons.mpr ⟨he hwhole.1, hes hwhole.2⟩

lemma stmts_ensures : (ss : List Stmt) →
    Ensures (stmts registry ss) fun xs => WholeStmts ss → ∀ x ∈ xs, x.Every Complete
  | [] => .pure fun _ => List.forall_mem_nil _
  | .expr e :: rest =>
    (expr_ensures e).bind fun _ => (stmts_ensures rest).bind fun _ =>
      .pure fun hrest he hwhole => List.forall_mem_cons.mpr ⟨he hwhole.1, hrest hwhole.2⟩
  | .bind _ value :: rest =>
    (expr_ensures value).bind fun _ => (stmts_ensures rest).bind fun _ =>
      .pure fun hrest hvalue hwhole => List.forall_mem_singleton.mpr
        (.letIn trivial (hvalue hwhole.1) (sequence_every (hrest hwhole.2)))

lemma clauses_ensures : (cs : List Clause) →
    Ensures (clauses registry cs) fun xs => WholeClauses cs → ∀ x ∈ xs, x.body.Every Complete
  | [] => .pure fun _ => List.forall_mem_nil _
  | .mk pattern body _ :: rest =>
    (stmts_ensures body).bind fun xs =>
      (report_ensures (unusedParams pattern (sequence xs))).bind fun _ =>
        (clauses_ensures rest).bind fun _ => .pure fun hrest _ hbody hwhole =>
          List.forall_mem_cons.mpr ⟨sequence_every (hbody hwhole.1), hrest hwhole.2⟩

end

lemma function_ensures (f : Surface.Function) :
    Ensures (function registry f) fun g => f.body.Whole → g.body.Every Complete :=
  (expr_ensures f.body).bind fun _ => .pure id

end Compile

end ClosedSum
