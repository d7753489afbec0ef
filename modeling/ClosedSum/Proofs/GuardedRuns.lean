import ClosedSum.Proofs.Clauses
import ClosedSum.Proofs.Discipline

/-!
# Guarded calls of accessors

In guarded code accessors occur in one place only: in the branch of a case, where they are called on
the value that the test of the branch has found to be of that case. No other name of such code is
that of an accessor, so a value that is not global never holds one, and no accessor is called on a
value of another case.
-/

namespace ClosedSum

namespace Core

variable (ds : List Variant.Decls)

/-- The names of the accessors of several variants. -/
def IsAccessor (x : String) : Prop := ∃ d ∈ ds, x ∈ d.accessors

mutual

/-- Code that uses accessors in the branches of their cases only. -/
inductive Expr.Guarded : Expr → Prop
  | lit (l : Literal) : Expr.Guarded (.lit l)
  | var {x : String} (hx : ¬ IsAccessor ds x) : Expr.Guarded (.var x)
  | call {f : Expr} {args : List Expr} (hf : f.Guarded) (hargs : ∀ e ∈ args, e.Guarded) :
    Expr.Guarded (.call f args)
  | lambda {ps : List Param} (variadic : Bool) {body : Expr}
    (hps : ∀ p ∈ ps, ¬ IsAccessor ds p.name) (hbody : body.Guarded) :
    Expr.Guarded (.lambda ps variadic body)
  | letIn {x : String} {value body : Expr} (hx : ¬ IsAccessor ds x) (hvalue : value.Guarded)
    (hbody : body.Guarded) : Expr.Guarded (.letIn x value body)
  | seq {es : List Expr} (hes : ∀ e ∈ es, e.Guarded) : Expr.Guarded (.seq es)
  | ifElse {test yes no : Expr} (htest : test.Guarded) (hyes : yes.Guarded) (hno : no.Guarded) :
    Expr.Guarded (.ifElse test yes no)
  | binary (op : BinaryOp) {lhs rhs : Expr} (hlhs : lhs.Guarded) (hrhs : rhs.Guarded) :
    Expr.Guarded (.binary op lhs rhs)
  | dispatch {bs : List Branch} (hbs : ∀ b ∈ bs, b.Guarded) : Expr.Guarded (.dispatch bs)
  | fail (variant : String) : Expr.Guarded (.fail variant)
  | error : Expr.Guarded .error

/-- The branch of a case calls a function on the fields of the value that it tests. -/
inductive Branch.Guarded : Branch → Prop
  | always {action : Expr} (h : action.Guarded) : Branch.Guarded (.mk .always action)
  | case {d : Variant.Decls} {c : Variant.CaseDecl} (hd : d ∈ ds) (hc : c ∈ d.cases) {x : String}
    (hx : ¬ IsAccessor ds x) (predicate : String) {f : Lambda} (hf : f.toExpr.Guarded) :
    Branch.Guarded (.mk (.case x c.parent c.tag predicate)
      (.call f.toExpr ((c.fields.map (·.accessor)).map fun a => .call (.var a) [.var x])))

end

end Core

namespace Eval

open ClosedSum.Core (IsAccessor)

variable {ds : List Variant.Decls} {m m' : Machine} {α β : Type}

/-- A callable that is no accessor, with guarded code, on a machine with so many scopes. -/
def Callable.Guarded (ds : List Variant.Decls) (scopes : Nat) : Callable → Prop
  | .closure _ f s => s < scopes ∧ f.toExpr.Guarded ds
  | .function f => (∀ p ∈ f.params, ¬ IsAccessor ds p) ∧ f.body.Guarded ds
  | .accessor .. => False
  | .constructor _ | .predicate _ | .builtin _ => True

def Value.Guarded (ds : List Variant.Decls) (m : Machine) (v : Value) : Prop :=
  v.Every (Callable.Guarded ds m.store.size) fun _ _ _ _ => True

/-- A machine on which every scope knows the accessors by their names, and holds none under another
name. -/
structure Machine.Guards (ds : List Variant.Decls) (m : Machine) : Prop where
  global_lt : Store.global < m.store.size
  resolves : ∀ env : Env, env.current < m.store.size → ∀ d ∈ ds, Resolves d env m
  guarded : ∀ s x v, ¬ IsAccessor ds x → m.store.lookup? s x = some v → v.Guarded ds m

/-- What a run gives: a machine that has grown and is guarded, and a result of which `Q` holds, or a
fault that is none of a wrong case. -/
def Spares (ds : List Variant.Decls) (Q : Machine → α → Prop) (m : Machine)
    (r : Except Fault α × Machine) : Prop :=
  m.Grows r.2 ∧ r.2.Guards ds ∧ match r.1 with
    | .ok a => Q r.2 a
    | .error f => f.cause.code ≠ .wrongCase

lemma Value.Guarded.grow (h : m.Grows m') {v : Value} (hv : v.Guarded ds m) : v.Guarded ds m' := by
  refine hv.mono fun f hf => ?_
  cases f with
  | closure n f s => exact ⟨Nat.lt_of_lt_of_le hf.1 h.scopes, hf.2⟩
  | _ => exact hf

lemma Value.guarded_of_isPlain {v : Value} (h : v.IsPlain) : v.Guarded ds m := by
  cases v with
  | variant => exact h.elim
  | callable => exact h.elim
  | _ => constructor

namespace Spares

variable {Q : Machine → α → Prop} {S : Machine → β → Prop}

lemma ok (h : m.Guards ds) {a : α} (hQ : Q m a) : Spares ds Q m (.ok a, m) := ⟨.refl m, h, hQ⟩

lemma error (h : m.Guards ds) {f : Fault} (hf : f.cause.code ≠ .wrongCase) :
    Spares ds Q m (.error f, m) := ⟨.refl m, h, hf⟩

lemma bind {r : Run α} {f : α → Run β} (h : Spares ds Q m (r m))
    (hf : ∀ m₁ a, m.Grows m₁ → m₁.Guards ds → Q m₁ a → Spares ds S m₁ (f a m₁)) :
    Spares ds S m ((r >>= f) m) := by
  rw [Run.bind_apply]
  generalize r m = a at h
  obtain ⟨_ | a, m₁⟩ := a
  · exact h
  · obtain ⟨hgrow, hguards, hQ⟩ := h
    obtain ⟨hgrow', hrest⟩ := hf m₁ a hgrow hguards hQ
    exact ⟨hgrow.trans hgrow', hrest⟩

lemma within {r : Run α} (name? : Option String) (h : Spares ds Q m (r m)) :
    Spares ds Q m (Run.within name? r m) := by
  rw [Run.within_apply]
  refine ⟨h.1, h.2.1, ?_⟩
  have hres := h.2.2
  generalize (r m).1 = a at hres
  cases a with
  | ok a => exact hres
  | error f => cases name? <;> exact hres

/-- What a run gives that starts where the machine has come to. -/
lemma after {r : Except Fault α × Machine} (hgrow : m.Grows m') (h : Spares ds Q m' r) :
    Spares ds Q m r := ⟨hgrow.trans h.1, h.2⟩

end Spares

namespace Machine.Guards

/-- A new scope binds guarded values, and none under the name of an accessor. -/
lemma push (h : m.Guards ds) {p : Nat} {bs : List (String × Value)} (hp : p < m.store.size)
    (hbs : ∀ b ∈ bs, ¬ IsAccessor ds b.1 ∧ b.2.Guarded ds m) :
    m.Grows { m with store := (m.store.push p bs).2 } ∧
      ({ m with store := (m.store.push p bs).2 } : Machine).Guards ds := by
  have hgrow := Machine.Grows.push m p bs
  refine ⟨hgrow, Nat.lt_of_lt_of_le h.global_lt hgrow.scopes, fun env henv d hd => ?_,
    fun s x v hx hv => .grow hgrow ?_⟩
  · intro c hc i f hf
    have haccessor : IsAccessor ds f.accessor :=
      ⟨d, hd, List.mem_flatMap.mpr ⟨c, hc, List.mem_map_of_mem (List.mem_of_getElem? hf)⟩⟩
    rw [Env.lookup?]
    rcases Nat.lt_or_eq_of_le (Nat.le_of_lt_succ (Store.size_push .. ▸ henv)) with hold | hnew
    · rw [Store.lookup?_push_of_lt _ _ _ _ hold]
      exact h.resolves env hold d hd c hc i f hf
    · -- the new scope does not hide the accessor
      have hfree : bs.lookup f.accessor = none := List.lookup_eq_none_iff.mpr fun b hb => by
        simpa using fun heq : f.accessor = b.1 => (hbs b hb).1 (heq ▸ haccessor)
      rw [hnew, Store.lookup?_push_self _ _ _ hp, hfree, Option.none_or]
      exact h.resolves ⟨[p]⟩ hp d hd c hc i f hf
  · rcases Store.of_lookup?_push hp hv with hb | ⟨s', hold⟩
    · exact (hbs (x, v) hb).2
    · exact h.guarded s' x v hx hold

lemma newClosure (h : m.Guards ds) :
    ({ m with closures := m.closures + 1 } : Machine).Guards ds :=
  ⟨h.global_lt, h.resolves, h.guarded⟩

lemma lookup (h : m.Guards ds) (env : Env) {x : String} (hx : ¬ IsAccessor ds x) :
    Spares ds (Value.Guarded ds) m (Run.lookup env x m) := by
  rw [Run.lookup_apply]
  cases hv : env.lookup? m.store x with
  | none => exact .error h (by simp [Cause.code])
  | some v => exact .ok h (h.guarded _ x v hx hv)

end Machine.Guards

section Calls

variable {args : List Value}

lemma expectInt_spares (h : m.Guards ds) (v : Value) :
    Spares ds (fun _ _ => True) m (expectInt v m) := by
  cases v with
  | int n => exact .ok h trivial
  | _ => exact .error h (by simp [Cause.code])

lemma expectOne_spares (h : m.Guards ds) (name : String) (hargs : ∀ v ∈ args, v.Guarded ds m) :
    Spares ds (Value.Guarded ds) m (expectOne name args m) := by
  match args with
  | [v] => exact .ok h (hargs v (by simp))
  | [] | _ :: _ :: _ => exact .error h (by simp [Cause.code])

lemma builtin_spares (h : m.Guards ds) (b : Builtin) :
    Spares ds (Value.Guarded ds) m (b.apply args m) := by
  have hint : ∀ (f : Int → Int → Int) (v w : Value), Spares ds (Value.Guarded ds) m ((do
      return .int (f (← Eval.expectInt v) (← Eval.expectInt w)) : Run Value) m) := by
    intro f v w
    refine (expectInt_spares h v).bind fun m₁ a _ h₁ _ => ?_
    exact (expectInt_spares h₁ w).bind fun m₂ b _ h₂ _ => .ok h₂ (.int _)
  cases b with
  | print =>
    exact ⟨⟨Nat.le_refl _, Nat.le_refl _, fun _ _ _ => rfl⟩,
      ⟨h.global_lt, h.resolves, h.guarded⟩, .unit⟩
  | max =>
    match args with
    | [v, w] => exact hint max v w
    | [] | [_] | _ :: _ :: _ :: _ => exact .error h (by simp [Cause.code])
  | min =>
    match args with
    | [v, w] => exact hint min v w
    | [] | [_] | _ :: _ :: _ :: _ => exact .error h (by simp [Cause.code])
  | toString =>
    match args with
    | [v] => exact .ok h (.str _)
    | [] | _ :: _ :: _ => exact .error h (by simp [Cause.code])

/-- A way to enter a body that spares guarded code. -/
def Enters (ds : List Variant.Decls) (enter : Option String → Env → Core.Expr → Run Value) :
    Prop :=
  ∀ (m : Machine) (name? : Option String) (env : Env) (e : Core.Expr), m.Guards ds →
    env.current < m.store.size → e.Guarded ds →
      Spares ds (Value.Guarded ds) m (enter name? env e m)

lemma guarded_bindParams {params : List String} (hparams : ∀ x ∈ params, ¬ IsAccessor ds x)
    (hargs : ∀ v ∈ args, v.Guarded ds m) :
    ∀ b ∈ bindParams params args, ¬ IsAccessor ds b.1 ∧ b.2.Guarded ds m := by
  intro b hb
  obtain ⟨hparam, harg⟩ := List.of_mem_zip (List.mem_reverse.mp hb)
  exact ⟨hparams b.1 hparam, hargs b.2 harg⟩

/-- A guarded value is called without a fault of a wrong case, for it is no accessor. -/
theorem callWith_spares {enter : Option String → Env → Core.Expr → Run Value}
    (henter : Enters ds enter) (h : m.Guards ds) {f : Value} (hf : f.Guarded ds m)
    (hargs : ∀ v ∈ args, v.Guarded ds m) :
    Spares ds (Value.Guarded ds) m (callWith enter f args m) := by
  cases hf with
  | @callable f hf =>
    cases f with
    | closure n f s =>
      obtain ⟨hs, hcode⟩ := hf
      cases hcode with
      | lambda _ hps hbody =>
        have hparams : ∀ x ∈ f.params.map (·.name), ¬ IsAccessor ds x := by simpa using hps
        rw [callWith_closure]
        split
        · obtain ⟨hgrow, h₁⟩ := h.push hs (guarded_bindParams hparams hargs)
          exact .after hgrow (henter _ none _ f.body h₁ (by simp [Env.current]) hbody)
        · exact .error h (by simp [Cause.code])
    | function f =>
      obtain ⟨hparams, hbody⟩ := hf
      simp only [callWith, expectArity]
      split
      · rw [pure_bind]
        obtain ⟨hgrow, h₁⟩ := h.push h.global_lt (guarded_bindParams hparams hargs)
        exact .after hgrow (henter _ (some f.name) ⟨[m.store.size]⟩ f.body h₁
          (by simp [Env.current]) hbody)
      · exact .error h (by simp [Cause.code])
    | constructor c =>
      simp only [callWith, expectArity]
      split
      · exact .ok h (.variant trivial hargs)
      · exact .error h (by simp [Cause.code])
    | accessor => exact hf.elim
    | predicate c =>
      exact (expectOne_spares h c.predicate hargs).bind fun m₁ v _ h₁ _ => .ok h₁ (.bool _)
    | builtin b => exact builtin_spares h b
  | _ => exact .error h (by simp [Cause.code])

end Calls

section Evaluation

variable {enter : Option String → Env → Core.Expr → Run Value}

/-- What evaluation of an expression gives, in every environment and on every guarded machine. -/
def Evaluates (ds : List Variant.Decls) (enter : Option String → Env → Core.Expr → Run Value)
    (e : Core.Expr) : Prop :=
  ∀ (m : Machine) (env : Env), m.Guards ds → env.current < m.store.size →
    Spares ds (Value.Guarded ds) m (evalWith (callWith enter) e env m)

lemma evalArgs_spares {es : List Core.Expr} (he : ∀ e ∈ es, Evaluates ds enter e) {env : Env}
    (h : m.Guards ds) (henv : env.current < m.store.size) :
    Spares ds (fun m vs => ∀ v ∈ vs, v.Guarded ds m) m (evalArgs (callWith enter) es env m) := by
  induction es generalizing m with
  | nil => exact .ok h (List.forall_mem_nil _)
  | cons e es ih =>
    obtain ⟨hhead, htail⟩ := List.forall_mem_cons.mp he
    rw [evalArgs]
    refine (hhead m env h henv).bind fun m₁ v hgrow h₁ hv => ?_
    have henv₁ := Nat.lt_of_lt_of_le henv hgrow.scopes
    refine (ih htail h₁ henv₁).bind fun m₂ vs hgrow' h₂ hvs => ?_
    exact .ok h₂ (List.forall_mem_cons.mpr ⟨hv.grow hgrow', hvs⟩)

lemma evalSeq_spares {es : List Core.Expr} (he : ∀ e ∈ es, Evaluates ds enter e) {env : Env}
    (h : m.Guards ds) (henv : env.current < m.store.size) {last : Value}
    (hlast : last.Guarded ds m) :
    Spares ds (Value.Guarded ds) m (evalSeq (callWith enter) es last env m) := by
  induction es generalizing m last with
  | nil => exact .ok h hlast
  | cons e es ih =>
    obtain ⟨hhead, htail⟩ := List.forall_mem_cons.mp he
    rw [evalSeq]
    refine (hhead m env h henv).bind fun m₁ v hgrow h₁ hv => ?_
    exact ih htail h₁ (Nat.lt_of_lt_of_le henv hgrow.scopes) hv

/-- The branch of a case that a value is of calls its function on the fields of the value. The
accessors are called on the value that was tested, so none of them meets another case. -/
lemma action_spares (henter : Enters ds enter) {d : Variant.Decls} (hd : d ∈ ds)
    {c : Variant.CaseDecl} (hc : c ∈ d.cases) {x : String} (hx : ¬ IsAccessor ds x)
    {f : Core.Lambda} (hf : f.toExpr.Guarded ds) {env : Env} (h : m.Guards ds)
    (henv : env.current < m.store.size) {v : Value} (hv : env.lookup? m.store x = some v)
    (hholds : (Case.ofDecl c).holds v = true) :
    Spares ds (Value.Guarded ds) m (evalWith (callWith enter)
      (.call f.toExpr ((c.fields.map (·.accessor)).map fun a => .call (.var a) [.var x]))
      env m) := by
  have hfs : ∀ i a, (c.fields.map (·.accessor))[i]? = some a →
      env.lookup? m.store a = some (.callable (.accessor (.ofDecl c) i a)) := by
    intro i a ha
    rw [List.getElem?_map, Option.map_eq_some_iff] at ha
    obtain ⟨field, hfield, rfl⟩ := ha
    exact h.resolves env henv d hd c hc i field hfield
  have hguarded := h.guarded env.current x v hx hv
  have hgrow := Machine.Grows.newClosure m
  cases hguarded with
  | @variant u n t fields _ hfields =>
    rw [eval_callFields hv hholds hfs]
    split
    · exact .after hgrow (.error h.newClosure (by simp [Cause.code]))
    · refine .after hgrow (callWith_spares henter h.newClosure (.callable ⟨henv, hf⟩) ?_)
      intro v hv
      exact Value.Guarded.grow hgrow (hfields v (List.mem_of_mem_take hv))
  | _ => cases hholds

lemma evalBranches_spares (henter : Enters ds enter) {bs : List Core.Branch}
    (heval : ∀ b ∈ bs, b.action.Guarded ds → Evaluates ds enter b.action)
    (hbs : ∀ b ∈ bs, b.Guarded ds) {env : Env} (h : m.Guards ds)
    (henv : env.current < m.store.size) :
    Spares ds (Value.Guarded ds) m (evalBranches (callWith enter) bs env m) := by
  induction bs with
  | nil => exact .error h (by simp [Cause.code])
  | cons b bs ih =>
    obtain ⟨hb, hrest⟩ := List.forall_mem_cons.mp hbs
    obtain ⟨hhead, htail⟩ := List.forall_mem_cons.mp heval
    cases hb with
    | always haction => exact hhead haction m env h henv
    | @case d c hd hc x hx predicate f hf =>
      rw [evalBranches]
      cases hv : env.lookup? m.store x with
      | none =>
        have hpasses : passes env (.case x c.parent c.tag predicate) m =
            (.error { cause := .undefined x }, m) := by
          rw [passes, Run.bind_of_error]
          rw [Run.lookup_apply, hv]
        rw [Run.bind_of_error hpasses]
        exact .error h (by simp [Cause.code])
      | some v =>
        have hpasses : passes env (.case x c.parent c.tag predicate) m =
            (.ok ((Case.ofDecl c).holds v), m) := passes_case hv (.ofDecl c) predicate
        rw [Run.bind_of_ok hpasses]
        cases hholds : (Case.ofDecl c).holds v with
        | true => exact action_spares henter hd hc hx hf h henv hv hholds
        | false => exact ih htail hrest

/-- Guarded code evaluates to guarded values, and to no fault of a wrong case. -/
theorem evalWith_spares (henter : Enters ds enter) {e : Core.Expr} (he : e.Guarded ds) :
    Evaluates ds enter e := by
  induction e using Core.Expr.parts_induction with
  | lit l =>
    intro m env h henv
    cases l <;> exact .ok h (by constructor)
  | var x =>
    intro m env h henv
    cases he with
    | var hx => exact h.lookup env hx
  | call f args ihf ihargs =>
    intro m env h henv
    cases he with
    | call hf hargs =>
      rw [evalWith]
      refine (ihf hf m env h henv).bind fun m₁ g hgrow h₁ hg => ?_
      refine (evalArgs_spares (fun e he => ihargs e he (hargs e he)) h₁
        (Nat.lt_of_lt_of_le henv hgrow.scopes)).bind fun m₂ vs hgrow' h₂ hvs => ?_
      exact callWith_spares henter h₂ (hg.grow hgrow') hvs
  | lambda ps variadic body ih =>
    intro m env h henv
    exact .after (Machine.Grows.newClosure m) (.ok h.newClosure (.callable ⟨henv, he⟩))
  | letIn x value body ihv ihb =>
    intro m env h henv
    cases he with
    | letIn hx hvalue hbody =>
      rw [evalWith]
      refine (ihv hvalue m env h henv).bind fun m₁ v hgrow h₁ hv => ?_
      have hbinding : ∀ b ∈ [(x, v)], ¬ IsAccessor ds b.1 ∧ b.2.Guarded ds m₁ :=
        List.forall_mem_singleton.mpr ⟨hx, hv⟩
      obtain ⟨hgrow', h₂⟩ := h₁.push (Nat.lt_of_lt_of_le henv hgrow.scopes) hbinding
      exact .after hgrow' (ihb hbody _ (env.push [(x, v)] m₁.store).1 h₂
        (by simp [Env.push, Env.current]))
  | seq es ih =>
    intro m env h henv
    cases he with
    | seq hes =>
      rw [evalWith]
      exact evalSeq_spares (fun e he => ih e he (hes e he)) h henv .unit
  | ifElse test yes no iht ihy ihn =>
    intro m env h henv
    cases he with
    | ifElse htest hyes hno =>
      rw [evalWith]
      refine (iht htest m env h henv).bind fun m₁ v hgrow h₁ hv => ?_
      have henv₁ := Nat.lt_of_lt_of_le henv hgrow.scopes
      cases v with
      | bool b =>
        cases b with
        | true => exact ihy hyes m₁ env h₁ henv₁
        | false => exact ihn hno m₁ env h₁ henv₁
      | _ => exact .error h₁ (by simp [Cause.code])
  | binary op lhs rhs ihl ihr =>
    intro m env h henv
    cases he with
    | binary _ hlhs hrhs =>
      rw [evalWith]
      refine (ihl hlhs m env h henv).bind fun m₁ a hgrow h₁ ha => ?_
      refine (ihr hrhs m₁ env h₁ (Nat.lt_of_lt_of_le henv hgrow.scopes)).bind
        fun m₂ b hgrow' h₂ hb => ?_
      rw [Run.ofExcept_apply]
      cases hop : operate op a b with
      | ok v => exact .ok h₂ (Value.guarded_of_isPlain (operate_isPlain hop))
      | error cause =>
        obtain ⟨o, rfl⟩ | ⟨o, s, t, rfl⟩ := operate_cause hop <;>
          exact .error h₂ (by simp [Cause.code])
  | dispatch bs ih =>
    intro m env h henv
    cases he with
    | dispatch hbs =>
      rw [evalWith]
      exact evalBranches_spares henter (fun b hb hg => ih b hb hg) hbs h henv
  | fail variant => exact fun m env h _ => .error h (by simp [Cause.code])
  | error => exact fun m env h _ => .error h (by simp [Cause.code])

end Evaluation

/-- Bodies of guarded code are entered safely, however many calls may still be nested. -/
theorem enterAt_enters (limit left : Nat) : Enters ds (enterAt limit left) := by
  induction left with
  | zero => exact fun m name? env e h _ _ => .error h (by simp [Cause.code])
  | succ left ih =>
    intro m name? env e h henv he
    rw [enterAt, callAt_eq]
    exact (evalWith_spares ih he m env h henv).within name?

end Eval

end ClosedSum
