import ClosedSum.Core.Expr
import Mathlib.Data.List.Forall2
import Mathlib.Tactic.Common

/-!
# Code that differs in its names

Two expressions are alike if they have the same shape and each name of one stands where a name of
the other does. A binder on both sides makes its two names stand for each other, whatever they are,
so that expressions that differ in the names they bind are alike.
-/

namespace ClosedSum.Core

/-- Which names of one expression stand for which names of another. -/
abbrev Names := String → String → Prop

namespace Names

/-- The names under a binder, which hides what its own names stood for. -/
def bind (N : Names) (x y : String) : Names := fun a b => a = x ∧ b = y ∨ a ≠ x ∧ b ≠ y ∧ N a b

/-- The names under several binders, the last innermost. -/
def bindAll (N : Names) : List String → List String → Names
  | x :: xs, y :: ys => (N.bind x y).bindAll xs ys
  | _, _ => N

lemma bind_self {N : Names} {x a : String} (h : a ≠ x → N a a) : N.bind x x a a := by
  by_cases ha : a = x
  · exact .inl ⟨ha, ha⟩
  · exact .inr ⟨ha, ha, h ha⟩

lemma bindAll_self {N : Names} {xs : List String} {a : String} (h : a ∉ xs → N a a) :
    N.bindAll xs xs a a := by
  induction xs generalizing N with
  | nil => exact h (by simp)
  | cons x xs ih =>
    apply ih
    intro ha
    exact bind_self fun hax => h (by simp [hax, ha])

end Names

namespace Expr

/-- Induction on expressions that hands out the statement for every immediate part. -/
theorem parts_induction {P : Expr → Prop} (lit : ∀ l, P (.lit l)) (var : ∀ x, P (.var x))
    (call : ∀ f args, P f → (∀ e ∈ args, P e) → P (.call f args))
    (lambda : ∀ ps variadic body, P body → P (.lambda ps variadic body))
    (letIn : ∀ x value body, P value → P body → P (.letIn x value body))
    (seq : ∀ es, (∀ e ∈ es, P e) → P (.seq es))
    (ifElse : ∀ test yes no, P test → P yes → P no → P (.ifElse test yes no))
    (binary : ∀ op lhs rhs, P lhs → P rhs → P (.binary op lhs rhs))
    (dispatch : ∀ bs, (∀ b ∈ bs, P b.action) → P (.dispatch bs))
    (fail : ∀ variant, P (.fail variant)) (error : P .error) (e : Expr) : P e :=
  @Expr.rec P (fun b => P b.action) (fun es => ∀ e ∈ es, P e) (fun bs => ∀ b ∈ bs, P b.action)
    lit var call lambda letIn seq ifElse binary dispatch fail error (fun _ _ h => h)
    (by simp) (fun _ _ he hes => List.forall_mem_cons.mpr ⟨he, hes⟩)
    (by simp) (fun _ _ hb hbs => List.forall_mem_cons.mpr ⟨hb, hbs⟩) e

end Expr

/-- Tests that ask the same of names that stand for each other. -/
inductive Test.Alike (N : Names) : Test → Test → Prop
  | always : Alike N .always .always
  | case {x y variant : String} {tag : Nat} {p q : String} (h : N x y) :
    Alike N (.case x variant tag p) (.case y variant tag q)

mutual

inductive Expr.Alike : Names → Expr → Expr → Prop
  | lit {N : Names} (l : Literal) : Alike N (.lit l) (.lit l)
  | var {N : Names} {x y : String} (h : N x y) : Alike N (.var x) (.var y)
  | call {N : Names} {f g : Expr} {as bs : List Expr} (hf : Alike N f g)
    (has : Expr.AlikeAll N as bs) : Alike N (.call f as) (.call g bs)
  | lambda {N : Names} {ps qs : List Param} {variadic : Bool} {e e' : Expr}
    (hlen : ps.length = qs.length)
    (he : Alike (N.bindAll (ps.map (·.name)) (qs.map (·.name))) e e') :
    Alike N (.lambda ps variadic e) (.lambda qs variadic e')
  | letIn {N : Names} {x y : String} {v w e e' : Expr} (hv : Alike N v w)
    (he : Alike (N.bind x y) e e') : Alike N (.letIn x v e) (.letIn y w e')
  | seq {N : Names} {es fs : List Expr} (h : Expr.AlikeAll N es fs) : Alike N (.seq es) (.seq fs)
  | ifElse {N : Names} {e e' yes yes' no no' : Expr} (he : Alike N e e') (hyes : Alike N yes yes')
    (hno : Alike N no no') : Alike N (.ifElse e yes no) (.ifElse e' yes' no')
  | binary {N : Names} (op : BinaryOp) {a a' b b' : Expr} (ha : Alike N a a') (hb : Alike N b b') :
    Alike N (.binary op a b) (.binary op a' b')
  | dispatch {N : Names} {bs cs : List Branch} (h : Expr.AlikeBranches N bs cs) :
    Alike N (.dispatch bs) (.dispatch cs)
  | fail {N : Names} (variant : String) : Alike N (.fail variant) (.fail variant)
  | error {N : Names} : Alike N .error .error

inductive Expr.AlikeAll : Names → List Expr → List Expr → Prop
  | nil {N : Names} : AlikeAll N [] []
  | cons {N : Names} {e f : Expr} {es fs : List Expr} (h : Expr.Alike N e f)
    (hs : AlikeAll N es fs) : AlikeAll N (e :: es) (f :: fs)

inductive Expr.AlikeBranches : Names → List Branch → List Branch → Prop
  | nil {N : Names} : AlikeBranches N [] []
  | cons {N : Names} {t u : Test} {a b : Expr} {bs cs : List Branch} (ht : t.Alike N u)
    (h : Expr.Alike N a b) (hs : AlikeBranches N bs cs) :
    AlikeBranches N (.mk t a :: bs) (.mk u b :: cs)

end

/-- Functions with as many parameters and bodies that are alike under them. -/
structure Lambda.Alike (N : Names) (f g : Lambda) : Prop where
  params : f.params.length = g.params.length
  variadic : f.variadic = g.variadic
  body : (f.body).Alike (N.bindAll (f.params.map (·.name)) (g.params.map (·.name))) g.body

namespace Expr

lemma alikeAll_self {N : Names} {es : List Expr}
    (ih : ∀ e ∈ es, (∀ x, e.mentions x = true → N x x) → e.Alike N e)
    (h : ∀ x, mentionsAny x es = true → N x x) : AlikeAll N es es := by
  induction es with
  | nil => exact .nil
  | cons e es ihes =>
    refine .cons (ih e (by simp) fun x hx => h x (by simp [mentionsAny, hx])) ?_
    exact ihes (fun e' he' => ih e' (by simp [he'])) fun x hx => h x (by simp [mentionsAny, hx])

lemma alikeBranches_self {N : Names} {bs : List Branch}
    (ih : ∀ b ∈ bs, (∀ x, b.action.mentions x = true → N x x) → b.action.Alike N b.action)
    (h : ∀ x, mentionsBranch x bs = true → N x x) : AlikeBranches N bs bs := by
  induction bs with
  | nil => exact .nil
  | cons b bs ihbs =>
    obtain ⟨t, a⟩ := b
    refine .cons ?_ (ih (.mk t a) (by simp) fun x hx => h x ?_)
      (ihbs (fun b' hb' => ih b' (by simp [hb'])) fun x hx => h x (by simp [mentionsBranch, hx]))
    · cases t with
      | always => exact .always
      | case x v tag p => exact .case (h x (by simp [mentionsBranch, Test.mentions]))
    · rw [mentionsBranch, show a.mentions x = true from hx]
      simp

/-- An expression is like itself as soon as each name that is free in it stands for itself. -/
theorem alike_self {N : Names} {e : Expr} (h : ∀ x, e.mentions x = true → N x x) :
    e.Alike N e := by
  induction e using parts_induction generalizing N with
  | lit l => exact .lit l
  | var x => exact .var (h x (by simp [mentions]))
  | call f args ihf ihargs =>
    refine .call (ihf fun x hx => h x (by simp [mentions, hx])) ?_
    exact alikeAll_self (fun e he => ihargs e he) fun x hx => h x (by simp [mentions, hx])
  | lambda ps variadic body ih =>
    refine .lambda rfl (ih fun x hx => Names.bindAll_self fun hxs => h x ?_)
    simpa [mentions, hx] using hxs
  | letIn x value body ihv ihb =>
    refine .letIn (ihv fun y hy => h y (by simp [mentions, hy])) (ihb fun y hy => ?_)
    exact Names.bind_self fun hyx => h y (by simp [mentions, hy, Ne.symm hyx])
  | seq es ih =>
    exact .seq (alikeAll_self (fun e he => ih e he) fun x hx => h x (by simpa [mentions]))
  | ifElse test yes no iht ihy ihn =>
    exact .ifElse (iht fun x hx => h x (by simp [mentions, hx]))
      (ihy fun x hx => h x (by simp [mentions, hx])) (ihn fun x hx => h x (by simp [mentions, hx]))
  | binary op lhs rhs ihl ihr =>
    exact .binary op (ihl fun x hx => h x (by simp [mentions, hx]))
      (ihr fun x hx => h x (by simp [mentions, hx]))
  | dispatch bs ih =>
    exact .dispatch (alikeBranches_self (fun b hb => ih b hb) fun x hx => h x (by simpa [mentions]))
  | fail variant => exact .fail variant
  | error => exact .error

end Expr

lemma Lambda.alike_self (f : Lambda) : f.Alike Eq f :=
  ⟨rfl, rfl, Expr.alike_self fun _ _ => Names.bindAll_self fun _ => rfl⟩

end ClosedSum.Core
