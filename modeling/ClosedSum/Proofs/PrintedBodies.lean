import ClosedSum.Compile.Build
import ClosedSum.Proofs.Collecting
import ClosedSum.Proofs.LoweringLogs
import ClosedSum.Proofs.ParserProgress
import ClosedSum.Proofs.ReadBack
import Mathlib.Data.List.Pairwise

/-!
# Printed bodies

The functions of a module are compiled one after the other, and none gives back a number that it
drew. So the names that are drawn for two of them are numbered apart, and the text of a body tells
the body, up to where its calls stand.
-/

namespace ClosedSum

namespace Match

lemma Registry.expand_binds {r : Registry} {operator : Ident} {scrutinee : Core.Expr}
    {clauses : List Clause} {span : Span} {n n' : Nat} {x : Operator.Expansion}
    (h : r.expand operator scrutinee clauses span n = (.ok x, n')) :
    n < n' ∧ ∃ bs, x.expr = .letIn (freshName "scrutinee" n) scrutinee (.dispatch bs) := by
  unfold Registry.expand at h
  cases hfind : r.find? operator.name with
  | none =>
    rw [hfind] at h
    cases h
  | some o =>
    rw [hfind] at h
    obtain ⟨name, k, hname, h₁⟩ := Compile.bind_eq_ok h
    obtain ⟨disp, k', hcompile, h₂⟩ := Compile.bind_eq_ok h₁
    cases hname
    cases h₂
    exact ⟨(Site.compile_ok hcompile).counter_le, disp.branches, rfl⟩

end Match

namespace Compile

open Surface (Expr Stmt Clause exprsNames stmtsNames clausesNames)

variable {α β : Type} {registry : Match.Registry} {lo hi : Nat}

/-- The numbers that are drawn while the counter goes from `lo` to `hi`. -/
def Between (lo hi n : Nat) : Prop := lo ≤ n ∧ n < hi

/-- A step that gives no number back. If it draws its numbers between `lo` and `hi`, then `Q` holds
of its result. -/
def Stays (lo hi : Nat) (s : Step α) (Q : α → Prop) : Prop :=
  ∀ p, p.fresh ≤ (s p).2.fresh ∧ (lo ≤ p.fresh → (s p).2.fresh ≤ hi → Q (s p).1)

namespace Stays

variable {Q R : α → Prop} {S : β → Prop} {s : Step α} {f : α → Step β}

lemma pure {a : α} (h : Q a) : Stays lo hi (Pure.pure a) Q :=
  fun _ => ⟨Nat.le_refl _, fun _ _ => h⟩

/-- What the second step gives may rest on what the first one gave. -/
lemma bind (hs : Stays lo hi s Q) (hf : ∀ a, Stays lo hi (f a) fun b => Q a → S b) :
    Stays lo hi (s >>= f) S := by
  intro p
  obtain ⟨hfirst, hQ⟩ := hs p
  obtain ⟨hsecond, hS⟩ := hf (s p).1 (s p).2
  refine ⟨Nat.le_trans hfirst hsecond, fun hlo hhi => ?_⟩
  exact hS (Nat.le_trans hlo hfirst) hhi (hQ hlo (Nat.le_trans hsecond hhi))

lemma mapM {as : List α} (hf : ∀ a ∈ as, Stays lo hi (f a) S) :
    Stays lo hi (as.mapM f) fun bs => ∀ b ∈ bs, S b := by
  induction as with
  | nil => exact .pure (List.forall_mem_nil _)
  | cons a as ih =>
    obtain ⟨ha, has⟩ := List.forall_mem_cons.mp hf
    rw [List.mapM_cons]
    exact ha.bind fun b => (ih has).bind fun bs => .pure fun hbs hb =>
      List.forall_mem_cons.mpr ⟨hb, hbs⟩

end Stays

lemma report_stays (ds : List Diagnostic) : Stays lo hi (report ds) fun _ => True :=
  fun _ => ⟨Nat.le_refl _, fun _ _ => trivial⟩

/-- Code in which all names that are drawn are numbered from `lo` on and below `hi`. -/
abbrev Drawn (lo hi : Nat) (e : Core.Expr) : Prop := e.Written (Between lo hi) True

lemma expandMatch_stays (operator : Ident) (scrutinee : Core.Expr) (clauses : List Match.Clause)
    (site : Span) : Stays lo hi (expandMatch registry operator scrutinee clauses site)
      (Drawn lo hi) := by
  intro p
  have hdraws := registry.expand_draws operator scrutinee clauses site p.fresh
  rw [expandMatch_apply]
  cases hexpand : registry.expand operator scrutinee clauses site p.fresh with
  | mk result fresh =>
    rw [hexpand] at hdraws
    cases result with
    | error f => exact ⟨hdraws, fun _ _ => .error⟩
    | ok x =>
      obtain ⟨hlt, bs, hx⟩ := Match.Registry.expand_binds hexpand
      refine ⟨hdraws, fun hlo hhi => ?_⟩
      dsimp only at hhi ⊢
      rw [hx]
      exact .drawn ⟨hlo, Nat.lt_of_lt_of_le hlt hhi⟩ rfl

lemma sequence_drawn {es : List Core.Expr} (h : ∀ e ∈ es, Drawn lo hi e) :
    Drawn lo hi (sequence es) := by
  match es with
  | [] => exact .lit .unit
  | [e] => exact h e (List.mem_singleton_self e)
  | e :: e' :: es => exact .seq (List.cons_ne_nil e (e' :: es)) h

/-- Names that a source may use. -/
abbrev Spelled (names : List String) : Prop :=
  ∀ x ∈ names, Token.Spells (.ok (.ident x)) x.toList

mutual

/-- What an expression is compiled to draws its names while it is compiled. -/
theorem expr_stays : (e : Expr) →
    Stays lo hi (expr registry e) fun x => Spelled e.names → Drawn lo hi x
  | .unit _ | .bool .. | .int .. | .str .. => .pure fun _ => .lit _
  | .ident _ name => .pure fun h => .var (h name (List.mem_singleton_self name))
  | .call _ callee args =>
    (expr_stays callee).bind fun _ => (exprs_stays args).bind fun _ => .pure fun hargs hf h => by
      obtain ⟨hcallee, hall⟩ := List.forall_mem_append.mp h
      exact .call (fun _ => trivial) (hf hcallee) (hargs hall)
  | .binary _ op lhs rhs =>
    (expr_stays lhs).bind fun _ => (expr_stays rhs).bind fun _ => .pure fun hr hl h => by
      obtain ⟨hlhs, hrhs⟩ := List.forall_mem_append.mp h
      exact .binary op (hl hlhs) (hr hrhs)
  | .ifElse _ test yes no =>
    (expr_stays test).bind fun _ => (expr_stays yes).bind fun _ => (expr_stays no).bind fun _ =>
      .pure fun hn hy ht h => by
        obtain ⟨hboth, hno⟩ := List.forall_mem_append.mp h
        obtain ⟨htest, hyes⟩ := List.forall_mem_append.mp hboth
        exact .ifElse (ht htest) (hy hyes) (hn hno)
  | .block _ body =>
    (stmts_stays body).bind fun _ => .pure fun hbody h => sequence_drawn (hbody h)
  | .matchUse _ operator scrutinee cs site =>
    (expr_stays scrutinee).bind fun s => (clauses_stays cs).bind fun clauses => fun p =>
      have ⟨hdraws, hmatch⟩ := expandMatch_stays operator s clauses site p
      ⟨hdraws, fun hlo hhi _ _ _ => hmatch hlo hhi⟩
  | .error _ => .pure fun _ => .error

theorem exprs_stays : (es : List Expr) → Stays lo hi (exprs registry es) fun xs =>
    Spelled (exprsNames es) → ∀ x ∈ xs, Drawn lo hi x
  | [] => .pure fun _ => List.forall_mem_nil _
  | e :: es =>
    (expr_stays e).bind fun _ => (exprs_stays es).bind fun _ => .pure fun hall hx h => by
      obtain ⟨he, hes⟩ := List.forall_mem_append.mp h
      exact List.forall_mem_cons.mpr ⟨hx he, hall hes⟩

theorem stmts_stays : (ss : List Stmt) → Stays lo hi (stmts registry ss) fun xs =>
    Spelled (stmtsNames ss) → ∀ x ∈ xs, Drawn lo hi x
  | [] => .pure fun _ => List.forall_mem_nil _
  | .expr e :: rest =>
    (expr_stays e).bind fun _ => (stmts_stays rest).bind fun _ => .pure fun hall hx h => by
      obtain ⟨he, hrest⟩ := List.forall_mem_append.mp h
      exact List.forall_mem_cons.mpr ⟨hx he, hall hrest⟩
  | .bind name value :: rest =>
    (expr_stays value).bind fun _ => (stmts_stays rest).bind fun _ => .pure fun hall hx h => by
      obtain ⟨hfirst, hrest⟩ := List.forall_mem_append.mp h
      obtain ⟨hname, hvalue⟩ := List.forall_mem_cons.mp hfirst
      cases hname with
      | ident hword =>
        exact List.forall_mem_singleton.mpr
          (.letIn hword (hx hvalue) (sequence_drawn (hall hrest)))

theorem clauses_stays : (cs : List Clause) →
    Stays lo hi (clauses registry cs) fun _ => True
  | [] => .pure trivial
  | .mk _ body _ :: rest =>
    (stmts_stays body).bind fun _ => (report_stays _).bind fun _ => (clauses_stays rest).bind
      fun _ => .pure fun _ _ _ => trivial

end

lemma function_stays {f : Surface.Function} (h : Spelled f.names) :
    Stays lo hi (function registry f) fun g => Drawn lo hi g.body :=
  (expr_stays f.body).bind fun _ => .pure fun hbody => by
    obtain ⟨-, hparts⟩ := List.forall_mem_cons.mp h
    exact hbody (List.forall_mem_append.mp hparts).2

/-- The texts of two bodies are one just if the bodies are, up to where their calls stand. -/
def ToldApart (f g : Core.Function) : Prop :=
  ∀ depth, f.body.text depth = g.body.text depth ↔ f.body.inward = g.body.inward

instance : Std.Symm ToldApart :=
  ⟨fun _ _ h depth => eq_comm.trans ((h depth).trans eq_comm)⟩

/-- The first function draws its names before the others are compiled. -/
lemma pairwise_toldApart {fs : List Surface.Function} (h : ∀ f ∈ fs, Spelled f.names)
    (p : Progress) : (fs.mapM (function registry) p).1.Pairwise ToldApart := by
  induction fs generalizing p with
  | nil => exact .nil
  | cons f fs ih =>
    obtain ⟨hf, hfs⟩ := List.forall_mem_cons.mp h
    generalize hq : (function registry f p).2 = q
    have hrun : ((f :: fs).mapM (function registry) p).1 =
        (function registry f p).1 :: (fs.mapM (function registry) q).1 := by
      rw [List.mapM_cons, ← hq]
      rfl
    have hfirst : Drawn p.fresh q.fresh (function registry f p).1.body := by
      have hstays := @function_stays registry p.fresh q.fresh f hf p
      exact hstays.2 (Nat.le_refl _) (by rw [hq])
    have hothers : ∀ g ∈ (fs.mapM (function registry) q).1,
        Drawn q.fresh (fs.mapM (function registry) q).2.fresh g.body :=
      (Stays.mapM (fun f hf => function_stays (hfs f hf)) q).2 (Nat.le_refl _) (Nat.le_refl _)
    rw [hrun]
    refine List.pairwise_cons.mpr ⟨fun g hg => ?_, ih hfs q⟩
    refine hfirst.text_eq_iff (hothers g hg) fun n hn hn' => ?_
    exact absurd hn'.1 (Nat.not_le.mpr hn.2)

lemma spelled_of_mem_functions {source : List Char} {f : Surface.Function}
    (h : f ∈ (Collected.ofModule (Grammar.parse (Token.scan source).tokens).tree).functions) :
    Spelled f.names := by
  have hitem := (Collected.faithful_ofModule _).functions f h
  exact fun x hx => Token.spells_of_mem_scan ((Grammar.parse_items hitem).2 x hx)

lemma Compiled.pairwise_toldApart (source : List Char) (fresh : Nat) :
    (ofModule (Grammar.parse (Token.scan source).tokens).tree
      fresh).program.functions.Pairwise ToldApart :=
  Compile.pairwise_toldApart (fun _ => spelled_of_mem_functions) _

/-- The text of a body does not show where its calls stand, but it shows everything else. Two bodies
of a build have one text just if they are the same once their calls are moved inward, to what a
binding or a conditional ends with. So among the bodies that call neither, equal texts mean equal
bodies. -/
theorem text_eq_iff_inward_eq (source : List Char) (depth : Nat) :
    ∀ f ∈ (Build.front source).1.functions, ∀ g ∈ (Build.front source).1.functions,
      (f.body.text depth = g.body.text depth ↔ f.body.inward = g.body.inward) ∧
        (f.body.callsOpen = false → g.body.callsOpen = false →
          f.body.text depth = g.body.text depth → f.body = g.body) := by
  have htold : ∀ f ∈ (Build.front source).1.functions,
      ∀ g ∈ (Build.front source).1.functions, ToldApart f g := by
    unfold Build.front
    dsimp only
    split
    · intro f hf g hg
      have hself : ∀ f : Core.Function, ToldApart f f := fun f depth => ⟨fun _ => rfl, fun _ => rfl⟩
      exact (Compiled.pairwise_toldApart source 0).forall_of_forall (fun f _ => hself f) hf hg
    · exact fun f hf => absurd hf List.not_mem_nil
  intro f hf g hg
  have hiff := htold f hf g hg depth
  refine ⟨hiff, fun hclosed hclosed' htext => ?_⟩
  have hinward := hiff.mp htext
  rwa [Core.Expr.inward_eq_self _ hclosed, Core.Expr.inward_eq_self _ hclosed'] at hinward

/-- Three functions that bind a name and call what it stands for. The first one calls the binding,
the others call inside it. -/
def callings : List Char :=
  ("fn a(f) = \x7b let x = f; x \x7d(1) fn b(f) = \x7b let x = f; x(1) \x7d " ++
    "fn c(f) = \x7b let x = f; x(1) \x7d").toList

def callOfBinding : Core.Expr := .call (.letIn "x" (.var "f") (.var "x")) [.lit (.int 1)]

def bindingOfCall : Core.Expr := .letIn "x" (.var "f") (.call (.var "x") [.lit (.int 1)])

/-- A function that begins at an offset and calls inside the binding. -/
def callingTree (name : String) (start : Nat) : Surface.Item :=
  .function ⟨⟨name, ⟨start + 3, start + 4⟩⟩, [⟨"f", ⟨start + 5, start + 6⟩⟩],
    .block ⟨start + 10, start + 29⟩
      [.bind ⟨"x", ⟨start + 16, start + 17⟩⟩ (.ident ⟨start + 20, start + 21⟩ "f"),
        .expr (.call ⟨start + 23, start + 27⟩ (.ident ⟨start + 23, start + 24⟩ "x")
          [.int ⟨start + 25, start + 26⟩ 1])], ⟨start, start + 29⟩⟩

def callingsTree : Surface.Module :=
  ⟨[.function ⟨⟨"a", ⟨3, 4⟩⟩, [⟨"f", ⟨5, 6⟩⟩],
      .call ⟨10, 29⟩ (.block ⟨10, 26⟩ [.bind ⟨"x", ⟨16, 17⟩⟩ (.ident ⟨20, 21⟩ "f"),
        .expr (.ident ⟨23, 24⟩ "x")]) [.int ⟨27, 28⟩ 1], ⟨0, 29⟩⟩,
    callingTree "b" 30, callingTree "c" 60]⟩

lemma readAs_callings : ReadAs callings callingsTree :=
  ⟨by decide +kernel, by decide +kernel, by decide +kernel⟩

lemma front_callings : Build.front callings =
    (⟨[], [⟨"a", ["f"], callOfBinding⟩, ⟨"b", ["f"], bindingOfCall⟩,
      ⟨"c", ["f"], bindingOfCall⟩]⟩, []) := by
  simp only [Build.front, readAs_callings.scanned, readAs_callings.parsed, readAs_callings.tree]
  rfl

lemma inward_callOfBinding : callOfBinding.inward = bindingOfCall.inward := rfl

/-- The bodies of the first two functions are told apart by no more than a call, the others by
nothing. -/
theorem text_eq_iff_inward_eq_callings :
    ∃ f g h : Core.Function, f ∈ (Build.front callings).1.functions ∧
      g ∈ (Build.front callings).1.functions ∧ h ∈ (Build.front callings).1.functions ∧
        f.body.text 0 = g.body.text 0 ∧ (g.body.callsOpen = false ∧ h.body.callsOpen = false) ∧
          g.body.text 0 = h.body.text 0 ∧ g.body = h.body := by
  have hfunctions : (Build.front callings).1.functions = [⟨"a", ["f"], callOfBinding⟩,
      ⟨"b", ["f"], bindingOfCall⟩, ⟨"c", ["f"], bindingOfCall⟩] := by rw [front_callings]
  have hall := text_eq_iff_inward_eq callings 0
  rw [hfunctions] at hall ⊢
  have hclosed : bindingOfCall.callsOpen = false := by decide
  obtain ⟨hcalls, -⟩ :=
    hall ⟨"a", ["f"], callOfBinding⟩ (by simp) ⟨"b", ["f"], bindingOfCall⟩ (by simp)
  obtain ⟨hsame, hequal⟩ :=
    hall ⟨"b", ["f"], bindingOfCall⟩ (by simp) ⟨"c", ["f"], bindingOfCall⟩ (by simp)
  exact ⟨⟨"a", ["f"], callOfBinding⟩, ⟨"b", ["f"], bindingOfCall⟩, ⟨"c", ["f"], bindingOfCall⟩,
    by simp, by simp, by simp, hcalls.mpr inward_callOfBinding, ⟨hclosed, hclosed⟩, hsame.mpr rfl,
    hequal hclosed hclosed (hsame.mpr rfl)⟩

/-- Two functions without a fault whose bodies are not the same expression, though no text tells
them apart. The parentheses that a called function would get are missing around a called binding. -/
theorem exists_text_eq_of_body_ne : (Build.front callings).2 = [] ∧
    ∃ f ∈ (Build.front callings).1.functions, ∃ g ∈ (Build.front callings).1.functions,
      (∀ depth, f.body.text depth = g.body.text depth) ∧ f.body ≠ g.body := by
  rw [front_callings]
  refine ⟨rfl, ⟨"a", ["f"], callOfBinding⟩, by simp, ⟨"b", ["f"], bindingOfCall⟩, by simp,
    fun depth => ?_, fun h => by cases h⟩
  rw [← Core.Expr.text_inward depth callOfBinding, inward_callOfBinding, Core.Expr.text_inward]

end Compile

end ClosedSum
