import ClosedSum.Proofs.Definition
import ClosedSum.Proofs.Run

/-!
# Compiled dispatches

A match whose clauses compile has one branch for each clause, in their order, and a branch that
fails at the end if it has no default. On a value, the first branch whose test passes is that of the
first clause that applies to the value.
-/

namespace ClosedSum

namespace Eval

/-- Evaluation of a dispatch comes to one of its branches: all tests before fail on the machine, and
that of the branch passes. -/
structure Takes (env : Env) (m : Machine) (bs : List Core.Branch) (i : Nat) (b : Core.Branch) :
    Prop where
  branch : bs[i]? = some b
  passes : passes env b.test m = (.ok true, m)
  before : ∀ j < i, ∀ b', bs[j]? = some b' → Eval.passes env b'.test m = (.ok false, m)

variable {env : Env} {m : Machine} {bs : List Core.Branch} {b b' : Core.Branch} {i j : Nat}

lemma Takes.head (h : Eval.passes env b.test m = (.ok true, m)) : Takes env m (b :: bs) 0 b :=
  ⟨rfl, h, fun j hj => absurd hj (Nat.not_lt_zero j)⟩

lemma Takes.tail (hb : Eval.passes env b.test m = (.ok false, m)) (h : Takes env m bs i b') :
    Takes env m (b :: bs) (i + 1) b' := by
  refine ⟨by simpa using h.branch, h.passes, ?_⟩
  intro j hj c hc
  cases j with
  | zero =>
    obtain rfl : b = c := by simpa using hc
    exact hb
  | succ j => exact h.before j (by omega) c (by simpa using hc)

/-- A dispatch comes to one branch only. -/
lemma Takes.unique (h : Takes env m bs i b) (h' : Takes env m bs j b') : i = j ∧ b = b' := by
  have hij : i = j := by
    rcases Nat.lt_trichotomy i j with hlt | heq | hlt
    · have hfalse := h'.before i hlt b h.branch
      rw [h.passes] at hfalse
      cases hfalse
    · exact heq
    · have hfalse := h.before j hlt b' h'.branch
      rw [h'.passes] at hfalse
      cases hfalse
  subst hij
  exact ⟨rfl, Option.some.inj (h.branch.symm.trans h'.branch)⟩

/-- The dispatch does what the branch does that it comes to. -/
theorem Takes.eval (h : Takes env m bs i b) (call : Value → List Value → Run Value) :
    evalWith call (.dispatch bs) env m = evalWith call b.action env m := by
  rw [evalWith]
  induction bs generalizing i with
  | nil => cases h.branch
  | cons c bs ih =>
    obtain ⟨t, a⟩ := c
    rw [evalBranches]
    cases i with
    | zero =>
      obtain rfl : Core.Branch.mk t a = b := by simpa using h.branch
      have htrue : Eval.passes env t m = (.ok true, m) := h.passes
      rw [Run.bind_of_ok htrue]
      rfl
    | succ i =>
      have hfalse : Eval.passes env t m = (.ok false, m) := h.before 0 (by omega) (.mk t a) rfl
      rw [Run.bind_of_ok hfalse]
      refine ih ⟨by simpa using h.branch, h.passes, ?_⟩
      intro j hj c hc
      exact h.before (j + 1) (by omega) c (by simpa using hc)

/-- The test of a case asks whether the scrutinee is of the case. -/
lemma passes_case {x : String} {v : Value} (hv : env.lookup? m.store x = some v) (c : Case)
    (predicate : String) :
    passes env (.case x c.variant c.tag predicate) m = (.ok (c.holds v), m) := by
  have hlookup : Run.lookup env x m = (.ok v, m) := by rw [Run.lookup_apply, hv]
  rw [passes, Run.bind_of_ok hlookup]
  cases v <;> rfl

end Eval

namespace Match

open Eval (Value Env Machine Run Takes)

lemma Compile.bind_apply {α β : Type} (x : Compile α) (f : α → Compile β) (n : Nat) :
    (x >>= f) n = match x n with
      | (.ok a, n') => f a n'
      | (.error e, n') => (.error e, n') := by
  simp only [bind, ExceptT.bind, ExceptT.mk, StateT.bind, ExceptT.bindCont]
  rcases x n with ⟨_ | _, _⟩ <;> rfl

/-- A step of compilation succeeds if its parts do, one after the other. -/
lemma Compile.bind_eq_ok {α β : Type} {x : Compile α} {f : α → Compile β} {n n' : Nat} {b : β}
    (h : (x >>= f) n = (.ok b, n')) : ∃ a k, x n = (.ok a, k) ∧ f a k = (.ok b, n') := by
  rw [bind_apply] at h
  generalize hx : x n = r at h
  obtain ⟨_ | a, k⟩ := r
  · cases h
  · exact ⟨a, k, rfl, h⟩

/-- What parameters become while the counter of generated names goes from one number to another. -/
inductive Param.Becomes (n n' : Nat) : Param → Core.Param → Prop
  | named (i : Ident) : Becomes n n' (.named i) { name := i.name }
  | wildcard (span : Span) {k : Nat} (hk : n ≤ k) (hk' : k < n') :
    Becomes n n' (.wildcard span) { name := freshName "_" k, unused := true }

lemma Param.Becomes.mono {n n' k k' : Nat} (hk : k ≤ n) (hk' : n' ≤ k') {p : Param}
    {q : Core.Param} (h : p.Becomes n n' q) : p.Becomes k k' q := by
  cases h with
  | named i => exact .named i
  | wildcard span h h' => exact .wildcard span (by omega) (by omega)

lemma Param.mapM_compile (params : List Param) (n : Nat) :
    n ≤ (params.mapM Param.compile n).2 ∧
      List.Forall₂ (Param.Becomes n (params.mapM Param.compile n).2) params
        (params.mapM Param.compile n).1 := by
  induction params generalizing n with
  | nil => exact ⟨Nat.le_refl _, .nil⟩
  | cons p params ih =>
    obtain ⟨hle, hall⟩ := ih (p.compile n).2
    have hcons : (p :: params).mapM Param.compile n =
        ((p.compile n).1 :: (params.mapM Param.compile (p.compile n).2).1,
          (params.mapM Param.compile (p.compile n).2).2) := by
      rw [List.mapM_cons]
      rfl
    rw [hcons]
    have hp : n ≤ (p.compile n).2 ∧ p.Becomes n (p.compile n).2 (p.compile n).1 := by
      cases p with
      | named i => exact ⟨Nat.le_refl _, .named i⟩
      | wildcard span => exact ⟨Nat.le_succ _, .wildcard span (Nat.le_refl _) (Nat.lt_succ_self _)⟩
    refine ⟨Nat.le_trans hp.1 hle, .cons (hp.2.mono (Nat.le_refl _) hle) ?_⟩
    exact hall.imp fun q q' h => h.mono hp.1 (Nat.le_refl _)

/-- The clause a value is dispatched to names its case, or is the default. -/
def Clause.names (d : Variant.Decls) (v : Value) (c : Clause) : Bool :=
  match c.pattern.label? with
  | some label => (d.caseOf? v).any (·.label = label.name)
  | none => false

def Clause.appliesTo (d : Variant.Decls) (v : Value) (c : Clause) : Bool :=
  c.pattern.isDefault || c.names d v

/-- A clause with the label of a case names the case of a value if the value is an instance. -/
lemma Clause.names_eq_holds {s : Variant.Spec} {d : Definition} (hd : Definition.ofSpec s = .ok d)
    {c : Clause} {label : Ident} {params : Params} (hc : c.pattern = .case label params)
    {decl : Variant.CaseDecl} (hmem : decl ∈ d.decls.cases) (hlabel : decl.label = label.name)
    (v : Value) : c.names d.decls v = (Eval.Case.ofDecl decl).holds v := by
  have hnodup := Definition.labels_nodup hd
  obtain ⟨-, rfl⟩ := Definition.ofSpec_ok hd
  rw [Bool.eq_iff_iff]
  simp only [names, hc, Pattern.label?, Option.any_eq_true, decide_eq_true_eq]
  constructor
  · rintro ⟨decl', hcase, hlabel'⟩
    obtain ⟨hmem', hholds⟩ := Variant.Decls.mem_of_caseOf? hcase
    have heq : decl' = decl :=
      List.inj_on_of_nodup_map hnodup hmem' hmem (hlabel'.trans hlabel.symm)
    rwa [← heq]
  · intro hholds
    exact ⟨decl, Variant.Decls.caseOf?_eq_some_iff.mpr ⟨hmem, hholds⟩, hlabel⟩

lemma Pattern.isDefault_iff {p : Pattern} : p.isDefault = true ↔ p = .default := by
  cases p <;> simp [Pattern.isDefault]

lemma isDefault_eq_false {p : Pattern} {l : Ident} (h : p.label? = some l) :
    p.isDefault = false := by
  cases p with
  | default => cases h
  | case => rfl

lemma eq_case_of_label {p : Pattern} {l : Ident} (h : p.label? = some l) :
    ∃ params, p = .case l params := by
  cases p with
  | default => cases h
  | case label params =>
    cases h
    exact ⟨params, rfl⟩

/-- How a clause stands to one behind it: it names a case, and the other names no such case. -/
def Clause.Before (c c' : Clause) : Prop :=
  ∃ l, c.pattern.label? = some l ∧ ∀ l', c'.pattern.label? = some l' → l.name ≠ l'.name

@[simp] lemma Dispatch.branches_addBranch (d : Dispatch) (test : Core.Test) (action : Core.Expr)
    (advice : List Advice) :
    (d.addBranch test action advice).branches = .mk test action :: d.branches := rfl

@[simp] lemma Dispatch.advice_addBranch (d : Dispatch) (test : Core.Test) (action : Core.Expr)
    (advice : List Advice) : (d.addBranch test action advice).advice = advice ++ d.advice := rfl

namespace Site

variable {site : Site}

/-- The dispatch that clauses become behind others that name the cases in `seen`, while the counter
of generated names goes from one number to another. -/
inductive Compiles (site : Site) : List Ident → List Clause → Nat → Dispatch → Nat → Prop
  | close (seen : List Ident) (n : Nat) : Compiles site seen [] n (site.close seen) n
  | default (seen : List Ident) {c : Clause} (hc : c.pattern = .default) (n : Nat) :
    Compiles site seen [c] n (site.closeWith seen c n).1 n
  | case {seen : List Ident} {c : Clause} {label : Ident} {params : Params} {cs : List Clause}
    {e : Entry} {d : Dispatch} {n n' : Nat} (hc : c.pattern = .case label params)
    (hnew : ∀ i ∈ seen, i.name ≠ label.name) (he : site.schema.find? label.name = some e)
    (hrest : Compiles site (label :: seen) cs
      (action c (site.schema.fieldCalls e site.scrutinee) n).2 d n') :
    Compiles site seen (c :: cs) n
      (d.addBranch (.case site.scrutinee site.schema.variant e.tag e.predicate)
        (action c (site.schema.fieldCalls e site.scrutinee) n).1 (arityAdvice e c)) n'

lemma action_of_list {c : Clause} {label : Ident} {params : List Param}
    (hc : c.pattern = .case label (.list params)) (args : List Core.Expr) (n : Nat) :
    action c args n = (.call (.lambda (params.mapM Param.compile n).1 false c.body) args,
      (params.mapM Param.compile n).2) := by
  simp only [action, hc, Pattern.compile]
  rfl

lemma action_of_rest {c : Clause} {label : Ident} {param : Param}
    (hc : c.pattern = .case label (.rest param)) (args : List Core.Expr) (n : Nat) :
    action c args n = (.call (.lambda [] true c.body) args, n) := by
  simp only [action, hc, Pattern.compile]
  rfl

lemma action_of_default {c : Clause} (hc : c.pattern = .default) (args : List Core.Expr) (n : Nat) :
    action c args n = (.call (.lambda [] false c.body) args, n) := by
  simp only [action, hc, Pattern.compile]
  rfl

lemma le_counter_action (c : Clause) (args : List Core.Expr) (n : Nat) :
    n ≤ (action c args n).2 := by
  cases hc : c.pattern with
  | default => exact Nat.le_of_eq (by rw [action_of_default hc])
  | case label params =>
    cases params with
    | rest param => exact Nat.le_of_eq (by rw [action_of_rest hc])
    | list params =>
      rw [action_of_list hc]
      exact (Param.mapM_compile params n).1

/-- The function of a default draws no name. -/
lemma closeWith_default (seen : List Ident) {c : Clause} (hc : c.pattern = .default) (n : Nat) :
    site.closeWith seen c n = (⟨[.mk .always (.call (.lambda [] false c.body) [])],
      if (site.missing seen).isEmpty then [.redundantDefault site.schema.variant c.span] else []⟩,
      n) := by
  have hrun : site.closeWith seen c n = (⟨[.mk .always (action c [] n).1], _⟩, (action c [] n).2) :=
    rfl
  rw [hrun, action_of_default hc]

lemma entry_ok {s : Schema} {label : Ident} {e : Entry} {n k : Nat}
    (h : (liftM (s.entry label) : Compile Entry) n = (.ok e, k)) :
    s.find? label.name = some e ∧ n = k := by
  unfold Schema.entry at h
  cases hfind : s.find? label.name with
  | none =>
    rw [hfind] at h
    cases h
  | some e' =>
    rw [hfind] at h
    cases h
    exact ⟨rfl, rfl⟩

theorem compileFrom_ok {seen : List Ident} {cs : List Clause} {n n' : Nat} {d : Dispatch}
    (h : site.compileFrom seen cs n = (.ok d, n')) : site.Compiles seen cs n d n' := by
  induction cs generalizing seen n d with
  | nil =>
    obtain ⟨rfl, rfl⟩ : site.close seen = d ∧ n = n' := by
      cases h
      exact ⟨rfl, rfl⟩
    exact .close seen n
  | cons c cs ih =>
    rw [compileFrom.eq_def] at h
    cases hc : c.pattern with
    | default =>
      simp only [hc] at h
      cases cs with
      | nil =>
        have hd : (Except.ok (site.closeWith seen c n).1, (site.closeWith seen c n).2) =
            ((.ok d, n') : Except Fault Dispatch × Nat) := h
        rw [closeWith_default seen hc] at hd
        cases hd
        have hdefault : site.Compiles seen [c] n (site.closeWith seen c n).1 n := .default seen hc n
        rwa [closeWith_default seen hc] at hdefault
      | cons => cases h
    | case label params =>
      simp only [hc] at h
      cases hfind : seen.find? (·.name = label.name) with
      | some first =>
        rw [hfind] at h
        cases h
      | none =>
        rw [hfind] at h
        obtain ⟨e, k, he, h₁⟩ := Compile.bind_eq_ok h
        obtain ⟨act, k₁, hact, h₂⟩ := Compile.bind_eq_ok h₁
        obtain ⟨rest, k₂, hrest, h₃⟩ := Compile.bind_eq_ok h₂
        obtain ⟨hentry, rfl⟩ := entry_ok he
        have hact' : (Except.ok (action c (site.schema.fieldCalls e site.scrutinee) n).1,
            (action c (site.schema.fieldCalls e site.scrutinee) n).2) =
              ((.ok act, k₁) : Except Fault Core.Expr × Nat) := hact
        have hd : (Except.ok (rest.addBranch (.case site.scrutinee site.schema.variant e.tag
            e.predicate) act (arityAdvice e c)), k₂) =
              ((.ok d, n') : Except Fault Dispatch × Nat) := h₃
        cases hact'
        cases hd
        have hnew : ∀ i ∈ seen, i.name ≠ label.name := by simpa using hfind
        exact .case hc hnew hentry (ih hrest)

theorem compile_ok {clauses : List Clause} {n n' : Nat} {d : Dispatch}
    (h : site.compile clauses n = (.ok d, n')) : site.Compiles [] clauses n d n' := by
  unfold compile at h
  split at h
  · cases h
  · exact compileFrom_ok h

/-- Clauses that compile name cases that were not named before, and a default has none behind it. -/
lemma Compiles.pairwise {seen : List Ident} {cs : List Clause} {n n' : Nat} {disp : Dispatch}
    (h : site.Compiles seen cs n disp n') :
    (∀ c ∈ cs, ∀ l, c.pattern.label? = some l → ∀ i ∈ seen, i.name ≠ l.name) ∧
      cs.Pairwise Clause.Before := by
  induction h with
  | close seen n => simp
  | @default seen c hc n => simp [hc, Pattern.label?]
  | @case seen c label params cs e disp n n' hc hnew he hrest ih =>
    obtain ⟨hseen, hcs⟩ := ih
    have hlabel : c.pattern.label? = some label := by rw [hc, Pattern.label?]
    refine ⟨?_, List.pairwise_cons.mpr ⟨fun c' hc' => ⟨label, hlabel, fun l' hl' => ?_⟩, hcs⟩⟩
    · intro c' hc' l hl i hi
      rcases List.mem_cons.mp hc' with rfl | hc'
      · obtain rfl : label = l := Option.some.inj (hlabel.symm.trans hl)
        exact hnew i hi
      · exact hseen c' hc' l hl i (by simp [hi])
    · exact hseen c' hc' l' hl' label (by simp)

lemma Compiles.counter_le {seen : List Ident} {cs : List Clause} {n n' : Nat} {disp : Dispatch}
    (h : site.Compiles seen cs n disp n') : n ≤ n' := by
  induction h with
  | close => exact Nat.le_refl _
  | default => exact Nat.le_refl _
  | case _ _ _ _ ih => exact Nat.le_trans (le_counter_action _ _ _) ih

/-- The branch of a clause that names a case. -/
lemma Compiles.branch_of_case {seen : List Ident} {cs : List Clause} {n n' : Nat} {disp : Dispatch}
    (h : site.Compiles seen cs n disp n') {i : Nat} {c : Clause} (hi : cs[i]? = some c)
    {label : Ident} {params : Params} (hc : c.pattern = .case label params) :
    ∃ e k, site.schema.find? label.name = some e ∧ n ≤ k ∧
      (action c (site.schema.fieldCalls e site.scrutinee) k).2 ≤ n' ∧
      disp.branches[i]? = some (.mk (.case site.scrutinee site.schema.variant e.tag e.predicate)
        (action c (site.schema.fieldCalls e site.scrutinee) k).1) := by
  induction h generalizing i with
  | close seen n => cases hi
  | @default seen c' hc' n =>
    cases i with
    | zero =>
      obtain rfl : c' = c := by simpa using hi
      rw [hc'] at hc
      cases hc
    | succ i => simp at hi
  | @case seen c' label' params' cs e disp n n' hc' hnew he hrest ih =>
    cases i with
    | zero =>
      obtain rfl : c' = c := by simpa using hi
      rw [hc'] at hc
      cases hc
      exact ⟨e, n, he, Nat.le_refl _, hrest.counter_le, rfl⟩
    | succ i =>
      obtain ⟨e', k, he', hk, hk', hbranch⟩ := ih (by simpa using hi)
      exact ⟨e', k, he', Nat.le_trans (le_counter_action _ _ _) hk, hk', by simpa using hbranch⟩

/-- The branch of a default, which is the last clause. -/
lemma Compiles.branch_of_default {seen : List Ident} {cs : List Clause} {n n' : Nat}
    {disp : Dispatch} (h : site.Compiles seen cs n disp n') {i : Nat} {c : Clause}
    (hi : cs[i]? = some c) (hc : c.pattern = .default) :
    disp.branches[i]? = some (.mk .always (.call (.lambda [] false c.body) [])) := by
  induction h generalizing i with
  | close seen n => cases hi
  | @default seen c' hc' n =>
    cases i with
    | zero =>
      obtain rfl : c' = c := by simpa using hi
      rw [closeWith_default seen hc']
      rfl
    | succ i => simp at hi
  | @case seen c' label' params' cs e disp n n' hc' hnew he hrest ih =>
    cases i with
    | zero =>
      obtain rfl : c' = c := by simpa using hi
      rw [hc'] at hc
      cases hc
    | succ i => simpa using ih (by simpa using hi)

/-- The branch behind those of the clauses, if none of them is a default. -/
lemma Compiles.branch_of_end {seen : List Ident} {cs : List Clause} {n n' : Nat} {disp : Dispatch}
    (h : site.Compiles seen cs n disp n') (hcs : ∀ c ∈ cs, c.pattern.isDefault = false) :
    disp.branches[cs.length]? = some (.mk .always (.fail site.schema.variant)) := by
  induction h with
  | close seen n => rfl
  | @default seen c hc n =>
    have hfalse := hcs c (by simp)
    rw [hc] at hfalse
    cases hfalse
  | case _ _ _ _ ih => simpa using ih fun c hc => hcs c (by simp [hc])

/-- The dispatch of a match takes the branch of the first clause that applies to the value, or the
last branch if none does. -/
theorem Compiles.takes {s : Variant.Spec} {d : Definition} (hd : Definition.ofSpec s = .ok d)
    (hschema : site.schema = d.operator.schema) {seen : List Ident} {cs : List Clause} {n n' : Nat}
    {disp : Dispatch} (h : site.Compiles seen cs n disp n') {env : Env} {m : Machine} {v : Value}
    (hv : env.lookup? m.store site.scrutinee = some v) :
    ∃ b, Takes env m disp.branches (cs.findIdx (·.appliesTo d.decls v)) b := by
  induction h with
  | close seen n => exact ⟨_, .head rfl⟩
  | default seen hc n =>
    rw [closeWith_default seen hc, List.findIdx_cons]
    simp only [Clause.appliesTo, hc, Pattern.isDefault, Bool.true_or]
    exact ⟨_, .head rfl⟩
  | @case seen c label params cs e disp n n' hc hnew he hrest ih =>
    obtain ⟨decl, hmem, hlabel, rfl, hvariant⟩ := Definition.find?_schema hd (hschema ▸ he)
    have hnames := Clause.names_eq_holds hd hc hmem hlabel v
    have hpasses := Eval.passes_case hv (Eval.Case.ofDecl decl) decl.predicate
    have htest : Core.Test.case site.scrutinee site.schema.variant decl.tag decl.predicate =
        .case site.scrutinee (Eval.Case.ofDecl decl).variant (Eval.Case.ofDecl decl).tag
          decl.predicate := by
      rw [hschema, hvariant]
      rfl
    rw [← htest, ← hnames] at hpasses
    rw [List.findIdx_cons]
    simp only [Clause.appliesTo, hc, Pattern.isDefault, Bool.false_or]
    cases hcase : c.names d.decls v with
    | true =>
      rw [hcase] at hpasses
      exact ⟨_, .head hpasses⟩
    | false =>
      rw [hcase] at hpasses
      obtain ⟨b, hb⟩ := ih
      exact ⟨b, hb.tail hpasses⟩

end Site

section Selection

variable {d : Variant.Decls} {cs : List Clause} {i : Nat} {clause : Clause} {c : Variant.CaseDecl}
  {v : Value}

lemma Clause.names_iff (hcase : d.caseOf? v = some c) :
    clause.names d v = true ↔ ∃ l, clause.pattern.label? = some l ∧ l.name = c.label := by
  unfold names
  cases clause.pattern.label? with
  | none => simp
  | some label => simp [hcase, eq_comm]

lemma Clause.names_eq_false_of_none (hcase : d.caseOf? v = none) : clause.names d v = false := by
  unfold names
  cases clause.pattern.label? with
  | none => rfl
  | some label => rw [hcase]; rfl

/-- The clause that names the case of a value is the first that applies to it. -/
lemma findIdx_of_label (hcs : cs.Pairwise Clause.Before) (hi : cs[i]? = some clause) {l : Ident}
    (hl : clause.pattern.label? = some l) (hcase : d.caseOf? v = some c)
    (hname : l.name = c.label) : cs.findIdx (·.appliesTo d v) = i := by
  obtain ⟨hlt, rfl⟩ := List.getElem?_eq_some_iff.mp hi
  rw [List.findIdx_eq hlt]
  refine ⟨?_, fun j hj => ?_⟩
  · rw [Clause.appliesTo, Bool.or_eq_true]
    exact .inr ((Clause.names_iff hcase).mpr ⟨l, hl, hname⟩)
  · obtain ⟨l', hl', hne⟩ := List.pairwise_iff_getElem.mp hcs j i (by omega) hlt hj
    rw [Clause.appliesTo, Bool.or_eq_false_iff]
    refine ⟨isDefault_eq_false hl', Bool.eq_false_iff.mpr fun hnames => ?_⟩
    obtain ⟨l'', hl'', hname'⟩ := (Clause.names_iff hcase).mp hnames
    obtain rfl : l' = l'' := Option.some.inj (hl'.symm.trans hl'')
    exact hne l hl (hname'.trans hname.symm)

/-- No two clauses name one case. -/
lemma label_inj (hcs : cs.Pairwise Clause.Before) {j : Nat} {clause' : Clause}
    (hi : cs[i]? = some clause) (hj : cs[j]? = some clause') {l l' : Ident}
    (hl : clause.pattern.label? = some l) (hl' : clause'.pattern.label? = some l')
    (hname : l.name = l'.name) : i = j := by
  obtain ⟨hlt, rfl⟩ := List.getElem?_eq_some_iff.mp hi
  obtain ⟨hlt', rfl⟩ := List.getElem?_eq_some_iff.mp hj
  rcases Nat.lt_trichotomy i j with hij | heq | hji
  · obtain ⟨k, hk, hne⟩ := List.pairwise_iff_getElem.mp hcs i j hlt hlt' hij
    obtain rfl : l = k := Option.some.inj (hl.symm.trans hk)
    exact absurd hname (hne l' hl')
  · exact heq
  · obtain ⟨k, hk, hne⟩ := List.pairwise_iff_getElem.mp hcs j i hlt' hlt hji
    obtain rfl : l' = k := Option.some.inj (hl'.symm.trans hk)
    exact absurd hname.symm (hne l hl)

lemma Clause.names_eq_false (hcase : d.caseOf? v = some c)
    (hnone : ∀ l, clause.pattern.label? = some l → l.name ≠ c.label) :
    clause.names d v = false := by
  refine Bool.eq_false_iff.mpr fun hnames => ?_
  obtain ⟨l, hl, hname⟩ := (Clause.names_iff hcase).mp hnames
  exact hnone l hl hname

/-- A default is the first clause that applies to a value whose case no clause names. -/
lemma findIdx_of_default (hcs : cs.Pairwise Clause.Before) (hi : cs[i]? = some clause)
    (hdefault : clause.pattern = .default) (hnone : ∀ clause ∈ cs, clause.names d v = false) :
    cs.findIdx (·.appliesTo d v) = i := by
  obtain ⟨hlt, rfl⟩ := List.getElem?_eq_some_iff.mp hi
  rw [List.findIdx_eq hlt]
  refine ⟨by rw [Clause.appliesTo, hdefault]; rfl, fun j hj => ?_⟩
  obtain ⟨l, hl, -⟩ := List.pairwise_iff_getElem.mp hcs j i (by omega) hlt hj
  rw [Clause.appliesTo, Bool.or_eq_false_iff]
  exact ⟨isDefault_eq_false hl, hnone _ (List.getElem_mem _)⟩

/-- No clause applies to a value whose case no clause names, if there is no default. -/
lemma findIdx_of_none (hdefault : ∀ clause ∈ cs, clause.pattern.isDefault = false)
    (hnone : ∀ clause ∈ cs, clause.names d v = false) :
    cs.findIdx (·.appliesTo d v) = cs.length := by
  apply List.findIdx_eq_length_of_false
  intro clause hclause
  rw [Clause.appliesTo, Bool.or_eq_false_iff]
  exact ⟨hdefault clause hclause, hnone clause hclause⟩

end Selection

end Match

end ClosedSum
