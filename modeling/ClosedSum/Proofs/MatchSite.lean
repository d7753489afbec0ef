import ClosedSum.Proofs.ChangedModules
import ClosedSum.Proofs.ParserProgress
import ClosedSum.Proofs.SameWorld

/-!
# The meaning of a match

A match evaluates its scrutinee once and runs the body of one clause, one call deeper and with the
fields bound by position. Its expansion goes through generated functions, accessors and names, but
does the same: the result, the output and every scope and closure that the surrounding code can
reach come out alike.
-/

namespace ClosedSum

namespace Eval

def Value.fields : Value → List Value
  | .variant _ _ _ fields => fields
  | _ => []

/-- Runs the body of a clause one call deeper, in a scope inside that of the match. -/
def runBody (limit left : Nat) (env : Env) (bindings : List (String × Value)) (body : Core.Expr) :
    Run Value := do
  let inner ← Run.enter (Env.extending env.current bindings)
  enterAt limit left none inner body

end Eval

namespace Match

open Eval (Value Env Machine Run World runBody enterAt callAt callWith evalWith Resolves)

/-- Fields under the names of the parameters in their places; a wildcard names none. -/
def nameFields : List Param → List Value → List (String × Value)
  | .named i :: ps, v :: vs => (i.name, v) :: nameFields ps vs
  | .wildcard _ :: ps, _ :: vs => nameFields ps vs
  | _, _ => []

/-- What a clause for a case with `count` fields does with the fields of a value. A value that a
constructor has made does not lack any. -/
def Clause.run (c : Clause) (limit left : Nat) (env : Env) (count : Nat) (fields : List Value) :
    Run Value :=
  if fields.length < count then Run.fail .uncompiled
  else
    match c.pattern with
    | .case _ (.list params) =>
      if params.length = count then
        runBody limit left env (nameFields params fields).reverse c.body
      else Run.fail (.wrongArity "closure" params.length count)
    | .case _ (.rest _) | .default => runBody limit left env [] c.body

/-- What a match does with the value of its scrutinee. The clause for the case of the value counts
first, then the default; without either the match fails. -/
def respond (d : Variant.Decls) (clauses : List Clause) (limit left : Nat) (env : Env) (v : Value) :
    Run Value :=
  match clauses.find? (·.names d v), d.caseOf? v with
  | some clause, some c => clause.run limit left env c.fields.length v.fields
  | _, _ =>
    match clauses.find? (·.pattern.isDefault) with
    | some clause => runBody limit left env [] clause.body
    | none => Run.fail (.matchFailure d.name)

def meaning (d : Variant.Decls) (scrutinee : Core.Expr) (clauses : List Clause) (limit left : Nat)
    (env : Env) : Run Value := do
  let v ← evalWith (callAt limit left) scrutinee env
  respond d clauses limit left env v

/-- The generated names that an expansion draws while their counter goes up. -/
def Drawn (n n' : Nat) (x : String) : Prop :=
  x = freshName "scrutinee" n ∨ ∃ k, n < k ∧ k < n' ∧ x = freshName "_" k

lemma lookup_bindParams {k k' : Nat} {ps : List Param} {qs : List Core.Param}
    (h : List.Forall₂ (Param.Becomes k k') ps qs) {a : String}
    (ha : ∀ j, k ≤ j → j < k' → a ≠ freshName "_" j) (vs : List Value) :
    (Eval.bindParams (qs.map (·.name)) vs).lookup a = (nameFields ps vs).reverse.lookup a := by
  unfold Eval.bindParams
  induction h generalizing vs with
  | nil => simp [nameFields]
  | @cons p q ps qs hp hps ih =>
    cases vs with
    | nil => cases p <;> simp [nameFields]
    | cons v vs =>
      rw [List.map_cons, List.zip_cons_cons, List.reverse_cons, List.lookup_append, ih]
      cases hp with
      | named i => rw [nameFields, List.reverse_cons, List.lookup_append]
      | @wildcard span j hj hj' =>
        have hne : (a == freshName "_" j) = false := by simpa using ha j hj hj'
        rw [nameFields, List.lookup_cons, hne, List.lookup_nil, Option.or_none]

lemma nameFields_take (ps : List Param) (vs : List Value) :
    nameFields ps (vs.take ps.length) = nameFields ps vs := by
  induction ps generalizing vs with
  | nil => cases vs <;> rfl
  | cons p ps ih =>
    cases vs with
    | nil => rfl
    | cons v vs => cases p <;> simp [nameFields, ih]

lemma mem_of_mem_nameFields {ps : List Param} {vs : List Value} {b : String × Value}
    (h : b ∈ nameFields ps vs) : b.2 ∈ vs := by
  induction ps generalizing vs with
  | nil => cases vs <;> cases h
  | cons p ps ih =>
    cases vs with
    | nil => cases p <;> cases h
    | cons v vs =>
      cases p with
      | named i =>
        rcases List.mem_cons.mp h with rfl | h
        · simp
        · simp [ih h]
      | wildcard span => simp [ih (show b ∈ nameFields ps vs from h)]

section Site

variable {n n' : Nat} {m : Machine} {env : Env} {v : Value}

/-- The machine on which the dispatch of a match runs: the scrutinee is bound in a new scope. -/
def bound (env : Env) (m : Machine) (n : Nat) (v : Value) : Machine :=
  { m with store := (m.store.push env.current [(freshName "scrutinee" n, v)]).2 }

lemma lookup?_bound (henv : env.current < m.store.size) {x : String} (hx : ¬ Drawn n n' x) :
    (bound env m n v).store.lookup? m.store.size x = m.store.lookup? env.current x := by
  have hne : (x == freshName "scrutinee" n) = false := by
    simpa using fun h => hx (.inl h)
  rw [bound, Eval.Store.lookup?_push_self _ _ _ henv, List.lookup_cons, hne]
  rfl

lemma lookup?_scrutinee (henv : env.current < m.store.size) :
    (bound env m n v).store.lookup? m.store.size (freshName "scrutinee" n) = some v := by
  rw [bound, Eval.Store.lookup?_push_self _ _ _ henv, List.lookup_cons, beq_self_eq_true]
  rfl

/-- A body in the dispatch of a match runs like the body right inside the scope of the match, if
both bind the same values to names that are not drawn. -/
lemma body_alike (hm : m.WellScoped) (henv : env.current < m.store.size) (limit left : Nat)
    {bs bs' : List (String × Value)} (hbs : ∀ x, ¬ Drawn n n' x → bs.lookup x = bs'.lookup x)
    (hwithin : ∀ b ∈ bs', b.2.Within m) {body : Core.Expr}
    (hbody : ∀ x, Drawn n n' x → body.mentions x = false) :
    (World.same m).Leads Value.Alike
      (enterAt limit left none ⟨[(bound env m n v).store.size]⟩ body
        { bound env m n v with
          closures := m.closures + 1
          store := ((bound env m n v).store.push m.store.size bs).2 })
      (runBody limit left env bs' body m) := by
  have hbound : (World.same m).Relates { bound env m n v with closures := m.closures + 1 } m :=
    ((World.Relates.same hm).push_left env.current _).newClosure_left
  have hsize : m.store.size < (bound env m n v).store.size := by simp [bound]
  -- The two scopes agree on the names that are not drawn, and the body mentions no others.
  have hagree : Eval.Agree (World.same m) (fun x y => x = y ∧ ¬ Drawn n n' x)
      (fun x => (bs.lookup x).or ((bound env m n v).store.lookup? m.store.size x))
      (fun y => (bs'.lookup y).or (m.store.lookup? env.current y)) := by
    rintro x y ⟨rfl, hx⟩
    dsimp only
    rw [hbs x hx, lookup?_bound henv hx]
    cases hv : (bs'.lookup x).or (m.store.lookup? env.current x) with
    | none => rfl
    | some u =>
      have hu : u.Within m := by
        rcases Option.or_eq_some_iff.mp hv with hb | ⟨-, hparent⟩
        · obtain ⟨l, r, hl, -⟩ := List.lookup_eq_some_iff.mp hb
          exact hwithin (x, u) (by simp [hl])
        · exact hm.within _ x u hparent
      exact hu.alike hm.global_lt
  have halike : body.Alike (fun x y => x = y ∧ ¬ Drawn n n' x) body := by
    apply Core.Expr.alike_self
    intro x hx
    refine ⟨rfl, fun hdrawn => ?_⟩
    rw [hbody x hdrawn] at hx
    cases hx
  exact (Eval.enterAt_alike limit left _ _ _ _ none _ _ _ _ (hbound.push hsize henv hagree)
    (.inr ⟨rfl, rfl, rfl⟩) halike).of_le (World.le_addScopes _ _ _ _)

variable {s : Variant.Spec} {d : Definition}

lemma clause_alike (hd : Definition.ofSpec s = .ok d) (hm : m.WellScoped)
    (henv : env.current < m.store.size) (hv : v.Within m) {c : Variant.CaseDecl}
    (hc : c ∈ d.decls.cases) (hholds : (Eval.Case.ofDecl c).holds v = true)
    (hres : Resolves d.decls env m) (haccessors : ∀ x, Drawn n n' x → x ∉ d.decls.accessors)
    {clause : Clause} {l : Ident} (hl : clause.pattern.label? = some l)
    (hbody : ∀ x, Drawn n n' x → clause.body.mentions x = false) {k : Nat} (hk : n < k)
    (hk' : (clause.pattern.compile clause.body k).2 ≤ n') (limit left : Nat) :
    (World.same m).Leads Value.Alike
      (evalWith (callAt limit left) (.call (clause.pattern.compile clause.body k).1.toExpr
        (d.operator.schema.fieldCalls (.ofDecl c) (freshName "scrutinee" n)))
          ⟨m.store.size :: env.scopes⟩ (bound env m n v))
      (clause.run limit left env c.fields.length v.fields m) := by
  have hbound : (World.same m).Relates { bound env m n v with closures := m.closures + 1 } m :=
    ((World.Relates.same hm).push_left env.current _).newClosure_left
  have hres' : Resolves d.decls ⟨m.store.size :: env.scopes⟩ (bound env m n v) := by
    intro c' hc' i f hf
    have hdrawn : ¬ Drawn n n' f.accessor := fun h => haccessors _ h
      (List.mem_flatMap.mpr ⟨c', hc', List.mem_map_of_mem (List.mem_of_getElem? hf)⟩)
    exact (lookup?_bound henv hdrawn).trans (hres c' hc' i f hf)
  cases v with
  | variant u t tag fields =>
    have heval := eval_clause (enterAt limit left) hd hc hres' (lookup?_scrutinee henv) hholds
      (clause.pattern.compile clause.body k).1
    have hfields : ∀ f ∈ fields, f.Within m := by
      cases hv with
      | variant _ hfields => exact hfields
    rw [Eval.callAt_eq, heval, Clause.run, Value.fields]
    -- A field that the value lacks is met first, before the parameters are counted.
    by_cases hshort : fields.length < c.fields.length
    · rw [if_pos hshort, if_pos hshort]
      exact hbound.error _
    · rw [if_neg hshort, if_neg hshort]
      cases hpattern : clause.pattern with
      | default =>
        rw [hpattern] at hl
        cases hl
      | case label params =>
        rw [hpattern] at hk'
        cases params with
        | rest param =>
          rw [if_pos Pattern.accepts_compile_rest]
          refine body_alike hm henv limit left ?_ ?_ hbody
          · exact fun _ _ => rfl
          · exact fun b hb => absurd hb (by simp)
        | list params =>
          obtain ⟨-, hbecome⟩ := Param.mapM_compile params k
          rw [Pattern.accepts_compile_list, Pattern.arity_compile_list]
          by_cases hlen : c.fields.length = params.length
          · rw [if_pos (decide_eq_true hlen)]
            dsimp only
            rw [if_pos hlen.symm]
            refine body_alike hm henv limit left ?_ ?_ hbody
            · intro x hx
              have hdrawn : ∀ j, k ≤ j → j < (params.mapM Param.compile k).2 →
                  x ≠ freshName "_" j := fun j hj hj' heq =>
                hx (.inr ⟨j, Nat.lt_of_lt_of_le hk hj, Nat.lt_of_lt_of_le hj' hk', heq⟩)
              rw [← nameFields_take, ← hlen]
              exact lookup_bindParams hbecome hdrawn (fields.take c.fields.length)
            · intro b hb
              exact hfields b.2 (mem_of_mem_nameFields (List.mem_reverse.mp hb))
          · rw [if_neg (by simpa using hlen)]
            dsimp only
            rw [if_neg (Ne.symm hlen)]
            exact hbound.error _
  | _ => cases hholds

lemma dispatch_alike (hd : Definition.ofSpec s = .ok d) {span : Span} {clauses : List Clause}
    {disp : Dispatch} (h : (Site.mk d.operator.schema (freshName "scrutinee" n) span).Compiles []
      clauses (n + 1) disp n') (hm : m.WellScoped) (henv : env.current < m.store.size)
    (hv : v.Within m) (hres : Resolves d.decls env m)
    (haccessors : ∀ x, Drawn n n' x → x ∉ d.decls.accessors)
    (hbodies : ∀ x, Drawn n n' x → ∀ clause ∈ clauses, clause.body.mentions x = false)
    (limit left : Nat) :
    (World.same m).Leads Value.Alike
      (evalWith (callAt limit left) (.dispatch disp.branches) ⟨m.store.size :: env.scopes⟩
        (bound env m n v))
      (respond d.decls clauses limit left env v m) := by
  have hpairwise := h.pairwise.2
  have hbound : (World.same m).Relates (bound env m n v) m :=
    (World.Relates.same hm).push_left env.current _
  have hx : Env.lookup? ⟨m.store.size :: env.scopes⟩ (bound env m n v).store
      (freshName "scrutinee" n) = some v := lookup?_scrutinee henv
  obtain ⟨b, hb⟩ := h.takes hd rfl hx
  rw [hb.eval]
  -- Whichever clause answers to the value, its branch is the one that is taken.
  cases hfind : clauses.find? (·.names d.decls v) with
  | some clause =>
    have hclause := List.mem_of_find?_eq_some hfind
    have hnames : clause.names d.decls v = true := by simpa using List.find?_some hfind
    obtain ⟨i, hi⟩ := List.mem_iff_getElem?.mp hclause
    cases hcase : d.decls.caseOf? v with
    | none =>
      rw [Clause.names_eq_false_of_none hcase] at hnames
      cases hnames
    | some c =>
      obtain ⟨l, hl, hname⟩ := (Clause.names_iff hcase).mp hnames
      obtain ⟨params, hpattern⟩ := eq_case_of_label hl
      rw [findIdx_of_label hpairwise hi hl hcase hname] at hb
      obtain ⟨e, k, he, hk, hk', hbranch⟩ := h.branch_of_case hi hpattern
      obtain rfl := Option.some.inj (hb.branch.symm.trans hbranch)
      obtain ⟨c', hc', hlabel, rfl, -⟩ := Definition.find?_schema hd he
      obtain ⟨hc, hholds⟩ := Variant.Decls.mem_of_caseOf? hcase
      obtain rfl : c' = c := List.inj_on_of_nodup_map (Definition.labels_nodup hd) hc' hc
        (hlabel.trans hname)
      have hrespond : respond d.decls clauses limit left env v =
          clause.run limit left env c'.fields.length v.fields := by
        rw [respond, hfind, hcase]
      rw [hrespond]
      exact clause_alike hd hm henv hv hc hholds hres haccessors hl
        (fun x hx => hbodies x hx clause hclause) hk hk' limit left
  | none =>
    have hnone : ∀ clause ∈ clauses, clause.names d.decls v = false := by simpa using hfind
    have hrespond : respond d.decls clauses limit left env v =
        match clauses.find? (·.pattern.isDefault) with
        | some clause => runBody limit left env [] clause.body
        | none => Run.fail (.matchFailure d.decls.name) := by
      rw [respond, hfind]
    rw [hrespond]
    cases hdefault : clauses.find? (·.pattern.isDefault) with
    | some clause =>
      have hclause := List.mem_of_find?_eq_some hdefault
      obtain ⟨i, hi⟩ := List.mem_iff_getElem?.mp hclause
      have hpattern : clause.pattern = .default :=
        Pattern.isDefault_iff.mp (by simpa using List.find?_some hdefault)
      rw [findIdx_of_default hpairwise hi hpattern hnone] at hb
      obtain rfl := Option.some.inj (hb.branch.symm.trans (h.branch_of_default hi hpattern))
      rw [Eval.callAt_eq]
      refine (Eval.eval_default (enterAt limit left) clause.body).symm ▸ ?_
      exact body_alike hm henv limit left (fun _ _ => rfl) (fun b hb => absurd hb (by simp))
        fun x hx => hbodies x hx clause hclause
    | none =>
      have hdefault' : ∀ clause ∈ clauses, clause.pattern.isDefault = false := by
        simpa using hdefault
      rw [findIdx_of_none hdefault' hnone] at hb
      obtain rfl := Option.some.inj (hb.branch.symm.trans (h.branch_of_end hdefault'))
      have hvariant : d.operator.schema.variant = d.decls.name := by
        obtain ⟨-, rfl⟩ := Definition.ofSpec_ok hd
        rfl
      rw [← hvariant]
      exact hbound.error _

lemma expand_alike (hd : Definition.ofSpec s = .ok d) {e : Core.Expr} {clauses : List Clause}
    {span : Span} {x : Operator.Expansion}
    (hexpand : d.operator.expand e clauses span n = (.ok x, n')) (hm : m.WellScoped)
    (henv : env.current < m.store.size) (hres : Resolves d.decls env m)
    (haccessors : ∀ y, Drawn n n' y → y ∉ d.decls.accessors)
    (hbodies : ∀ y, Drawn n n' y → ∀ clause ∈ clauses, clause.body.mentions y = false)
    (limit left : Nat) :
    (World.same m).Leads Value.Alike (evalWith (callAt limit left) x.expr env m)
      (meaning d.decls e clauses limit left env m) := by
  obtain ⟨name, k, hname, hexpand₁⟩ := Compile.bind_eq_ok hexpand
  obtain ⟨disp, k', hcompile, hexpand₂⟩ := Compile.bind_eq_ok hexpand₁
  cases hname
  cases hexpand₂
  have hcompiles := Site.compile_ok hcompile
  -- Both sides begin with the same run of the scrutinee.
  obtain ⟨hgrow, hm₁, hwithin⟩ := Eval.evalWith_wellScoped limit left e hm henv
  rw [evalWith, meaning]
  cases hrun : evalWith (callAt limit left) e env m with
  | mk result m₁ =>
    rw [hrun] at hgrow hm₁ hwithin
    cases result with
    | error f =>
      rw [Run.bind_of_error hrun, Run.bind_of_error hrun]
      exact ((World.Relates.same hm₁).error f).of_le (World.same_le hgrow)
    | ok v =>
      rw [Run.bind_of_ok hrun, Run.bind_of_ok hrun]
      have henv₁ := Nat.lt_of_lt_of_le henv hgrow.scopes
      have hres₁ : Resolves d.decls env m₁ := fun c hc i f hf =>
        (hgrow.lookups env.current f.accessor henv).trans (hres c hc i f hf)
      have hdispatch := dispatch_alike hd hcompiles hm₁ henv₁ (hwithin v rfl) hres₁ haccessors
        hbodies limit left
      exact hdispatch.of_le (World.same_le hgrow)

/-- An expansion evaluates like the match it stands for: the scrutinee once, and for its value what
the match does with that. No body mentions a name that the expansion draws, and no accessor has that
of the scrutinee. -/
theorem expand_meaning (hd : Definition.ofSpec s = .ok d) {e : Core.Expr} {clauses : List Clause}
    {span : Span} {x : Operator.Expansion}
    (hexpand : d.operator.expand e clauses span n = (.ok x, n')) (hm : m.WellScoped)
    (henv : env.current < m.store.size) (hres : Resolves d.decls env m)
    (hscrutinee : freshName "scrutinee" n ∉ d.decls.accessors)
    (hbodies : ∀ y, Drawn n n' y → ∀ clause ∈ clauses, clause.body.mentions y = false)
    (limit left : Nat) :
    (World.same m).Leads Value.Alike (evalWith (callAt limit left) x.expr env m)
      (meaning d.decls e clauses limit left env m) := by
  refine expand_alike hd hexpand hm henv hres ?_ hbodies limit left
  rintro y (rfl | ⟨k, -, -, rfl⟩)
  · exact hscrutinee
  · obtain ⟨-, rfl⟩ := Definition.ofSpec_ok hd
    exact Variant.Decls.wildcard_not_mem_accessors s k

/-- A full box opened by a clause that names its value, where the accessor is known. -/
theorem expand_meaning_box : ∃ d x m, Definition.ofSpec .box = .ok d ∧
    d.operator.expand (.var "b") [⟨.case ⟨"Full", .none⟩ (.list [.named ⟨"v", .none⟩]), .var "v",
      .none⟩] .none 0 = (.ok x, 1) ∧
    Env.lookup? {} m.store "b" = some (.variant "Box" "BoxFull" 1 [.int 5]) ∧
    (World.same m).Leads Value.Alike (evalWith (callAt 8 8) x.expr {} m)
      (meaning d.decls (.var "b") [⟨.case ⟨"Full", .none⟩ (.list [.named ⟨"v", .none⟩]), .var "v",
        .none⟩] 8 8 {} m) := by
  obtain ⟨d, hd⟩ : ∃ d, Definition.ofSpec .box = .ok d := ⟨_, rfl⟩
  obtain ⟨x, hx⟩ : ∃ x, d.operator.expand (.var "b") [⟨.case ⟨"Full", .none⟩
      (.list [.named ⟨"v", .none⟩]), .var "v", .none⟩] .none 0 = (.ok x, 1) := by
    cases hd
    exact ⟨_, rfl⟩
  have hdecls : d.decls = .ofSpec .box := by
    cases hd
    rfl
  obtain ⟨c₀, c, f, hcases, hempty, hfull, haccessor⟩ : ∃ c₀ c f,
      (Variant.Decls.ofSpec .box).cases = [c₀, c] ∧ c₀.fields = [] ∧ c.fields = [f] ∧
        f.accessor = Variant.accessorName "Box" "Full" "value" :=
    ⟨_, _, _, rfl, rfl, rfl, rfl⟩
  have hname : Variant.accessorName "Box" "Full" "value" = "box_full_value" := by decide +kernel
  -- The globals are the boxed value and the accessor of what is in a box.
  obtain ⟨globals, hglobals⟩ : ∃ globals : List (String × Value), globals =
      [("b", .variant "Box" "BoxFull" 1 [.int 5]),
        ("box_full_value", .callable (.accessor (.ofDecl c) 0 "box_full_value"))] := ⟨_, rfl⟩
  have hlookup : ∀ name, Env.lookup? {} (Eval.Store.ofGlobals globals) name = globals.lookup name :=
    Eval.Store.lookup?_ofGlobals globals
  have hwithin : ∀ b ∈ globals, b.2.Within ⟨.ofGlobals globals, "", 0⟩ := by
    rw [hglobals]
    intro b hb
    rcases List.mem_pair.mp hb with rfl | rfl
    · exact .variant trivial (by simpa using .int 5)
    · exact .callable trivial
  have hresolves : Resolves d.decls {} ⟨.ofGlobals globals, "", 0⟩ := by
    rw [hdecls]
    intro c' hc' i f' hf
    rw [hlookup, hglobals]
    rw [hcases] at hc'
    rcases List.mem_pair.mp hc' with rfl | rfl
    · rw [hempty] at hf
      cases hf
    · rw [hfull] at hf
      cases i with
      | zero =>
        cases hf
        rw [haccessor, hname]
        rfl
      | succ i => cases hf
  have hsize : Env.current {} < (Eval.Store.ofGlobals globals).size := Nat.zero_lt_one
  have hnames : Variant.Spec.box.NoPercent := by
    constructor <;> unfold NoPercent Variant.Spec.box <;> decide
  have hdrawn : ∀ y, Drawn 0 1 y → y = freshName "scrutinee" 0 := by
    rintro y (rfl | ⟨k, hk, hk', -⟩)
    · rfl
    · omega
  refine ⟨d, x, ⟨.ofGlobals globals, "", 0⟩, hd, hx, by rw [hlookup, hglobals]; rfl, ?_⟩
  refine expand_meaning hd hx (.ofGlobals rfl hwithin) hsize hresolves ?_ ?_ 8 8
  · rw [hdecls]
    exact Variant.Decls.freshName_not_mem_accessors hnames "scrutinee" 0
  · intro y hy clause hclause
    rw [hdrawn y hy, List.mem_singleton.mp hclause]
    decide

/-- In a text no name holds a percent sign, so what an expansion draws is no accessor of a variant
from it. A match on such a variant has its meaning wherever its accessors are known. -/
theorem expand_meaning_of_parse {source : List Char}
    (hs : .variant s ∈ (Grammar.parse (Token.scan source).tokens).tree.items)
    (hd : Definition.ofSpec s = .ok d) {e : Core.Expr} {clauses : List Clause} {span : Span}
    {x : Operator.Expansion} (hexpand : d.operator.expand e clauses span n = (.ok x, n'))
    (hm : m.WellScoped) (henv : env.current < m.store.size) (hres : Resolves d.decls env m)
    (hbodies : ∀ y, Drawn n n' y → ∀ clause ∈ clauses, clause.body.mentions y = false)
    (limit left : Nat) :
    (World.same m).Leads Value.Alike (evalWith (callAt limit left) x.expr env m)
      (meaning d.decls e clauses limit left env m) := by
  have hnames : s.NoPercent := Variant.Spec.noPercent_of_names fun a ha =>
    Grammar.noPercent_of_parse rfl a (List.mem_flatMap.mpr ⟨_, hs, ha⟩)
  obtain ⟨-, rfl⟩ := Definition.ofSpec_ok hd
  refine expand_alike hd hexpand hm henv hres ?_ hbodies limit left
  rintro y (rfl | ⟨k, -, -, rfl⟩)
  · exact Variant.Decls.freshName_not_mem_accessors hnames "scrutinee" n
  · exact Variant.Decls.freshName_not_mem_accessors hnames "_" k

end Site

end Match

end ClosedSum
