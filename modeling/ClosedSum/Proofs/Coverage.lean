import ClosedSum.Proofs.Clauses

/-!
# Advice and runs

The advice on a match that compiles is exact. It lists the cases whose values come to the match's
own failure, calls a default redundant if no value of the variant comes to it, and tells of a clause
that takes another number of parameters than its case has fields just when a value of the case makes
the call of the clause fail.
-/

namespace ClosedSum

namespace Eval

/-- A value that the constructor of a case has made. -/
def Built (c : Variant.CaseDecl) (v : Value) : Prop :=
  ∃ enter args m m', callWith enter (.callable (.constructor (.ofDecl c))) args m = (.ok v, m')

lemma built_iff {c : Variant.CaseDecl} {v : Value} :
    Built c v ↔ ∃ args, args.length = c.fields.length ∧
      v = .variant c.parent c.name c.tag args := by
  constructor
  · rintro ⟨enter, args, m, m', h⟩
    simp only [callWith, expectArity] at h
    split at h
    · next hlen =>
      cases h
      exact ⟨args, by simpa [Case.arity, Case.ofDecl] using hlen, rfl⟩
    · cases h
  · rintro ⟨args, hlen, rfl⟩
    refine ⟨fun _ _ _ => Run.fail .uncompiled, args, ⟨⟨#[]⟩, "", 0⟩, ⟨⟨#[]⟩, "", 0⟩, ?_⟩
    have harity : args.length = (Case.ofDecl c).arity := by
      simpa [Case.arity, Case.ofDecl] using hlen
    simp only [callWith, expectArity, if_pos harity]
    rfl

lemma Built.holds {c : Variant.CaseDecl} {v : Value} (h : Built c v) :
    (Case.ofDecl c).holds v = true := by
  obtain ⟨args, -, rfl⟩ := built_iff.mp h
  simp [Case.holds, Case.ofDecl]

/-- Every case has values, and a machine can bind them to any name. -/
lemma exists_built (c : Variant.CaseDecl) (x : String) :
    ∃ (v : Value) (env : Env) (m : Machine), Built c v ∧ env.lookup? m.store x = some v := by
  refine ⟨.variant c.parent c.name c.tag (List.replicate c.fields.length .unit), {},
    ⟨.ofGlobals [(x, .variant c.parent c.name c.tag (List.replicate c.fields.length .unit))],
      "", 0⟩, built_iff.mpr ⟨_, by simp, rfl⟩, ?_⟩
  simp [Env.lookup?, Env.current, Store.ofGlobals, Store.global, Store.lookup?]

/-- Evaluation of a dispatch raises the match failure of a variant, whatever a call does: the
failure is the match's own. -/
def FailsItself (variant : String) (bs : List Core.Branch) (env : Env) (m : Machine) : Prop :=
  ∀ call, evalWith call (.dispatch bs) env m = (.error { cause := .matchFailure variant }, m)

end Eval

namespace Match

open Eval (Value Env Machine Run Takes Built FailsItself)

def clauseLabels (cs : List Clause) : List Ident := cs.filterMap (·.pattern.label?)

namespace Site

variable {site : Site} {seen : List Ident} {cs : List Clause} {n n' : Nat} {disp : Dispatch}

lemma mem_missing {label : String} :
    label ∈ site.missing seen ↔ label ∈ site.schema.labels ∧ ∀ i ∈ seen, i.name ≠ label := by
  simp [missing]

/-- The cases that neither the clauses nor those before them name. -/
def uncovered (site : Site) (seen : List Ident) (cs : List Clause) : List String :=
  site.missing ((clauseLabels cs).reverse ++ seen)

lemma mem_uncovered {label : String} : label ∈ site.uncovered seen cs ↔
    label ∈ site.schema.labels ∧ (∀ i ∈ seen, i.name ≠ label) ∧
      ∀ c ∈ cs, ∀ l, c.pattern.label? = some l → l.name ≠ label := by
  rw [uncovered, mem_missing]
  constructor
  · rintro ⟨hlabel, hnew⟩
    refine ⟨hlabel, fun i hi => hnew i (by simp [hi]), fun c hc l hl => hnew l ?_⟩
    simp only [clauseLabels, List.mem_append, List.mem_reverse, List.mem_filterMap]
    exact .inl ⟨c, hc, hl⟩
  · rintro ⟨hlabel, hseen, hcs⟩
    refine ⟨hlabel, fun i hi => ?_⟩
    simp only [clauseLabels, List.mem_append, List.mem_reverse, List.mem_filterMap] at hi
    rcases hi with ⟨c, hc, hl⟩ | hi
    · exact hcs c hc i hl
    · exact hseen i hi

lemma uncovered_nil : site.uncovered seen [] = site.missing seen := rfl

lemma uncovered_default {c : Clause} (hc : c.pattern = .default) :
    site.uncovered seen [c] = site.missing seen := by
  simp [uncovered, clauseLabels, hc, Pattern.label?]

lemma uncovered_case {c : Clause} {label : Ident} {params : Params}
    (hc : c.pattern = .case label params) :
    site.uncovered seen (c :: cs) = site.uncovered (label :: seen) cs := by
  simp [uncovered, clauseLabels, hc, Pattern.label?]

lemma mem_arityAdvice {e : Entry} {c : Clause} {a : Advice} : a ∈ arityAdvice e c ↔
    ∃ label params, c.pattern = .case label (.list params) ∧ params.length ≠ e.fields.length ∧
      a = .clauseArity label.name e.fields.length params.length c.span := by
  unfold arityAdvice
  split
  · next label params hc =>
    rw [hc]
    split
    · next heq => simp [heq]
    · next hne => simp [hne]
  · next hc =>
    simp only [List.not_mem_nil, false_iff]
    rintro ⟨label, params, hc', -, -⟩
    exact hc label params hc'

lemma Compiles.mem_nonExhaustive (h : site.Compiles seen cs n disp n') {variant : String}
    {labels : List String} {span : Span} : .nonExhaustive variant labels span ∈ disp.advice ↔
      (∀ c ∈ cs, c.pattern ≠ .default) ∧ labels ≠ [] ∧ labels = site.uncovered seen cs ∧
        variant = site.schema.variant ∧ span = site.span := by
  induction h with
  | close seen n =>
    rw [uncovered_nil, Site.close]
    cases hmissing : site.missing seen with
    | nil => simp +contextual
    | cons l ls =>
      simp only [List.isEmpty_cons, Bool.false_eq_true, if_false, List.mem_singleton,
        Advice.nonExhaustive.injEq, List.not_mem_nil, false_implies, implies_true, true_and]
      constructor
      · rintro ⟨hvariant, rfl, hspan⟩
        exact ⟨by simp, rfl, hvariant, hspan⟩
      · rintro ⟨-, hlabels, hvariant, hspan⟩
        exact ⟨hvariant, hlabels, hspan⟩
  | @default seen c hc n =>
    rw [closeWith_default seen hc]
    simp only [List.mem_singleton, forall_eq, hc, ne_eq, not_true_eq_false, false_and, iff_false]
    split <;> simp
  | @case seen c label params cs e disp n n' hc hnew he hrest ih =>
    have hnot : .nonExhaustive variant labels span ∉ arityAdvice e c := by
      rw [mem_arityAdvice]
      rintro ⟨_, _, _, _, ha⟩
      cases ha
    rw [uncovered_case hc, Dispatch.advice_addBranch, List.mem_append, ih]
    simp [hnot, hc]

lemma Compiles.mem_redundantDefault (h : site.Compiles seen cs n disp n') {variant : String}
    {span : Span} : .redundantDefault variant span ∈ disp.advice ↔
      site.uncovered seen cs = [] ∧ variant = site.schema.variant ∧
        ∃ c ∈ cs, c.pattern = .default ∧ span = c.span := by
  induction h with
  | close seen n =>
    rw [Site.close]
    dsimp only
    split <;> simp
  | @default seen c hc n =>
    rw [closeWith_default seen hc, uncovered_default hc]
    cases hmissing : site.missing seen with
    | nil => simp [hc]
    | cons l ls => simp
  | @case seen c label params cs e disp n n' hc hnew he hrest ih =>
    have hnot : .redundantDefault variant span ∉ arityAdvice e c := by
      rw [mem_arityAdvice]
      rintro ⟨_, _, _, _, ha⟩
      cases ha
    rw [uncovered_case hc, Dispatch.advice_addBranch, List.mem_append, ih]
    simp [hnot, hc]

lemma Compiles.mem_clauseArity (h : site.Compiles seen cs n disp n') {name : String}
    {expected found : Nat} {span : Span} : .clauseArity name expected found span ∈ disp.advice ↔
      ∃ c ∈ cs, ∃ label params e, c.pattern = .case label (.list params) ∧
        site.schema.find? label.name = some e ∧ params.length ≠ e.fields.length ∧
        name = label.name ∧ expected = e.fields.length ∧ found = params.length ∧ span = c.span := by
  induction h with
  | close seen n =>
    rw [Site.close]
    dsimp only
    split <;> simp
  | @default seen c hc n =>
    rw [closeWith_default seen hc]
    dsimp only
    split <;> simp [hc]
  | @case seen c label params cs e disp n n' hc hnew he hrest ih =>
    rw [Dispatch.advice_addBranch, List.mem_append, ih, mem_arityAdvice]
    constructor
    · rintro (⟨label', params', hc', hne, ha⟩ | ⟨c', hmem, hrest'⟩)
      · obtain ⟨rfl, rfl⟩ : label = label' ∧ params = .list params' := by
          rw [hc] at hc'
          simpa using hc'
        cases ha
        exact ⟨c, by simp, label, params', e, hc, he, hne, rfl, rfl, rfl, rfl⟩
      · exact ⟨c', by simp [hmem], hrest'⟩
    · rintro ⟨c', hmem, label', params', e', hc', he', hne, rfl, rfl, rfl, rfl⟩
      rcases List.mem_cons.mp hmem with rfl | hmem
      · obtain ⟨rfl, -⟩ : label = label' ∧ params = .list params' := by
          rw [hc] at hc'
          simpa using hc'
        obtain rfl : e = e' := Option.some.inj (he.symm.trans he')
        exact .inl ⟨label, params', hc', hne, rfl⟩
      · exact .inr ⟨c', hmem, label', params', e', hc', he', hne, rfl, rfl, rfl, rfl⟩

end Site

section Runs

variable {env : Env} {m : Machine}

/-- With calls that only give unit, the fields of a bound value are all read or an accessor is not
known. -/
lemma evalArgs_unit {x : String} {v : Value} (hx : env.lookup? m.store x = some v)
    (fs : List String) :
    (∃ vs, Eval.evalArgs (fun _ _ => pure .unit) (fs.map fun f => .call (.var f) [.var x]) env m =
        (.ok vs, m)) ∨
      ∃ f, Eval.evalArgs (fun _ _ => pure .unit) (fs.map fun f => .call (.var f) [.var x]) env m =
        (.error { cause := .undefined f }, m) := by
  induction fs with
  | nil => exact .inl ⟨[], rfl⟩
  | cons f fs ih =>
    rw [List.map_cons, Eval.evalArgs]
    cases hf : env.lookup? m.store f with
    | none =>
      have hvar : Eval.evalWith (fun _ _ => pure .unit) (.var f) env m =
          (.error { cause := .undefined f }, m) := by
        rw [Eval.evalWith, Run.lookup_apply, hf]
      have hcall : Eval.evalWith (fun _ _ => pure .unit) (.call (.var f) [.var x]) env m =
          (.error { cause := .undefined f }, m) := by
        rw [Eval.evalWith, Run.bind_of_error hvar]
      exact .inr ⟨f, by rw [Run.bind_of_error hcall]⟩
    | some g =>
      have harg : Eval.evalArgs (fun _ _ => pure .unit) [.var x] env m = (.ok [v], m) := by
        rw [Eval.evalArgs, Run.bind_of_ok (Eval.eval_var hx _)]
        rfl
      have hcall : Eval.evalWith (fun _ _ => pure .unit) (.call (.var f) [.var x]) env m =
          (.ok .unit, m) := by
        rw [Eval.evalWith, Run.bind_of_ok (Eval.eval_var hf _), Run.bind_of_ok harg]
        rfl
      rw [Run.bind_of_ok hcall, Run.bind_apply]
      rcases ih with ⟨vs, hvs⟩ | ⟨g', hg'⟩
      · exact .inl ⟨.unit :: vs, by rw [hvs]; rfl⟩
      · exact .inr ⟨g', by rw [hg']⟩

lemma eval_callFields_unit {x : String} {v : Value} (hx : env.lookup? m.store x = some v)
    (fs : List String) (g : Core.Lambda) (variant : String) :
    (Eval.evalWith (fun _ _ => pure .unit)
      (.call g.toExpr (fs.map fun f => .call (.var f) [.var x])) env m).1 ≠
        .error { cause := .matchFailure variant } := by
  have hclosure : Eval.evalWith (fun _ _ => pure .unit) g.toExpr env m =
      (.ok (.callable (.closure m.closures g env.current)),
        { m with closures := m.closures + 1 }) := rfl
  have hx' : env.lookup? { m with closures := m.closures + 1 }.store x = some v := hx
  rw [Eval.evalWith, Run.bind_of_ok hclosure]
  rcases evalArgs_unit hx' fs with ⟨vs, hvs⟩ | ⟨f, hf⟩
  · rw [Run.bind_of_ok hvs]
    simp
  · rw [Run.bind_of_error hf]
    simp

end Runs

section Exact

variable {s : Variant.Spec} {d : Definition} {site : Site} {clauses : List Clause} {n n' : Nat}
  {disp : Dispatch} {c : Variant.CaseDecl} {v : Value} {env : Env} {m : Machine}

lemma caseOf?_of_built (hd : Definition.ofSpec s = .ok d) (hc : c ∈ d.decls.cases)
    (hv : Built c v) : d.decls.caseOf? v = some c := by
  obtain ⟨-, rfl⟩ := Definition.ofSpec_ok hd
  exact Variant.Decls.caseOf?_eq_some_iff.mpr ⟨hc, hv.holds⟩

lemma labels_schema (hd : Definition.ofSpec s = .ok d) :
    d.operator.schema.labels = d.decls.cases.map (·.label) := by
  obtain ⟨-, rfl⟩ := Definition.ofSpec_ok hd
  exact Schema.labels_ofDecls _

lemma branch_of_clause (h : site.Compiles [] clauses n disp n') {i : Nat} {clause : Clause}
    (hi : clauses[i]? = some clause) :
    ∃ (t : Core.Test) (g : Core.Lambda) (fs : List String), disp.branches[i]? =
      some (.mk t (.call g.toExpr (fs.map fun f => .call (.var f) [.var site.scrutinee]))) := by
  cases hc : clause.pattern with
  | default => exact ⟨_, ⟨[], false, clause.body⟩, [], h.branch_of_default hi hc⟩
  | case label params =>
    obtain ⟨e, k, -, -, -, hbranch⟩ := h.branch_of_case hi hc
    rw [hbranch]
    refine ⟨.case site.scrutinee site.schema.variant e.tag e.predicate,
      (clause.pattern.compile clause.body k).1,
      e.fields.map (Variant.accessorName site.schema.variant e.label), ?_⟩
    rw [List.map_map]
    rfl

/-- A match fails by itself on the values of the cases that it leaves uncovered. -/
lemma failsItself_iff (hd : Definition.ofSpec s = .ok d) (hschema : site.schema = d.operator.schema)
    (h : site.Compiles [] clauses n disp n') (hc : c ∈ d.decls.cases) (hv : Built c v)
    (hx : env.lookup? m.store site.scrutinee = some v) :
    FailsItself site.schema.variant disp.branches env m ↔
      (∀ clause ∈ clauses, clause.pattern ≠ .default) ∧ c.label ∈ site.uncovered [] clauses := by
  have hcase := caseOf?_of_built hd hc hv
  have hlabel : c.label ∈ site.schema.labels := by
    rw [hschema, labels_schema hd]
    exact List.mem_map_of_mem hc
  obtain ⟨b, hb⟩ := h.takes hd hschema hx
  constructor
  · intro hfails
    have hnone : ∀ clause ∈ clauses, clause.appliesTo d.decls v = false := by
      by_contra hsome
      push Not at hsome
      obtain ⟨clause, hclause, happlies⟩ := hsome
      have hlt := List.findIdx_lt_length_of_exists ⟨clause, hclause, by simpa using happlies⟩
      obtain ⟨t, g, fs, hbranch⟩ := branch_of_clause h (List.getElem?_eq_getElem hlt)
      obtain rfl := Option.some.inj (hb.branch.symm.trans hbranch)
      have heval := hfails fun _ _ => pure .unit
      rw [hb.eval] at heval
      exact eval_callFields_unit hx fs g site.schema.variant (congrArg Prod.fst heval)
    refine ⟨fun clause hclause hdefault => ?_, Site.mem_uncovered.mpr ⟨hlabel, by simp, ?_⟩⟩
    · have happlies := hnone clause hclause
      rw [Clause.appliesTo, hdefault] at happlies
      cases happlies
    · intro clause hclause l hl hname
      have happlies := hnone clause hclause
      rw [Clause.appliesTo, Bool.or_eq_false_iff] at happlies
      exact Bool.eq_false_iff.mp happlies.2 ((Clause.names_iff hcase).mpr ⟨l, hl, hname⟩)
  · rintro ⟨hdefault, huncovered⟩ call
    have hnone := (Site.mem_uncovered.mp huncovered).2.2
    have hdefault' : ∀ clause ∈ clauses, clause.pattern.isDefault = false := fun clause hclause =>
      Bool.eq_false_iff.mpr (mt Pattern.isDefault_iff.mp (hdefault clause hclause))
    rw [findIdx_of_none hdefault' fun clause hclause =>
      Clause.names_eq_false hcase (hnone clause hclause)] at hb
    have hend := h.branch_of_end hdefault'
    obtain rfl : b = .mk .always (.fail site.schema.variant) :=
      Option.some.inj (hb.branch.symm.trans hend)
    rw [hb.eval call]
    rfl

/-- The warning that a match is not exhaustive is there just if the match fails by itself on a value
of the variant, and then it lists, in their order, the cases with such values. -/
theorem nonExhaustive_exact (hd : Definition.ofSpec s = .ok d)
    (hschema : site.schema = d.operator.schema) (h : site.compile clauses n = (.ok disp, n')) :
    (∀ variant labels span, .nonExhaustive variant labels span ∈ disp.advice →
      labels.Sublist (d.decls.cases.map (·.label)) ∧
        ∀ c ∈ d.decls.cases, ∀ v env m, Built c v →
          Env.lookup? env m.store site.scrutinee = some v →
            (c.label ∈ labels ↔ FailsItself site.schema.variant disp.branches env m)) ∧
    ((∃ variant labels span, .nonExhaustive variant labels span ∈ disp.advice) ↔
      ∃ c ∈ d.decls.cases, ∃ v env m, Built c v ∧
        Env.lookup? env m.store site.scrutinee = some v ∧
          FailsItself site.schema.variant disp.branches env m) := by
  have hcompiles := Site.compile_ok h
  refine ⟨fun variant labels span hmem => ?_, ?_⟩
  · obtain ⟨hdefault, -, rfl, -, -⟩ := hcompiles.mem_nonExhaustive.mp hmem
    refine ⟨?_, fun c hc v env m hv hx => ?_⟩
    · rw [← labels_schema hd, ← hschema]
      exact List.filter_sublist
    · rw [failsItself_iff hd hschema hcompiles hc hv hx]
      exact ⟨fun hlabel => ⟨hdefault, hlabel⟩, fun hfails => hfails.2⟩
  · constructor
    · rintro ⟨variant, labels, span, hmem⟩
      obtain ⟨hdefault, hne, rfl, -, -⟩ := hcompiles.mem_nonExhaustive.mp hmem
      obtain ⟨label, hlabel⟩ := List.exists_mem_of_ne_nil _ hne
      have hdeclared := (Site.mem_uncovered.mp hlabel).1
      rw [hschema, labels_schema hd] at hdeclared
      obtain ⟨c, hc, rfl⟩ := List.mem_map.mp hdeclared
      obtain ⟨v, env, m, hv, hx⟩ := Eval.exists_built c site.scrutinee
      exact ⟨c, hc, v, env, m, hv, hx,
        (failsItself_iff hd hschema hcompiles hc hv hx).mpr ⟨hdefault, hlabel⟩⟩
    · rintro ⟨c, hc, v, env, m, hv, hx, hfails⟩
      obtain ⟨hdefault, hlabel⟩ := (failsItself_iff hd hschema hcompiles hc hv hx).mp hfails
      exact ⟨_, _, _, hcompiles.mem_nonExhaustive.mpr
        ⟨hdefault, List.ne_nil_of_mem hlabel, rfl, rfl, rfl⟩⟩

/-- A default is reported as redundant just if it is there and no value that a constructor of the
variant has made comes to its branch. -/
theorem redundantDefault_exact (hd : Definition.ofSpec s = .ok d)
    (hschema : site.schema = d.operator.schema) (h : site.compile clauses n = (.ok disp, n')) :
    (∃ variant span, .redundantDefault variant span ∈ disp.advice) ↔
      ∃ (i : Nat) (clause : Clause), clauses[i]? = some clause ∧ clause.pattern = .default ∧
        ∀ c ∈ d.decls.cases, ∀ v env m, Built c v →
          Env.lookup? env m.store site.scrutinee = some v →
            ∀ b, ¬ Takes env m disp.branches i b := by
  have hcompiles := Site.compile_ok h
  have hpairwise := hcompiles.pairwise.2
  constructor
  · rintro ⟨variant, span, hmem⟩
    obtain ⟨huncovered, -, clause, hclause, hdefault, -⟩ := hcompiles.mem_redundantDefault.mp hmem
    obtain ⟨i, hi⟩ := List.mem_iff_getElem?.mp hclause
    refine ⟨i, clause, hi, hdefault, fun c hc v env m hv hx b hb => ?_⟩
    -- Some clause names the case of the value, and the dispatch comes to that clause.
    have hlabel : c.label ∈ site.schema.labels := by
      rw [hschema, labels_schema hd]
      exact List.mem_map_of_mem hc
    have hnamed : ∃ clause ∈ clauses, ∃ l, clause.pattern.label? = some l ∧ l.name = c.label := by
      by_contra hnone
      push Not at hnone
      have hmem' : c.label ∈ site.uncovered [] clauses :=
        Site.mem_uncovered.mpr ⟨hlabel, by simp, hnone⟩
      rw [huncovered] at hmem'
      cases hmem'
    obtain ⟨clause', hclause', l, hl, hname⟩ := hnamed
    obtain ⟨j, hj⟩ := List.mem_iff_getElem?.mp hclause'
    obtain ⟨b', hb'⟩ := hcompiles.takes hd hschema hx
    rw [findIdx_of_label hpairwise hj hl (caseOf?_of_built hd hc hv) hname] at hb'
    obtain ⟨rfl, -⟩ := hb.unique hb'
    obtain rfl : clause = clause' := Option.some.inj (hi.symm.trans hj)
    rw [hdefault] at hl
    cases hl
  · rintro ⟨i, clause, hi, hdefault, hunreached⟩
    refine ⟨_, _, hcompiles.mem_redundantDefault.mpr
      ⟨?_, rfl, clause, List.mem_of_getElem? hi, hdefault, rfl⟩⟩
    rw [List.eq_nil_iff_forall_not_mem]
    intro label huncovered
    obtain ⟨hlabel, -, hnone⟩ := Site.mem_uncovered.mp huncovered
    rw [hschema, labels_schema hd] at hlabel
    obtain ⟨c, hc, rfl⟩ := List.mem_map.mp hlabel
    obtain ⟨v, env, m, hv, hx⟩ := Eval.exists_built c site.scrutinee
    obtain ⟨b, hb⟩ := hcompiles.takes hd hschema hx
    rw [findIdx_of_default hpairwise hi hdefault fun clause hclause =>
      Clause.names_eq_false (caseOf?_of_built hd hc hv) (hnone clause hclause)] at hb
    exact hunreached c hc v env m hv hx b hb

lemma mem_clauseArity_of_clause (h : site.Compiles [] clauses n disp n') {i : Nat} {clause : Clause}
    (hi : clauses[i]? = some clause) {label : Ident} {params : Params}
    (hclause : clause.pattern = .case label params) {e : Entry}
    (he : site.schema.find? label.name = some e) {expected found : Nat} :
    .clauseArity label.name expected found clause.span ∈ disp.advice ↔
      ∃ ps, params = .list ps ∧ ps.length ≠ e.fields.length ∧ expected = e.fields.length ∧
        found = ps.length := by
  have hl : clause.pattern.label? = some label := by rw [hclause, Pattern.label?]
  rw [h.mem_clauseArity]
  constructor
  · rintro ⟨clause', hmem', label', ps, e', hclause', he', hne, hname, rfl, rfl, -⟩
    obtain ⟨j, hj⟩ := List.mem_iff_getElem?.mp hmem'
    have hl' : clause'.pattern.label? = some label' := by rw [hclause', Pattern.label?]
    obtain rfl : j = i := label_inj h.pairwise.2 hj hi hl' hl hname.symm
    obtain rfl : clause' = clause := Option.some.inj (hj.symm.trans hi)
    rw [hclause] at hclause'
    cases hclause'
    obtain rfl := Option.some.inj (he.symm.trans he')
    exact ⟨ps, rfl, hne, rfl, rfl⟩
  · rintro ⟨ps, rfl, hne, rfl, rfl⟩
    exact ⟨clause, List.mem_of_getElem? hi, label, ps, e, hclause, he, hne, rfl, rfl, rfl, rfl⟩

/-- A clause is reported for its parameters just if the call of its function fails by their number
on a value that the constructor of its case has made, whatever entering a body does. -/
theorem clauseArity_exact (hd : Definition.ofSpec s = .ok d)
    (hschema : site.schema = d.operator.schema) (h : site.compile clauses n = (.ok disp, n'))
    {i : Nat} {clause : Clause} (hi : clauses[i]? = some clause) {label : Ident} {params : Params}
    (hclause : clause.pattern = .case label params) :
    ∃ c ∈ d.decls.cases, c.label = label.name ∧ ∀ v env m, Built c v →
      Env.lookup? env m.store site.scrutinee = some v → Eval.Resolves d.decls env m →
        (∃ b, Takes env m disp.branches i b) ∧ ∀ expected found,
          (.clauseArity label.name expected found clause.span ∈ disp.advice ↔
            ∀ enter, Eval.evalWith (Eval.callWith enter) (.dispatch disp.branches) env m =
              (.error { cause := .wrongArity "closure" found expected },
                { m with closures := m.closures + 1 })) := by
  have hcompiles := Site.compile_ok h
  have hpairwise := hcompiles.pairwise.2
  obtain ⟨e, k, he, -, -, hbranch⟩ := hcompiles.branch_of_case hi hclause
  have he' := he
  rw [hschema] at he'
  obtain ⟨c, hc, hlabel, rfl, -⟩ := Definition.find?_schema hd he'
  have hl : clause.pattern.label? = some label := by rw [hclause, Pattern.label?]
  refine ⟨c, hc, hlabel, fun v env m hv hx hres => ?_⟩
  obtain ⟨b, hb⟩ := hcompiles.takes hd hschema hx
  rw [findIdx_of_label hpairwise hi hl (caseOf?_of_built hd hc hv) hlabel.symm] at hb
  refine ⟨⟨b, hb⟩, fun expected found => ?_⟩
  obtain rfl := Option.some.inj (hb.branch.symm.trans hbranch)
  obtain ⟨args, hargs, rfl⟩ := Eval.built_iff.mp hv
  have heval := fun enter =>
    eval_clause enter hd hc hres hx hv.holds (clause.pattern.compile clause.body k).1
  simp only [hargs, Nat.lt_irrefl, if_false] at heval
  have hdispatch : ∀ enter, Eval.evalWith (Eval.callWith enter) (.dispatch disp.branches) env m =
      Eval.evalWith (Eval.callWith enter) (.call (clause.pattern.compile clause.body k).1.toExpr
        (d.operator.schema.fieldCalls (.ofDecl c) site.scrutinee)) env m := by
    intro enter
    rw [hb.eval, hschema]
    rfl
  have hfields : (Entry.ofDecl c).fields.length = c.fields.length := by simp [Entry.ofDecl]
  rw [mem_clauseArity_of_clause hcompiles hi hclause he, hfields]
  rw [hclause] at heval hdispatch
  simp only [hdispatch, heval]
  cases params with
  | rest param =>
    simp only [Pattern.accepts_compile_rest, if_true, reduceCtorEq, false_and, exists_false,
      false_iff]
    intro hall
    cases hall fun _ _ _ => pure .unit
  | list ps =>
    rw [Pattern.arity_compile_list]
    by_cases hlen : c.fields.length = ps.length
    · simp only [Pattern.accepts_compile_list, decide_eq_true hlen, if_true]
      constructor
      · rintro ⟨ps', hps, hne, -, -⟩
        cases hps
        exact absurd hlen.symm hne
      · intro hall
        cases hall fun _ _ _ => pure .unit
    · simp only [Pattern.accepts_compile_list, decide_eq_false hlen, Bool.false_eq_true, if_false]
      constructor
      · rintro ⟨ps', hps, -, rfl, rfl⟩ enter
        cases hps
        rfl
      · intro hall
        cases hall fun _ _ _ => pure .unit
        exact ⟨ps, rfl, Ne.symm hlen, rfl, rfl⟩

/-- The advice on a match is exact with respect to its runs. Labels are listed as missing just for
the cases on whose values the match fails by itself; a default is called redundant just if no value
comes to it; and a clause is reported for its parameters just if its call fails by their number. -/
theorem advice_exact (hd : Definition.ofSpec s = .ok d) (hschema : site.schema = d.operator.schema)
    (h : site.compile clauses n = (.ok disp, n')) :
    ((∀ variant labels span, .nonExhaustive variant labels span ∈ disp.advice →
      labels.Sublist (d.decls.cases.map (·.label)) ∧
        ∀ c ∈ d.decls.cases, ∀ v env m, Built c v →
          Env.lookup? env m.store site.scrutinee = some v →
            (c.label ∈ labels ↔ FailsItself site.schema.variant disp.branches env m)) ∧
    ((∃ variant labels span, .nonExhaustive variant labels span ∈ disp.advice) ↔
      ∃ c ∈ d.decls.cases, ∃ v env m, Built c v ∧
        Env.lookup? env m.store site.scrutinee = some v ∧
          FailsItself site.schema.variant disp.branches env m)) ∧
    ((∃ variant span, .redundantDefault variant span ∈ disp.advice) ↔
      ∃ (i : Nat) (clause : Clause), clauses[i]? = some clause ∧ clause.pattern = .default ∧
        ∀ c ∈ d.decls.cases, ∀ v env m, Built c v →
          Env.lookup? env m.store site.scrutinee = some v →
            ∀ b, ¬ Takes env m disp.branches i b) ∧
    ∀ (i : Nat) (clause : Clause) (label : Ident) (params : Params), clauses[i]? = some clause →
      clause.pattern = .case label params →
        ∃ c ∈ d.decls.cases, c.label = label.name ∧ ∀ v env m, Built c v →
          Env.lookup? env m.store site.scrutinee = some v → Eval.Resolves d.decls env m →
            (∃ b, Takes env m disp.branches i b) ∧ ∀ expected found,
              (.clauseArity label.name expected found clause.span ∈ disp.advice ↔
                ∀ enter, Eval.evalWith (Eval.callWith enter) (.dispatch disp.branches) env m =
                  (.error { cause := .wrongArity "closure" found expected },
                    { m with closures := m.closures + 1 })) :=
  ⟨nonExhaustive_exact hd hschema h, redundantDefault_exact hd hschema h,
    fun _ _ _ _ hi hclause => clauseArity_exact hd hschema h hi hclause⟩

/-- A match on a box with one clause of two parameters, for the case of one field. -/
theorem advice_exact_box : ∃ d disp, Definition.ofSpec .box = .ok d ∧
    (Site.mk d.operator.schema "x" .none).compile [Clause.mk (.case ⟨"Full", .none⟩
      (.list [.named ⟨"a", .none⟩, .named ⟨"b", .none⟩])) (.var "a") .none] 0 = (.ok disp, 0) ∧
    disp.advice = [.clauseArity "Full" 1 2 .none, .nonExhaustive "Box" ["Empty"] .none] ∧
    ∀ c ∈ d.decls.cases, ∀ v env m, Built c v → Env.lookup? env m.store "x" = some v →
      (c.label ∈ ["Empty"] ↔ FailsItself "Box" disp.branches env m) := by
  obtain ⟨d, hd⟩ : ∃ d, Definition.ofSpec .box = .ok d := ⟨_, rfl⟩
  obtain ⟨disp, h, hadvice⟩ : ∃ disp, (Site.mk d.operator.schema "x" .none).compile
      [Clause.mk (.case ⟨"Full", .none⟩ (.list [.named ⟨"a", .none⟩, .named ⟨"b", .none⟩]))
        (.var "a") .none] 0 = (.ok disp, 0) ∧
      disp.advice = [.clauseArity "Full" 1 2 .none, .nonExhaustive "Box" ["Empty"] .none] := by
    cases hd
    exact ⟨_, rfl, rfl⟩
  refine ⟨d, disp, hd, h, hadvice, fun c hc v env m hv hx => ?_⟩
  have hlisted := ((advice_exact hd rfl h).1.1 "Box" ["Empty"] .none (by simp [hadvice])).2
  have hvariant : d.operator.schema.variant = "Box" := by
    cases hd
    rfl
  rw [← hvariant]
  exact hlisted c hc v env m hv hx

end Exact

end Match

end ClosedSum
