import ClosedSum.Proofs.GuardedCalls
import ClosedSum.Proofs.Rearranging

/-!
# Declaration order

If no definition of a module is refused, its items may come in any order. Each item is kept, so that
the same operators are known and the same names are bound, whatever the order. Functions and reports
are the same in another order, but for the numbers of generated names, and the program runs the
same.
-/

namespace ClosedSum

open ClosedSum.Core (Names)

namespace Surface

/-- Every item may be kept: all are well formed, and no name is introduced twice. -/
structure Module.Consistent (m : Module) : Prop where
  wellFormed : ∀ i ∈ m.items, i.WellFormed
  names : (m.items.flatMap (·.globalNames)).Nodup

lemma keptFrom_eq_self {taken : List String} {is : List Item} (hwell : ∀ i ∈ is, i.WellFormed)
    (hnodup : (is.flatMap (·.globalNames)).Nodup)
    (hfree : ∀ x ∈ is.flatMap (·.globalNames), x ∉ taken) : keptFrom taken is = is := by
  induction is generalizing taken with
  | nil => rfl
  | cons i is ih =>
    obtain ⟨hi, his⟩ := List.forall_mem_cons.mp hwell
    rw [List.flatMap_cons] at hnodup hfree
    obtain ⟨hnodup, hrest, hdisjoint⟩ := List.nodup_append.mp hnodup
    obtain ⟨hnew, hfree⟩ := List.forall_mem_append.mp hfree
    have hjoin : i.MayJoin taken := ⟨hi, hnodup, hnew⟩
    have hothers : ∀ x ∈ is.flatMap (·.globalNames), x ∉ i.globalNames ++ taken := by
      intro x hx hmem
      rcases List.mem_append.mp hmem with hmem | hmem
      · exact hdisjoint x hmem x hx rfl
      · exact hfree x hx hmem
    rw [keptFrom, if_pos hjoin, ih his hrest hothers]

namespace Module

variable {m m' : Module}

lemma Consistent.kept (h : m.Consistent) : m.kept = m :=
  congrArg Module.mk (keptFrom_eq_self h.wellFormed h.names fun _ _ => List.not_mem_nil)

lemma Consistent.perm (h : m.Consistent) (hperm : m.items.Perm m'.items) : m'.Consistent :=
  ⟨fun i hi => h.wellFormed i (hperm.mem_iff.mpr hi),
    (hperm.flatMap_right _).nodup_iff.mp h.names⟩

lemma variants_perm (hperm : m.items.Perm m'.items) : m.variants.Perm m'.variants :=
  hperm.filterMap _

lemma functions_perm (hperm : m.items.Perm m'.items) : m.functions.Perm m'.functions :=
  hperm.filterMap _

end Module

end Surface

namespace Match

/-- Where no two operators have one name, each is found by its name wherever it stands. -/
lemma Registry.find?_eq_some_iff {r : Registry} (hnodup : (r.operators.map (·.name)).Nodup)
    {name : String} {o : Operator} :
    r.find? name = some o ↔ o ∈ r.operators ∧ o.name = name := by
  unfold find?
  constructor
  · intro h
    exact ⟨List.mem_of_find?_eq_some h, by simpa using List.find?_some h⟩
  · rintro ⟨hmem, rfl⟩
    cases hfind : r.operators.find? (·.name = o.name) with
    | none => exact absurd (by simp) (List.find?_eq_none.mp hfind o hmem)
    | some o' =>
      have hmem' := List.mem_of_find?_eq_some hfind
      have hname : o'.name = o.name := by simpa using List.find?_some hfind
      rw [List.inj_on_of_nodup_map hnodup hmem' hmem hname]

lemma Registry.find?_eq_of_perm {r r' : Registry} (hperm : r.operators.Perm r'.operators)
    (hnodup : (r.operators.map (·.name)).Nodup) (name : String) : r.find? name = r'.find? name := by
  have hnodup' := (hperm.map (·.name)).nodup_iff.mp hnodup
  refine Option.ext fun o => ?_
  rw [find?_eq_some_iff hnodup, find?_eq_some_iff hnodup', hperm.mem_iff]

end Match

namespace Compile

open Surface (Expr Stmt Clause Item keptFrom)

section Registries

variable {r r' : Match.Registry}

/-- A use of an operator looks up nothing but its name. -/
lemma expandMatch_congr (h : ∀ name, r.find? name = r'.find? name) (operator : Ident)
    (scrutinee : Core.Expr) (cs : List Match.Clause) (site : Span) :
    expandMatch r operator scrutinee cs site = expandMatch r' operator scrutinee cs site := by
  have hexpand : r.expand operator scrutinee cs site = r'.expand operator scrutinee cs site := by
    simp only [Match.Registry.expand, h]
  simp only [expandMatch, hexpand]

mutual

lemma expr_congr (h : ∀ name, r.find? name = r'.find? name) : (e : Expr) → expr r e = expr r' e
  | .unit _ | .bool .. | .int .. | .str .. | .ident .. | .error _ => by simp only [expr]
  | .call _ callee args => by simp only [expr, expr_congr h callee, exprs_congr h args]
  | .binary _ _ lhs rhs => by simp only [expr, expr_congr h lhs, expr_congr h rhs]
  | .ifElse _ test yes no => by
    simp only [expr, expr_congr h test, expr_congr h yes, expr_congr h no]
  | .block _ body => by simp only [expr, stmts_congr h body]
  | .matchUse _ _ scrutinee cs _ => by
    simp only [expr, expr_congr h scrutinee, clauses_congr h cs, expandMatch_congr h]

lemma exprs_congr (h : ∀ name, r.find? name = r'.find? name) :
    (es : List Expr) → exprs r es = exprs r' es
  | [] => by simp only [exprs]
  | e :: es => by simp only [exprs, expr_congr h e, exprs_congr h es]

lemma stmts_congr (h : ∀ name, r.find? name = r'.find? name) :
    (ss : List Stmt) → stmts r ss = stmts r' ss
  | [] => by simp only [stmts]
  | .expr e :: rest => by simp only [stmts, expr_congr h e, stmts_congr h rest]
  | .bind _ value :: rest => by simp only [stmts, expr_congr h value, stmts_congr h rest]

lemma clauses_congr (h : ∀ name, r.find? name = r'.find? name) :
    (cs : List Clause) → clauses r cs = clauses r' cs
  | [] => by simp only [clauses]
  | .mk _ body _ :: rest => by simp only [clauses, stmts_congr h body, clauses_congr h rest]

end

lemma function_congr (h : ∀ name, r.find? name = r'.find? name) : function r = function r' := by
  funext f
  simp only [function, expr_congr h]

end Registries

namespace Collected

variable {m m' : Surface.Module}

lemma Reported.consistent {taken : List String} {is : List Item} {ds : List Diagnostic}
    (h : Reported taken is ds) (hds : ∀ d ∈ ds, d.code.isDefinition = false) :
    (∀ i ∈ is, i.WellFormed) ∧ keptFrom taken is = is := by
  induction h with
  | nil => exact ⟨List.forall_mem_nil _, rfl⟩
  | kept hjoin _ ih =>
    obtain ⟨hwell, hkept⟩ := ih hds
    exact ⟨List.forall_mem_cons.mpr ⟨hjoin.1, hwell⟩, by rw [keptFrom, if_pos hjoin, hkept]⟩
  | rejected _ hrejects _ _ =>
    obtain ⟨d, hd⟩ := List.exists_mem_of_ne_nil _ hrejects.1
    have hcode := hds d (List.mem_append_left _ hd)
    rw [hrejects.2 d hd] at hcode
    cases hcode

lemma consistent_of_reports
    (h : ∀ d ∈ (ofModule m).diagnostics, d.code.isDefinition = false) : m.Consistent := by
  have hkeeps := ofModule_keeps m
  obtain ⟨hwell, hitems⟩ := hkeeps.reports.consistent h
  have hkept : m.kept.items = m.items := hitems
  exact ⟨hwell, hkept ▸ hkeeps.names⟩

lemma ofModule_of_consistent (h : m.Consistent) :
    (ofModule m).decls = m.variants.map .ofSpec ∧ (ofModule m).functions = m.functions ∧
      (ofModule m).registry.operators.Perm
        (m.variants.map fun s => (Match.Definition.given s).operator) ∧
      (ofModule m).diagnostics = [] := by
  have hkeeps := ofModule_keeps m
  have hkept := h.kept
  have hitems : keptFrom [] m.items = m.items := congrArg Surface.Module.items hkept
  have hreports := hkeeps.reports
  rw [← hitems] at hreports
  refine ⟨?_, ?_, ?_, hreports.of_kept⟩
  · rw [hkeeps.decls, hkept]
  · rw [hkeeps.functions, hkept]
  · have hoperators := hkeeps.operators
    rwa [hkept] at hoperators

lemma find?_ofModule_perm (h : m.Consistent) (hperm : m.items.Perm m'.items) (name : String) :
    (ofModule m).registry.find? name = (ofModule m').registry.find? name := by
  obtain ⟨-, -, hoperators, -⟩ := ofModule_of_consistent h
  obtain ⟨-, -, hoperators', -⟩ := ofModule_of_consistent (h.perm hperm)
  have hvariants := Surface.Module.variants_perm hperm
  refine Match.Registry.find?_eq_of_perm
    (hoperators.trans ((hvariants.map _).trans hoperators'.symm)) ?_ name
  have hnames := h.names
  rw [(perm_globalNames _).nodup_iff] at hnames
  have hsublist : (m.variants.map fun s => (Match.Definition.given s).operator.name).Sublist
      (m.variants.flatMap fun s => (Item.variant s).globalNames) := by
    rw [List.map_eq_flatMap]
    refine List.Sublist.flatMap_right _ fun s _ => ?_
    exact List.singleton_sublist.mpr (operatorName_mem_globalNames s)
  rw [(hoperators.map _).nodup_iff, List.map_map]
  exact (List.nodup_append.mp hnames).1.sublist hsublist

end Collected

end Compile

/-- Programs with the same declarations in any order and alike functions in any order, where no two
of the globals have one name. -/
structure Core.Program.AlikeInOrder (p p' : Core.Program) : Prop where
  decls : p.decls.Perm p'.decls
  functions : ∀ f ∈ p.functions, ∃ g ∈ p'.functions, f.Alike g
  functionNames : ∀ g ∈ p'.functions, ∃ f ∈ p.functions, f.name = g.name
  names : ((Eval.generated p).map (·.1)).Nodup
  names' : ((Eval.generated p').map (·.1)).Nodup

namespace Eval

variable {w : World} {p p' : Core.Program}

/-- Where no name is bound twice, the order of bindings does not matter. -/
lemma lookup_alike_of_mem {bs bs' : List (String × Value)} (hbs : (bs.map (·.1)).Nodup)
    (hbs' : (bs'.map (·.1)).Nodup)
    (h : ∀ x v, (x, v) ∈ bs → ∃ v', (x, v') ∈ bs' ∧ v.Alike w v')
    (hnames : ∀ x v', (x, v') ∈ bs' → ∃ v, (x, v) ∈ bs) (x : String) :
    LookupsAlike w x x (bs.reverse.lookup x) (bs'.reverse.lookup x) := by
  by_cases hx : ∃ v, (x, v) ∈ bs
  · obtain ⟨v, hv⟩ := hx
    obtain ⟨v', hv', halike⟩ := h x v hv
    rw [lookup_reverse_of_nodup hbs hv, lookup_reverse_of_nodup hbs' hv']
    exact halike
  · have hnone : bs.reverse.lookup x = none := by
      refine List.lookup_eq_none_iff.mpr fun b hb => ?_
      have hne : b.1 ≠ x := fun heq => hx ⟨b.2, heq ▸ List.mem_reverse.mp hb⟩
      simpa using hne.symm
    have hnone' : bs'.reverse.lookup x = none := by
      refine List.lookup_eq_none_iff.mpr fun b hb => ?_
      have hne : b.1 ≠ x := fun heq => hx (hnames x b.2 (heq ▸ List.mem_reverse.mp hb))
      simpa using hne.symm
    rw [hnone, hnone']
    rfl

lemma alike_of_mem_caseGlobals {c : Variant.CaseDecl} {x : String} {v : Value}
    (h : (x, v) ∈ caseGlobals c) : v.Alike w v := by
  simp only [caseGlobals, List.mem_cons, List.mem_map, Prod.mk.injEq] at h
  obtain ⟨-, rfl⟩ | ⟨-, rfl⟩ | ⟨⟨f, index⟩, -, -, rfl⟩ := h
  · exact .callable (.constructor _)
  · exact .callable (.predicate _)
  · exact .callable (.accessor _ _ _)

lemma generated_alike (h : p.AlikeInOrder p') (x : String) (v : Value)
    (hmem : (x, v) ∈ generated p) : ∃ v', (x, v') ∈ generated p' ∧ v.Alike World.start v' := by
  rcases List.mem_append.mp hmem with hcase | hfunction
  · obtain ⟨d, hd, hcase⟩ := List.mem_flatMap.mp hcase
    obtain ⟨c, hc, hcase⟩ := List.mem_flatMap.mp hcase
    have hd' := h.decls.mem_iff.mp hd
    exact ⟨v, mem_generated_of_mem hd' hc hcase, alike_of_mem_caseGlobals hcase⟩
  · obtain ⟨f, hf, heq⟩ := List.mem_map.mp hfunction
    obtain ⟨rfl, rfl⟩ := Prod.mk.inj heq
    obtain ⟨g, hg, hfg⟩ := h.functions f hf
    refine ⟨.callable (.function g), List.mem_append_right _ ?_, .callable ?_⟩
    · exact List.mem_map.mpr ⟨g, hg, by rw [hfg.name]⟩
    · exact .function hfg.name hfg.params ⟨rfl, rfl, rfl⟩ hfg.body

lemma mem_generated_of_alike (h : p.AlikeInOrder p') (x : String) (v' : Value)
    (hmem : (x, v') ∈ generated p') : ∃ v, (x, v) ∈ generated p := by
  rcases List.mem_append.mp hmem with hcase | hfunction
  · obtain ⟨d, hd, hcase⟩ := List.mem_flatMap.mp hcase
    have hd' := h.decls.mem_iff.mpr hd
    exact ⟨v', List.mem_append_left _ (List.mem_flatMap.mpr ⟨d, hd', hcase⟩)⟩
  · obtain ⟨g, hg, heq⟩ := List.mem_map.mp hfunction
    obtain ⟨rfl, -⟩ := Prod.mk.inj heq
    obtain ⟨f, hf, hname⟩ := h.functionNames g hg
    refine ⟨.callable (.function f), List.mem_append_right _ ?_⟩
    exact List.mem_map.mpr ⟨f, hf, by rw [hname]⟩

lemma LookupsAlike.or {x : String} {a a' b b' : Option Value} (h : LookupsAlike w x x a a')
    (h' : LookupsAlike w x x b b') : LookupsAlike w x x (a.or b) (a'.or b') := by
  cases a with
  | none =>
    cases a' with
    | none => exact h'
    | some v' => exact h.elim
  | some v =>
    cases a' with
    | none => exact h.elim
    | some v' => exact h

/-- Programs that differ in the order of what they define start alike. -/
theorem ofProgram_alikeInOrder (h : p.AlikeInOrder p') (limit : Nat) :
    (Interpreter.ofProgram p limit).Alike (Interpreter.ofProgram p' limit) := by
  refine ofProgram_alike_of_lookups (fun x => ?_) limit
  have hgenerated := lookup_alike_of_mem h.names h.names' (generated_alike h)
    (mem_generated_of_alike h) x
  have hbuiltins : List.Forall₂ (fun b b' => b.1 = b'.1 ∧ b.2.Alike World.start b'.2)
      (Builtin.all.map fun b => (b.name, Value.callable (.builtin b))).reverse
      (Builtin.all.map fun b => (b.name, Value.callable (.builtin b))).reverse := by
    refine List.forall₂_same.mpr fun b hb => ?_
    obtain ⟨builtin, -, rfl⟩ := List.mem_map.mp (List.mem_reverse.mp hb)
    exact ⟨rfl, .callable (.builtin builtin)⟩
  rw [lookup_programGlobals, lookup_programGlobals]
  exact hgenerated.or (lookup_alike_of_forall₂ hbuiltins x)

end Eval

namespace Compile

open Eval (Interpreter observed)
open Surface (Function Module)

variable {m m' : Module}

/-- A function is compiled alike wherever the counter stands. -/
lemma function_parallel {registry : Match.Registry} (hr : ∀ f ∈ registry.accessors, NoPercent f)
    {f : Function} (hf : ∀ a ∈ f.names, NoPercent a) :
    Parallel Core.Function.Alike (function registry f) (function registry f) := by
  simp only [Function.names, List.cons_append, List.forall_mem_cons, List.forall_mem_append] at hf
  have hcarries := (Names.carries_on (fun _ ha => ha) hr).bindParams
    (Names.map_name?_named_congr rfl) (by rw [Names.filterMap_name?_named]; exact hf.2.1)
  rw [shielded_id, ← Names.bindAll_eq_bindParams] at hcarries
  have halike : FunctionAlike registry f f :=
    functionAlike_of_parallel rfl rfl (expr_alike (.refl f.body) hcarries hf.2.2)
  exact halike.body.bind fun _ _ he => .pure ⟨rfl, by simp, he⟩

lemma exists_of_mem_left {α β : Type} {R : α → β → Prop} {as : List α} {bs : List β}
    (h : List.Forall₂ R as bs) : ∀ a ∈ as, ∃ b ∈ bs, R a b := by
  induction h with
  | nil => exact List.forall_mem_nil _
  | cons hab _ ih =>
    refine List.forall_mem_cons.mpr ⟨⟨_, List.mem_cons_self .., hab⟩, fun a ha => ?_⟩
    obtain ⟨b, hb, hR⟩ := ih a ha
    exact ⟨b, List.mem_cons_of_mem _ hb, hR⟩

/-- The functions of a program are those of the source that are kept, each compiled somewhere. -/
lemma functions_compiled (m : Module) (fresh : Nat) :
    List.Forall₂ (fun f g => ∃ n k ds, Does (function (Collected.ofModule m).registry f) n g k ds)
      (Collected.ofModule m).functions (Compiled.ofModule m fresh).program.functions := by
  obtain ⟨rs, k, hdoes, -, hrs⟩ := functions_log m fresh
  rw [Compiled.ofModule_eq hdoes, List.forall₂_map_right_iff]
  exact hrs.imp fun f r ⟨⟨n, k, hr⟩, _⟩ => ⟨n, k, r.2, hr⟩

lemma function_names_noPercent (hnames : ∀ a ∈ m.names, NoPercent a) :
    ∀ f ∈ (Collected.ofModule m).functions, ∀ a ∈ f.names, NoPercent a := fun f hf a ha =>
  hnames a (List.mem_flatMap.mpr ⟨_, (Collected.faithful_ofModule m).functions f hf, ha⟩)

/-- With the items in another order, the program is the same in another order. -/
theorem program_alikeInOrder (h : m.Consistent) (hperm : m.items.Perm m'.items)
    (hnames : ∀ a ∈ m.names, NoPercent a) (fresh fresh' : Nat) :
    (Compiled.ofModule m fresh).program.AlikeInOrder (Compiled.ofModule m' fresh').program := by
  have h' := h.perm hperm
  obtain ⟨hdecls, hfunctions, -, -⟩ := Collected.ofModule_of_consistent h
  obtain ⟨hdecls', hfunctions', -, -⟩ := Collected.ofModule_of_consistent h'
  have hregistry := function_congr (Collected.find?_ofModule_perm h hperm)
  have hcompiled := functions_compiled m fresh
  have hcompiled' := functions_compiled m' fresh'
  have hsame : ∀ f, f ∈ (Collected.ofModule m).functions ↔ f ∈ (Collected.ofModule m').functions :=
    fun f => by rw [hfunctions, hfunctions', (Surface.Module.functions_perm hperm).mem_iff]
  -- what one function becomes here is like what it becomes there
  have halike : ∀ f ∈ (Collected.ofModule m).functions, ∀ g g',
      (∃ n k ds, Does (function (Collected.ofModule m).registry f) n g k ds) →
      (∃ n k ds, Does (function (Collected.ofModule m').registry f) n g' k ds) → g.Alike g' := by
    rintro f hf g g' ⟨n, k, ds, hg⟩ ⟨n', k', ds', hg'⟩
    rw [← hregistry] at hg'
    have hparallel := function_parallel (Collected.noPercent_accessors hnames)
      (function_names_noPercent hnames f hf) ⟨n, []⟩ ⟨n', []⟩
    rwa [hg [], hg' []] at hparallel
  refine ⟨?_, fun g hg => ?_, fun g' hg' => ?_, nodup_generated m fresh, nodup_generated m' fresh'⟩
  · rw [(ofModule_program m fresh).1, (ofModule_program m' fresh').1, h.kept, h'.kept]
    exact (Surface.Module.variants_perm hperm).map _
  · obtain ⟨f, hf, hfg⟩ := exists_of_mem_left hcompiled.flip g hg
    obtain ⟨g', hg', hfg'⟩ := exists_of_mem_left hcompiled' f ((hsame f).mp hf)
    exact ⟨g', hg', halike f hf g g' hfg hfg'⟩
  · obtain ⟨f, hf', hfg'⟩ := exists_of_mem_left hcompiled'.flip g' hg'
    have hf := (hsame f).mpr hf'
    obtain ⟨g, hg, hfg⟩ := exists_of_mem_left hcompiled f hf
    exact ⟨g, hg, (halike f hf g g' hfg hfg').name⟩

/-- What the items of a module are compiled to, and the same items in another order: the same
declarations, the same functions up to the numbers of generated names, and the same reports. The
program runs the same. -/
structure Compiled.Reorders (c c' : Compiled) : Prop where
  decls : c'.program.decls.Perm c.program.decls
  functions : ∃ f : Nat → Nat, f.Injective ∧
    c'.program.functions.Perm (c.program.functions.map (·.rename (renumber f)))
  diagnostics : c'.diagnostics.Perm c.diagnostics
  runs : ∀ limit, observed (Interpreter.ofProgram c'.program limit).runMain =
    observed (Interpreter.ofProgram c.program limit).runMain

lemma Compiled.reorders_of_perm (h : m.Consistent) (hperm : m.items.Perm m'.items)
    (hnames : ∀ a ∈ m.names, NoPercent a) (fresh fresh' : Nat) :
    (Compiled.ofModule m fresh).Reorders (Compiled.ofModule m' fresh') := by
  have halike := program_alikeInOrder h hperm hnames fresh fresh'
  obtain ⟨-, hfunctions, -, hreports⟩ := Collected.ofModule_of_consistent h
  obtain ⟨-, hfunctions', -, hreports'⟩ := Collected.ofModule_of_consistent (h.perm hperm)
  have hregistry := function_congr (Collected.find?_ofModule_perm h hperm)
  have hfs : (Collected.ofModule m).functions.Perm (Collected.ofModule m').functions := by
    rw [hfunctions, hfunctions']
    exact Surface.Module.functions_perm hperm
  have hbodies : ∀ f ∈ (Collected.ofModule m).functions, ∀ a ∈ f.body.names, NoPercent a :=
    fun f hf a ha => function_names_noPercent hnames f hf a
      (List.mem_cons_of_mem _ (List.mem_append_right _ ha))
  obtain ⟨gs, gs', k, ds, ds', e, hgs, hgs', hds, he, hmoved⟩ :=
    functions_rearranged (Collected.noPercent_accessors hnames) hfs hbodies fresh fresh'
  rw [hregistry] at hgs'
  obtain ⟨f, hf, hfe⟩ := he.exists_injective
  refine ⟨halike.decls.symm, ⟨f, hf, ?_⟩, ?_, fun limit => ?_⟩
  · rw [Compiled.ofModule_eq hgs, Compiled.ofModule_eq hgs']
    exact hmoved f hfe
  · rw [Compiled.ofModule_eq hgs, Compiled.ofModule_eq hgs', hreports, hreports']
    exact hds.symm
  · exact (Eval.runMain_alike (Eval.ofProgram_alikeInOrder halike limit)).1.symm

lemma consistent_of_diagnostics {fresh : Nat}
    (h : ∀ d ∈ (Compiled.ofModule m fresh).diagnostics, d.code.isDefinition = false) :
    m.Consistent := by
  obtain ⟨rs, k, hdoes, -, -⟩ := functions_log m fresh
  rw [Compiled.ofModule_eq hdoes] at h
  exact Collected.consistent_of_reports (List.forall_mem_append.mp h).1

/-- The order of the items of a module does not matter, if none of its definitions is refused. In
another order there are the same declarations, the same functions up to the numbers of generated
names, and the same reports, and the program runs the same. A name from a text never holds a percent
sign. -/
theorem declaration_order (hperm : m.items.Perm m'.items)
    (hnames : ∀ a ∈ m.names, NoPercent a) (fresh fresh' : Nat)
    (hdefinitions : ∀ d ∈ (Compiled.ofModule m fresh).diagnostics, d.code.isDefinition = false) :
    (Compiled.ofModule m' fresh').program.decls.Perm (Compiled.ofModule m fresh).program.decls ∧
      (∃ f : Nat → Nat, f.Injective ∧ (Compiled.ofModule m' fresh').program.functions.Perm
        ((Compiled.ofModule m fresh).program.functions.map (·.rename (renumber f)))) ∧
      (Compiled.ofModule m' fresh').diagnostics.Perm (Compiled.ofModule m fresh).diagnostics ∧
      ∀ limit,
        observed (Interpreter.ofProgram (Compiled.ofModule m' fresh').program limit).runMain =
          observed (Interpreter.ofProgram (Compiled.ofModule m fresh).program limit).runMain := by
  have h := Compiled.reorders_of_perm (consistent_of_diagnostics hdefinitions) hperm hnames fresh
    fresh'
  exact ⟨h.decls, h.functions, h.diagnostics, h.runs⟩

/-- A variant, a function that tells whether a box holds something, and one that calls it. -/
def sizingBox : Surface.Item :=
  .variant ⟨⟨"Box", .none⟩, [], [⟨⟨"Empty", .none⟩, [], [], .none⟩,
    ⟨⟨"Full", .none⟩, [], [⟨⟨"value", .none⟩, []⟩], .none⟩], .none⟩

def sizingSize : Surface.Item :=
  .function ⟨⟨"size", .none⟩, [⟨"box", .none⟩],
    .matchUse .none ⟨"match_box", .none⟩ (.ident .none "box")
      [.mk (.case ⟨"Full", .none⟩ (.list [.wildcard .none])) [.expr (.int .none 1)] .none,
        .mk .default [.expr (.int .none 0)] .none] .none, .none⟩

def sizingMain : Surface.Item :=
  .function ⟨⟨"main", .none⟩, [],
    .matchUse .none ⟨"match_box", .none⟩ (.call .none (.ident .none "BoxFull") [.int .none 2])
      [.mk (.case ⟨"Full", .none⟩ (.list [.named ⟨"v", .none⟩]))
        [.expr (.binary .none .add (.ident .none "v")
          (.call .none (.ident .none "size") [.call .none (.ident .none "BoxEmpty") []]))]
        .none] .none, .none⟩

/-- The functions may as well come before the variant, and each before the other. -/
theorem declaration_order_sizing :
    (∃ f : Nat → Nat, f.Injective ∧
      (Compiled.ofModule ⟨[sizingMain, sizingSize, sizingBox]⟩ 0).program.functions.Perm
        ((Compiled.ofModule ⟨[sizingBox, sizingSize, sizingMain]⟩ 0).program.functions.map
          (·.rename (renumber f)))) ∧
      ∀ limit,
        observed (Interpreter.ofProgram (Compiled.ofModule
          ⟨[sizingMain, sizingSize, sizingBox]⟩ 0).program limit).runMain =
        observed (Interpreter.ofProgram (Compiled.ofModule
          ⟨[sizingBox, sizingSize, sizingMain]⟩ 0).program limit).runMain := by
  have hperm : [sizingBox, sizingSize, sizingMain].Perm [sizingMain, sizingSize, sizingBox] :=
    (List.reverse_perm [sizingBox, sizingSize, sizingMain]).symm
  have hnames : ∀ a ∈ Surface.Module.names ⟨[sizingBox, sizingSize, sizingMain]⟩, NoPercent a := by
    unfold NoPercent
    decide +kernel
  have h := @declaration_order ⟨[sizingBox, sizingSize, sizingMain]⟩
    ⟨[sizingMain, sizingSize, sizingBox]⟩ hperm hnames 0 0 (by decide +kernel)
  exact ⟨h.2.1, h.2.2.2⟩

/-- The items of a text may come in any order, if none of its definitions is refused. -/
theorem declaration_order_of_parse {source : List Char}
    (hm : (Grammar.parse (Token.scan source).tokens).tree = m) (hperm : m.items.Perm m'.items)
    (fresh fresh' : Nat)
    (hdefinitions : ∀ d ∈ (Compiled.ofModule m fresh).diagnostics, d.code.isDefinition = false) :
    (Compiled.ofModule m fresh).Reorders (Compiled.ofModule m' fresh') :=
  Compiled.reorders_of_perm (consistent_of_diagnostics hdefinitions) hperm
    (Grammar.noPercent_of_parse hm) fresh fresh'

end Compile

end ClosedSum
