import ClosedSum.Proofs.AlikeModules
import ClosedSum.Proofs.LoweringLogs

/-!
# One namespace

The items of a module are gone through in order. An item is kept if it is well formed and introduces
only names that are free, no name twice. Nothing else of a module matters to its program: the items
that are not kept are reported, and without them the module compiles to the same program.
-/

namespace ClosedSum

namespace Variant

/-- The cases of a variant have labels of their own, and the fields of each case names of their
own. -/
def Spec.WellFormed (s : Spec) : Prop :=
  (s.cases.map (·.label.name)).Nodup ∧ ∀ c ∈ s.cases, (c.fields.map (·.name.name)).Nodup

instance (s : Spec) : Decidable s.WellFormed := inferInstanceAs (Decidable (_ ∧ _))

lemma repetition?_eq_none_iff {seen is : List Ident} : repetition? seen is = none ↔
    (is.map (·.name)).Nodup ∧ ∀ i ∈ is, ∀ j ∈ seen, j.name ≠ i.name := by
  refine ⟨repetition?_eq_none, fun h => ?_⟩
  induction is generalizing seen with
  | nil => rfl
  | cons i is ih =>
    obtain ⟨hnodup, hseen⟩ := h
    obtain ⟨hi, hnodup⟩ := List.nodup_cons.mp hnodup
    obtain ⟨hfree, hseen⟩ := List.forall_mem_cons.mp hseen
    have hfind : seen.find? (·.name = i.name) = none := by simpa using hfree
    rw [repetition?, hfind]
    refine ih ⟨hnodup, fun j hj => List.forall_mem_cons.mpr ⟨fun heq => hi ?_, hseen j hj⟩⟩
    exact List.mem_map.mpr ⟨j, hj, heq.symm⟩

lemma checkFields_eq_ok_iff {c : CaseSpec} :
    checkFields c = .ok () ↔ (c.fields.map (·.name.name)).Nodup := by
  refine ⟨nodup_of_checkFields, fun h => ?_⟩
  have hnone : repetition? [] (c.fields.map (·.name)) = none :=
    repetition?_eq_none_iff.mpr ⟨by simpa [Function.comp_def] using h, by simp⟩
  rw [checkFields, hnone]

lemma checkCases_eq_ok_iff {variant : String} {seen : List Ident} {cs : List CaseSpec} :
    checkCases variant seen cs = .ok () ↔ (cs.map (·.label.name)).Nodup ∧
      (∀ c ∈ cs, ∀ j ∈ seen, j.name ≠ c.label.name) ∧
      ∀ c ∈ cs, (c.fields.map (·.name.name)).Nodup := by
  refine ⟨nodup_of_checkCases, fun h => ?_⟩
  induction cs generalizing seen with
  | nil => rfl
  | cons c cs ih =>
    obtain ⟨hnodup, hseen, hfields⟩ := h
    obtain ⟨hc, hnodup⟩ := List.nodup_cons.mp hnodup
    obtain ⟨hfree, hseen⟩ := List.forall_mem_cons.mp hseen
    obtain ⟨hfield, hfields⟩ := List.forall_mem_cons.mp hfields
    have hfind : seen.find? (·.name = c.label.name) = none := by simpa using hfree
    rw [checkCases, hfind, checkFields_eq_ok_iff.mpr hfield]
    refine ih ⟨hnodup, fun c' hc' => ?_, hfields⟩
    refine List.forall_mem_cons.mpr ⟨fun heq => hc ?_, hseen c' hc'⟩
    exact List.mem_map.mpr ⟨c', hc', heq.symm⟩

lemma Spec.check_isOk_iff {s : Spec} : s.check.toBool = true ↔ s.WellFormed := by
  have hok : s.check = .ok () ↔ s.WellFormed := by simp [check, checkCases_eq_ok_iff, WellFormed]
  rw [← hok]
  cases s.check with
  | ok u => simp [Except.toBool]
  | error f => simp [Except.toBool]

lemma Fault.isDefinition_code (f : Fault) : f.diagnostic.code.isDefinition = true := by
  cases f <;> rfl

end Variant

namespace Surface

namespace Item

/-- The global names that an item introduces. -/
def globalNames : Item → List String
  | .function f => [f.name.name]
  | .variant s => s.name.name :: Variant.operatorName s.name.name :: s.cases.flatMap fun c =>
    Variant.caseTypeName s.name.name c.label.name ::
      Variant.predicateName s.name.name c.label.name ::
        c.fields.map fun f => Variant.accessorName s.name.name c.label.name f.name.name

def WellFormed : Item → Prop
  | .function _ => True
  | .variant s => s.WellFormed

instance : (i : Item) → Decidable i.WellFormed
  | .function _ => .isTrue trivial
  | .variant s => inferInstanceAs (Decidable s.WellFormed)

/-- An item may be kept beside items that have taken some names: it is well formed, and it
introduces no name twice and none of those. -/
def MayJoin (taken : List String) (i : Item) : Prop :=
  i.WellFormed ∧ i.globalNames.Nodup ∧ ∀ x ∈ i.globalNames, x ∉ taken

instance (taken : List String) (i : Item) : Decidable (i.MayJoin taken) :=
  inferInstanceAs (Decidable (_ ∧ _))

end Item

/-- The items that are kept behind items that have taken some names. -/
def keptFrom (taken : List String) : List Item → List Item
  | [] => []
  | i :: is =>
    if i.MayJoin taken then i :: keptFrom (i.globalNames ++ taken) is else keptFrom taken is

def Module.kept (m : Module) : Module := ⟨keptFrom [] m.items⟩

lemma nodup_keptFrom (taken : List String) (is : List Item) :
    ((keptFrom taken is).flatMap (·.globalNames)).Nodup ∧
      ∀ x ∈ (keptFrom taken is).flatMap (·.globalNames), x ∉ taken := by
  induction is generalizing taken with
  | nil => simp [keptFrom]
  | cons i is ih =>
    rw [keptFrom]
    split
    · next hjoin =>
      obtain ⟨-, hnodup, hfree⟩ := hjoin
      obtain ⟨hrest, hnew⟩ := ih (i.globalNames ++ taken)
      rw [List.flatMap_cons]
      constructor
      · refine List.nodup_append.mpr ⟨hnodup, hrest, fun x hx y hy heq => ?_⟩
        exact hnew y hy (List.mem_append_left _ (heq ▸ hx))
      · refine List.forall_mem_append.mpr ⟨hfree, fun x hx hmem => ?_⟩
        exact hnew x hx (List.mem_append_right _ hmem)
    · exact ih taken

lemma keptFrom_keptFrom (taken : List String) (is : List Item) :
    keptFrom taken (keptFrom taken is) = keptFrom taken is := by
  induction is generalizing taken with
  | nil => rfl
  | cons i is ih =>
    by_cases hjoin : i.MayJoin taken
    · simp only [keptFrom, if_pos hjoin, ih]
    · simp only [keptFrom, if_neg hjoin, ih]

end Surface

namespace Compile

open Surface (Item keptFrom)

/-- No name is taken if the names differ from each other and from those that are known. -/
lemma clashes_eq_nil {known gs : List Global} : clashes known gs = [] ↔
    (gs.map (·.name)).Nodup ∧ ∀ g ∈ gs, g.name ∉ known.map (·.name) := by
  induction gs generalizing known with
  | nil => simp [clashes]
  | cons g gs ih =>
    rw [clashes]
    cases hfind : known.find? (·.name = g.name) with
    | some first =>
      have hname : first.name = g.name := by simpa using List.find?_some hfind
      have htaken : g.name ∈ known.map (·.name) :=
        List.mem_map.mpr ⟨first, List.mem_of_find?_eq_some hfind, hname⟩
      simp only [reduceCtorEq, false_iff]
      exact fun h => h.2 g (List.mem_cons_self ..) htaken
    | none =>
      have hfree : g.name ∉ known.map (·.name) := by simpa using hfind
      simp only [ih, List.map_cons, List.nodup_cons, List.forall_mem_cons]
      constructor
      · rintro ⟨hnodup, hall⟩
        have hnew : g.name ∉ gs.map (·.name) := fun hmem => by
          obtain ⟨g', hg', hname⟩ := List.mem_map.mp hmem
          exact hall g' hg' (hname ▸ List.mem_cons_self ..)
        exact ⟨⟨hnew, hnodup⟩, hfree, fun g' hg' hmem => hall g' hg' (List.mem_cons_of_mem _ hmem)⟩
      · rintro ⟨⟨hnew, hnodup⟩, -, hall⟩
        refine ⟨hnodup, fun g' hg' hmem => ?_⟩
        rcases List.mem_cons.mp hmem with hname | hmem
        · exact hnew (List.mem_map.mpr ⟨g', hg', hname⟩)
        · exact hall g' hg' hmem

lemma isDefinition_of_mem_clashes {known gs : List Global} {d : Diagnostic}
    (h : d ∈ clashes known gs) : d.code.isDefinition = true := by
  induction gs generalizing known with
  | nil => cases h
  | cons g gs ih =>
    rw [clashes] at h
    split at h
    · rcases List.mem_cons.mp h with rfl | h
      · rfl
      · exact ih h
    · exact ih h

namespace Collected

variable {c : Collected} {taken : List String}

/-- What keeping an item means. -/
def keep (c : Collected) : Item → Collected
  | .variant s => { c with
    globals := (variantGlobals s (.given s)).reverse ++ c.globals
    decls := c.decls ++ [.ofSpec s]
    registry := c.registry.insert (Match.Definition.given s).operator }
  | .function f => { c with
    globals := functionGlobal f :: c.globals
    functions := c.functions ++ [f] }

/-- The names that are known are those that are taken. -/
def Knows (c : Collected) (taken : List String) : Prop :=
  ∀ x, x ∈ c.globals.map (·.name) ↔ x ∈ taken

lemma map_name_globals_keep (c : Collected) (i : Item) :
    (c.keep i).globals.map (·.name) = i.globalNames.reverse ++ c.globals.map (·.name) := by
  cases i with
  | variant s =>
    rw [Item.globalNames, ← map_name_variantGlobals, ← List.map_reverse]
    exact List.map_append
  | function f => rfl

lemma Knows.keep (h : c.Knows taken) (i : Item) : (c.keep i).Knows (i.globalNames ++ taken) := by
  intro x
  rw [map_name_globals_keep, List.mem_append, List.mem_append, List.mem_reverse, h x]

/-- Reports that an item is rejected with. -/
def Rejects (ds : List Diagnostic) : Prop := ds ≠ [] ∧ ∀ d ∈ ds, d.code.isDefinition = true

/-- A well-formed item takes its names, or some of them are not free and are reported. -/
lemma Knows.take (h : c.Knows taken) (i : Item) (hwell : i.WellFormed) {gs : List Global}
    (hgs : gs.map (·.name) = i.globalNames) (keep : Collected → Collected) :
    i.MayJoin taken ∧ c.take gs keep = keep { c with globals := gs.reverse ++ c.globals } ∨
      ¬ i.MayJoin taken ∧ ∃ ds, Rejects ds ∧ c.take gs keep = c.report ds := by
  have hjoin : clashes c.globals gs = [] ↔ i.MayJoin taken := by
    have hfree : (∀ g ∈ gs, g.name ∉ c.globals.map (·.name)) ↔
        ∀ x ∈ i.globalNames, x ∉ taken := by
      simp only [← hgs, List.forall_mem_map, h _]
    rw [clashes_eq_nil, hgs, hfree, Item.MayJoin, and_iff_right hwell]
  cases hclashes : clashes c.globals gs with
  | nil => exact .inl ⟨hjoin.mp hclashes, by rw [Collected.take, hclashes]⟩
  | cons d ds =>
    refine .inr ⟨fun hfree => ?_, d :: ds, ⟨List.cons_ne_nil _ _, fun d' hd' => ?_⟩, ?_⟩
    · rw [hjoin.mpr hfree] at hclashes
      cases hclashes
    · exact isDefinition_of_mem_clashes (hclashes ▸ hd')
    · rw [Collected.take, hclashes]

/-- An item that may join is kept, and any other one is reported. -/
lemma Knows.add (h : c.Knows taken) (i : Item) :
    i.MayJoin taken ∧ c.add i = c.keep i ∨
      ¬ i.MayJoin taken ∧ ∃ ds, Rejects ds ∧ c.add i = c.report ds := by
  cases i with
  | function f =>
    have hnames : [functionGlobal f].map (·.name) = (Item.function f).globalNames := rfl
    exact h.take (.function f) trivial hnames fun c => { c with functions := c.functions ++ [f] }
  | variant s =>
    rcases Match.Definition.ofSpec_cases s with ⟨hcheck, hspec⟩ | ⟨hcheck, f, hspec⟩
    · simp only [Collected.add, hspec]
      exact h.take (.variant s) (Variant.Spec.check_isOk_iff.mp hcheck)
        (map_name_variantGlobals s) _
    · have hwell : ¬ s.WellFormed := fun hwell => by
        rw [Variant.Spec.check_isOk_iff.mpr hwell] at hcheck
        cases hcheck
      have hreport : Rejects [f.diagnostic] :=
        ⟨List.cons_ne_nil _ _, List.forall_mem_singleton.mpr f.isDefinition_code⟩
      exact .inr ⟨fun hjoin => hwell hjoin.1, _, hreport, by simp only [Collected.add, hspec]⟩

/-- The reports on items behind others that have taken some names: none on an item that is kept, at
least one on any other. -/
inductive Reported : List String → List Item → List Diagnostic → Prop
  | nil (taken : List String) : Reported taken [] []
  | kept {taken : List String} {i : Item} {is : List Item} {ds : List Diagnostic}
    (hjoin : i.MayJoin taken) (hrest : Reported (i.globalNames ++ taken) is ds) :
    Reported taken (i :: is) ds
  | rejected {taken : List String} {i : Item} {is : List Item} {ds ds' : List Diagnostic}
    (hjoin : ¬ i.MayJoin taken) (hds : Rejects ds) (hrest : Reported taken is ds') :
    Reported taken (i :: is) (ds ++ ds')

lemma Reported.of_kept {is : List Item} {ds : List Diagnostic}
    (h : Reported taken (keptFrom taken is) ds) : ds = [] := by
  induction is generalizing taken with
  | nil =>
    cases h
    rfl
  | cons i is ih =>
    rw [keptFrom] at h
    split at h
    · cases h with
      | kept _ hrest => exact ih hrest
      | rejected hjoin => contradiction
    · exact ih h

lemma keep_report (c : Collected) (i : Item) (ds : List Diagnostic) :
    (c.report ds).keep i = (c.keep i).report ds := by
  cases i <;> rfl

lemma foldl_keep_report (c : Collected) (is : List Item) (ds : List Diagnostic) :
    is.foldl keep (c.report ds) = (is.foldl keep c).report ds := by
  induction is generalizing c with
  | nil => rfl
  | cons i is ih => rw [List.foldl_cons, List.foldl_cons, keep_report, ih]

/-- What is collected is what the items that are kept mean, and reports on the others. -/
lemma Knows.foldl_add (h : c.Knows taken) (is : List Item) :
    ∃ ds, Reported taken is ds ∧ is.foldl Collected.add c =
      ((keptFrom taken is).foldl Collected.keep c).report ds := by
  induction is generalizing c taken with
  | nil => exact ⟨[], .nil taken, by simp [report, keptFrom]⟩
  | cons i is ih =>
    rw [List.foldl_cons, keptFrom]
    rcases h.add i with ⟨hjoin, hadd⟩ | ⟨hjoin, ds, hds, hadd⟩
    · obtain ⟨ds, hreported, hfold⟩ := ih (h.keep i)
      rw [if_pos hjoin, hadd, hfold]
      exact ⟨ds, .kept hjoin hreported, rfl⟩
    · -- an item that is rejected takes no name
      have hknows : (c.report ds).Knows taken := h
      obtain ⟨ds', hreported, hfold⟩ := ih hknows
      rw [if_neg hjoin, hadd, hfold, foldl_keep_report]
      exact ⟨ds ++ ds', .rejected hjoin hds hreported, by simp [report]⟩

lemma foldl_keep (c : Collected) (is : List Item) :
    (is.foldl keep c).decls = c.decls ++ (Surface.Module.variants ⟨is⟩).map .ofSpec ∧
      (is.foldl keep c).functions = c.functions ++ Surface.Module.functions ⟨is⟩ ∧
      (is.foldl keep c).diagnostics = c.diagnostics := by
  induction is generalizing c with
  | nil => simp [Surface.Module.variants, Surface.Module.functions]
  | cons i is ih =>
    obtain ⟨hdecls, hfunctions, hdiagnostics⟩ := ih (c.keep i)
    rw [List.foldl_cons, hdecls, hfunctions, hdiagnostics]
    cases i with
    | variant s => simp [keep, Surface.Module.variants, Surface.Module.functions]
    | function f => simp [keep, Surface.Module.variants, Surface.Module.functions]

/-- An operator is added in front of others whose names are not its own. -/
lemma operators_insert {r : Match.Registry} {o : Match.Operator}
    (h : o.name ∉ r.operators.map (·.name)) : (r.insert o).operators = o :: r.operators := by
  have hall : ∀ o' ∈ r.operators, (!decide (o'.name = o.name)) = true := fun o' ho' => by
    have hne : o'.name ≠ o.name := fun heq => h (heq ▸ List.mem_map_of_mem ho')
    simpa using hne
  simp [Match.Registry.insert, List.filter_eq_self.mpr hall]

lemma operatorName_mem_globalNames (s : Variant.Spec) :
    (Match.Definition.given s).operator.name ∈ (Item.variant s).globalNames :=
  List.mem_cons_of_mem _ (List.mem_cons_self ..)

/-- Variants whose names are all distinct have one operator each. -/
lemma foldl_keep_operators (c : Collected) (is : List Item)
    (hnodup : (is.flatMap (·.globalNames)).Nodup)
    (hnew : ∀ x ∈ is.flatMap (·.globalNames), x ∉ c.registry.operators.map (·.name)) :
    (is.foldl keep c).registry.operators.Perm (c.registry.operators ++
      (Surface.Module.variants ⟨is⟩).map fun s => (Match.Definition.given s).operator) := by
  induction is generalizing c with
  | nil => simp [Surface.Module.variants]
  | cons i is ih =>
    rw [List.flatMap_cons] at hnodup hnew
    obtain ⟨-, hrest, hdisjoint⟩ := List.nodup_append.mp hnodup
    obtain ⟨hi, his⟩ := List.forall_mem_append.mp hnew
    rw [List.foldl_cons]
    cases i with
    | function f => exact ih _ hrest his
    | variant s =>
      have hname := operatorName_mem_globalNames s
      have hoperators := operators_insert (hi _ hname)
      have hperm := ih (c.keep (.variant s)) hrest fun x hx hmem => by
        rw [keep, hoperators, List.map_cons, List.mem_cons] at hmem
        rcases hmem with rfl | hmem
        · exact hdisjoint _ hname _ hx rfl
        · exact his x hx hmem
      refine hperm.trans ?_
      rw [keep, hoperators]
      exact List.perm_middle.symm

/-- What is collected of a module is what the items that are kept mean. No name is introduced twice
among them, and there is one operator for each variant. -/
structure Keeps (c : Collected) (m : Surface.Module) : Prop where
  names : (m.kept.items.flatMap (·.globalNames)).Nodup
  decls : c.decls = m.kept.variants.map .ofSpec
  functions : c.functions = m.kept.functions
  operators : c.registry.operators.Perm
    (m.kept.variants.map fun s => (Match.Definition.given s).operator)
  reports : Reported [] m.items c.diagnostics

lemma exists_ofModule_eq (m : Surface.Module) : ∃ ds, Reported [] m.items ds ∧
    ofModule m = (m.kept.items.foldl keep {}).report ds := by
  have hknows : ({} : Collected).Knows [] := fun x => Iff.rfl
  exact hknows.foldl_add m.items

theorem ofModule_keeps (m : Surface.Module) : (ofModule m).Keeps m := by
  obtain ⟨ds, hreported, heq⟩ := exists_ofModule_eq m
  obtain ⟨hdecls, hfunctions, hdiagnostics⟩ := foldl_keep {} m.kept.items
  obtain ⟨hnodup, hnew⟩ := Surface.nodup_keptFrom [] m.items
  rw [heq]
  refine ⟨hnodup, hdecls, hfunctions, foldl_keep_operators {} m.kept.items hnodup hnew, ?_⟩
  rw [report, hdiagnostics]
  exact hreported

/-- The items that are not kept leave reports only. -/
lemma ofModule_kept (m : Surface.Module) :
    ofModule m.kept = { ofModule m with diagnostics := [] } := by
  obtain ⟨ds, -, heq⟩ := exists_ofModule_eq m
  obtain ⟨ds', hreported, heq'⟩ := exists_ofModule_eq m.kept
  have hkept : m.kept.kept = m.kept :=
    congrArg Surface.Module.mk (Surface.keptFrom_keptFrom [] m.items)
  obtain rfl : ds' = [] := hreported.of_kept
  obtain ⟨-, -, hdiagnostics⟩ := foldl_keep {} m.kept.items
  rw [heq, heq', hkept]
  simp [report, hdiagnostics]

end Collected

lemma ofModule_program (m : Surface.Module) (fresh : Nat) :
    (Compiled.ofModule m fresh).program.decls = m.kept.variants.map .ofSpec ∧
      List.Forall₂ (fun f g => g.name = f.name.name ∧ g.params = f.params.map (·.name))
        m.kept.functions (Compiled.ofModule m fresh).program.functions := by
  have hkeeps := Collected.ofModule_keeps m
  obtain ⟨rs, k, hdoes, -, hrs⟩ := functions_log m fresh
  rw [Compiled.ofModule_eq hdoes, ← hkeeps.functions, List.forall₂_map_right_iff]
  exact ⟨hkeeps.decls, hrs.imp fun f r h => ⟨h.2.1, h.2.2.1⟩⟩

/-- Functions, types, constructors, predicates, accessors and match operators have one namespace,
and the items that are kept are those that come to it in turn and find their names free. The others
are reported, and without them the module compiles to the same program. -/
theorem one_namespace (m : Surface.Module) (fresh : Nat) :
    (Collected.ofModule m).Keeps m ∧
      (Compiled.ofModule m fresh).program.decls = m.kept.variants.map .ofSpec ∧
      List.Forall₂ (fun f g => g.name = f.name.name ∧ g.params = f.params.map (·.name))
        m.kept.functions (Compiled.ofModule m fresh).program.functions ∧
      ∃ ds, (∀ d ∈ ds, d.code.isDefinition = false) ∧
        (Compiled.ofModule m fresh).diagnostics = (Collected.ofModule m).diagnostics ++ ds ∧
        Compiled.ofModule m.kept fresh = ⟨(Compiled.ofModule m fresh).program, ds⟩ := by
  have hkept := Collected.ofModule_kept m
  obtain ⟨hdecls, hfunctions⟩ := ofModule_program m fresh
  obtain ⟨rs, k, hdoes, hcodes, -⟩ := functions_log m fresh
  have hdoes' : Does ((Collected.ofModule m.kept).functions.mapM
      (function (Collected.ofModule m.kept).registry)) fresh (rs.map (·.1)) k
        (rs.flatMap (·.2)) := by
    rw [hkept]
    exact hdoes
  refine ⟨Collected.ofModule_keeps m, hdecls, hfunctions, rs.flatMap (·.2), hcodes, ?_, ?_⟩
  · rw [Compiled.ofModule_eq hdoes]
  · rw [Compiled.ofModule_eq hdoes, Compiled.ofModule_eq hdoes', hkept]
    rfl

end Compile

end ClosedSum
