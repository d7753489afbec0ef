import ClosedSum.Eval.Interpreter
import ClosedSum.Proofs.AlikeMatches
import ClosedSum.Proofs.Collecting
import ClosedSum.Proofs.Derivation

/-!
# Alike modules

What is kept of a module depends on the names of its items and not on the places where they stand.
Modules with the same variants, and with functions of the same names whose bodies are compiled
alike, become programs with the same declarations and alike functions.
-/

namespace ClosedSum

open ClosedSum.Core (Names)

namespace Variant

lemma repetition?_isNone_erase (seen is : List Ident) :
    (repetition? (seen.map Ident.erase) (is.map Ident.erase)).isNone =
      (repetition? seen is).isNone := by
  induction is generalizing seen with
  | nil => rfl
  | cons i is ih =>
    have hfind : (seen.map Ident.erase).find? (·.name = i.erase.name) =
        (seen.find? (·.name = i.name)).map Ident.erase := by
      rw [List.find?_map]
      rfl
    rw [List.map_cons, repetition?, repetition?, hfind]
    cases seen.find? (·.name = i.name) with
    | none => exact ih (i :: seen)
    | some first => rfl

lemma checkFields_isOk_erase (c : CaseSpec) :
    (checkFields c.erase).toBool = (checkFields c).toBool := by
  have h := repetition?_isNone_erase [] (c.fields.map (·.name))
  have hmap : (c.fields.map (·.name)).map Ident.erase = c.erase.fields.map (·.name) := by
    simp [CaseSpec.erase, FieldSpec.erase]
  rw [List.map_nil, hmap] at h
  unfold checkFields
  cases hc : repetition? [] (c.erase.fields.map (·.name)) <;>
    cases hc' : repetition? [] (c.fields.map (·.name)) <;> rw [hc, hc'] at h <;>
      first | rfl | cases h

lemma checkCases_isOk_erase (variant variant' : String) (seen : List Ident) (cs : List CaseSpec) :
    (checkCases variant (seen.map Ident.erase) (cs.map CaseSpec.erase)).toBool =
      (checkCases variant' seen cs).toBool := by
  induction cs generalizing seen with
  | nil => rfl
  | cons c cs ih =>
    have hfind : (seen.map Ident.erase).find? (·.name = c.erase.label.name) =
        (seen.find? (·.name = c.label.name)).map Ident.erase := by
      rw [List.find?_map]
      rfl
    have hfields := checkFields_isOk_erase c
    rw [List.map_cons, checkCases, checkCases, hfind]
    cases seen.find? (·.name = c.label.name) with
    | some first => rfl
    | none =>
      dsimp only [Option.map_none]
      cases hc : checkFields c.erase <;> cases hc' : checkFields c <;> rw [hc, hc'] at hfields
      · rfl
      · cases hfields
      · cases hfields
      · exact ih (c.label :: seen)

/-- Whether a definition is accepted does not depend on its spans. -/
lemma Spec.check_isOk_erase (s : Spec) : s.erase.check.toBool = s.check.toBool :=
  checkCases_isOk_erase _ _ [] s.cases

end Variant

namespace Match

/-- What an accepted definition gives. -/
def Definition.given (s : Variant.Spec) : Definition :=
  ⟨.ofSpec s, ⟨Variant.operatorName s.name.name, .ofDecls (.ofSpec s)⟩⟩

lemma Definition.ofSpec_cases (s : Variant.Spec) :
    s.check.toBool = true ∧ Definition.ofSpec s = .ok (given s) ∨
      s.check.toBool = false ∧ ∃ f, Definition.ofSpec s = .error f := by
  unfold ofSpec
  cases hcheck : s.check with
  | ok u => exact .inl ⟨rfl, rfl⟩
  | error f => exact .inr ⟨rfl, f, rfl⟩

lemma Schema.ofDecls_erase (s : Variant.Spec) :
    Schema.ofDecls (.ofSpec s.erase) = .ofDecls (.ofSpec s) := by
  simp [ofDecls, Variant.Decls.ofSpec, Variant.Spec.erase, Ident.erase, List.zipIdx_map,
    Function.comp_def, Variant.Decls.ofCase, Variant.CaseSpec.erase, Variant.Decls.ofField,
    Variant.FieldSpec.erase, Prod.map]

end Match

namespace Eval

lemma caseGlobals_erase (s : Variant.Spec) :
    (Variant.Decls.ofSpec s.erase).cases.flatMap caseGlobals =
      (Variant.Decls.ofSpec s).cases.flatMap caseGlobals := by
  simp [Variant.Decls.ofSpec, Variant.Spec.erase, Ident.erase, List.zipIdx_map,
    List.flatMap_map, caseGlobals, Case.ofDecl,
    Function.comp_def, Variant.Decls.ofCase, Variant.CaseSpec.erase, Variant.Decls.ofField,
    Variant.FieldSpec.erase, Prod.map]

end Eval

namespace Compile

lemma map_name_caseGlobals (variant : String) (c : Variant.CaseSpec) (tag : Nat) :
    (caseGlobals c (Variant.Decls.ofCase variant c tag)).map (·.name) =
      Variant.caseTypeName variant c.label.name :: Variant.predicateName variant c.label.name ::
        c.fields.map fun f => Variant.accessorName variant c.label.name f.name.name := by
  have hzip : (c.fields.map id).zip (c.fields.map (Variant.Decls.ofField variant c.label.name)) =
      c.fields.map fun f => (f, Variant.Decls.ofField variant c.label.name f) := List.zip_map'
  rw [List.map_id] at hzip
  simp [caseGlobals, Variant.Decls.ofCase, hzip, Variant.Decls.ofField]

/-- The names that a variant takes. -/
lemma map_name_variantGlobals (s : Variant.Spec) :
    (variantGlobals s (.given s)).map (·.name) =
      s.name.name :: Variant.operatorName s.name.name :: s.cases.flatMap fun c =>
        Variant.caseTypeName s.name.name c.label.name ::
          Variant.predicateName s.name.name c.label.name ::
            c.fields.map fun f => Variant.accessorName s.name.name c.label.name f.name.name := by
  have hzip : ∀ (cs : List Variant.CaseSpec) (tag : Nat),
      ((cs.zip ((cs.zipIdx tag).map fun p => Variant.Decls.ofCase s.name.name p.1 p.2)).flatMap
        fun p => caseGlobals p.1 p.2).map (·.name) = cs.flatMap fun c =>
          Variant.caseTypeName s.name.name c.label.name ::
            Variant.predicateName s.name.name c.label.name ::
              c.fields.map fun f => Variant.accessorName s.name.name c.label.name f.name.name := by
    intro cs
    induction cs with
    | nil => exact fun _ => rfl
    | cons c cs ih =>
      intro tag
      rw [List.zipIdx_cons, List.map_cons, List.zip_cons_cons, List.flatMap_cons, List.map_append,
        List.flatMap_cons, ih, map_name_caseGlobals]
  rw [variantGlobals, List.map_cons, List.map_cons, ← hzip s.cases 0]
  rfl

lemma map_name_variantGlobals_erase (s : Variant.Spec) :
    (variantGlobals s.erase (.given s.erase)).map (·.name) =
      (variantGlobals s (.given s)).map (·.name) := by
  rw [map_name_variantGlobals, map_name_variantGlobals]
  simp [Variant.Spec.erase, Ident.erase, List.flatMap_map, Variant.CaseSpec.erase,
    Variant.FieldSpec.erase, Function.comp_def]

/-- Whether names are free depends on the names alone. -/
lemma clashes_eq_nil_iff {known known' gs gs' : List Global}
    (hknown : known.map (·.name) = known'.map (·.name)) (hgs : gs.map (·.name) = gs'.map (·.name)) :
    clashes known gs = [] ↔ clashes known' gs' = [] := by
  induction gs generalizing known known' gs' with
  | nil =>
    obtain rfl : gs' = [] := by simpa using hgs.symm
    exact Iff.rfl
  | cons g gs ih =>
    cases gs' with
    | nil => cases hgs
    | cons g' gs' =>
      obtain ⟨hg, hgs⟩ := List.cons.inj hgs
      have hfind := isSome_find?_congr Global.name hknown hg
      rw [clashes, clashes]
      cases hfirst : known.find? (·.name = g.name) <;>
        cases hfirst' : known'.find? (·.name = g'.name) <;> rw [hfirst, hfirst'] at hfind
      · exact ih (congrArg₂ List.cons hg hknown) hgs
      · cases hfind
      · cases hfind
      · simp

namespace Collected

/-- Two collections of items that differ in spans and in the bodies of functions. -/
structure Alike (F : Surface.Function → Surface.Function → Prop) (c c' : Collected) : Prop where
  globals : c.globals.map (·.name) = c'.globals.map (·.name)
  decls : c.decls.flatMap (fun d => d.cases.flatMap Eval.caseGlobals) =
    c'.decls.flatMap fun d => d.cases.flatMap Eval.caseGlobals
  registry : c.registry = c'.registry
  functions : List.Forall₂ F c.functions c'.functions

end Collected

/-- Items that differ in spans, or in the body of a function. -/
inductive ItemAlike (F : Surface.Function → Surface.Function → Prop) :
    Surface.Item → Surface.Item → Prop
  | variant {s s' : Variant.Spec} (h : s.erase = s'.erase) : ItemAlike F (.variant s) (.variant s')
  | function {f f' : Surface.Function} (hname : f.name.name = f'.name.name) (h : F f f') :
    ItemAlike F (.function f) (.function f')

namespace Collected

variable {F : Surface.Function → Surface.Function → Prop} {c c' : Collected}

/-- Names are taken on both sides, or on neither. -/
lemma Alike.take (h : Alike F c c') {gs gs' : List Global}
    (hgs : gs.map (·.name) = gs'.map (·.name)) {keep keep' : Collected → Collected}
    (hkeep : Alike F (keep { c with globals := gs.reverse ++ c.globals })
      (keep' { c' with globals := gs'.reverse ++ c'.globals })) :
    Alike F (c.take gs keep) (c'.take gs' keep') := by
  have hiff := clashes_eq_nil_iff h.globals hgs
  unfold Collected.take
  cases hclashes : clashes c.globals gs with
  | nil =>
    rw [hiff.mp hclashes]
    exact hkeep
  | cons d ds =>
    cases hclashes' : clashes c'.globals gs' with
    | nil =>
      rw [hiff.mpr hclashes'] at hclashes
      cases hclashes
    | cons d' ds' => exact ⟨h.globals, h.decls, h.registry, h.functions⟩

lemma Alike.add (h : Alike F c c') {i i' : Surface.Item} (hi : ItemAlike F i i') :
    Alike F (c.add i) (c'.add i') := by
  cases hi with
  | @function f f' hname hf =>
    have hglobals : [functionGlobal f].map (·.name) = [functionGlobal f'].map (·.name) :=
      congrArg (fun name => [name]) hname
    simp only [Collected.add]
    refine h.take hglobals ⟨?_, h.decls, h.registry, ?_⟩
    · simp [functionGlobal, hname, h.globals]
    · exact List.rel_append h.functions (.cons hf .nil)
  | @variant s s' hs =>
    have hcheck : s.check.toBool = s'.check.toBool := by
      rw [← s.check_isOk_erase, hs, s'.check_isOk_erase]
    have hschema : Match.Schema.ofDecls (.ofSpec s) = .ofDecls (.ofSpec s') := by
      rw [← Match.Schema.ofDecls_erase, hs, Match.Schema.ofDecls_erase]
    have hvalues : (Variant.Decls.ofSpec s).cases.flatMap Eval.caseGlobals =
        (Variant.Decls.ofSpec s').cases.flatMap Eval.caseGlobals := by
      rw [← Eval.caseGlobals_erase, hs, Eval.caseGlobals_erase]
    have hname : s.name.name = s'.name.name := congrArg (·.name.name) hs
    have hglobals : (variantGlobals s (.given s)).map (·.name) =
        (variantGlobals s' (.given s')).map (·.name) := by
      rw [← map_name_variantGlobals_erase, hs, map_name_variantGlobals_erase]
    rcases Match.Definition.ofSpec_cases s with ⟨hok, hd⟩ | ⟨hok, f, hd⟩ <;>
      rcases Match.Definition.ofSpec_cases s' with ⟨hok', hd'⟩ | ⟨hok', f', hd'⟩
    · simp only [Collected.add, hd, hd']
      refine h.take hglobals ⟨?_, ?_, ?_, h.functions⟩
      · simp [hglobals, h.globals, List.map_reverse]
      · simp [h.decls, Match.Definition.given, hvalues]
      · simp only [h.registry, Match.Definition.given, hschema, hname]
    · rw [hok, hok'] at hcheck
      cases hcheck
    · rw [hok, hok'] at hcheck
      cases hcheck
    · simp only [Collected.add, hd, hd']
      exact ⟨h.globals, h.decls, h.registry, h.functions⟩

/-- Modules whose items are alike keep items that are alike. -/
theorem alike_ofModule {m m' : Surface.Module} (h : List.Forall₂ (ItemAlike F) m.items m'.items) :
    Alike F (ofModule m) (ofModule m') := by
  have hfoldl : ∀ {is is' : List Surface.Item}, List.Forall₂ (ItemAlike F) is is' →
      ∀ {c c' : Collected}, Alike F c c' → Alike F (is.foldl add c) (is'.foldl add c') := by
    intro is is' his
    induction his with
    | nil => exact fun hc => hc
    | cons hi _ ih => exact fun hc => ih (hc.add hi)
  exact hfoldl h ⟨rfl, rfl, rfl, .nil⟩

end Collected

end Compile

end ClosedSum
