import ClosedSum.Eval.Value
import ClosedSum.Match.Operator
import Mathlib.Data.List.Nodup
import Mathlib.Tactic.Common

/-!
# Accepted definitions

A variant definition that is accepted has distinct labels and distinct fields in each case. Its
declarations list the cases in order, each with its place as tag, so a value belongs to one case at
most, and the schema of its operator says the same as its declarations.
-/

namespace ClosedSum

namespace Variant

lemma repetition?_eq_none {seen is : List Ident} (h : repetition? seen is = none) :
    (is.map (·.name)).Nodup ∧ ∀ i ∈ is, ∀ j ∈ seen, j.name ≠ i.name := by
  induction is generalizing seen with
  | nil => simp
  | cons i is ih =>
    simp only [repetition?] at h
    split at h
    · cases h
    · next hseen =>
      obtain ⟨hnodup, hfresh⟩ := ih h
      have hi : ∀ j ∈ seen, j.name ≠ i.name := by simpa using hseen
      refine ⟨?_, ?_⟩
      · rw [List.map_cons, List.nodup_cons]
        refine ⟨fun hmem => ?_, hnodup⟩
        obtain ⟨j, hj, hname⟩ := List.mem_map.mp hmem
        exact hfresh j hj i (by simp) hname.symm
      · intro j hj k hk
        rcases List.mem_cons.mp hj with rfl | hj
        · exact hi k hk
        · exact hfresh j hj k (by simp [hk])

lemma nodup_of_checkFields {c : CaseSpec} (h : checkFields c = .ok ()) :
    (c.fields.map (·.name.name)).Nodup := by
  unfold checkFields at h
  split at h
  · cases h
  · next hnone => simpa [Function.comp_def] using (repetition?_eq_none hnone).1

lemma nodup_of_checkCases {variant : String} {seen : List Ident} {cs : List CaseSpec}
    (h : checkCases variant seen cs = .ok ()) : (cs.map (·.label.name)).Nodup ∧
      (∀ c ∈ cs, ∀ j ∈ seen, j.name ≠ c.label.name) ∧
      ∀ c ∈ cs, (c.fields.map (·.name.name)).Nodup := by
  induction cs generalizing seen with
  | nil => simp
  | cons c cs ih =>
    simp only [checkCases] at h
    split at h
    · cases h
    · next hseen =>
      cases hfields : checkFields c with
      | error f =>
        rw [hfields] at h
        cases h
      | ok u =>
        rw [hfields] at h
        obtain ⟨hnodup, hfresh, hall⟩ := ih h
        have hc : ∀ j ∈ seen, j.name ≠ c.label.name := by simpa using hseen
        refine ⟨?_, ?_, List.forall_mem_cons.mpr ⟨nodup_of_checkFields hfields, hall⟩⟩
        · rw [List.map_cons, List.nodup_cons]
          refine ⟨fun hmem => ?_, hnodup⟩
          obtain ⟨c', hc', hname⟩ := List.mem_map.mp hmem
          exact hfresh c' hc' c.label (by simp) hname.symm
        · intro c' hc' j hj
          rcases List.mem_cons.mp hc' with rfl | hc'
          · exact hc j hj
          · exact hfresh c' hc' j (by simp [hj])

/-- A box is empty or holds one value. -/
def Spec.box : Spec :=
  ⟨⟨"Box", .none⟩, [], [⟨⟨"Empty", .none⟩, [], [], .none⟩,
    ⟨⟨"Full", .none⟩, [], [⟨⟨"value", .none⟩, []⟩], .none⟩], .none⟩

namespace Decls

/-- The accessors of all fields, by name. -/
def accessors (d : Decls) : List String := d.cases.flatMap fun c => c.fields.map (·.accessor)

/-- The case that a value is an instance of. -/
def caseOf? (d : Decls) (v : Eval.Value) : Option CaseDecl :=
  d.cases.find? fun c => (Eval.Case.ofDecl c).holds v

lemma exists_of_mem {s : Spec} {c : CaseDecl} (h : c ∈ (ofSpec s).cases) :
    ∃ cs tag, cs ∈ s.cases ∧ c = ofCase s.name.name cs tag ∧ (ofSpec s).cases[tag]? = some c := by
  obtain ⟨tag, htag⟩ := List.mem_iff_getElem?.mp h
  have hcase := case?_ofSpec s tag
  rw [case?, htag] at hcase
  obtain ⟨cs, hcs, rfl⟩ := Option.map_eq_some_iff.mp hcase.symm
  exact ⟨cs, tag, List.mem_of_getElem? hcs, rfl, htag⟩

/-- A case of a definition is its declaration at the place that its tag tells. -/
lemma getElem?_tag {s : Spec} {c : CaseDecl} (h : c ∈ (ofSpec s).cases) :
    (ofSpec s).cases[c.tag]? = some c := by
  obtain ⟨cs, tag, -, rfl, htag⟩ := exists_of_mem h
  exact htag

lemma parent_of_mem {s : Spec} {c : CaseDecl} (h : c ∈ (ofSpec s).cases) :
    c.parent = s.name.name := by
  obtain ⟨cs, tag, -, rfl, -⟩ := exists_of_mem h
  rfl

/-- The accessor of a field is named for the variant, the case and the field. -/
lemma accessor_of_mem {s : Spec} {c : CaseDecl} (h : c ∈ (ofSpec s).cases) {f : FieldDecl}
    (hf : f ∈ c.fields) : f.accessor = accessorName s.name.name c.label f.name := by
  obtain ⟨cs, tag, -, rfl, -⟩ := exists_of_mem h
  obtain ⟨fs, -, rfl⟩ := List.mem_map.mp hf
  rfl

lemma map_label_ofSpec (s : Spec) :
    (ofSpec s).cases.map (·.label) = s.cases.map (·.label.name) := by
  apply List.ext_getElem?
  intro i
  rw [List.getElem?_map, List.getElem?_map, show (ofSpec s).cases[i]? = _ from case?_ofSpec s i,
    Option.map_map]
  rfl

lemma eq_of_tag_eq {s : Spec} {c c' : CaseDecl} (h : c ∈ (ofSpec s).cases)
    (h' : c' ∈ (ofSpec s).cases) (htag : c.tag = c'.tag) : c = c' := by
  have hc := getElem?_tag h
  rw [htag, getElem?_tag h'] at hc
  exact (Option.some.inj hc).symm

/-- A value is an instance of one case at most. -/
lemma eq_of_holds {s : Spec} {c c' : CaseDecl} (h : c ∈ (ofSpec s).cases)
    (h' : c' ∈ (ofSpec s).cases) {v : Eval.Value} (hv : (Eval.Case.ofDecl c).holds v = true)
    (hv' : (Eval.Case.ofDecl c').holds v = true) : c = c' := by
  cases v with
  | variant u n t fields =>
    apply eq_of_tag_eq h h'
    have ht : t = c.tag := of_decide_eq_true (Bool.and_eq_true_iff.mp hv).2
    have ht' : t = c'.tag := of_decide_eq_true (Bool.and_eq_true_iff.mp hv').2
    exact ht.symm.trans ht'
  | _ => cases hv

lemma mem_of_caseOf? {d : Decls} {c : CaseDecl} {v : Eval.Value} (h : d.caseOf? v = some c) :
    c ∈ d.cases ∧ (Eval.Case.ofDecl c).holds v = true := by
  unfold caseOf? at h
  exact ⟨List.mem_of_find?_eq_some h,
    List.find?_some (p := fun c => (Eval.Case.ofDecl c).holds v) h⟩

lemma caseOf?_eq_some_iff {s : Spec} {c : CaseDecl} {v : Eval.Value} :
    (ofSpec s).caseOf? v = some c ↔
      c ∈ (ofSpec s).cases ∧ (Eval.Case.ofDecl c).holds v = true := by
  refine ⟨mem_of_caseOf?, fun ⟨hc, hv⟩ => ?_⟩
  cases hfind : (ofSpec s).caseOf? v with
  | none => exact absurd hv (List.find?_eq_none.mp hfind c hc)
  | some c' =>
    obtain ⟨hc', hv'⟩ := mem_of_caseOf? hfind
    rw [eq_of_holds hc' hc hv' hv]

end Decls

end Variant

namespace Match

variable {s : Variant.Spec} {d : Definition}

lemma Definition.ofSpec_ok (h : Definition.ofSpec s = .ok d) : s.check = .ok () ∧
    d = ⟨.ofSpec s, ⟨Variant.operatorName s.name.name, .ofDecls (.ofSpec s)⟩⟩ := by
  unfold ofSpec at h
  cases hcheck : s.check with
  | error f =>
    rw [hcheck] at h
    cases h
  | ok u =>
    rw [hcheck] at h
    cases h
    exact ⟨rfl, rfl⟩

/-- The labels of an accepted definition are distinct. -/
lemma Definition.labels_nodup (h : Definition.ofSpec s = .ok d) :
    (d.decls.cases.map (·.label)).Nodup := by
  obtain ⟨hcheck, rfl⟩ := Definition.ofSpec_ok h
  rw [Variant.Decls.map_label_ofSpec]
  exact (Variant.nodup_of_checkCases hcheck).1

/-- What a schema keeps of a case. -/
def Entry.ofDecl (c : Variant.CaseDecl) : Entry :=
  ⟨c.label, c.tag, c.predicate, c.fields.map (·.name)⟩

lemma Schema.entries_ofDecls (d : Variant.Decls) :
    (Schema.ofDecls d).entries = d.cases.map Entry.ofDecl := rfl

lemma Schema.labels_ofDecls (d : Variant.Decls) :
    (Schema.ofDecls d).labels = d.cases.map (·.label) := by
  simp [labels, entries_ofDecls, Entry.ofDecl]

/-- The entry of a label is that of the case declared with it. -/
lemma Schema.find?_ofDecls {d : Variant.Decls} {label : String} {e : Entry}
    (h : (Schema.ofDecls d).find? label = some e) :
    ∃ c ∈ d.cases, c.label = label ∧ e = Entry.ofDecl c := by
  have hmem : e ∈ d.cases.map Entry.ofDecl := List.mem_of_find?_eq_some h
  obtain ⟨c, hc, rfl⟩ := List.mem_map.mp hmem
  have hlabel : (Entry.ofDecl c).label = label := by simpa using List.find?_some h
  exact ⟨c, hc, hlabel, rfl⟩

/-- The schema of an accepted definition tells of its cases, all of one variant. -/
lemma Definition.find?_schema (h : Definition.ofSpec s = .ok d) {label : String} {e : Entry}
    (he : d.operator.schema.find? label = some e) :
    ∃ c ∈ d.decls.cases, c.label = label ∧ e = Entry.ofDecl c ∧
      d.operator.schema.variant = c.parent := by
  obtain ⟨-, rfl⟩ := Definition.ofSpec_ok h
  obtain ⟨c, hc, hlabel, he⟩ := Schema.find?_ofDecls he
  exact ⟨c, hc, hlabel, he, (Variant.Decls.parent_of_mem hc).symm⟩

end Match

end ClosedSum
