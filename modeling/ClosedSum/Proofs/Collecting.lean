import ClosedSum.Compile.Module
import ClosedSum.Proofs.Definition

/-!
# Collected items

An item is kept only if all of its names are free, so the variants that are kept have names of their
own, and no two of their cases are of one variant and have one tag.
-/

namespace ClosedSum

/-- No two cases of a program are of one variant and have one tag. -/
def Core.Program.Distinct (p : Core.Program) : Prop :=
  ∀ d ∈ p.decls, ∀ d' ∈ p.decls, ∀ c ∈ d.cases, ∀ c' ∈ d'.cases,
    c.parent = c'.parent → c.tag = c'.tag → c = c'

namespace Compile

/-- Without a report, no name was taken before. -/
lemma name_ne_of_clashes_eq_nil {known gs : List Global} (h : clashes known gs = []) :
    ∀ g ∈ gs, ∀ k ∈ known, k.name ≠ g.name := by
  induction gs generalizing known with
  | nil => simp
  | cons g gs ih =>
    rw [clashes] at h
    cases hfind : known.find? (·.name = g.name) with
    | some first =>
      rw [hfind] at h
      cases h
    | none =>
      rw [hfind] at h
      have hfree : ∀ k ∈ known, k.name ≠ g.name := by simpa using hfind
      have hrest := ih h
      exact List.forall_mem_cons.mpr
        ⟨hfree, fun g' hg' k hk => hrest g' hg' k (List.mem_cons_of_mem _ hk)⟩

namespace Collected

variable {c : Collected} {i : Surface.Item} {m : Surface.Module}

lemma take_cases (c : Collected) (gs : List Global) (keep : Collected → Collected) :
    (clashes c.globals gs = [] ∧
      c.take gs keep = keep { c with globals := gs.reverse ++ c.globals }) ∨
        ∃ ds, c.take gs keep = c.report ds := by
  unfold take
  split
  · next hclashes => exact .inl ⟨hclashes, rfl⟩
  · exact .inr ⟨_, rfl⟩

/-- An item is reported and leaves the others alone, or its names are free and it is kept. -/
lemma add_cases (c : Collected) (i : Surface.Item) :
    (∃ ds, c.add i = c.report ds) ∨
      (∃ s d, i = .variant s ∧ Match.Definition.ofSpec s = .ok d ∧
        clashes c.globals (variantGlobals s d) = [] ∧
          c.add i = { c with
            globals := (variantGlobals s d).reverse ++ c.globals
            decls := c.decls ++ [d.decls]
            registry := c.registry.insert d.operator }) ∨
      ∃ f, i = .function f ∧ clashes c.globals [functionGlobal f] = [] ∧
        c.add i = { c with
          globals := functionGlobal f :: c.globals
          functions := c.functions ++ [f] } := by
  cases i with
  | variant s =>
    cases hspec : Match.Definition.ofSpec s with
    | error f => exact .inl ⟨[f.diagnostic], by simp only [add, hspec]⟩
    | ok d =>
      rcases c.take_cases (variantGlobals s d) fun c =>
        { c with decls := c.decls ++ [d.decls], registry := c.registry.insert d.operator }
        with ⟨hclashes, htake⟩ | ⟨ds, htake⟩
      · exact .inr (.inl ⟨s, d, rfl, hspec, hclashes, by simp only [add, hspec, htake]⟩)
      · exact .inl ⟨ds, by simp only [add, hspec, htake]⟩
  | function f =>
    rcases c.take_cases [functionGlobal f] fun c => { c with functions := c.functions ++ [f] }
      with ⟨hclashes, htake⟩ | ⟨ds, htake⟩
    · exact .inr (.inr ⟨f, rfl, hclashes, htake⟩)
    · exact .inl ⟨ds, htake⟩

/-- What is true of collected items: they are items of the module, and no two variants among them
have one name. -/
structure Faithful (m : Surface.Module) (c : Collected) : Prop where
  functions : ∀ f ∈ c.functions, .function f ∈ m.items
  decls : ∀ d ∈ c.decls, ∃ s, .variant s ∈ m.items ∧ d = .ofSpec s
  known : ∀ d ∈ c.decls, ∃ g ∈ c.globals, g.name = d.name
  nodup : (c.decls.map (·.name)).Nodup

lemma Faithful.add (h : c.Faithful m) (hi : i ∈ m.items) : (c.add i).Faithful m := by
  rcases c.add_cases i with ⟨ds, heq⟩ | ⟨s, d, rfl, hspec, hclashes, heq⟩ | ⟨f, rfl, -, heq⟩ <;>
    rw [heq]
  · exact ⟨h.functions, h.decls, h.known, h.nodup⟩
  · obtain ⟨-, rfl⟩ := Match.Definition.ofSpec_ok hspec
    have hfree := name_ne_of_clashes_eq_nil hclashes ⟨s.name.name, .type, s.name.span⟩
      (List.mem_cons_self ..)
    refine ⟨h.functions, ?_, ?_, ?_⟩
    · simp only [List.forall_mem_append, List.forall_mem_singleton]
      exact ⟨h.decls, s, hi, rfl⟩
    · simp only [List.forall_mem_append, List.forall_mem_singleton]
      constructor
      · intro d hd
        obtain ⟨g, hg, hname⟩ := h.known d hd
        exact ⟨g, List.mem_append_right _ hg, hname⟩
      · exact ⟨_, List.mem_append_left _ (List.mem_reverse.mpr (List.mem_cons_self ..)), rfl⟩
    · rw [List.map_append, List.nodup_append]
      refine ⟨h.nodup, List.nodup_singleton _, ?_⟩
      intro name hname name' hname'
      obtain ⟨d, hd, rfl⟩ := List.mem_map.mp hname
      obtain rfl : name' = (Variant.Decls.ofSpec s).name := List.mem_singleton.mp hname'
      obtain ⟨g, hg, heq⟩ := h.known d hd
      rw [← heq]
      exact hfree g hg
  · refine ⟨?_, h.decls, fun d hd => ?_, h.nodup⟩
    · simp only [List.forall_mem_append, List.forall_mem_singleton]
      exact ⟨h.functions, hi⟩
    · obtain ⟨g, hg, hname⟩ := h.known d hd
      exact ⟨g, List.mem_cons_of_mem _ hg, hname⟩

theorem faithful_ofModule (m : Surface.Module) : (ofModule m).Faithful m := by
  refine List.foldlRecOn m.items add ⟨?_, ?_, ?_, List.nodup_nil⟩ fun c hc i hi => hc.add hi
  all_goals exact List.forall_mem_nil _

theorem Faithful.distinct (h : c.Faithful m) (functions : List Core.Function) :
    Core.Program.Distinct ⟨c.decls, functions⟩ := by
  intro d hd d' hd' e he e' he' hparent htag
  obtain ⟨s, -, rfl⟩ := h.decls d hd
  obtain ⟨s', -, rfl⟩ := h.decls d' hd'
  rw [Variant.Decls.parent_of_mem he, Variant.Decls.parent_of_mem he'] at hparent
  have hdecls : Variant.Decls.ofSpec s = .ofSpec s' :=
    List.inj_on_of_nodup_map h.nodup hd hd' hparent
  rw [← hdecls] at he'
  exact Variant.Decls.eq_of_tag_eq he he' htag

end Collected

end Compile

end ClosedSum
