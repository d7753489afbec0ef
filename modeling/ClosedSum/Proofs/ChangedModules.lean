import ClosedSum.Proofs.AlikePrograms
import ClosedSum.Proofs.Changes

/-!
# Changed modules

A module may be written again with changes inside its functions, or of functions as a whole. If the
changes are harmless, its program is alike.
-/

namespace ClosedSum

open ClosedSum.Core (Names)

namespace Surface

/-- One item is another, written again with changes. `F` tells how a function may change as a
whole. -/
inductive Item.Changed (F : Function → Function → Prop) (S : List Stmt → List Stmt → Prop)
    (C : Clause → Clause → Prop) : Item → Item → Prop
  | variant {s s' : Variant.Spec} (h : s.erase = s'.erase) :
    Changed F S C (.variant s) (.variant s')
  | function {f g : Function} (hname : f.name.name = g.name.name)
    (hparams : f.params.map (·.name) = g.params.map (·.name)) (hbody : f.body.Changed S C g.body) :
    Changed F S C (.function f) (.function g)
  | change {f g : Function} (hname : f.name.name = g.name.name) (h : F f g) :
    Changed F S C (.function f) (.function g)

def Module.Changed (F : Function → Function → Prop) (S : List Stmt → List Stmt → Prop)
    (C : Clause → Clause → Prop) (m m' : Module) : Prop :=
  List.Forall₂ (Item.Changed F S C) m.items m'.items

end Surface

namespace Core.Names

variable {N : Names} {K : String → Prop} {fs : List String} {σ : String → String}

lemma carries_on (hK : ∀ a, K a → NoPercent a) (hfs : ∀ f ∈ fs, K f) : (on K).Carries K fs id := by
  refine ⟨?_, fun a ha => ⟨rfl, ha⟩, fun a _ => .inl rfl, fun f hf => ⟨rfl, hfs f hf⟩⟩
  rintro a b ⟨rfl, ha⟩
  exact ⟨hK a ha, hK a ha⟩

/-- The parameters of functions bind like those of clauses. -/
lemma bindAll_eq_bindParams (N : Names) (is js : List Ident) :
    N.bindAll (is.map (·.name)) (js.map (·.name)) =
      N.bindParams (is.map .named) (js.map .named) := by
  induction is generalizing js N with
  | nil => simp [bindAll, bindParams]
  | cons i is ih =>
    cases js with
    | nil => simp [bindAll, bindParams]
    | cons j js =>
      simp only [List.map_cons, bindAll, bindParams, Match.Param.name?, bind?_some]
      exact ih (N.bind i.name j.name) js

lemma filterMap_name?_named (is : List Ident) :
    (is.map Match.Param.named).filterMap (·.name?) = is.map (·.name) := by
  simp [List.filterMap_map, Function.comp_def]

lemma map_name?_named_congr {is js : List Ident} (h : is.map (·.name) = js.map (·.name)) :
    (is.map Match.Param.named).map (·.name?) = (js.map Match.Param.named).map (·.name?) := by
  simpa [Function.comp_def] using congrArg (List.map some) h

end Core.Names

namespace Compile

open Surface

variable {registry : Match.Registry} {K : String → Prop}

/-- Functions are alike if their bodies are, under their parameters, where names stand for
themselves. -/
lemma functionAlike_of_parallel {f g : Function} (hname : f.name.name = g.name.name)
    (hlen : f.params.length = g.params.length)
    (h : Parallel (Core.Expr.Alike ((Names.on K).bindAll (f.params.map (·.name))
      (g.params.map (·.name)))) (expr registry f.body) (expr registry g.body)) :
    FunctionAlike registry f g := by
  refine ⟨hname, hlen, fun p p' => (h p p').mono fun a b _ => ?_⟩
  exact Names.bindAll_mono (by simpa using hlen) fun _ hab => hab.1

lemma functionAlike_of_changed {S : List Stmt → List Stmt → Prop} {C : Clause → Clause → Prop}
    (hSC : Harmless registry K S C) (hK : ∀ a, K a → NoPercent a)
    (hacc : ∀ f ∈ registry.accessors, K f) {f g : Function} (hname : f.name.name = g.name.name)
    (hparams : f.params.map (·.name) = g.params.map (·.name)) (hbody : f.body.Changed S C g.body)
    (hf : ∀ a ∈ f.names, K a) : FunctionAlike registry f g := by
  simp only [Function.names, List.cons_append, List.forall_mem_cons, List.forall_mem_append] at hf
  have hlen : f.params.length = g.params.length := by simpa using congrArg List.length hparams
  have hcarries := (Names.carries_on hK hacc).bindParams (Names.map_name?_named_congr hparams)
    (by rw [Names.filterMap_name?_named]; exact hf.2.1)
  rw [shielded_id, ← Names.bindAll_eq_bindParams] at hcarries
  exact functionAlike_of_parallel hname hlen (expr_changed hSC hbody hcarries hf.2.2)

/-- A module with harmless changes has an alike program. -/
theorem program_changed {F : Function → Function → Prop} {S : List Stmt → List Stmt → Prop}
    {C : Clause → Clause → Prop} {m m' : Module} (h : m.Changed F S C m')
    (hK : ∀ a, K a → NoPercent a) (hm : ∀ a ∈ m.names, K a)
    (hacc : ∀ f ∈ (Collected.ofModule m).registry.accessors, K f)
    (hSC : Harmless (Collected.ofModule m).registry K S C)
    (hF : ∀ f g, F f g → f.name.name = g.name.name → (∀ a ∈ f.names, K a) →
      FunctionAlike (Collected.ofModule m).registry f g) (n n' : Nat) :
    (Compiled.ofModule m n).program.Alike (Compiled.ofModule m' n').program := by
  refine program_alike ?_ n n'
  have hitems : ∀ i ∈ m.items, ∀ a ∈ i.names, K a := fun i hi a ha =>
    hm a (List.mem_flatMap.mpr ⟨i, hi, ha⟩)
  unfold Module.Changed at h
  generalize m.items = is at h hitems
  generalize m'.items = is' at h
  induction h with
  | nil => exact .nil
  | cons hi _ ih =>
    obtain ⟨hnames, hitems⟩ := List.forall_mem_cons.mp hitems
    refine .cons ?_ (ih hitems)
    cases hi with
    | variant h => exact .variant h
    | function hname hparams hbody =>
      exact .function hname (functionAlike_of_changed hSC hK hacc hname hparams hbody hnames)
    | change hname h => exact .function hname (hF _ _ h hname hnames)

end Compile

section Accessors

open Compile

lemma Match.Schema.accessors_ofSpec (s : Variant.Spec) :
    (Match.Schema.ofDecls (.ofSpec s)).accessors = (Variant.Decls.ofSpec s).accessors := by
  simp [accessors, ofDecls, Variant.Decls.accessors, Variant.Decls.ofSpec, Variant.Decls.ofCase,
    Variant.Decls.ofField, List.flatMap_map, Function.comp_def]

/-- The accessors that matches refer to are those of the variants that are kept. -/
theorem Compile.Collected.mem_accessors {m : Surface.Module} :
    ∀ f ∈ (Collected.ofModule m).registry.accessors,
      ∃ d ∈ (Collected.ofModule m).decls, f ∈ d.accessors := by
  let P (c : Collected) : Prop := ∀ o ∈ c.registry.operators,
    ∃ d ∈ c.decls, o.schema.accessors = d.accessors
  have hP : P (Collected.ofModule m) := by
    refine List.foldlRecOn m.items Collected.add (List.forall_mem_nil _) fun c hc i _ => ?_
    rcases c.add_cases i with ⟨ds, heq⟩ | ⟨s, d, -, hspec, -, heq⟩ | ⟨f, -, -, heq⟩ <;> rw [heq]
    · exact hc
    · intro o ho
      rcases List.mem_cons.mp ho with rfl | ho
      · obtain ⟨-, rfl⟩ := Match.Definition.ofSpec_ok hspec
        exact ⟨_, List.mem_append_right _ (List.mem_singleton_self _),
          Match.Schema.accessors_ofSpec s⟩
      · obtain ⟨d', hd', haccessors⟩ := hc o (List.mem_of_mem_filter ho)
        exact ⟨d', List.mem_append_left _ hd', haccessors⟩
    · exact hc
  intro f hf
  obtain ⟨o, ho, hfo⟩ := List.mem_flatMap.mp hf
  obtain ⟨d, hd, haccessors⟩ := hP o ho
  exact ⟨d, hd, haccessors ▸ hfo⟩

lemma Variant.Spec.noPercent_of_names {s : Variant.Spec}
    (h : ∀ a ∈ s.names, ClosedSum.NoPercent a) : s.NoPercent := by
  simp only [names, CaseSpec.names, List.forall_mem_cons, List.mem_flatMap] at h
  refine ⟨h.1, fun c hc => h.2 _ ⟨c, hc, List.mem_cons_self ..⟩, fun c hc f hf => ?_⟩
  exact h.2 _ ⟨c, hc, List.mem_cons_of_mem _ (List.mem_map_of_mem hf)⟩

/-- No accessor of a module from a text holds a percent sign. -/
theorem Compile.Collected.noPercent_accessors {m : Surface.Module}
    (hm : ∀ a ∈ m.names, ClosedSum.NoPercent a) :
    ∀ f ∈ (Collected.ofModule m).registry.accessors, ClosedSum.NoPercent f := by
  intro f hf
  obtain ⟨d, hd, hfd⟩ := Collected.mem_accessors f hf
  obtain ⟨s, hs, rfl⟩ := (Collected.faithful_ofModule m).decls d hd
  refine Variant.Decls.noPercent_accessors (Variant.Spec.noPercent_of_names fun a ha => ?_) f hfd
  exact hm a (List.mem_flatMap.mpr ⟨_, hs, ha⟩)

end Accessors

end ClosedSum
