import ClosedSum.Proofs.ChangedModules

/-!
# Unused parameters

The value of a name makes no difference to code that does not mention the name, even if closures
keep the scope in which it is bound. A parameter that is reported as unused is such a name in the
body of its clause, so `_` may stand in its place.
-/

namespace ClosedSum

open ClosedSum.Core (Names)

lemma Match.Param.mem_of_mem_silenced {ps ps' qs qs' : List Match.Param} {i : Ident} {w : Span}
    (hps : ps.map (·.name?) = ps'.map (·.name?)) (hqs : qs.map (·.name?) = qs'.map (·.name?))
    {y : String} (hy : y ∈ (ps' ++ .wildcard w :: qs').filterMap (·.name?)) :
    y ∈ (ps ++ .named i :: qs).filterMap (·.name?) := by
  rw [List.filterMap_append, ← filterMap_name?_congr hps, List.filterMap_cons,
    ← filterMap_name?_congr hqs] at hy
  rw [List.filterMap_append, List.filterMap_cons]
  exact List.mem_append.mpr ((List.mem_append.mp hy).imp_right (List.mem_cons_of_mem _))

namespace Core.Names

variable {N : Names} {a b : String}

lemma Plain.bind? (h : N.Plain) {x? y? : Option String} (hx : ∀ x ∈ x?.toList, NoPercent x)
    (hy : ∀ y ∈ y?.toList, NoPercent y) : (N.bind? x? y?).Plain := by
  rintro a b (⟨rfl, rfl⟩ | ⟨-, -, hab⟩)
  · exact ⟨hx a (by simp), hy b (by simp)⟩
  · exact h a b hab

lemma Plain.bindParams (h : N.Plain) {ps qs : List Match.Param}
    (hps : ∀ x ∈ ps.filterMap (·.name?), NoPercent x)
    (hqs : ∀ y ∈ qs.filterMap (·.name?), NoPercent y) : (N.bindParams ps qs).Plain := by
  induction ps generalizing qs N with
  | nil => simpa [Names.bindParams] using h
  | cons p ps ih =>
    cases qs with
    | nil => exact h
    | cons q qs =>
      rw [Match.Param.filterMap_name?_cons, List.forall_mem_append] at hps hqs
      exact ih (h.bind? hps.1 hqs.1) hps.2 hqs.2

/-- A name that is not bound by one of the parameters stands for what it did, if that parameter is
left out on the other side. -/
lemma bindParams_of_silenced {ps ps' qs qs' : List Match.Param} (hlen : ps.length = ps'.length)
    {i : Ident} (ha : a ≠ i.name) (w : Span)
    (h : N.bindParams (ps ++ .named i :: qs) (ps' ++ .named i :: qs') a b) :
    N.bindParams (ps ++ .named i :: qs) (ps' ++ .wildcard w :: qs') a b := by
  rw [bindParams_append hlen] at h ⊢
  rw [bindParams] at h ⊢
  refine bindParams_mono ?_ h
  rintro (⟨hi, -⟩ | ⟨hi, -, hab⟩)
  · exact absurd (Option.some.inj hi).symm ha
  · exact .inr ⟨hi, by simp, hab⟩

end Core.Names

namespace Eval

/-- Evaluates an expression in a scope of its own that binds one name. -/
def evalUnder (limit left : Nat) (x : String) (v : Value) (e : Core.Expr) (env : Env) :
    Run Value := do
  let inner ← Run.enter (env.push [(x, v)])
  evalWith (callAt limit left) e inner

/-- Whatever a name is bound to, code that does not mention it runs alike. -/
theorem evalUnder_alike {m : Machine} (hm : m.WellScoped) {env : Env}
    (henv : env.current < m.store.size) {e : Core.Expr} {x : String} (he : e.mentions x = false)
    (v v' : Value) (limit left : Nat) :
    (World.same m).Leads Value.Alike (evalUnder limit left x v e env m)
      (evalUnder limit left x v' e env m) := by
  have hrel := World.Relates.same hm
  have hN : Agree (World.same m) (fun a b => a = b ∧ a ≠ x)
      (fun a => (List.lookup a [(x, v)]).or (m.store.lookup? env.current a))
      (fun b => (List.lookup b [(x, v')]).or (m.store.lookup? env.current b)) := by
    rintro a b ⟨rfl, ha⟩
    have hax : (a == x) = false := by simpa using ha
    simpa only [List.lookup_cons, hax, List.lookup_nil, Option.none_or] using
      hrel.scopes_agree _ _ Eq ⟨rfl, henv, rfl⟩ a a rfl
  have hself : e.Alike (fun a b => a = b ∧ a ≠ x) e := by
    refine Core.Expr.alike_self fun a ha => ⟨rfl, ?_⟩
    rintro rfl
    rw [he] at ha
    cases ha
  exact (evalWith_alike (callAt_alike limit left) hself (hrel.push henv henv hN)
    (.inr ⟨rfl, rfl, rfl⟩)).of_le (World.le_addScopes _ _ _ _)

end Eval

namespace Surface

open Compile

/-- A clause with a parameter that is reported as unused, and the clause with `_` in its place. -/
inductive Clause.Silenced (registry : Match.Registry) : Clause → Clause → Prop
  | mk {l l' i : Ident} {ps ps' qs qs' : List Match.Param} {body body' : List Stmt}
    (s s' w : Span) (p : Progress) (hl : l.name = l'.name)
    (hps : ps.map (·.erase) = ps'.map (·.erase)) (hqs : qs.map (·.erase) = qs'.map (·.erase))
    (hbody : StmtsRenamed id body body')
    (h : unusedParam i ∈ unusedParams (.case l (.list (ps ++ .named i :: qs)))
      (sequence (stmts registry body p).1)) :
    Silenced registry (.mk (.case l (.list (ps ++ .named i :: qs))) body s)
      (.mk (.case l' (.list (ps' ++ .wildcard w :: qs'))) body' s')

/-- A module, and the module with `_` for a clause parameter that is reported as unused. -/
def Module.Silenced (m m' : Module) : Prop :=
  m.Changed (fun _ _ => False) (fun _ _ => False)
    (Clause.Silenced (Collected.ofModule m).registry) m'

end Surface

namespace Compile

open Surface

variable {registry : Match.Registry} {K : String → Prop}

lemma unusedParam_name_inj {i j : Ident} (h : unusedParam i = unusedParam j) : i.name = j.name := by
  have hmessage : "unused parameter `" ++ i.name ++ "`" = "unused parameter `" ++ j.name ++ "`" :=
    congrArg Diagnostic.message h
  simpa using hmessage

lemma mentions_of_unusedParam {i : Ident} {pattern : Match.Pattern} {body : Core.Expr}
    (h : unusedParam i ∈ unusedParams pattern body) : body.mentions i.name = false := by
  unfold unusedParams at h
  split at h
  · obtain ⟨param, -, hparam⟩ := List.mem_filterMap.mp h
    split at hparam
    · next j =>
      split at hparam
      · cases hparam
      · next hmentions =>
        rw [← unusedParam_name_inj (Option.some.inj hparam)]
        simpa using hmentions
    · cases hparam
  · cases h

/-- Which names a body mentions does not depend on where the counter of generated names stands. -/
lemma mentions_stmts_eq_false (hK : ∀ a, K a → NoPercent a) (hacc : ∀ f ∈ registry.accessors, K f)
    {body : List Stmt} (hbody : ∀ a ∈ stmtsNames body, K a) {x : String} {p : Progress}
    (h : (sequence (stmts registry body p).1).mentions x = false) (q : Progress) :
    (sequence (stmts registry body q).1).mentions x = false := by
  have halike := stmts_alike (.refl body) (Names.carries_on hK hacc) hbody
  refine (sequence_alike (halike q p)).mentions_eq_false ?_
  rintro b ⟨rfl, -⟩
  exact h

lemma clauseAlike_of_silenced (hK : ∀ a, K a → NoPercent a)
    (hacc : ∀ f ∈ registry.accessors, K f) {N : Names} (hN : N.Carries K registry.accessors id)
    {c c' : Clause} (h : c.Silenced registry c') (hc : ∀ a ∈ c.names, K a) :
    ClauseAlike registry N c c' := by
  cases h with
  | @mk l l' i ps ps' qs qs' body body' s s' w p hl hps hqs hbody hunused =>
    simp only [Clause.names, List.forall_mem_append] at hc
    obtain ⟨hpattern, hbodyNames⟩ := hc
    have hlen : ps.length = ps'.length := by simpa using congrArg List.length hps
    have hlen' : qs.length = qs'.length := by simpa using congrArg List.length hqs
    have hps' := Match.Param.map_name?_of_map_erase hps
    have hqs' := Match.Param.map_name?_of_map_erase hqs
    have hnames : (ps ++ .named i :: qs).map (·.name?) =
        (ps' ++ .named i :: qs').map (·.name?) := by
      simp [hps', hqs']
    have hbinders : ∀ x ∈ (ps ++ .named i :: qs).filterMap (·.name?), K x := fun x hx =>
      hpattern x (Match.Pattern.mem_names_of_mem_binders hx)
    have hcarries := hN.bindParams hnames hbinders
    rw [shielded_id] at hcarries
    refine ⟨_, .list hl (by simp [hlen, hlen']), ?_, fun q q' => ?_⟩
    · refine hN.plain.bindParams (fun x hx => hK x (hbinders x hx)) fun y hy => ?_
      exact hK y (hbinders y (Match.Param.mem_of_mem_silenced hps' hqs' hy))
    · -- The report is on the body as it was compiled once, and it may be compiled again.
      have hmentions := mentions_stmts_eq_false hK hacc hbodyNames
        (mentions_of_unusedParam hunused) q
      refine (sequence_alike (stmts_alike hbody hcarries hbodyNames q q')).mono fun a b ha => ?_
      refine Names.bindParams_of_silenced hlen ?_ w
      rintro rfl
      rw [hmentions] at ha
      cases ha

theorem program_silenced {source : List Char} {m m' : Surface.Module} (hm : ReadAs source m)
    (h : m.Silenced m') (n n' : Nat) :
    (Compiled.ofModule m n).program.Alike (Compiled.ofModule m' n').program := by
  have hacc := Collected.noPercent_accessors hm.noPercent
  have hharmless : Harmless (Collected.ofModule m).registry NoPercent (fun _ _ => False)
      (Clause.Silenced (Collected.ofModule m).registry) :=
    ⟨fun _ _ _ h => h.elim,
      fun hN _ _ h hc => clauseAlike_of_silenced (fun _ ha => ha) hacc hN h hc⟩
  exact program_changed h (fun _ ha => ha) hm.noPercent hacc hharmless (fun _ _ h => h.elim) n n'

end Compile

section

open Compile Eval

/-- What code does not mention makes no difference to it. So no requests tell a program from the
one with `_` for a parameter that is reported as unused. -/
theorem unmentioned_unobserved :
    (∀ (m : Machine) (env : Env) (e : Core.Expr) (x : String), m.WellScoped →
      env.current < m.store.size → e.mentions x = false → ∀ (v v' : Value) (limit left : Nat),
        (evalUnder limit left x v e env m).2.output =
            (evalUnder limit left x v' e env m).2.output ∧
          (evalUnder limit left x v e env m).1.map Value.text =
            (evalUnder limit left x v' e env m).1.map Value.text) ∧
      ∀ (source : List Char) (m m' : Surface.Module), ReadAs source m → m.Silenced m' →
        ∀ (n n' limit : Nat) (rs : List Request), (∀ r ∈ rs, r.IsFirstOrder) →
          (Interpreter.ofProgram (Compiled.ofModule m n).program limit).observe rs =
            (Interpreter.ofProgram (Compiled.ofModule m' n').program limit).observe rs := by
  refine ⟨fun m env e x hm henv he v v' limit left => ?_, ?_⟩
  · exact (evalUnder_alike hm henv he v v' limit left).observed
  · intro source m m' hm h n n' limit rs hrs
    exact observe_alike (ofProgram_alike (program_silenced hm h n n') limit) hrs

/-- A program that does not look into a box that it opens, with a parameter for what is in it. -/
def opening (param : String) : List Char :=
  ("variant Box { Full(value) } fn main() = match_box!(BoxFull(1)) \x7b Full(" ++ param ++
    ") => 7 \x7d").toList

def openingTree (param : Match.Param) : Surface.Module :=
  ⟨[.variant ⟨⟨"Box", ⟨8, 11⟩⟩, [],
      [⟨⟨"Full", ⟨14, 18⟩⟩, [], [⟨⟨"value", ⟨19, 24⟩⟩, []⟩], ⟨14, 25⟩⟩], ⟨0, 27⟩⟩,
    .function ⟨⟨"main", ⟨31, 35⟩⟩, [], .matchUse ⟨40, 79⟩ ⟨"match_box", ⟨40, 49⟩⟩
      (.call ⟨51, 61⟩ (.ident ⟨51, 58⟩ "BoxFull") [.int ⟨59, 60⟩ 1])
      [.mk (.case ⟨"Full", ⟨65, 69⟩⟩ (.list [param])) [.expr (.int ⟨76, 77⟩ 7)] ⟨65, 77⟩] ⟨40, 79⟩,
      ⟨28, 79⟩⟩]⟩

lemma readAs_opening : ReadAs (opening "v") (openingTree (.named ⟨"v", ⟨70, 71⟩⟩)) ∧
    ReadAs (opening "_") (openingTree (.wildcard ⟨70, 71⟩)) := by
  simp only [opening, String.toList_append, String.reduceToList]
  refine ⟨⟨by decide +kernel, by decide +kernel, ?_⟩, by decide +kernel, by decide +kernel, ?_⟩
  · decide +kernel
  · decide +kernel

lemma silenced_opening :
    (openingTree (.named ⟨"v", ⟨70, 71⟩⟩)).Silenced (openingTree (.wildcard ⟨70, 71⟩)) := by
  have hclause : Surface.Clause.Silenced
      (Collected.ofModule (openingTree (.named ⟨"v", ⟨70, 71⟩⟩))).registry
      (.mk (.case ⟨"Full", ⟨65, 69⟩⟩ (.list [.named ⟨"v", ⟨70, 71⟩⟩]))
        [.expr (.int ⟨76, 77⟩ 7)] ⟨65, 77⟩)
      (.mk (.case ⟨"Full", ⟨65, 69⟩⟩ (.list [.wildcard ⟨70, 71⟩]))
        [.expr (.int ⟨76, 77⟩ 7)] ⟨65, 77⟩) :=
    @Surface.Clause.Silenced.mk _ _ _ _ [] [] [] [] _ _ _ _ _ {} rfl rfl rfl (.refl _) (by decide)
  exact .cons (.variant rfl) (.cons (.function rfl rfl
    (.matchUse _ _ _ _ rfl (.same (.refl _)) (.change hclause .nil))) .nil)

/-- A call of a function that ignores its scope, and two requests to the program with the box, whose
text may as well have `_`. -/
theorem unmentioned_unobserved_opening :
    ReadAs (opening "_") (openingTree (.wildcard ⟨70, 71⟩)) ∧
    (evalUnder 4 4 "x" (.int 1) (.call (.lambda [] false (.lit (.int 7))) []) {}
        (Interpreter.ofProgram {} 4).machine).1.map Value.text =
      (evalUnder 4 4 "x" (.str "one") (.call (.lambda [] false (.lit (.int 7))) []) {}
        (Interpreter.ofProgram {} 4).machine).1.map Value.text ∧
    (Interpreter.ofProgram (Compiled.ofModule (openingTree (.named ⟨"v", ⟨70, 71⟩⟩)) 0).program
        8).observe [.main, .call "BoxFull" [.int 2]] =
      (Interpreter.ofProgram (Compiled.ofModule (openingTree (.wildcard ⟨70, 71⟩)) 0).program
        8).observe [.main, .call "BoxFull" [.int 2]] := by
  obtain ⟨hvalue, hparam⟩ := unmentioned_unobserved
  have hscoped := wellScoped_ofProgram {} 4
  refine ⟨readAs_opening.2, (hvalue _ _ _ _ hscoped (by decide) (by decide) _ _ _ _).2, ?_⟩
  refine hparam _ _ _ readAs_opening.1 silenced_opening 0 0 8 _ ?_
  simp [Request.IsFirstOrder, Value.IsFirstOrder, Value.Every.int]

end

end ClosedSum
