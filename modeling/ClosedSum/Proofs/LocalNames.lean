import ClosedSum.Proofs.ChangedModules

/-!
# Local names

A parameter or a binding may have another name. What a program does stays the same if the new name
is nowhere in the module and neither name is that of an accessor. A match refers to the accessors of
its variant by name in the scope that it is used in, so a local name may hide one.
-/

namespace ClosedSum

open ClosedSum.Core (Names)

def rename (x y : String) : String → String := fun a => if a = x then y else a

namespace Core.Names

/-- A name without the property `K`, in place of another. Neither of them is in `fs`. -/
structure Replaces (K : String → Prop) (fs : List String) (x y : String) : Prop where
  new : ¬ K y
  plain : NoPercent y
  apart : ∀ f ∈ fs, f ≠ x ∧ f ≠ y

variable {N : Names} {K : String → Prop} {fs : List String} {x y : String}

lemma Carries.rename (h : N.Carries K fs id) (hx : K x) (hy : Replaces K fs x y) :
    (N.bind x y).Carries K fs (rename x y) := by
  refine ⟨?_, fun a ha => ?_, fun a ha => ?_, fun f hf => ?_⟩
  · rintro a b (⟨rfl, rfl⟩ | ⟨-, -, hab⟩)
    · exact ⟨(h.plain _ _ (h.renamed _ hx)).1, hy.plain⟩
    · exact h.plain a b hab
  · by_cases hax : a = x
    · exact .inl ⟨hax, if_pos hax⟩
    · rw [ClosedSum.rename, if_neg hax]
      refine .inr ⟨hax, ?_, h.renamed a ha⟩
      rintro rfl
      exact hy.new ha
  · by_cases hax : a = x
    · refine .inr ?_
      rw [ClosedSum.rename, if_pos hax]
      exact hy.new
    · exact .inl (if_neg hax)
  · obtain ⟨hfx, hfy⟩ := hy.apart f hf
    exact .inr ⟨hfx, hfy, h.fixed f hf⟩

/-- Parameters with a new name for one of them. Those after it hide both names. -/
lemma Carries.renameParam (h : N.Carries K fs id) {i j : Ident} {ps ps' qs qs' : List Match.Param}
    (hps : ps.map (·.name?) = ps'.map (·.name?)) (hqs : qs.map (·.name?) = qs'.map (·.name?))
    (hK : ∀ a ∈ (ps ++ .named i :: qs).filterMap (·.name?), K a)
    (hj : Replaces K fs i.name j.name) :
    (N.bindParams (ps ++ .named i :: qs) (ps' ++ .named j :: qs')).Carries K fs
      (shielded (ClosedSum.rename i.name j.name) (qs.filterMap (·.name?))) := by
  rw [List.filterMap_append, List.forall_mem_append, Match.Param.filterMap_name?_cons,
    List.forall_mem_append] at hK
  obtain ⟨hKps, hKi, hKqs⟩ := hK
  have hbefore := h.bindParams hps hKps
  rw [shielded_id] at hbefore
  rw [bindParams_append (by simpa using congrArg List.length hps), Names.bindParams,
    Match.Param.name?_named, Match.Param.name?_named, bind?_some]
  exact (hbefore.rename (hKi _ (by simp)) hj).bindParams hqs hKqs

end Core.Names

namespace Surface

/-- The statements of a block from a binding on, and the same with a new name for the binding. -/
inductive LetRenamed (x y : String) : List Stmt → List Stmt → Prop
  | mk {i j : Ident} {v v' : Expr} {rest rest' : List Stmt} (hi : i.name = x) (hj : j.name = y)
    (hv : v.Renamed id v') (hrest : StmtsRenamed (rename x y) rest rest') :
    LetRenamed x y (.bind i v :: rest) (.bind j v' :: rest')

/-- A clause, and the same with a new name for one of its parameters. A parameter after it may hide
it from the body. A bare parameter is in no scope. -/
inductive Clause.ParamRenamed (x y : String) : Clause → Clause → Prop
  | list {l l' i j : Ident} {ps ps' qs qs' : List Match.Param} {body body' : List Stmt}
    (s s' : Span) (hl : l.name = l'.name) (hi : i.name = x) (hj : j.name = y)
    (hps : ps.map (·.erase) = ps'.map (·.erase)) (hqs : qs.map (·.erase) = qs'.map (·.erase))
    (hbody : StmtsRenamed (shielded (rename x y) (qs.filterMap (·.name?))) body body') :
    ParamRenamed x y (.mk (.case l (.list (ps ++ .named i :: qs))) body s)
      (.mk (.case l' (.list (ps' ++ .named j :: qs'))) body' s')
  | rest {l l' i j : Ident} {body body' : List Stmt} (s s' : Span) (hl : l.name = l'.name)
    (hi : i.name = x) (hj : j.name = y) (hbody : StmtsRenamed id body body') :
    ParamRenamed x y (.mk (.case l (.rest (.named i))) body s)
      (.mk (.case l' (.rest (.named j))) body' s')

inductive Function.ParamRenamed (x y : String) : Function → Function → Prop
  | mk {f f' i j : Ident} {is is' js js' : List Ident} {body body' : Expr} (s s' : Span)
    (hi : i.name = x) (hj : j.name = y) (his : is.map (·.name) = is'.map (·.name))
    (hjs : js.map (·.name) = js'.map (·.name))
    (hbody : body.Renamed (shielded (rename x y) (js.map (·.name))) body') :
    ParamRenamed x y ⟨f, is ++ i :: js, body, s⟩ ⟨f', is' ++ j :: js', body', s'⟩

/-- A module, and the same with a new name for a parameter or a binding of that name. -/
def Module.LocalRenamed (x y : String) (m m' : Module) : Prop :=
  m.Changed (Function.ParamRenamed x y) (LetRenamed x y) (Clause.ParamRenamed x y) m'

end Surface

namespace Compile

open Surface

variable {registry : Match.Registry} {K : String → Prop} {x y : String}

lemma stmts_letRenamed (hy : Names.Replaces K registry.accessors x y) {N : Names}
    (hN : N.Carries K registry.accessors id) {ss ss' : List Stmt} (h : LetRenamed x y ss ss')
    (hK : ∀ a ∈ stmtsNames ss, K a) :
    Parallel (Core.Expr.AlikeAll N) (stmts registry ss) (stmts registry ss') := by
  cases h with
  | mk hi hj hv hrest =>
    subst hi hj
    simp only [stmtsNames, Stmt.names, List.forall_mem_cons, List.cons_append,
      List.forall_mem_append] at hK
    refine (expr_alike hv hN hK.2.1).bind fun _ _ h => ?_
    exact (stmts_alike hrest (hN.rename hK.1 hy) hK.2.2).bind fun _ _ hs =>
      .pure (.cons (.letIn h (sequence_alike hs)) .nil)

lemma clauseAlike_of_paramRenamed (hy : Names.Replaces K registry.accessors x y) {N : Names}
    (hN : N.Carries K registry.accessors id) {c c' : Clause} (h : c.ParamRenamed x y c')
    (hK : ∀ a ∈ c.names, K a) : ClauseAlike registry N c c' := by
  cases h with
  | @list l l' i j ps ps' qs qs' body body' s s' hl hi hj hps hqs hbody =>
    subst hi hj
    simp only [Clause.names, List.forall_mem_append] at hK
    have hlen : ps.length = ps'.length := by simpa using congrArg List.length hps
    have hlen' : qs.length = qs'.length := by simpa using congrArg List.length hqs
    have hcarries := hN.renameParam (Match.Param.map_name?_of_map_erase hps)
      (Match.Param.map_name?_of_map_erase hqs)
      (fun a ha => hK.1 a (Match.Pattern.mem_names_of_mem_binders ha)) hy
    exact ⟨_, .list hl (by simp [hlen, hlen']), hcarries.plain,
      fun p p' => sequence_alike (stmts_alike hbody hcarries hK.2 p p')⟩
  | rest s s' hl hi hj hbody =>
    simp only [Clause.names, List.forall_mem_append] at hK
    exact ⟨N, .rest hl _ _, hN.plain,
      fun p p' => sequence_alike (stmts_alike hbody hN hK.2 p p')⟩

lemma functionAlike_of_paramRenamed (hy : Names.Replaces K registry.accessors x y)
    (hplain : ∀ a, K a → NoPercent a) (hacc : ∀ f ∈ registry.accessors, K f) {f g : Function}
    (h : f.ParamRenamed x y g) (hname : f.name.name = g.name.name) (hK : ∀ a ∈ f.names, K a) :
    FunctionAlike registry f g := by
  cases h with
  | @mk f f' i j is is' js js' body body' s s' hi hj his hjs hbody =>
    subst hi hj
    simp only [Function.names, List.cons_append, List.forall_mem_cons, List.forall_mem_append] at hK
    have hlen : is.length = is'.length := by simpa using congrArg List.length his
    have hlen' : js.length = js'.length := by simpa using congrArg List.length hjs
    have hbinders := hK.2.1
    rw [← Names.filterMap_name?_named, List.map_append, List.map_cons] at hbinders
    have hcarries := (Names.carries_on hplain hacc).renameParam (Names.map_name?_named_congr his)
      (Names.map_name?_named_congr hjs) hbinders hy
    rw [Names.filterMap_name?_named] at hcarries
    refine functionAlike_of_parallel (K := K) hname (by simp [hlen, hlen']) ?_
    dsimp only
    rw [Names.bindAll_eq_bindParams, List.map_append, List.map_cons, List.map_append, List.map_cons]
    exact expr_alike hbody hcarries hK.2.2

theorem program_localRenamed {source : List Char} {m m' : Surface.Module} (hm : ReadAs source m)
    (hplain : NoPercent y) (hy : y ∉ m.names)
    (hacc : ∀ f ∈ (Collected.ofModule m).registry.accessors, f ≠ x ∧ f ≠ y)
    (h : m.LocalRenamed x y m') (n n' : Nat) :
    (Compiled.ofModule m n).program.Alike (Compiled.ofModule m' n').program := by
  -- This tells the names in the module, and those of its accessors, from the new name.
  let K (a : String) : Prop := NoPercent a ∧ a ≠ y
  have hK : ∀ a, K a → NoPercent a := fun a ha => ha.1
  have hnames : ∀ a ∈ m.names, K a := by
    refine fun a ha => ⟨hm.noPercent a ha, ?_⟩
    rintro rfl
    exact hy ha
  have hKacc : ∀ f ∈ (Collected.ofModule m).registry.accessors, K f := fun f hf =>
    ⟨Collected.noPercent_accessors hm.noPercent f hf, (hacc f hf).2⟩
  have hreplaces : Names.Replaces K (Collected.ofModule m).registry.accessors x y :=
    ⟨fun hKy => hKy.2 rfl, hplain, hacc⟩
  exact program_changed h hK hnames hKacc
    ⟨fun hN _ _ h hss => stmts_letRenamed hreplaces hN h hss,
      fun hN _ _ h hc => clauseAlike_of_paramRenamed hreplaces hN h hc⟩
    (fun _ _ h hname hf => functionAlike_of_paramRenamed hreplaces hK hKacc h hname hf) n n'

end Compile

section

open Compile Eval

/-- A new name for a local one leaves each run of `main` as it is, unless one of them is the name of
an accessor. -/
theorem localRenamed_unobserved {source : List Char} {m m' : Surface.Module} {x y : String}
    (hm : ReadAs source m) (hname : Token.IsName y) (hy : y ∉ m.names)
    (h : m.LocalRenamed x y m') (n n' : Nat)
    (hacc : ∀ d ∈ (Compiled.ofModule m n).program.decls, ∀ f ∈ d.accessors, f ≠ x ∧ f ≠ y)
    (limit : Nat) :
    observed (Interpreter.ofProgram (Compiled.ofModule m n).program limit).runMain =
      observed (Interpreter.ofProgram (Compiled.ofModule m' n').program limit).runMain := by
  have hregistry : ∀ f ∈ (Collected.ofModule m).registry.accessors, f ≠ x ∧ f ≠ y := by
    intro f hf
    obtain ⟨d, hd, hfd⟩ := Collected.mem_accessors f hf
    exact hacc d hd f hfd
  have halike := program_localRenamed hm hname.noPercent hy hregistry h n n'
  exact (runMain_alike (ofProgram_alike halike limit)).1

/-- A program that opens a box with a number in it, which has a name of fourteen letters. -/
def boxing (name : String) : List Char :=
  ("variant Box { Full(value) } fn main() = \x7b let " ++ name ++ " = 1; match_box!(BoxFull(" ++
    name ++ ")) { Full(v) => v } \x7d").toList

def boxingTree (name : String) : Surface.Module :=
  ⟨[.variant ⟨⟨"Box", ⟨8, 11⟩⟩, [],
      [⟨⟨"Full", ⟨14, 18⟩⟩, [], [⟨⟨"value", ⟨19, 24⟩⟩, []⟩], ⟨14, 25⟩⟩], ⟨0, 27⟩⟩,
    .function ⟨⟨"main", ⟨31, 35⟩⟩, [], .block ⟨40, 120⟩
      [.bind ⟨name, ⟨46, 60⟩⟩ (.int ⟨63, 64⟩ 1),
        .expr (.matchUse ⟨66, 118⟩ ⟨"match_box", ⟨66, 75⟩⟩
          (.call ⟨77, 100⟩ (.ident ⟨77, 84⟩ "BoxFull") [.ident ⟨85, 99⟩ name])
          [.mk (.case ⟨"Full", ⟨104, 108⟩⟩ (.list [.named ⟨"v", ⟨109, 110⟩⟩]))
            [.expr (.ident ⟨115, 116⟩ "v")] ⟨104, 116⟩] ⟨66, 118⟩)],
      ⟨28, 120⟩⟩]⟩

lemma readAs_boxing : ReadAs (boxing "content_number") (boxingTree "content_number") ∧
    ReadAs (boxing "box_full_value") (boxingTree "box_full_value") := by
  simp only [boxing, String.toList_append, String.reduceToList]
  refine ⟨⟨by decide +kernel, by decide +kernel, ?_⟩, by decide +kernel, by decide +kernel, ?_⟩
  · decide +kernel
  · decide +kernel

lemma localRenamed_boxing {x y : String} (hx : x ≠ "BoxFull") :
    (boxingTree x).LocalRenamed x y (boxingTree y) := by
  have hconstructor : "BoxFull" = rename x y "BoxFull" := (if_neg hx.symm).symm
  have hcontent : y = rename x y x := (if_pos rfl).symm
  have hparam : "v" = shielded (rename x y) ["v"] "v" := (if_pos (List.mem_singleton_self _)).symm
  refine .cons (.variant rfl) (.cons (.function rfl rfl (.block _ _
    (.change (.mk rfl rfl (.refl _) ?_)))) .nil)
  refine .expr (.matchUse _ _ _ _ rfl ?_ (.cons _ _ rfl ?_ .nil)) .nil
  · exact .call _ _ (.ident _ _ hconstructor) (.cons (.ident _ _ hcontent) .nil)
  · exact .expr (.ident _ _ hparam) .nil

/-- A new name for the number in the box makes no difference. -/
theorem localRenamed_unobserved_boxing :
    observed (Interpreter.ofProgram (Compiled.ofModule (boxingTree "content_number") 0).program
        8).runMain =
      observed (Interpreter.ofProgram (Compiled.ofModule (boxingTree "renamed_number") 0).program
        8).runMain := by
  refine localRenamed_unobserved readAs_boxing.1 ?_ ?_ (localRenamed_boxing (by decide)) 0 0 ?_ 8
  · decide +kernel
  · decide
  · decide +kernel

/-- If the number has the name of the accessor, the match calls the number instead. -/
theorem localRenamed_observed_accessor :
    ReadAs (boxing "box_full_value") (boxingTree "box_full_value") ∧
      (Compiled.ofModule (boxingTree "box_full_value") 0).diagnostics = [] ∧
      Token.IsName "content_number" ∧ "content_number" ∉ (boxingTree "box_full_value").names ∧
      (programGlobals (Compiled.ofModule (boxingTree "box_full_value") 0).program).lookup
        "content_number" = none ∧
      (boxingTree "box_full_value").LocalRenamed "box_full_value" "content_number"
        (boxingTree "content_number") ∧
      (observed (Interpreter.ofProgram (Compiled.ofModule (boxingTree "box_full_value") 0).program
        8).runMain).1 = .error ⟨.notCallable .int, ["main"]⟩ ∧
      (observed (Interpreter.ofProgram (Compiled.ofModule (boxingTree "content_number") 0).program
        8).runMain).1 = .ok "1" := by
  refine ⟨readAs_boxing.2, ?_, ?_, ?_, ?_, localRenamed_boxing (by decide), ?_, ?_⟩
  · decide +kernel
  · decide +kernel
  · decide
  · decide +kernel
  · decide +kernel
  · decide +kernel

end

end ClosedSum
