import ClosedSum.Proofs.AlikeMatches
import ClosedSum.Proofs.WrittenNames

/-!
# Renamed trees

A tree may be written again, elsewhere and with some of its free names exchanged for new ones. It
compiles to code that is alike, as long as no new name is one that the tree already has, and none of
the names that are exchanged is one of an accessor, which a match refers to without writing it.
-/

namespace ClosedSum

open ClosedSum.Core (Names)

/-- A renaming in the scope of binders, which keep their names. -/
def shielded (σ : String → String) (xs : List String) : String → String :=
  fun a => if a ∈ xs then a else σ a

@[simp] lemma shielded_nil (σ : String → String) : shielded σ [] = σ := by
  funext a
  simp [shielded]

@[simp] lemma shielded_id (xs : List String) : shielded id xs = id := by
  funext a
  simp [shielded]

lemma shielded_append (σ : String → String) (xs ys : List String) :
    shielded (shielded σ xs) ys = shielded σ (xs ++ ys) := by
  funext a
  by_cases hx : a ∈ xs <;> by_cases hy : a ∈ ys <;> simp [shielded, hx, hy]

lemma Match.Param.filterMap_name?_cons (p : Match.Param) (ps : List Match.Param) :
    (p :: ps).filterMap (·.name?) = p.name?.toList ++ ps.filterMap (·.name?) := by
  cases hp : p.name? <;> simp [hp]

lemma Match.Param.filterMap_name?_congr {ps qs : List Match.Param}
    (h : ps.map (·.name?) = qs.map (·.name?)) :
    ps.filterMap (·.name?) = qs.filterMap (·.name?) := by
  have hmap := congrArg (List.filterMap id) h
  simpa [List.filterMap_map, Function.comp_def] using hmap

/-- The names that the body of a clause sees of its pattern. -/
def Match.Pattern.binders : Match.Pattern → List String
  | .case _ (.list params) => params.filterMap (·.name?)
  | _ => []

namespace Surface

mutual

/-- One tree is another with each free name `a` written as `σ a`. Binders keep their names. Spans
may differ. -/
inductive Expr.Renamed : (String → String) → Expr → Expr → Prop
  | unit {σ : String → String} (s s' : Span) : Expr.Renamed σ (.unit s) (.unit s')
  | bool {σ : String → String} (s s' : Span) (value : Bool) :
    Expr.Renamed σ (.bool s value) (.bool s' value)
  | int {σ : String → String} (s s' : Span) (value : Int) :
    Expr.Renamed σ (.int s value) (.int s' value)
  | str {σ : String → String} (s s' : Span) (text : String) :
    Expr.Renamed σ (.str s text) (.str s' text)
  | ident {σ : String → String} (s s' : Span) {a b : String} (h : b = σ a) :
    Expr.Renamed σ (.ident s a) (.ident s' b)
  | call {σ : String → String} (s s' : Span) {f f' : Expr} {as as' : List Expr}
    (hf : Expr.Renamed σ f f') (has : ExprsRenamed σ as as') :
    Expr.Renamed σ (.call s f as) (.call s' f' as')
  | binary {σ : String → String} (s s' : Span) (op : BinaryOp) {a a' b b' : Expr}
    (ha : Expr.Renamed σ a a') (hb : Expr.Renamed σ b b') :
    Expr.Renamed σ (.binary s op a b) (.binary s' op a' b')
  | ifElse {σ : String → String} (s s' : Span) {e e' yes yes' no no' : Expr}
    (he : Expr.Renamed σ e e') (hyes : Expr.Renamed σ yes yes') (hno : Expr.Renamed σ no no') :
    Expr.Renamed σ (.ifElse s e yes no) (.ifElse s' e' yes' no')
  | block {σ : String → String} (s s' : Span) {ss ss' : List Stmt} (h : StmtsRenamed σ ss ss') :
    Expr.Renamed σ (.block s ss) (.block s' ss')
  | matchUse {σ : String → String} (s s' site site' : Span) {o o' : Ident} {e e' : Expr}
    {cs cs' : List Clause} (ho : o.name = o'.name) (he : Expr.Renamed σ e e')
    (hcs : ClausesRenamed σ cs cs') :
    Expr.Renamed σ (.matchUse s o e cs site) (.matchUse s' o' e' cs' site')
  | error {σ : String → String} (s s' : Span) : Expr.Renamed σ (.error s) (.error s')

inductive ExprsRenamed : (String → String) → List Expr → List Expr → Prop
  | nil {σ : String → String} : ExprsRenamed σ [] []
  | cons {σ : String → String} {e e' : Expr} {es es' : List Expr} (h : Expr.Renamed σ e e')
    (hs : ExprsRenamed σ es es') : ExprsRenamed σ (e :: es) (e' :: es')

inductive StmtsRenamed : (String → String) → List Stmt → List Stmt → Prop
  | nil {σ : String → String} : StmtsRenamed σ [] []
  | expr {σ : String → String} {e e' : Expr} {ss ss' : List Stmt} (h : Expr.Renamed σ e e')
    (hs : StmtsRenamed σ ss ss') : StmtsRenamed σ (.expr e :: ss) (.expr e' :: ss')
  | bind {σ : String → String} {i j : Ident} {v v' : Expr} {ss ss' : List Stmt}
    (hij : i.name = j.name) (hv : Expr.Renamed σ v v')
    (hs : StmtsRenamed (shielded σ [i.name]) ss ss') :
    StmtsRenamed σ (.bind i v :: ss) (.bind j v' :: ss')

inductive ClausesRenamed : (String → String) → List Clause → List Clause → Prop
  | nil {σ : String → String} : ClausesRenamed σ [] []
  | cons {σ : String → String} {p q : Match.Pattern} {body body' : List Stmt} (s s' : Span)
    {cs cs' : List Clause} (hpq : p.erase = q.erase)
    (hbody : StmtsRenamed (shielded σ p.binders) body body') (hs : ClausesRenamed σ cs cs') :
    ClausesRenamed σ (.mk p body s :: cs) (.mk q body' s' :: cs')

end

mutual

/-- A tree is itself written again. -/
lemma Expr.Renamed.refl : (e : Expr) → e.Renamed id e
  | .unit s => .unit s s
  | .bool s value => .bool s s value
  | .int s value => .int s s value
  | .str s text => .str s s text
  | .ident s _ => .ident s s rfl
  | .call s f as => .call s s (.refl f) (.refl as)
  | .binary s op a b => .binary s s op (.refl a) (.refl b)
  | .ifElse s e yes no => .ifElse s s (.refl e) (.refl yes) (.refl no)
  | .block s ss => .block s s (.refl ss)
  | .matchUse s _ e cs site => .matchUse s s site site rfl (.refl e) (.refl cs)
  | .error s => .error s s

lemma ExprsRenamed.refl : (es : List Expr) → ExprsRenamed id es es
  | [] => .nil
  | e :: es => .cons (.refl e) (.refl es)

lemma StmtsRenamed.refl : (ss : List Stmt) → StmtsRenamed id ss ss
  | [] => .nil
  | .expr e :: ss => .expr (.refl e) (.refl ss)
  | .bind _ v :: ss => .bind rfl (.refl v) (by rw [shielded_id]; exact .refl ss)

lemma ClausesRenamed.refl : (cs : List Clause) → ClausesRenamed id cs cs
  | [] => .nil
  | .mk _ body s :: cs => .cons s s rfl (by rw [shielded_id]; exact .refl body) (.refl cs)

end

end Surface

namespace Core.Names

variable {N : Names} {K : String → Prop} {fs : List String} {σ : String → String}

lemma bind?_some (N : Names) (x y : String) : N.bind? (some x) (some y) = N.bind x y := by
  funext a b
  simp only [bind?, bind, Option.some.injEq, ne_eq, eq_comm]

lemma bind?_none (N : Names) : N.bind? none none = N := by
  funext a b
  simp [bind?]

/-- A renaming is carried by what names stand for each other: a name with the property `K` stands
for the one it is written as, which is the name itself or has not the property. The names in `fs`
stand for themselves. -/
structure Carries (N : Names) (K : String → Prop) (fs : List String) (σ : String → String) :
    Prop where
  plain : N.Plain
  renamed : ∀ a, K a → N a (σ a)
  new : ∀ a, K a → σ a = a ∨ ¬ K (σ a)
  fixed : ∀ f ∈ fs, N f f

/-- A binder of both trees keeps its name. -/
lemma Carries.bind (h : N.Carries K fs σ) {x : String} (hx : K x) :
    (N.bind x x).Carries K fs (shielded σ [x]) := by
  refine ⟨?_, fun a ha => ?_, fun a ha => ?_, fun f hf => bind_self fun _ => h.fixed f hf⟩
  · rintro a b (⟨rfl, rfl⟩ | ⟨-, -, hab⟩)
    · have hplain := (h.plain _ _ (h.renamed _ hx)).1
      exact ⟨hplain, hplain⟩
    · exact h.plain a b hab
  · by_cases hax : a = x
    · exact .inl ⟨hax, by simp [shielded, hax]⟩
    · have hσ : shielded σ [x] a = σ a := by simp [shielded, hax]
      have hne : σ a ≠ x := by
        rcases h.new a ha with heq | hnew
        · rwa [heq]
        · exact fun heq => hnew (heq ▸ hx)
      rw [hσ]
      exact .inr ⟨hax, hne, h.renamed a ha⟩
  · by_cases hax : a = x
    · exact .inl (by simp [shielded, hax])
    · have hσ : shielded σ [x] a = σ a := by simp [shielded, hax]
      rw [hσ]
      exact h.new a ha

lemma Carries.bind? (h : N.Carries K fs σ) {x? : Option String} (hx : ∀ x, x? = some x → K x) :
    (N.bind? x? x?).Carries K fs (shielded σ x?.toList) := by
  cases x? with
  | none => simpa [bind?_none] using h
  | some x =>
    rw [bind?_some]
    exact h.bind (hx x rfl)

/-- Parameters of both trees keep their names. -/
lemma Carries.bindParams (h : N.Carries K fs σ) {ps qs : List Match.Param}
    (hpq : ps.map (·.name?) = qs.map (·.name?)) (hps : ∀ x ∈ ps.filterMap (·.name?), K x) :
    (N.bindParams ps qs).Carries K fs (shielded σ (ps.filterMap (·.name?))) := by
  induction ps generalizing qs N σ with
  | nil =>
    obtain rfl : qs = [] := by simpa using hpq.symm
    simpa [bindParams] using h
  | cons p ps ih =>
    cases qs with
    | nil => cases hpq
    | cons q qs =>
      obtain ⟨hq, hqs⟩ := List.cons.inj hpq
      rw [Match.Param.filterMap_name?_cons] at hps ⊢
      obtain ⟨hp, hps⟩ := List.forall_mem_append.mp hps
      have hq' : p.name? = q.name? := hq
      rw [bindParams, ← hq', ← shielded_append]
      exact ih (h.bind? fun x hx => hp x (by simp [hx])) hqs hps

end Core.Names

namespace Match

variable {N : Names} {K : String → Prop} {fs : List String} {σ : String → String}

lemma Pattern.mem_names_of_mem_binders {p : Pattern} {x : String} (h : x ∈ p.binders) :
    x ∈ p.names := by
  match p, h with
  | .case label (.list params), h =>
    obtain ⟨param, hparam, hx⟩ := List.mem_filterMap.mp h
    refine List.mem_cons_of_mem _ (List.mem_flatMap.mpr ⟨param, hparam, ?_⟩)
    cases param with
    | named i => simpa [Param.name?, Param.names, eq_comm] using hx
    | wildcard => cases hx

lemma Param.map_name?_of_map_erase {ps qs : List Param} (h : ps.map (·.erase) = qs.map (·.erase)) :
    ps.map (·.name?) = qs.map (·.name?) := by
  have hname : ∀ p : Param, p.erase.name? = p.name? := fun p => by cases p <;> rfl
  have hmap := congrArg (List.map (·.name?)) h
  simpa [List.map_map, Function.comp_def, hname] using hmap

/-- A pattern that is written again is for the same case, and its names are kept under it. -/
lemma Pattern.exists_alike {p q : Pattern} (h : p.erase = q.erase) (hN : N.Carries K fs σ)
    (hp : ∀ x ∈ p.names, K x) :
    ∃ M, p.Alike N q M ∧ M.Carries K fs (shielded σ p.binders) := by
  have hbinders : ∀ x ∈ p.binders, K x := fun x hx => hp x (mem_names_of_mem_binders hx)
  match p, q, h, hbinders with
  | .default, .default, _, _ => exact ⟨N, .default, by simpa [binders] using hN⟩
  | .case l (.rest p), .case l' (.rest q), h, _ =>
    simp only [erase, case.injEq, Ident.erase, Ident.mk.injEq, and_true] at h
    exact ⟨N, .rest h.1 p q, by simpa [binders] using hN⟩
  | .case l (.list ps), .case l' (.list qs), h, hbinders =>
    simp only [erase, case.injEq, Params.list.injEq, Ident.erase, Ident.mk.injEq, and_true] at h
    have hlen : ps.length = qs.length := by simpa using congrArg List.length h.2
    exact ⟨_, .list h.1 hlen,
      hN.bindParams (Param.map_name?_of_map_erase h.2) hbinders⟩
  | .default, .case _ (.list _), h, _ | .default, .case _ (.rest _), h, _
  | .case _ (.list _), .default, h, _ | .case _ (.rest _), .default, h, _
  | .case _ (.list _), .case _ (.rest _), h, _ | .case _ (.rest _), .case _ (.list _), h, _ =>
    simp [erase] at h

end Match

namespace Compile

open Surface

variable {registry : Match.Registry} {K : String → Prop}

lemma sequence_alike {N : Names} {es es' : List Core.Expr} (h : Core.Expr.AlikeAll N es es') :
    (sequence es).Alike N (sequence es') := by
  cases h with
  | nil => exact .lit _
  | cons he hs =>
    cases hs with
    | nil => exact he
    | cons he' hs => exact .seq (.cons he (.cons he' hs))

mutual

/-- Where names stand for those that they are written as, a renamed tree is compiled alike. -/
theorem expr_alike : ∀ {σ : String → String} {e e' : Expr}, e.Renamed σ e' → ∀ {N : Names},
    N.Carries K registry.accessors σ → (∀ a ∈ e.names, K a) →
      Parallel (Core.Expr.Alike N) (expr registry e) (expr registry e')
  | _, _, _, .unit _ _, _, _, _ | _, _, _, .bool _ _ _, _, _, _ | _, _, _, .int _ _ _, _, _, _
  | _, _, _, .str _ _ _, _, _, _ => .pure (.lit _)
  | _, _, _, .ident _ _ hab, _, hN, hK => by
    subst hab
    exact .pure (.var (hN.renamed _ (hK _ (by simp [Expr.names]))))
  | _, _, _, .call _ _ hf has, _, hN, hK => by
    simp only [Expr.names, List.forall_mem_append] at hK
    exact (expr_alike hf hN hK.1).bind fun _ _ h =>
      (exprs_alike has hN hK.2).bind fun _ _ hs => .pure (.call h hs)
  | _, _, _, .binary _ _ op ha hb, _, hN, hK => by
    simp only [Expr.names, List.forall_mem_append] at hK
    exact (expr_alike ha hN hK.1).bind fun _ _ hl =>
      (expr_alike hb hN hK.2).bind fun _ _ hr => .pure (.binary op hl hr)
  | _, _, _, .ifElse _ _ he hyes hno, _, hN, hK => by
    simp only [Expr.names, List.forall_mem_append] at hK
    exact (expr_alike he hN hK.1.1).bind fun _ _ ht =>
      (expr_alike hyes hN hK.1.2).bind fun _ _ hy =>
        (expr_alike hno hN hK.2).bind fun _ _ hn => .pure (.ifElse ht hy hn)
  | _, _, _, .block _ _ hss, _, hN, hK =>
    (stmts_alike hss hN hK).bind fun _ _ hs => .pure (sequence_alike hs)
  | _, _, _, .matchUse _ _ _ _ ho he hcs, _, hN, hK => by
    simp only [Expr.names, List.forall_mem_cons, List.cons_append, List.forall_mem_append] at hK
    exact (expr_alike he hN hK.2.1).bind fun _ _ h =>
      (clauses_alike hcs hN hK.2.2).bind fun _ _ hs =>
        expandMatch_alike hN.plain hN.fixed ho h hs _ _
  | _, _, _, .error _ _, _, _, _ => .pure .error

theorem exprs_alike : ∀ {σ : String → String} {es es' : List Expr}, ExprsRenamed σ es es' →
    ∀ {N : Names}, N.Carries K registry.accessors σ → (∀ a ∈ exprsNames es, K a) →
      Parallel (Core.Expr.AlikeAll N) (exprs registry es) (exprs registry es')
  | _, _, _, .nil, _, _, _ => .pure .nil
  | _, _, _, .cons he hes, _, hN, hK => by
    simp only [exprsNames, List.forall_mem_append] at hK
    exact (expr_alike he hN hK.1).bind fun _ _ h =>
      (exprs_alike hes hN hK.2).bind fun _ _ hs => .pure (.cons h hs)

theorem stmts_alike : ∀ {σ : String → String} {ss ss' : List Stmt}, StmtsRenamed σ ss ss' →
    ∀ {N : Names}, N.Carries K registry.accessors σ → (∀ a ∈ stmtsNames ss, K a) →
      Parallel (Core.Expr.AlikeAll N) (stmts registry ss) (stmts registry ss')
  | _, _, _, .nil, _, _, _ => .pure .nil
  | _, _, _, .expr he hss, _, hN, hK => by
    simp only [stmtsNames, Stmt.names, List.forall_mem_append] at hK
    exact (expr_alike he hN hK.1).bind fun _ _ h =>
      (stmts_alike hss hN hK.2).bind fun _ _ hs => .pure (.cons h hs)
  | _, _, _, .bind hij hv hss, _, hN, hK => by
    simp only [stmtsNames, Stmt.names, List.forall_mem_cons, List.cons_append,
      List.forall_mem_append] at hK
    refine (expr_alike hv hN hK.2.1).bind fun _ _ h => ?_
    refine (stmts_alike hss (hN.bind hK.1) hK.2.2).bind fun _ _ hs => .pure ?_
    rw [← hij]
    exact .cons (.letIn h (sequence_alike hs)) .nil

theorem clauses_alike : ∀ {σ : String → String} {cs cs' : List Clause}, ClausesRenamed σ cs cs' →
    ∀ {N : Names}, N.Carries K registry.accessors σ → (∀ a ∈ clausesNames cs, K a) →
      Parallel (List.Forall₂ (Match.Clause.Alike N)) (clauses registry cs) (clauses registry cs')
  | _, _, _, .nil, _, _, _ => .pure .nil
  | _, _, _, .cons _ _ hpq hbody hcs, _, hN, hK => by
    simp only [clausesNames, Clause.names, List.forall_mem_append] at hK
    obtain ⟨M, hpattern, hM⟩ := Match.Pattern.exists_alike hpq hN hK.1.1
    refine (stmts_alike hbody hM hK.1.2).bind fun _ _ h => ?_
    refine Parallel.bind (R := fun _ _ => True) (fun _ _ => trivial) fun _ _ _ => ?_
    exact (clauses_alike hcs hN hK.2).bind fun _ _ hs =>
      .pure (.cons ⟨M, hpattern, hM.plain, sequence_alike h⟩ hs)

end

end Compile

end ClosedSum
