import ClosedSum.Proofs.Renaming

/-!
# Changed trees

A tree may be written again with a change inside it: of the statements of a block from some place
on, or of a clause. If each change leaves what is compiled alike, so does the tree around it.
-/

namespace ClosedSum

open ClosedSum.Core (Names)

namespace Surface

mutual

/-- One tree is another, written again with changes in some places. `S` tells how the statements of
a block may change from some place on, and `C` how a clause may. -/
inductive Expr.Changed (S : List Stmt → List Stmt → Prop) (C : Clause → Clause → Prop) :
    Expr → Expr → Prop
  | same {e e' : Expr} (h : e.Renamed id e') : Expr.Changed S C e e'
  | call (s s' : Span) {f f' : Expr} {as as' : List Expr} (hf : Expr.Changed S C f f')
    (has : ExprsChanged S C as as') : Expr.Changed S C (.call s f as) (.call s' f' as')
  | binary (s s' : Span) (op : BinaryOp) {a a' b b' : Expr} (ha : Expr.Changed S C a a')
    (hb : Expr.Changed S C b b') : Expr.Changed S C (.binary s op a b) (.binary s' op a' b')
  | ifElse (s s' : Span) {e e' yes yes' no no' : Expr} (he : Expr.Changed S C e e')
    (hyes : Expr.Changed S C yes yes') (hno : Expr.Changed S C no no') :
    Expr.Changed S C (.ifElse s e yes no) (.ifElse s' e' yes' no')
  | block (s s' : Span) {ss ss' : List Stmt} (h : StmtsChanged S C ss ss') :
    Expr.Changed S C (.block s ss) (.block s' ss')
  | matchUse (s s' site site' : Span) {o o' : Ident} {e e' : Expr} {cs cs' : List Clause}
    (ho : o.name = o'.name) (he : Expr.Changed S C e e') (hcs : ClausesChanged S C cs cs') :
    Expr.Changed S C (.matchUse s o e cs site) (.matchUse s' o' e' cs' site')

inductive ExprsChanged (S : List Stmt → List Stmt → Prop) (C : Clause → Clause → Prop) :
    List Expr → List Expr → Prop
  | nil : ExprsChanged S C [] []
  | cons {e e' : Expr} {es es' : List Expr} (h : Expr.Changed S C e e')
    (hs : ExprsChanged S C es es') : ExprsChanged S C (e :: es) (e' :: es')

inductive StmtsChanged (S : List Stmt → List Stmt → Prop) (C : Clause → Clause → Prop) :
    List Stmt → List Stmt → Prop
  | nil : StmtsChanged S C [] []
  | expr {e e' : Expr} {ss ss' : List Stmt} (h : Expr.Changed S C e e')
    (hs : StmtsChanged S C ss ss') : StmtsChanged S C (.expr e :: ss) (.expr e' :: ss')
  | bind {i j : Ident} {v v' : Expr} {ss ss' : List Stmt} (hij : i.name = j.name)
    (hv : Expr.Changed S C v v') (hs : StmtsChanged S C ss ss') :
    StmtsChanged S C (.bind i v :: ss) (.bind j v' :: ss')
  | change {ss ss' : List Stmt} (h : S ss ss') : StmtsChanged S C ss ss'

inductive ClausesChanged (S : List Stmt → List Stmt → Prop) (C : Clause → Clause → Prop) :
    List Clause → List Clause → Prop
  | nil : ClausesChanged S C [] []
  | cons {p q : Match.Pattern} {body body' : List Stmt} (s s' : Span) {cs cs' : List Clause}
    (hpq : p.erase = q.erase) (hbody : StmtsChanged S C body body')
    (hs : ClausesChanged S C cs cs') :
    ClausesChanged S C (.mk p body s :: cs) (.mk q body' s' :: cs')
  | change {c c' : Clause} {cs cs' : List Clause} (h : C c c') (hs : ClausesChanged S C cs cs') :
    ClausesChanged S C (c :: cs) (c' :: cs')

end

end Surface

namespace Compile

open Surface

variable {registry : Match.Registry} {K : String → Prop} {S : List Stmt → List Stmt → Prop}
  {C : Clause → Clause → Prop}

/-- What makes clauses compile to alike ones. -/
def ClauseAlike (registry : Match.Registry) (N : Names) (c c' : Clause) : Prop :=
  ∃ M, c.pattern.Alike N c'.pattern M ∧ M.Plain ∧ ∀ p p',
    (sequence (stmts registry c.body p).1).Alike M (sequence (stmts registry c'.body p').1)

/-- Changes that leave alike what is compiled, in a place where names stand for themselves. -/
structure Harmless (registry : Match.Registry) (K : String → Prop)
    (S : List Stmt → List Stmt → Prop) (C : Clause → Clause → Prop) : Prop where
  stmts : ∀ {N : Names}, N.Carries K registry.accessors id → ∀ {ss ss' : List Stmt}, S ss ss' →
    (∀ a ∈ stmtsNames ss, K a) →
      Parallel (Core.Expr.AlikeAll N) (Compile.stmts registry ss) (Compile.stmts registry ss')
  clause : ∀ {N : Names}, N.Carries K registry.accessors id → ∀ {c c' : Clause}, C c c' →
    (∀ a ∈ c.names, K a) → ClauseAlike registry N c c'

lemma clauses_alike_cons {N : Names} {c c' : Clause} {cs cs' : List Clause}
    (h : ClauseAlike registry N c c') (hs : Parallel (List.Forall₂ (Match.Clause.Alike N))
      (clauses registry cs) (clauses registry cs')) :
    Parallel (List.Forall₂ (Match.Clause.Alike N)) (clauses registry (c :: cs))
      (clauses registry (c' :: cs')) := by
  obtain ⟨p, body, s⟩ := c
  obtain ⟨q, body', s'⟩ := c'
  obtain ⟨M, hpattern, hM, hbody⟩ := h
  exact fun k k' => .cons ⟨M, hpattern, hM, hbody k k'⟩ (hs _ _)

mutual

/-- A tree with harmless changes is compiled alike. -/
theorem expr_changed (hSC : Harmless registry K S C) : ∀ {e e' : Expr}, e.Changed S C e' →
    ∀ {N : Names}, N.Carries K registry.accessors id → (∀ a ∈ e.names, K a) →
      Parallel (Core.Expr.Alike N) (expr registry e) (expr registry e')
  | _, _, .same h, _, hN, hK => expr_alike h hN hK
  | _, _, .call _ _ hf has, _, hN, hK => by
    simp only [Expr.names, List.forall_mem_append] at hK
    exact (expr_changed hSC hf hN hK.1).bind fun _ _ h =>
      (exprs_changed hSC has hN hK.2).bind fun _ _ hs => .pure (.call h hs)
  | _, _, .binary _ _ op ha hb, _, hN, hK => by
    simp only [Expr.names, List.forall_mem_append] at hK
    exact (expr_changed hSC ha hN hK.1).bind fun _ _ hl =>
      (expr_changed hSC hb hN hK.2).bind fun _ _ hr => .pure (.binary op hl hr)
  | _, _, .ifElse _ _ he hyes hno, _, hN, hK => by
    simp only [Expr.names, List.forall_mem_append] at hK
    exact (expr_changed hSC he hN hK.1.1).bind fun _ _ ht =>
      (expr_changed hSC hyes hN hK.1.2).bind fun _ _ hy =>
        (expr_changed hSC hno hN hK.2).bind fun _ _ hn => .pure (.ifElse ht hy hn)
  | _, _, .block _ _ hss, _, hN, hK =>
    (stmts_changed hSC hss hN hK).bind fun _ _ hs => .pure (sequence_alike hs)
  | _, _, .matchUse _ _ _ _ ho he hcs, _, hN, hK => by
    simp only [Expr.names, List.forall_mem_cons, List.cons_append, List.forall_mem_append] at hK
    exact (expr_changed hSC he hN hK.2.1).bind fun _ _ h =>
      (clauses_changed hSC hcs hN hK.2.2).bind fun _ _ hs =>
        expandMatch_alike hN.plain hN.fixed ho h hs _ _

theorem exprs_changed (hSC : Harmless registry K S C) : ∀ {es es' : List Expr},
    ExprsChanged S C es es' → ∀ {N : Names}, N.Carries K registry.accessors id →
      (∀ a ∈ exprsNames es, K a) →
        Parallel (Core.Expr.AlikeAll N) (exprs registry es) (exprs registry es')
  | _, _, .nil, _, _, _ => .pure .nil
  | _, _, .cons he hes, _, hN, hK => by
    simp only [exprsNames, List.forall_mem_append] at hK
    exact (expr_changed hSC he hN hK.1).bind fun _ _ h =>
      (exprs_changed hSC hes hN hK.2).bind fun _ _ hs => .pure (.cons h hs)

theorem stmts_changed (hSC : Harmless registry K S C) : ∀ {ss ss' : List Stmt},
    StmtsChanged S C ss ss' → ∀ {N : Names}, N.Carries K registry.accessors id →
      (∀ a ∈ stmtsNames ss, K a) →
        Parallel (Core.Expr.AlikeAll N) (stmts registry ss) (stmts registry ss')
  | _, _, .nil, _, _, _ => .pure .nil
  | _, _, .expr he hss, _, hN, hK => by
    simp only [stmtsNames, Stmt.names, List.forall_mem_append] at hK
    exact (expr_changed hSC he hN hK.1).bind fun _ _ h =>
      (stmts_changed hSC hss hN hK.2).bind fun _ _ hs => .pure (.cons h hs)
  | _, _, .bind hij hv hss, _, hN, hK => by
    simp only [stmtsNames, Stmt.names, List.forall_mem_cons, List.cons_append,
      List.forall_mem_append] at hK
    refine (expr_changed hSC hv hN hK.2.1).bind fun _ _ h => ?_
    have hrest := hN.bind hK.1
    rw [shielded_id] at hrest
    refine (stmts_changed hSC hss hrest hK.2.2).bind fun _ _ hs => .pure ?_
    rw [← hij]
    exact .cons (.letIn h (sequence_alike hs)) .nil
  | _, _, .change h, _, hN, hK => hSC.stmts hN h hK

theorem clauses_changed (hSC : Harmless registry K S C) : ∀ {cs cs' : List Clause},
    ClausesChanged S C cs cs' → ∀ {N : Names}, N.Carries K registry.accessors id →
      (∀ a ∈ clausesNames cs, K a) →
        Parallel (List.Forall₂ (Match.Clause.Alike N)) (clauses registry cs) (clauses registry cs')
  | _, _, .nil, _, _, _ => .pure .nil
  | _, _, .cons _ _ hpq hbody hcs, _, hN, hK => by
    simp only [clausesNames, Clause.names, List.forall_mem_append] at hK
    obtain ⟨M, hpattern, hM⟩ := Match.Pattern.exists_alike hpq hN hK.1.1
    rw [shielded_id] at hM
    have h := stmts_changed hSC hbody hM hK.1.2
    exact clauses_alike_cons ⟨M, hpattern, hM.plain, fun p p' => sequence_alike (h p p')⟩
      (clauses_changed hSC hcs hN hK.2)
  | _, _, .change h hcs, _, hN, hK => by
    simp only [clausesNames, List.forall_mem_append] at hK
    exact clauses_alike_cons (hSC.clause hN h hK.1) (clauses_changed hSC hcs hN hK.2)

end

end Compile

end ClosedSum
