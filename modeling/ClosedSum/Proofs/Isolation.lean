import ClosedSum.Proofs.Renumbering

/-!
# Isolated trees

One expression is isolated from another if it compiles to the same, and beside that draws names and
reports. Then so is every tree with the first in a place where another has the second: all behind
that place is the same, but for the numbers of names that are drawn later.
-/

namespace ClosedSum

namespace Surface

mutual

/-- One tree is another with `b` in one of the places where it has `a`. -/
inductive Expr.Replaced (a b : Expr) : Expr → Expr → Prop
  | here : Expr.Replaced a b a b
  | callee (s : Span) {f f' : Expr} (h : Expr.Replaced a b f f') (args : List Expr) :
    Expr.Replaced a b (.call s f args) (.call s f' args)
  | args (s : Span) (f : Expr) {as as' : List Expr} (h : ExprsReplaced a b as as') :
    Expr.Replaced a b (.call s f as) (.call s f as')
  | lhs (s : Span) (op : BinaryOp) {e e' : Expr} (h : Expr.Replaced a b e e') (rhs : Expr) :
    Expr.Replaced a b (.binary s op e rhs) (.binary s op e' rhs)
  | rhs (s : Span) (op : BinaryOp) (lhs : Expr) {e e' : Expr} (h : Expr.Replaced a b e e') :
    Expr.Replaced a b (.binary s op lhs e) (.binary s op lhs e')
  | test (s : Span) {e e' : Expr} (h : Expr.Replaced a b e e') (yes no : Expr) :
    Expr.Replaced a b (.ifElse s e yes no) (.ifElse s e' yes no)
  | yes (s : Span) (test : Expr) {e e' : Expr} (h : Expr.Replaced a b e e') (no : Expr) :
    Expr.Replaced a b (.ifElse s test e no) (.ifElse s test e' no)
  | no (s : Span) (test yes : Expr) {e e' : Expr} (h : Expr.Replaced a b e e') :
    Expr.Replaced a b (.ifElse s test yes e) (.ifElse s test yes e')
  | block (s : Span) {ss ss' : List Stmt} (h : StmtsReplaced a b ss ss') :
    Expr.Replaced a b (.block s ss) (.block s ss')
  | scrutinee (s : Span) (operator : Ident) {e e' : Expr} (h : Expr.Replaced a b e e')
    (cs : List Clause) (site : Span) :
    Expr.Replaced a b (.matchUse s operator e cs site) (.matchUse s operator e' cs site)
  | clauses (s : Span) (operator : Ident) (e : Expr) {cs cs' : List Clause}
    (h : ClausesReplaced a b cs cs') (site : Span) :
    Expr.Replaced a b (.matchUse s operator e cs site) (.matchUse s operator e cs' site)

inductive ExprsReplaced (a b : Expr) : List Expr → List Expr → Prop
  | head {e e' : Expr} (h : Expr.Replaced a b e e') (es : List Expr) :
    ExprsReplaced a b (e :: es) (e' :: es)
  | tail (e : Expr) {es es' : List Expr} (h : ExprsReplaced a b es es') :
    ExprsReplaced a b (e :: es) (e :: es')

inductive StmtsReplaced (a b : Expr) : List Stmt → List Stmt → Prop
  | expr {e e' : Expr} (h : Expr.Replaced a b e e') (ss : List Stmt) :
    StmtsReplaced a b (.expr e :: ss) (.expr e' :: ss)
  | bind (name : Ident) {e e' : Expr} (h : Expr.Replaced a b e e') (ss : List Stmt) :
    StmtsReplaced a b (.bind name e :: ss) (.bind name e' :: ss)
  | behindExpr (e : Expr) {ss ss' : List Stmt} (h : StmtsReplaced a b ss ss') :
    StmtsReplaced a b (.expr e :: ss) (.expr e :: ss')
  | behindBind (name : Ident) (e : Expr) {ss ss' : List Stmt} (h : StmtsReplaced a b ss ss') :
    StmtsReplaced a b (.bind name e :: ss) (.bind name e :: ss')

inductive ClausesReplaced (a b : Expr) : List Clause → List Clause → Prop
  | body (pattern : Match.Pattern) {ss ss' : List Stmt} (h : StmtsReplaced a b ss ss') (s : Span)
    (cs : List Clause) : ClausesReplaced a b (.mk pattern ss s :: cs) (.mk pattern ss' s :: cs)
  | tail (c : Clause) {cs cs' : List Clause} (h : ClausesReplaced a b cs cs') :
    ClausesReplaced a b (c :: cs) (c :: cs')

end

end Surface

namespace Compile

open Surface

variable {α β γ : Type} {registry : Match.Registry} {Q : List Diagnostic → Prop}

/-- A renaming that raises numbers, none of them below `m`. -/
def IsLate (m : Nat) (ρ : String → String) : Prop := ∃ j l, ρ = shift (m + j) l

lemma IsLate.renames {m : Nat} {ρ : String → String} (h : IsLate m ρ) : Renames ρ := by
  obtain ⟨j, l, rfl⟩ := h
  exact renumber_renames _

lemma IsLate.mono {m n : Nat} {ρ : String → String} (h : IsLate n ρ) (hmn : m ≤ n) :
    IsLate m ρ := by
  obtain ⟨j, l, rfl⟩ := h
  obtain ⟨i, rfl⟩ := Nat.exists_eq_add_of_le hmn
  exact ⟨i + j, l, by rw [Nat.add_assoc]⟩

lemma IsLate.aligned {m n k : Nat} {ρ : String → String} (h : IsLate m ρ) (hk : n + k ≤ m) :
    Aligned ρ n n k := by
  obtain ⟨j, l, rfl⟩ := h
  exact shift_below l (by omega)

/-- With the counter at `m`, the step `s` does what `s'` does, and beside it draws names and reports
what is as `Q` tells. Up to there the two draw the same names, and then those of `s` have higher
numbers. Their results are related by `R` under the renaming that raises the numbers. -/
def Isolates (m : Nat) (Q : List Diagnostic → Prop) (R : (String → String) → α → α → Prop)
    (s' s : Step α) : Prop :=
  ∃ a' a j l k before inside after, Does s' m a' (j + k) (before ++ after) ∧
    Does s m a (j + l + k) (before ++ inside ++ after) ∧ R (shift (m + j) l) a' a ∧ Q inside

namespace Isolates

variable {m : Nat} {R : (String → String) → α → α → Prop} {S : (String → String) → β → β → Prop}

lemma mono {Q' : List Diagnostic → Prop} {s' s : Step α} (h : Isolates m Q R s' s)
    (hQ : ∀ ds, Q ds → Q' ds) : Isolates m Q' R s' s := by
  obtain ⟨a', a, j, l, k, before, inside, after, hs', hs, hR, hinside⟩ := h
  exact ⟨a', a, j, l, k, before, inside, after, hs', hs, hR, hQ _ hinside⟩

/-- What comes behind is the same on both sides, but for the numbers. -/
lemma after {s' s : Step α} (h : Isolates m Q R s' s) {f' f : α → Step β}
    (hf : ∀ ρ, IsLate m ρ → ∀ a' a, R ρ a' a → Follows ρ (S ρ) (f' a') (f a)) :
    Isolates m Q S (s' >>= f') (s >>= f) := by
  obtain ⟨a', a, j, l, k, before, inside, after, hs', hs, hR, hQ⟩ := h
  have hrest := hf _ ⟨j, l, rfl⟩ a' a hR
  obtain ⟨b', i, ds, hf', -, -⟩ := hrest.logs (m + (j + k))
  obtain ⟨b, hf, hS⟩ := hrest.follows hf' (shift_above l i (by omega))
  -- what was drawn inside has raised the counter by `l` for all that comes behind
  have hcounter : m + (j + k) + l = m + (j + l + k) := by omega
  rw [hcounter] at hf
  refine ⟨b', b, j, l, k + i, before, inside, after ++ ds, ?_, ?_, hS, hQ⟩
  · simpa only [Nat.add_assoc, List.append_assoc] using hs'.bind hf'
  · simpa only [Nat.add_assoc, List.append_assoc] using hs.bind hf

/-- What comes in front is the same on both sides. -/
lemma before {t : Step γ} {G : (String → String) → γ → γ → Prop}
    (ht : ∀ ρ, Renames ρ → Follows ρ (G ρ) t t) {f' f : γ → Step β}
    (hf : ∀ n x, m ≤ n → (∀ ρ, IsLate n ρ → G ρ x x) → Isolates n Q S (f' x) (f x)) :
    Isolates m Q S (t >>= f') (t >>= f) := by
  obtain ⟨x, i, ds, hdoes, -, -⟩ := (ht (shift m 0) (renumber_renames _)).logs m
  have hself : ∀ ρ, IsLate (m + i) ρ → G ρ x x := fun ρ hρ =>
    (ht ρ hρ.renames).self hdoes (hρ.aligned (Nat.le_refl _))
  obtain ⟨b', b, j, l, k, before, inside, after, hs', hs, hS, hQ⟩ :=
    hf (m + i) x (Nat.le_add_right m i) hself
  refine ⟨b', b, i + j, l, k, ds ++ before, inside, after, ?_, ?_, ?_, hQ⟩
  · simpa only [Nat.add_assoc, List.append_assoc] using hdoes.bind hs'
  · simpa only [Nat.add_assoc, List.append_assoc] using hdoes.bind hs
  · rwa [← Nat.add_assoc]

end Isolates

section Trees

variable {a b : Expr}

mutual

/-- If an expression is isolated from another that stands in its place, so is the tree around it. -/
theorem expr_isolates (hr : ∀ f ∈ registry.accessors, NoPercent f)
    (hab : ∀ m, Isolates m Q (fun ρ x y => y = x.rename ρ) (expr registry b) (expr registry a)) :
    ∀ {e e' : Expr}, Expr.Replaced a b e e' → (∀ x ∈ e.names, NoPercent x) → ∀ m,
      Isolates m Q (fun ρ x y => y = x.rename ρ) (expr registry e') (expr registry e)
  | _, _, .here, _, m => hab m
  | _, _, .callee _ h args, hnames, m => by
    simp only [Expr.names, List.forall_mem_append] at hnames
    exact (expr_isolates hr hab h hnames.1 m).after fun ρ hρ _ _ hx =>
      (exprs_follows hρ.renames hr args hnames.2).bind fun _ _ hy =>
        .pure (by rw [hx, hy, Core.Expr.rename])
  | _, _, .args _ f h, hnames, m => by
    simp only [Expr.names, List.forall_mem_append] at hnames
    exact .before (fun ρ hρ => expr_follows hρ hr f hnames.1) fun n _ _ hx =>
      (exprs_isolates hr hab h hnames.2 n).after fun ρ hρ _ _ hy =>
        .pure (by rw [hy, Core.Expr.rename, ← hx ρ hρ])
  | _, _, .lhs _ _ h rhs, hnames, m => by
    simp only [Expr.names, List.forall_mem_append] at hnames
    exact (expr_isolates hr hab h hnames.1 m).after fun ρ hρ _ _ hx =>
      (expr_follows hρ.renames hr rhs hnames.2).bind fun _ _ hy =>
        .pure (by rw [hx, hy, Core.Expr.rename])
  | _, _, .rhs _ _ lhs h, hnames, m => by
    simp only [Expr.names, List.forall_mem_append] at hnames
    exact .before (fun ρ hρ => expr_follows hρ hr lhs hnames.1) fun n _ _ hx =>
      (expr_isolates hr hab h hnames.2 n).after fun ρ hρ _ _ hy =>
        .pure (by rw [hy, Core.Expr.rename, ← hx ρ hρ])
  | _, _, .test _ h yes no, hnames, m => by
    simp only [Expr.names, List.forall_mem_append] at hnames
    exact (expr_isolates hr hab h hnames.1.1 m).after fun ρ hρ _ _ hx =>
      (expr_follows hρ.renames hr yes hnames.1.2).bind fun _ _ hy =>
        (expr_follows hρ.renames hr no hnames.2).bind fun _ _ hz =>
          .pure (by rw [hx, hy, hz, Core.Expr.rename])
  | _, _, .yes _ test h no, hnames, m => by
    simp only [Expr.names, List.forall_mem_append] at hnames
    exact .before (fun ρ hρ => expr_follows hρ hr test hnames.1.1) fun n _ _ hx =>
      (expr_isolates hr hab h hnames.1.2 n).after fun ρ hρ _ _ hy =>
        (expr_follows hρ.renames hr no hnames.2).bind fun _ _ hz =>
          .pure (by rw [hy, hz, Core.Expr.rename, ← hx ρ hρ])
  | _, _, .no _ test yes h, hnames, m => by
    simp only [Expr.names, List.forall_mem_append] at hnames
    exact .before (fun ρ hρ => expr_follows hρ hr test hnames.1.1) fun n _ _ hx =>
      .before (fun ρ hρ => expr_follows hρ hr yes hnames.1.2) fun n' _ hn hy =>
        (expr_isolates hr hab h hnames.2 n').after fun ρ hρ _ _ hz =>
          .pure (by rw [hz, Core.Expr.rename, ← hx ρ (hρ.mono hn), ← hy ρ hρ])
  | _, _, .block _ h, hnames, m =>
    (stmts_isolates hr hab h hnames m).after fun ρ _ _ _ hx => .pure (by rw [hx, sequence_rename])
  | _, _, .scrutinee _ operator h cs site, hnames, m => by
    simp only [Expr.names, List.forall_mem_cons, List.cons_append, List.forall_mem_append] at hnames
    refine (expr_isolates hr hab h hnames.2.1 m).after fun ρ hρ x _ hx => ?_
    refine (clauses_follows hρ.renames hr cs hnames.2.2).bind fun xs _ hxs => ?_
    rw [hx, hxs.1]
    exact expandMatch_follows hρ.renames hr operator x hxs.2 site
  | _, _, .clauses _ operator e h site, hnames, m => by
    simp only [Expr.names, List.forall_mem_cons, List.cons_append, List.forall_mem_append] at hnames
    refine .before (fun ρ hρ => expr_follows hρ hr e hnames.2.1) fun n x _ hx => ?_
    refine (clauses_isolates hr hab h hnames.2.2 n).after fun ρ hρ xs _ hxs => ?_
    have hexpand := expandMatch_follows hρ.renames hr operator x hxs.2 site
    rwa [← hx ρ hρ, ← hxs.1] at hexpand

theorem exprs_isolates (hr : ∀ f ∈ registry.accessors, NoPercent f)
    (hab : ∀ m, Isolates m Q (fun ρ x y => y = x.rename ρ) (expr registry b) (expr registry a)) :
    ∀ {es es' : List Expr}, ExprsReplaced a b es es' → (∀ x ∈ exprsNames es, NoPercent x) → ∀ m,
      Isolates m Q (fun ρ xs ys => ys = Core.renameAll ρ xs) (exprs registry es')
        (exprs registry es)
  | _, _, .head h es, hnames, m => by
    simp only [exprsNames, List.forall_mem_append] at hnames
    exact (expr_isolates hr hab h hnames.1 m).after fun ρ hρ _ _ hx =>
      (exprs_follows hρ.renames hr es hnames.2).bind fun _ _ hy =>
        .pure (by rw [hx, hy, Core.renameAll])
  | _, _, .tail e h, hnames, m => by
    simp only [exprsNames, List.forall_mem_append] at hnames
    exact .before (fun ρ hρ => expr_follows hρ hr e hnames.1) fun n _ _ hx =>
      (exprs_isolates hr hab h hnames.2 n).after fun ρ hρ _ _ hy =>
        .pure (by rw [hy, Core.renameAll, ← hx ρ hρ])

theorem stmts_isolates (hr : ∀ f ∈ registry.accessors, NoPercent f)
    (hab : ∀ m, Isolates m Q (fun ρ x y => y = x.rename ρ) (expr registry b) (expr registry a)) :
    ∀ {ss ss' : List Stmt}, StmtsReplaced a b ss ss' → (∀ x ∈ stmtsNames ss, NoPercent x) → ∀ m,
      Isolates m Q (fun ρ xs ys => ys = Core.renameAll ρ xs) (stmts registry ss')
        (stmts registry ss)
  | _, _, .expr h ss, hnames, m => by
    simp only [stmtsNames, Surface.Stmt.names, List.forall_mem_append] at hnames
    exact (expr_isolates hr hab h hnames.1 m).after fun ρ hρ _ _ hx =>
      (stmts_follows hρ.renames hr ss hnames.2).bind fun _ _ hy =>
        .pure (by rw [hx, hy, Core.renameAll])
  | _, _, .bind name h ss, hnames, m => by
    simp only [stmtsNames, Surface.Stmt.names, List.cons_append, List.forall_mem_cons,
      List.forall_mem_append] at hnames
    exact (expr_isolates hr hab h hnames.2.1 m).after fun ρ hρ _ _ hx =>
      (stmts_follows hρ.renames hr ss hnames.2.2).bind fun _ _ hy => .pure <| by
        rw [hx, hy, sequence_rename, Core.renameAll, Core.Expr.rename,
          hρ.renames.plain _ hnames.1]
        rfl
  | _, _, .behindExpr e h, hnames, m => by
    simp only [stmtsNames, Surface.Stmt.names, List.forall_mem_append] at hnames
    exact .before (fun ρ hρ => expr_follows hρ hr e hnames.1) fun n _ _ hx =>
      (stmts_isolates hr hab h hnames.2 n).after fun ρ hρ _ _ hy =>
        .pure (by rw [hy, Core.renameAll, ← hx ρ hρ])
  | _, _, .behindBind name e h, hnames, m => by
    simp only [stmtsNames, Surface.Stmt.names, List.cons_append, List.forall_mem_cons,
      List.forall_mem_append] at hnames
    exact .before (fun ρ hρ => expr_follows hρ hr e hnames.2.1) fun n _ _ hx =>
      (stmts_isolates hr hab h hnames.2.2 n).after fun ρ hρ _ _ hy => .pure <| by
        rw [hy, sequence_rename, Core.renameAll, Core.Expr.rename, ← hx ρ hρ,
          hρ.renames.plain _ hnames.1]
        rfl

theorem clauses_isolates (hr : ∀ f ∈ registry.accessors, NoPercent f)
    (hab : ∀ m, Isolates m Q (fun ρ x y => y = x.rename ρ) (expr registry b) (expr registry a)) :
    ∀ {cs cs' : List Clause}, ClausesReplaced a b cs cs' → (∀ x ∈ clausesNames cs, NoPercent x) →
      ∀ m, Isolates m Q (fun ρ xs ys => ys = xs.map (·.rename ρ) ∧
        ∀ c ∈ xs, ∀ x ∈ c.pattern.binders, NoPercent x) (clauses registry cs')
          (clauses registry cs)
  | _, _, .body pattern h span cs, hnames, m => by
    simp only [clausesNames, Surface.Clause.names, List.forall_mem_append] at hnames
    have hbinders : ∀ x ∈ pattern.binders, NoPercent x := fun x hx =>
      hnames.1.1 x (Match.Pattern.mem_names_of_mem_binders hx)
    refine (stmts_isolates hr hab h hnames.1.2 m).after fun ρ hρ xs _ hxs => ?_
    dsimp only
    rw [hxs, sequence_rename, unusedParams_rename hρ.renames hbinders]
    have hreport := unusedParams_isDefinition pattern (sequence xs)
    exact (Follows.report hreport).bind fun _ _ _ =>
      (clauses_follows hρ.renames hr cs hnames.2).bind fun _ _ hcs =>
        .pure ⟨by rw [hcs.1]; rfl, List.forall_mem_cons.mpr ⟨hbinders, hcs.2⟩⟩
  | _, _, .tail (.mk pattern body span) h, hnames, m => by
    simp only [clausesNames, Surface.Clause.names, List.forall_mem_append] at hnames
    have hbinders : ∀ x ∈ pattern.binders, NoPercent x := fun x hx =>
      hnames.1.1 x (Match.Pattern.mem_names_of_mem_binders hx)
    refine .before (fun ρ hρ => stmts_follows hρ hr body hnames.1.2) fun n xs _ hxs => ?_
    have hreport := unusedParams_isDefinition pattern (sequence xs)
    refine .before (fun _ _ => Follows.report hreport) fun n' _ hn _ => ?_
    refine (clauses_isolates hr hab h hnames.2 n').after fun ρ hρ _ _ hcs => .pure ?_
    have hbody := sequence_rename ρ xs
    rw [← hxs ρ (hρ.mono hn)] at hbody
    refine ⟨?_, List.forall_mem_cons.mpr ⟨hbinders, hcs.2⟩⟩
    rw [hcs.1, List.map_cons, Match.Clause.rename, ← hbody]

end

/-- If an expression is isolated from another that stands in its place in a function, so are the
functions of the module. -/
theorem functions_isolate (hr : ∀ f ∈ registry.accessors, NoPercent f)
    (hab : ∀ m, Isolates m Q (fun ρ x y => y = x.rename ρ) (expr registry b) (expr registry a))
    {f : Function} {body' : Expr} (h : Expr.Replaced a b f.body body') {fs gs : List Function}
    (hnames : ∀ g ∈ fs ++ f :: gs, ∀ x ∈ g.body.names, NoPercent x) (m : Nat) :
    Isolates m Q (fun ρ hs hs' => hs' = hs.map (·.rename ρ))
      ((fs ++ { f with body := body' } :: gs).mapM (function registry))
      ((fs ++ f :: gs).mapM (function registry)) := by
  induction fs generalizing m with
  | nil =>
    obtain ⟨hf, hgs⟩ := List.forall_mem_cons.mp hnames
    have hfunction : Isolates m Q (fun ρ x y => y = x.rename ρ)
        (function registry { f with body := body' }) (function registry f) :=
      (expr_isolates hr hab h hf m).after fun ρ _ _ _ hx =>
        .pure (by rw [hx, Core.Function.rename])
    rw [List.nil_append, List.nil_append, List.mapM_cons, List.mapM_cons]
    exact hfunction.after fun ρ hρ _ _ hx =>
      (functions_follow hρ.renames hr hgs).bind fun _ _ hxs =>
        .pure (by rw [hx, hxs, List.map_cons])
  | cons g fs ih =>
    obtain ⟨hg, hrest⟩ := List.forall_mem_cons.mp hnames
    rw [List.cons_append, List.cons_append, List.mapM_cons, List.mapM_cons]
    exact .before (fun ρ hρ => function_follows hρ hr hg) fun n _ _ hx =>
      (ih hrest n).after fun ρ hρ _ _ hxs => .pure (by rw [hxs, List.map_cons, ← hx ρ hρ])

/-- Functions that are the same on both sides. -/
lemma functions_isolate_self (hr : ∀ f ∈ registry.accessors, NoPercent f) {fs : List Function}
    (hfs : ∀ f ∈ fs, ∀ x ∈ f.body.names, NoPercent x) (m : Nat) :
    Isolates m (· = []) (fun ρ hs hs' => hs' = hs.map (·.rename ρ)) (fs.mapM (function registry))
      (fs.mapM (function registry)) := by
  have hfollows := functions_follow (renumber_renames fun i => if i < m then i else i + 0) hr hfs
  obtain ⟨gs, k, ds, hdoes, -, -⟩ := hfollows.logs m
  have hself : gs = gs.map (·.rename (shift (m + k) 0)) :=
    (functions_follow (renumber_renames _) hr hfs).self hdoes (shift_below 0 (Nat.le_refl _))
  exact ⟨gs, gs, k, 0, 0, ds, [], [], by simpa using hdoes, by simpa using hdoes, hself, rfl⟩

end Trees

end Compile

end ClosedSum
