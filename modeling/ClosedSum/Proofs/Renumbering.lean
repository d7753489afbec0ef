import ClosedSum.Proofs.LoweringLogs
import ClosedSum.Proofs.Renaming

/-!
# Renumbered names

What is compiled of a tree with the counter at one number differs from what is compiled of it with
the counter at another number in the numbers of the names that were drawn, and in nothing else. The
reports are the same.
-/

namespace ClosedSum

namespace Core

def Param.rename (ρ : String → String) (p : Param) : Param := { p with name := ρ p.name }

def Test.rename (ρ : String → String) : Test → Test
  | .always => .always
  | .case scrutinee variant tag predicate => .case (ρ scrutinee) variant tag predicate

mutual

/-- An expression with all names of variables and parameters exchanged, free or bound. -/
def Expr.rename (ρ : String → String) : Expr → Expr
  | .lit value => .lit value
  | .var x => .var (ρ x)
  | .call callee args => .call (callee.rename ρ) (renameAll ρ args)
  | .lambda params variadic body => .lambda (params.map (·.rename ρ)) variadic (body.rename ρ)
  | .letIn x value body => .letIn (ρ x) (value.rename ρ) (body.rename ρ)
  | .seq exprs => .seq (renameAll ρ exprs)
  | .ifElse test yes no => .ifElse (test.rename ρ) (yes.rename ρ) (no.rename ρ)
  | .binary op lhs rhs => .binary op (lhs.rename ρ) (rhs.rename ρ)
  | .dispatch branches => .dispatch (renameBranches ρ branches)
  | .fail variant => .fail variant
  | .error => .error

def renameAll (ρ : String → String) : List Expr → List Expr
  | [] => []
  | e :: es => e.rename ρ :: renameAll ρ es

def renameBranches (ρ : String → String) : List Branch → List Branch
  | [] => []
  | .mk test action :: bs => .mk (test.rename ρ) (action.rename ρ) :: renameBranches ρ bs

end

def Lambda.rename (ρ : String → String) (f : Lambda) : Lambda :=
  ⟨f.params.map (·.rename ρ), f.variadic, f.body.rename ρ⟩

def Function.rename (ρ : String → String) (f : Function) : Function :=
  { f with body := f.body.rename ρ }

lemma renameAll_eq_map (ρ : String → String) (es : List Expr) :
    renameAll ρ es = es.map (·.rename ρ) := by
  induction es with
  | nil => rfl
  | cons e es ih => rw [renameAll, ih, List.map_cons]

end Core

/-- A renaming that keeps the names of the source and takes generated names to generated names. -/
structure Renames (ρ : String → String) : Prop where
  plain : ∀ x, NoPercent x → ρ x = x
  generated : ∀ x, ¬ NoPercent x → ¬ NoPercent (ρ x)

section Mentions

open ClosedSum.Core ClosedSum.Core.Expr

variable {ρ : String → String} {x : String}

lemma Renames.eq_iff (h : Renames ρ) (hx : NoPercent x) (a : String) : ρ a = x ↔ a = x := by
  refine ⟨fun heq => ?_, fun heq => by rw [heq, h.plain x hx]⟩
  by_cases ha : NoPercent a
  · rwa [h.plain a ha] at heq
  · exact absurd (heq ▸ hx) (h.generated a ha)

mutual

/-- The names of the source that occur free stay the same. -/
theorem Renames.mentions_rename (h : Renames ρ) (hx : NoPercent x) :
    (e : Expr) → (e.rename ρ).mentions x = e.mentions x
  | .lit _ | .fail _ | .error => rfl
  | .var a => by simp only [Expr.rename, mentions, h.eq_iff hx a]
  | .call callee args => by
    simp only [Expr.rename, mentions, h.mentions_rename hx callee, h.mentionsAny_rename hx args]
  | .lambda params _ body => by
    have hparams : (params.map (·.rename ρ)).any (·.name = x) = params.any (·.name = x) := by
      simp [List.any_map, Function.comp_def, Param.rename, h.eq_iff hx]
    simp only [Expr.rename, mentions, hparams, h.mentions_rename hx body]
  | .letIn a value body => by
    simp only [Expr.rename, mentions, ne_eq, h.eq_iff hx a, h.mentions_rename hx value,
      h.mentions_rename hx body]
  | .seq exprs => by simp only [Expr.rename, mentions, h.mentionsAny_rename hx exprs]
  | .ifElse test yes no => by
    simp only [Expr.rename, mentions, h.mentions_rename hx test, h.mentions_rename hx yes,
      h.mentions_rename hx no]
  | .binary _ lhs rhs => by
    simp only [Expr.rename, mentions, h.mentions_rename hx lhs, h.mentions_rename hx rhs]
  | .dispatch branches => by simp only [Expr.rename, mentions, h.mentionsBranch_rename hx branches]

theorem Renames.mentionsAny_rename (h : Renames ρ) (hx : NoPercent x) :
    (es : List Expr) → mentionsAny x (renameAll ρ es) = mentionsAny x es
  | [] => rfl
  | e :: es => by
    simp only [renameAll, mentionsAny, h.mentions_rename hx e, h.mentionsAny_rename hx es]

theorem Renames.mentionsBranch_rename (h : Renames ρ) (hx : NoPercent x) :
    (bs : List Branch) → mentionsBranch x (renameBranches ρ bs) = mentionsBranch x bs
  | [] => rfl
  | .mk test action :: bs => by
    have htest : (test.rename ρ).mentions x = test.mentions x := by
      cases test with
      | always => rfl
      | case a => simp only [Test.rename, Test.mentions, h.eq_iff hx a]
    simp only [renameBranches, mentionsBranch, htest, h.mentions_rename hx action,
      h.mentionsBranch_rename hx bs]

end

end Mentions

/-- A generated name with its number exchanged, and any other name as it is. -/
def renumber (f : Nat → Nat) (x : String) : String :=
  match x.toList.dropWhile (· ≠ '%') with
  | [] => x
  | _ :: digits =>
    let stem := String.ofList (x.toList.takeWhile (· ≠ '%'))
    freshName stem (f (Nat.ofDigitChars 10 digits 0))

/-- The numbers from `n` on are raised by `k`. -/
def shift (n k : Nat) : String → String := renumber fun i => if i < n then i else i + k

lemma toList_freshName (stem : String) (n : Nat) :
    (freshName stem n).toList = stem.toList ++ '%' :: Nat.toDigits 10 n := by
  simp [freshName, toString, String.toList_append, Nat.repr]

lemma renumber_freshName (f : Nat → Nat) {stem : String} (h : NoPercent stem) (n : Nat) :
    renumber f (freshName stem n) = freshName stem (f n) := by
  have hstem : ∀ c ∈ stem.toList, decide (c ≠ '%') = true := fun c hc =>
    decide_eq_true fun heq => h (heq ▸ hc)
  rw [renumber, toList_freshName, List.takeWhile_append_of_pos hstem,
    List.dropWhile_append_of_pos hstem]
  simp

lemma renumber_renames (f : Nat → Nat) : Renames (renumber f) := by
  constructor
  · intro x hx
    have hall : ∀ c ∈ x.toList, decide (c ≠ '%') = true := fun c hc =>
      decide_eq_true fun heq => hx (heq ▸ hc)
    rw [renumber, List.dropWhile_eq_nil_iff.mpr hall]
  · intro x hx
    unfold renumber
    split
    · exact hx
    · exact fun hplain => hplain (percent_mem_freshName _ _)

/-- A renaming takes the `k` names drawn from number `n` on to those drawn from number `n'` on. -/
def Aligned (ρ : String → String) (n n' k : Nat) : Prop :=
  ∀ stem, NoPercent stem → ∀ i < k, ρ (freshName stem (n + i)) = freshName stem (n' + i)

namespace Aligned

variable {ρ : String → String} {n n' k l : Nat}

lemma left (h : Aligned ρ n n' (k + l)) : Aligned ρ n n' k :=
  fun stem hstem i hi => h stem hstem i (by omega)

lemma right (h : Aligned ρ n n' (k + l)) : Aligned ρ (n + k) (n' + k) l := fun stem hstem i hi => by
  simpa only [Nat.add_assoc] using h stem hstem (k + i) (by omega)

end Aligned

lemma shift_below {n m k : Nat} (l : Nat) (h : m + k ≤ n) : Aligned (shift n l) m m k := by
  intro stem hstem i hi
  rw [shift, renumber_freshName _ hstem, if_pos (by omega)]

lemma shift_above {n m : Nat} (l k : Nat) (h : n ≤ m) : Aligned (shift n l) m (m + l) k := by
  intro stem hstem i hi
  rw [shift, renumber_freshName _ hstem, if_neg (by omega), Nat.add_right_comm]

namespace Match

variable {α α' β β' : Type} {ρ : String → String}

/-- Two computations draw as many names. If a renaming takes those of the first to those of the
second, their results are related by `F`. -/
structure Follows (ρ : String → String) (F : α → α') (s : StateM Nat α) (s' : StateM Nat α') :
    Prop where
  draws : ∀ n, n ≤ (s n).2
  follows : ∀ {n n' k}, (s n).2 = n + k → Aligned ρ n n' k → s' n' = (F (s n).1, n' + k)

namespace Follows

variable {F : α → α'} {G : β → β'}

lemma pure (a : α) : Follows ρ F (Pure.pure a) (Pure.pure (F a)) := by
  refine ⟨fun n => Nat.le_refl n, fun {n n' k} hk _ => ?_⟩
  obtain rfl : k = 0 := Nat.left_eq_add.mp hk
  rfl

lemma bind {s : StateM Nat α} {s' : StateM Nat α'} {f : α → StateM Nat β} {f' : α' → StateM Nat β'}
    (hs : Follows ρ F s s') (hf : ∀ a, Follows ρ G (f a) (f' (F a))) :
    Follows ρ G (s >>= f) (s' >>= f') := by
  have hrun : ∀ n, (s >>= f) n = f (s n).1 (s n).2 := fun _ => rfl
  have hrun' : ∀ n, (s' >>= f') n = f' (s' n).1 (s' n).2 := fun _ => rfl
  constructor
  · exact fun n => Nat.le_trans (hs.draws n) ((hf _).draws _)
  · intro n n' k hk hρ
    obtain ⟨i, hi⟩ := Nat.exists_eq_add_of_le (hs.draws n)
    obtain ⟨j, hj⟩ := Nat.exists_eq_add_of_le ((hf (s n).1).draws (s n).2)
    obtain rfl : k = i + j := by
      rw [hrun] at hk
      omega
    rw [hrun', hs.follows hi hρ.left]
    rw [hi] at hj
    rw [(hf (s n).1).follows hj hρ.right, hrun, hi, Nat.add_assoc]

lemma fresh {stem : String} (h : NoPercent stem) : Follows ρ ρ (fresh stem) (fresh stem) := by
  refine ⟨fun n => Nat.le_succ n, fun {n n' k} hk hρ => ?_⟩
  obtain rfl : k = 1 := (Nat.add_left_cancel hk).symm
  have hname := hρ stem h 0 Nat.one_pos
  exact Prod.ext hname.symm rfl

lemma mapM {H : β → β} {f : α → StateM Nat β} {as : List α}
    (hf : ∀ a ∈ as, Follows ρ H (f a) (f a)) :
    Follows ρ (List.map H) (as.mapM f) (as.mapM f) := by
  induction as with
  | nil => exact .pure []
  | cons a as ih =>
    obtain ⟨ha, has⟩ := List.forall_mem_cons.mp hf
    rw [List.mapM_cons]
    exact ha.bind fun b => (ih has).bind fun bs => .pure (b :: bs)

end Follows

/-- Two compilations that follow one another fail together, with the same fault. -/
def Compile.Follows (ρ : String → String) (F : α → α') (s : Compile α) (s' : Compile α') : Prop :=
  Match.Follows ρ (Except.map F) s.run s'.run

namespace Compile.Follows

variable {F : α → α'} {G : β → β'}

lemma pure (a : α) : Compile.Follows ρ F (Pure.pure a) (Pure.pure (F a)) :=
  Match.Follows.pure (Except.ok a)

lemma throw (f : Fault) : Compile.Follows ρ F (throw f) (throw f) :=
  Match.Follows.pure (Except.error f)

lemma lift {s : StateM Nat α} {s' : StateM Nat α'} (h : Match.Follows ρ F s s') :
    Compile.Follows ρ F (liftM s) (liftM s') := by
  have hok : ∀ a, Compile.Follows ρ F (Pure.pure a) (Pure.pure (F a)) := pure
  exact Match.Follows.bind h hok

lemma bind {s : Compile α} {s' : Compile α'} {f : α → Compile β} {f' : α' → Compile β'}
    (hs : Compile.Follows ρ F s s') (hf : ∀ a, Compile.Follows ρ G (f a) (f' (F a))) :
    Compile.Follows ρ G (s >>= f) (s' >>= f') := by
  change Match.Follows ρ _ (s.run >>= ExceptT.bindCont f) (s'.run >>= ExceptT.bindCont f')
  refine Match.Follows.bind hs fun r => ?_
  cases r with
  | error e => exact Match.Follows.pure (Except.error e)
  | ok a => exact hf a

end Compile.Follows

def Clause.rename (ρ : String → String) (c : Clause) : Clause := { c with body := c.body.rename ρ }

def Dispatch.rename (ρ : String → String) (d : Dispatch) : Dispatch :=
  { d with branches := Core.renameBranches ρ d.branches }

def Operator.Expansion.rename (ρ : String → String) (x : Expansion) : Expansion :=
  { x with expr := x.expr.rename ρ }

def Site.rename (ρ : String → String) (site : Site) : Site :=
  { site with scrutinee := ρ site.scrutinee }

lemma Param.compile_follows (hρ : Renames ρ) {p : Param}
    (hp : ∀ x, p.name? = some x → NoPercent x) : Follows ρ (·.rename ρ) p.compile p.compile := by
  cases p with
  | named i =>
    have hname : Core.Param.rename ρ { name := i.name } = { name := i.name } := by
      rw [Core.Param.rename, hρ.plain i.name (hp _ rfl)]
    have hpure : Follows ρ (Core.Param.rename ρ) (Pure.pure { name := i.name })
        (Pure.pure (Core.Param.rename ρ { name := i.name })) := .pure _
    rwa [hname] at hpure
  | wildcard span =>
    have hstem : NoPercent "_" := by simp [NoPercent]
    exact (Follows.fresh hstem).bind fun x => .pure (Core.Param.mk x true)

lemma Pattern.compile_follows (hρ : Renames ρ) {p : Pattern}
    (hp : ∀ x ∈ p.binders, NoPercent x) (body : Core.Expr) :
    Follows ρ (·.rename ρ) (p.compile body) (p.compile (body.rename ρ)) := by
  match p, hp with
  | .default, _ => exact .pure (Core.Lambda.mk [] false body)
  | .case _ (.rest _), _ => exact .pure (Core.Lambda.mk [] true body)
  | .case _ (.list params), hp =>
    have hparams : ∀ p ∈ params, Follows ρ (·.rename ρ) p.compile p.compile := by
      intro p hmem
      refine p.compile_follows hρ fun x hx => hp x ?_
      exact List.mem_filterMap.mpr ⟨p, hmem, hx⟩
    exact (Follows.mapM hparams).bind fun ps => .pure (Core.Lambda.mk ps false body)

namespace Site

lemma action_follows (hρ : Renames ρ) {c : Clause} (hc : ∀ x ∈ c.pattern.binders, NoPercent x)
    (args : List Core.Expr) :
    Follows ρ (·.rename ρ) (action c args) (action (c.rename ρ) (Core.renameAll ρ args)) :=
  (Pattern.compile_follows hρ hc c.body).bind fun f => .pure (Core.Expr.call f.toExpr args)

lemma fieldCalls_rename (hρ : Renames ρ) {s : Schema} (hs : ∀ f ∈ s.accessors, NoPercent f)
    {e : Entry} (he : e ∈ s.entries) (scrutinee : String) :
    Core.renameAll ρ (s.fieldCalls e scrutinee) = s.fieldCalls e (ρ scrutinee) := by
  rw [Core.renameAll_eq_map, Schema.fieldCalls, Schema.fieldCalls, List.map_map]
  refine List.map_congr_left fun f hf => ?_
  have hplain := hρ.plain _ (hs _ (List.mem_flatMap.mpr ⟨e, he, List.mem_map_of_mem hf⟩))
  simp only [Function.comp_apply, Core.Expr.rename, Core.renameAll, hplain]

variable {site : Site}

lemma compileFrom_follows (hρ : Renames ρ) (hs : ∀ f ∈ site.schema.accessors, NoPercent f)
    (seen : List Ident) {cs : List Clause} (hcs : ∀ c ∈ cs, ∀ x ∈ c.pattern.binders, NoPercent x) :
    Compile.Follows ρ (·.rename ρ) (site.compileFrom seen cs)
      ((site.rename ρ).compileFrom seen (cs.map (·.rename ρ))) := by
  induction cs generalizing seen with
  | nil => exact .pure (site.close seen)
  | cons c cs ih =>
    obtain ⟨hc, hrest⟩ := List.forall_mem_cons.mp hcs
    have haction := fun args => action_follows hρ hc args
    obtain ⟨pattern, body, span⟩ := c
    rw [List.map_cons, compileFrom.eq_def, compileFrom.eq_def (site.rename ρ)]
    cases pattern with
    | default =>
      cases cs with
      | nil =>
        exact .lift ((haction []).bind fun a => .pure (Dispatch.mk [.mk .always a] _))
      | cons following cs => exact .throw _
    | case label params =>
      dsimp only [Clause.rename]
      split
      · exact .throw _
      · have hentry : (site.rename ρ).schema.entry label = site.schema.entry label := rfl
        rw [hentry]
        unfold Schema.entry
        cases hfind : site.schema.find? label.name with
        | none => exact .throw _
        | some e =>
          have hcalls := fieldCalls_rename hρ hs (List.mem_of_find?_eq_some hfind) site.scrutinee
          have hclause := haction (site.schema.fieldCalls e site.scrutinee)
          rw [hcalls] at hclause
          have hbind : ∀ k : Entry → Compile Dispatch,
              (liftM (Except.ok e : Except Fault Entry) >>= k) = k e := fun _ => rfl
          rw [hbind, hbind]
          exact (Compile.Follows.lift hclause).bind fun a => (ih _ hrest).bind fun rest =>
            .pure (rest.addBranch _ a _)

lemma compile_follows (hρ : Renames ρ) (hs : ∀ f ∈ site.schema.accessors, NoPercent f)
    {cs : List Clause} (hcs : ∀ c ∈ cs, ∀ x ∈ c.pattern.binders, NoPercent x) :
    Compile.Follows ρ (·.rename ρ) (site.compile cs)
      ((site.rename ρ).compile (cs.map (·.rename ρ))) := by
  have hempty : (cs.map (·.rename ρ)).isEmpty = cs.isEmpty := by cases cs <;> rfl
  unfold compile
  rw [hempty]
  split
  · exact .throw _
  · exact compileFrom_follows hρ hs [] hcs

end Site

lemma Operator.expand_follows (hρ : Renames ρ) {o : Operator}
    (ho : ∀ f ∈ o.schema.accessors, NoPercent f) (scrutinee : Core.Expr) {cs : List Clause}
    (hcs : ∀ c ∈ cs, ∀ x ∈ c.pattern.binders, NoPercent x) (span : Span) :
    Compile.Follows ρ (·.rename ρ) (o.expand scrutinee cs span)
      (o.expand (scrutinee.rename ρ) (cs.map (·.rename ρ)) span) := by
  have hstem : NoPercent "scrutinee" := by simp [NoPercent]
  unfold expand
  refine (Compile.Follows.lift (Follows.fresh hstem)).bind fun name => ?_
  have hsite : Compile.Follows ρ (·.rename ρ) (Site.compile ⟨o.schema, name, span⟩ cs)
      (Site.compile ⟨o.schema, ρ name, span⟩ (cs.map (·.rename ρ))) :=
    @Site.compile_follows ρ ⟨o.schema, name, span⟩ hρ ho cs hcs
  exact hsite.bind fun d =>
    .pure (Expansion.mk (.letIn name scrutinee (.dispatch d.branches)) d.advice)

theorem Registry.expand_follows (hρ : Renames ρ) {r : Registry}
    (hr : ∀ f ∈ r.accessors, NoPercent f) (operator : Ident) (scrutinee : Core.Expr)
    {cs : List Clause} (hcs : ∀ c ∈ cs, ∀ x ∈ c.pattern.binders, NoPercent x) (span : Span) :
    Compile.Follows ρ (·.rename ρ) (r.expand operator scrutinee cs span)
      (r.expand operator (scrutinee.rename ρ) (cs.map (·.rename ρ)) span) := by
  unfold expand
  cases hfind : r.find? operator.name with
  | none => exact .throw _
  | some o =>
    refine Operator.expand_follows hρ (fun f hf => hr f ?_) scrutinee hcs span
    exact List.mem_flatMap.mpr ⟨o, List.mem_of_find?_eq_some hfind, hf⟩

end Match

namespace Compile

open Surface (Expr Stmt Clause exprsNames stmtsNames clausesNames)

variable {α α' β β' : Type} {ρ : String → String} {registry : Match.Registry}

/-- Two steps draw as many names and report the same. If a renaming takes the names of the first to
those of the second, `R` relates their results. -/
structure Follows (ρ : String → String) (R : α → α' → Prop) (s : Step α) (s' : Step α') : Prop where
  logs : Logs s fun a _ => ∃ a', R a a'
  follows : ∀ {n n' a k ds}, Does s n a k ds → Aligned ρ n n' k → ∃ a', Does s' n' a' k ds ∧ R a a'

namespace Follows

variable {R : α → α' → Prop} {S : β → β' → Prop}

lemma pure {a : α} {a' : α'} (h : R a a') : Follows ρ R (Pure.pure a) (Pure.pure a') := by
  refine ⟨.pure ⟨a', h⟩, fun {n n' b k ds} hdoes _ => ?_⟩
  obtain ⟨rfl, rfl, rfl⟩ := hdoes.unique (.pure a n)
  exact ⟨a', .pure a' n', h⟩

lemma bind {s : Step α} {s' : Step α'} {f : α → Step β} {f' : α' → Step β'}
    (hs : Follows ρ R s s') (hf : ∀ a a', R a a' → Follows ρ S (f a) (f' a')) :
    Follows ρ S (s >>= f) (s' >>= f') := by
  constructor
  · intro n
    obtain ⟨a, k, ds, hdoes, hcodes, a', hR⟩ := hs.logs n
    obtain ⟨b, l, es, hdoes', hcodes', hS⟩ := (hf a a' hR).logs (n + k)
    exact ⟨b, k + l, ds ++ es, hdoes.bind hdoes', List.forall_mem_append.mpr ⟨hcodes, hcodes'⟩, hS⟩
  · intro n n' b k ds hdoes hρ
    obtain ⟨a, i, ds₁, hfirst, -, a', hR⟩ := hs.logs n
    obtain ⟨c, j, ds₂, hsecond, -, -⟩ := (hf a a' hR).logs (n + i)
    obtain ⟨rfl, rfl, rfl⟩ := hdoes.unique (hfirst.bind hsecond)
    obtain ⟨a'', hfirst', hR'⟩ := hs.follows hfirst hρ.left
    obtain ⟨b', hsecond', hS⟩ := (hf a a'' hR').follows hsecond hρ.right
    exact ⟨b', hfirst'.bind hsecond', hS⟩

lemma report {ds : List Diagnostic} (h : ∀ d ∈ ds, d.code.isDefinition = false) :
    Follows ρ (fun _ _ => True) (report ds) (report ds) := by
  refine ⟨(report_logs h).mono fun _ _ _ => ⟨(), trivial⟩, fun {n n' u k es} hdoes _ => ?_⟩
  obtain ⟨-, rfl, rfl⟩ := hdoes.unique (.report ds n)
  exact ⟨(), .report _ n', trivial⟩

/-- With the counter where it is, a step comes to what the renaming leaves as it is. -/
lemma self {a : α} {n k : Nat} {ds : List Diagnostic} {s : Step α} {R : α → α → Prop}
    (h : Follows ρ R s s) (hdoes : Does s n a k ds) (hρ : Aligned ρ n n k) : R a a := by
  obtain ⟨a', hdoes', hR⟩ := h.follows hdoes hρ
  obtain ⟨rfl, -, -⟩ := hdoes.unique hdoes'
  exact hR

end Follows

lemma sequence_rename (ρ : String → String) (es : List Core.Expr) :
    sequence (Core.renameAll ρ es) = (sequence es).rename ρ := by
  match es with
  | [] => rfl
  | [e] => rfl
  | e :: e' :: es => rfl

/-- A renaming of generated names changes nothing about which parameters are used. -/
lemma unusedParams_rename (hρ : Renames ρ) {p : Match.Pattern} (hp : ∀ x ∈ p.binders, NoPercent x)
    (body : Core.Expr) : unusedParams p (body.rename ρ) = unusedParams p body := by
  match p, hp with
  | .default, _ | .case _ (.rest _), _ => rfl
  | .case _ (.list params), hp =>
    refine List.filterMap_congr fun p hmem => ?_
    cases p with
    | wildcard span => rfl
    | named i =>
      have hi : NoPercent i.name := hp _ (List.mem_filterMap.mpr ⟨_, hmem, rfl⟩)
      simp only [hρ.mentions_rename hi]

lemma expandMatch_follows (hρ : Renames ρ) (hr : ∀ f ∈ registry.accessors, NoPercent f)
    (operator : Ident) (scrutinee : Core.Expr) {cs : List Match.Clause}
    (hcs : ∀ c ∈ cs, ∀ x ∈ c.pattern.binders, NoPercent x) (site : Span) :
    Follows ρ (fun x y => y = x.rename ρ) (expandMatch registry operator scrutinee cs site)
      (expandMatch registry operator (scrutinee.rename ρ) (cs.map (·.rename ρ)) site) := by
  have hexpand := Match.Registry.expand_follows hρ hr operator scrutinee hcs site
  refine ⟨(expandMatch_logs operator scrutinee cs site).mono fun x _ _ => ⟨_, rfl⟩, ?_⟩
  intro n n' x k ds hdoes haligned
  obtain ⟨i, hi⟩ := Nat.exists_eq_add_of_le (hexpand.draws n)
  have hcounter : (registry.expand operator scrutinee cs site n).2 = n + i := hi
  have hfollows : Aligned ρ n n' i → registry.expand operator (scrutinee.rename ρ)
      (cs.map (·.rename ρ)) site n' =
        ((registry.expand operator scrutinee cs site n).1.map (·.rename ρ), n' + i) :=
    hexpand.follows hi
  cases hrun : registry.expand operator scrutinee cs site n with
  | mk result counter =>
    rw [hrun] at hcounter hfollows
    obtain rfl : counter = n + i := hcounter
    cases result with
    | error f =>
      obtain ⟨rfl, rfl, rfl⟩ := hdoes.unique (expandMatch_does_error hrun)
      exact ⟨.error, expandMatch_does_error (hfollows haligned), rfl⟩
    | ok y =>
      obtain ⟨rfl, rfl, rfl⟩ := hdoes.unique (expandMatch_does_ok hrun)
      have hrun' := expandMatch_does_ok (hfollows haligned)
      exact ⟨_, hrun', rfl⟩

mutual

/-- What is compiled of an expression is the same wherever the counter stands, but for the numbers
of the names that are drawn. -/
theorem expr_follows (hρ : Renames ρ) (hr : ∀ f ∈ registry.accessors, NoPercent f) :
    (e : Expr) → (∀ a ∈ e.names, NoPercent a) →
      Follows ρ (fun x y => y = x.rename ρ) (expr registry e) (expr registry e)
  | .unit _, _ | .bool .., _ | .int .., _ | .str .., _ | .error _, _ => .pure rfl
  | .ident _ name, h => .pure <| by
    simp only [Core.Expr.rename, hρ.plain name (h name (List.mem_singleton_self _))]
  | .call _ callee args, h => by
    simp only [Expr.names, List.forall_mem_append] at h
    exact (expr_follows hρ hr callee h.1).bind fun _ _ hx =>
      (exprs_follows hρ hr args h.2).bind fun _ _ hy => .pure (by rw [hx, hy, Core.Expr.rename])
  | .binary _ _ lhs rhs, h => by
    simp only [Expr.names, List.forall_mem_append] at h
    exact (expr_follows hρ hr lhs h.1).bind fun _ _ hx =>
      (expr_follows hρ hr rhs h.2).bind fun _ _ hy => .pure (by rw [hx, hy, Core.Expr.rename])
  | .ifElse _ test yes no, h => by
    simp only [Expr.names, List.forall_mem_append] at h
    exact (expr_follows hρ hr test h.1.1).bind fun _ _ hx =>
      (expr_follows hρ hr yes h.1.2).bind fun _ _ hy =>
        (expr_follows hρ hr no h.2).bind fun _ _ hz =>
          .pure (by rw [hx, hy, hz, Core.Expr.rename])
  | .block _ body, h =>
    (stmts_follows hρ hr body h).bind fun _ _ hx => .pure (by rw [hx, sequence_rename])
  | .matchUse _ operator scrutinee cs site, h => by
    simp only [Expr.names, List.forall_mem_cons, List.cons_append, List.forall_mem_append] at h
    refine (expr_follows hρ hr scrutinee h.2.1).bind fun x _ hx => ?_
    refine (clauses_follows hρ hr cs h.2.2).bind fun xs _ hxs => ?_
    rw [hx, hxs.1]
    exact expandMatch_follows hρ hr operator x hxs.2 site

theorem exprs_follows (hρ : Renames ρ) (hr : ∀ f ∈ registry.accessors, NoPercent f) :
    (es : List Expr) → (∀ a ∈ exprsNames es, NoPercent a) →
      Follows ρ (fun xs ys => ys = Core.renameAll ρ xs) (exprs registry es) (exprs registry es)
  | [], _ => .pure rfl
  | e :: es, h => by
    simp only [exprsNames, List.forall_mem_append] at h
    exact (expr_follows hρ hr e h.1).bind fun _ _ hx =>
      (exprs_follows hρ hr es h.2).bind fun _ _ hxs => .pure (by rw [hx, hxs, Core.renameAll])

theorem stmts_follows (hρ : Renames ρ) (hr : ∀ f ∈ registry.accessors, NoPercent f) :
    (ss : List Stmt) → (∀ a ∈ stmtsNames ss, NoPercent a) →
      Follows ρ (fun xs ys => ys = Core.renameAll ρ xs) (stmts registry ss) (stmts registry ss)
  | [], _ => .pure rfl
  | .expr e :: rest, h => by
    simp only [stmtsNames, Surface.Stmt.names, List.forall_mem_append] at h
    exact (expr_follows hρ hr e h.1).bind fun _ _ hx =>
      (stmts_follows hρ hr rest h.2).bind fun _ _ hxs => .pure (by rw [hx, hxs, Core.renameAll])
  | .bind name value :: rest, h => by
    simp only [stmtsNames, Surface.Stmt.names, List.cons_append, List.forall_mem_cons,
      List.forall_mem_append] at h
    refine (expr_follows hρ hr value h.2.1).bind fun _ _ hx => ?_
    refine (stmts_follows hρ hr rest h.2.2).bind fun _ _ hxs => .pure ?_
    rw [hx, hxs, sequence_rename, Core.renameAll, Core.Expr.rename, hρ.plain _ h.1]
    rfl

theorem clauses_follows (hρ : Renames ρ) (hr : ∀ f ∈ registry.accessors, NoPercent f) :
    (cs : List Clause) → (∀ a ∈ clausesNames cs, NoPercent a) →
      Follows ρ (fun xs ys => ys = xs.map (·.rename ρ) ∧
        ∀ c ∈ xs, ∀ x ∈ c.pattern.binders, NoPercent x) (clauses registry cs) (clauses registry cs)
  | [], _ => .pure ⟨rfl, List.forall_mem_nil _⟩
  | .mk pattern body span :: rest, h => by
    simp only [clausesNames, Surface.Clause.names, List.forall_mem_append] at h
    have hbinders : ∀ x ∈ pattern.binders, NoPercent x := fun x hx =>
      h.1.1 x (Match.Pattern.mem_names_of_mem_binders hx)
    refine (stmts_follows hρ hr body h.1.2).bind fun xs _ hxs => ?_
    dsimp only
    rw [hxs, sequence_rename, unusedParams_rename hρ hbinders]
    have hreport := unusedParams_isDefinition pattern (sequence xs)
    exact (Follows.report hreport).bind fun _ _ _ => (clauses_follows hρ hr rest h.2).bind
      fun _ _ hcs => .pure ⟨by rw [hcs.1]; rfl, List.forall_mem_cons.mpr ⟨hbinders, hcs.2⟩⟩

end

lemma function_follows (hρ : Renames ρ) (hr : ∀ f ∈ registry.accessors, NoPercent f)
    {f : Surface.Function} (hf : ∀ a ∈ f.body.names, NoPercent a) :
    Follows ρ (fun g g' => g' = g.rename ρ) (function registry f) (function registry f) :=
  (expr_follows hρ hr f.body hf).bind fun _ _ hx => .pure (by rw [hx, Core.Function.rename])

theorem functions_follow (hρ : Renames ρ) (hr : ∀ f ∈ registry.accessors, NoPercent f)
    {fs : List Surface.Function} (hfs : ∀ f ∈ fs, ∀ a ∈ f.body.names, NoPercent a) :
    Follows ρ (fun gs gs' => gs' = gs.map (·.rename ρ)) (fs.mapM (function registry))
      (fs.mapM (function registry)) := by
  induction fs with
  | nil => exact .pure rfl
  | cons f fs ih =>
    obtain ⟨hf, hfs⟩ := List.forall_mem_cons.mp hfs
    rw [List.mapM_cons]
    exact (function_follows hρ hr hf).bind fun _ _ hg => (ih hfs).bind fun _ _ hgs =>
      .pure (by rw [hg, hgs, List.map_cons])

end Compile

end ClosedSum
