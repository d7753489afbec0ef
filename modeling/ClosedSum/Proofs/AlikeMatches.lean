import ClosedSum.Compile.Tree
import ClosedSum.Proofs.Dispatch
import ClosedSum.Proofs.GeneratedNames
import ClosedSum.Proofs.Lowering
import ClosedSum.Proofs.Mentions

/-!
# Alike matches

Matches whose parts are alike are compiled to code that is alike, wherever the counter of generated
names stands. The names drawn on the two sides may differ, and stand for each other; no name of the
parts is among them, since those hold no percent sign.
-/

namespace ClosedSum

open ClosedSum.Core (Names)

/-- Lists with the same keys in the same places have an entry under the same keys. -/
lemma isSome_find?_congr {α κ : Type} [DecidableEq κ] (key : α → κ) {as bs : List α}
    (h : as.map key = bs.map key) {k l : κ} (hkl : k = l) :
    (as.find? (key · = k)).isSome = (bs.find? (key · = l)).isSome := by
  have hany : ∀ cs : List α, (cs.find? (key · = k)).isSome = (cs.map key).any (· = k) := by
    intro cs
    rw [List.isSome_find?, List.any_map]
    rfl
  rw [← hkl, hany, hany, h]

/-- Steps that give related results, wherever they start. -/
def Parallel {σ α β : Type} (R : α → β → Prop) (s : StateM σ α) (t : StateM σ β) : Prop :=
  ∀ p p', R (s p).1 (t p').1

namespace Parallel

variable {σ α β γ δ : Type} {R : α → β → Prop} {S : γ → δ → Prop}

lemma pure {a : α} {b : β} (h : R a b) : Parallel R (Pure.pure a : StateM σ α) (Pure.pure b) :=
  fun _ _ => h

lemma bind {s : StateM σ α} {t : StateM σ β} (h : Parallel R s t) {f : α → StateM σ γ}
    {g : β → StateM σ δ} (hf : ∀ a b, R a b → Parallel S (f a) (g b)) :
    Parallel S (s >>= f) (t >>= g) :=
  fun p p' => hf _ _ (h p p') _ _

lemma mapM {as : List γ} {bs : List δ} (h : List.Forall₂ S as bs) {f : γ → StateM σ α}
    {g : δ → StateM σ β} (hf : ∀ a b, S a b → Parallel R (f a) (g b)) :
    Parallel (List.Forall₂ R) (as.mapM f) (bs.mapM g) := by
  induction h with
  | nil => exact .pure .nil
  | cons hab _ ih =>
    rw [List.mapM_cons, List.mapM_cons]
    exact (hf _ _ hab).bind fun _ _ hr => ih.bind fun _ _ hrs => .pure (.cons hr hrs)

end Parallel

/-- No name that stands for another is drawn from the counter. -/
def Core.Names.Plain (N : Names) : Prop := ∀ a b, N a b → NoPercent a ∧ NoPercent b

namespace Match

variable {α β γ δ : Type}

/-- Two results that are related, or two faults. -/
inductive ResultsAgree (R : α → β → Prop) : Except Fault α → Except Fault β → Prop
  | ok {a : α} {b : β} (h : R a b) : ResultsAgree R (.ok a) (.ok b)
  | error (f g : Fault) : ResultsAgree R (.error f) (.error g)

namespace Compile

variable {R : α → β → Prop} {S : γ → δ → Prop}

/-- Two compilations that fail together or give related results. -/
def Agree (R : α → β → Prop) (s : Compile α) (t : Compile β) : Prop :=
  Parallel (ResultsAgree R) s.run t.run

lemma Agree.pure {a : α} {b : β} (h : R a b) :
    Agree R (Pure.pure a : Compile α) (Pure.pure b) := fun _ _ => .ok h

lemma Agree.throw (f g : Fault) : Agree R (throw f : Compile α) (throw g) := fun _ _ => .error f g

lemma Agree.lift {s : StateM Nat α} {t : StateM Nat β} (h : Parallel R s t) :
    Agree R (liftM s : Compile α) (liftM t) := fun n n' => .ok (h n n')

lemma Agree.bind {s : Compile α} {t : Compile β} (h : Agree R s t) {f : α → Compile γ}
    {g : β → Compile δ} (hf : ∀ a b, R a b → Agree S (f a) (g b)) :
    Agree S (s >>= f) (t >>= g) := by
  intro n n'
  have hr : ResultsAgree R (s n).1 (t n').1 := h n n'
  change ResultsAgree S ((s >>= f) n).1 ((t >>= g) n').1
  rw [bind_apply, bind_apply]
  generalize s n = a at hr
  generalize t n' = b at hr
  obtain ⟨a, k⟩ := a
  obtain ⟨b, k'⟩ := b
  cases hr with
  | ok h => exact hf _ _ h k k'
  | error e e' => exact .error e e'

end Compile

section Names

variable {N M : Names} {a b : String}

lemma Param.Becomes.bind_of_bind? {k k' l l' : Nat} {p q : Param} {p' q' : Core.Param}
    (hp : p.Becomes k k' p') (hq : q.Becomes l l' q') (ha : NoPercent a) (hb : NoPercent b)
    (hNM : N a b → M a b) (h : N.bind? p.name? q.name? a b) : M.bind p'.name q'.name a b := by
  have hfresh : ∀ {c : String} (n : Nat), NoPercent c → c ≠ freshName "_" n := by
    rintro c n hc rfl
    exact hc (percent_mem_freshName "_" n)
  rcases h with ⟨hpa, hqb⟩ | ⟨hpa, hqb, hab⟩
  · cases hp with
    | named i =>
      cases hq with
      | named j => exact .inl ⟨(Option.some.inj hpa).symm, (Option.some.inj hqb).symm⟩
      | wildcard => cases hqb
    | wildcard => cases hpa
  · have hne : a ≠ p'.name := by
      cases hp with
      | named i => exact fun heq => hpa (by rw [heq]; rfl)
      | wildcard => exact hfresh _ ha
    have hne' : b ≠ q'.name := by
      cases hq with
      | named j => exact fun heq => hqb (by rw [heq]; rfl)
      | wildcard => exact hfresh _ hb
    exact .inr ⟨hne, hne', hNM hab⟩

/-- Under compiled parameters names stand for each other that did so under the parameters. -/
lemma Param.bindAll_of_bindParams {k k' l l' : Nat} {ps qs : List Param}
    {ps' qs' : List Core.Param} (hps : List.Forall₂ (Param.Becomes k k') ps ps')
    (hqs : List.Forall₂ (Param.Becomes l l') qs qs') (hlen : ps.length = qs.length)
    (ha : NoPercent a) (hb : NoPercent b) (hNM : N a b → M a b) (h : N.bindParams ps qs a b) :
    M.bindAll (ps'.map (·.name)) (qs'.map (·.name)) a b := by
  induction hps generalizing qs qs' N M with
  | nil =>
    obtain rfl : qs = [] := List.length_eq_zero_iff.mp hlen.symm
    cases hqs
    exact hNM h
  | cons hp hps ih =>
    cases hqs with
    | nil => cases hlen
    | cons hq hqs => exact ih hqs (Nat.succ.inj hlen) (hp.bind_of_bind? hq ha hb hNM) h

/-- Patterns for the same case, or two defaults, and the names under them. -/
inductive Pattern.Alike (N : Names) : Pattern → Pattern → Names → Prop
  | default : Alike N .default .default N
  | list {l l' : Ident} {ps qs : List Param} (hl : l.name = l'.name)
    (hlen : ps.length = qs.length) :
    Alike N (.case l (.list ps)) (.case l' (.list qs)) (N.bindParams ps qs)
  | rest {l l' : Ident} (hl : l.name = l'.name) (p q : Param) :
    Alike N (.case l (.rest p)) (.case l' (.rest q)) N

/-- Clauses with alike patterns, and bodies that are alike under them and mention no drawn name
that they do not bind. -/
def Clause.Alike (N : Names) (c c' : Clause) : Prop :=
  ∃ M, c.pattern.Alike N c'.pattern M ∧ M.Plain ∧ c.body.Alike M c'.body

/-- The function of a clause is alike in a larger scope, where more names may stand for others. -/
lemma Clause.Alike.compile {c c' : Clause} (h : c.Alike N c') (hNM : N ≤ M) (n n' : Nat) :
    (c.pattern.compile c.body n).1.toExpr.Alike M (c'.pattern.compile c'.body n').1.toExpr := by
  obtain ⟨K, hpattern, hplain, hbody⟩ := h
  generalize c.pattern = p at hpattern
  generalize c'.pattern = q at hpattern
  cases hpattern with
  | default => exact .lambda rfl (hbody.mono fun a b _ => hNM a b)
  | rest => exact .lambda rfl (hbody.mono fun a b _ => hNM a b)
  | @list l l' ps qs hl hlen =>
    obtain ⟨-, hps⟩ := Param.mapM_compile ps n
    obtain ⟨-, hqs⟩ := Param.mapM_compile qs n'
    refine .lambda ?_ (hbody.mono fun a b _ hab => ?_)
    · exact hps.length_eq.symm.trans (hlen.trans hqs.length_eq)
    · obtain ⟨ha, hb⟩ := hplain a b hab
      exact Param.bindAll_of_bindParams hps hqs hlen ha hb (hNM a b) hab

lemma Pattern.Alike.label?_eq {p q : Pattern} (h : p.Alike N q M) :
    p.label?.map (·.name) = q.label?.map (·.name) := by
  cases h with
  | default => rfl
  | list hl hlen => exact congrArg some hl
  | rest hl p q => exact congrArg some hl

/-- The names of the functions that a match on a variant reads fields with. -/
def Schema.accessors (s : Schema) : List String :=
  s.entries.flatMap fun e => e.fields.map (Variant.accessorName s.variant e.label)

def Registry.accessors (r : Registry) : List String :=
  r.operators.flatMap fun o => o.schema.accessors

lemma Schema.fieldCalls_alike {s : Schema} (hs : ∀ f ∈ s.accessors, M f f) {e : Entry}
    (he : e ∈ s.entries) {x y : String} (hxy : M x y) :
    Core.Expr.AlikeAll M (s.fieldCalls e x) (s.fieldCalls e y) := by
  have hfields : ∀ f ∈ e.fields, Variant.accessorName s.variant e.label f ∈ s.accessors :=
    fun f hf => List.mem_flatMap.mpr ⟨e, he, List.mem_map_of_mem hf⟩
  unfold fieldCalls
  generalize e.fields = fields at hfields
  induction fields with
  | nil => exact .nil
  | cons f fields ih =>
    obtain ⟨hf, hfields⟩ := List.forall_mem_cons.mp hfields
    exact .cons (.call (.var (hs _ hf)) (.cons (.var hxy) .nil)) (ih hfields)

namespace Site

variable {site site' : Site}

lemma action_alike {c c' : Clause} (h : c.Alike N c') (hNM : N ≤ M) {args args' : List Core.Expr}
    (hargs : Core.Expr.AlikeAll M args args') :
    Parallel (Core.Expr.Alike M) (action c args) (action c' args') :=
  fun n n' => .call (h.compile hNM n n') hargs

/-- Two sites of one operator, whose scrutinees stand for each other among names for which the
accessors stand for themselves. -/
structure Alike (M : Names) (site site' : Site) : Prop where
  schema : site.schema = site'.schema
  scrutinee : M site.scrutinee site'.scrutinee
  accessors : ∀ f ∈ site.schema.accessors, M f f

/-- Dispatches whose branches are alike, whatever they advise. -/
def DispatchAlike (M : Names) (d d' : Dispatch) : Prop :=
  Core.Expr.AlikeBranches M d.branches d'.branches

lemma close_alike (hsite : site.Alike M site') (seen seen' : List Ident) :
    DispatchAlike M (site.close seen) (site'.close seen') := by
  unfold DispatchAlike close
  rw [hsite.schema]
  exact .cons .always (.fail _) .nil

lemma closeWith_alike {c c' : Clause} (h : c.Alike N c') (hNM : N ≤ M) (seen seen' : List Ident) :
    Parallel (DispatchAlike M) (site.closeWith seen c) (site'.closeWith seen' c') :=
  (action_alike h hNM .nil).bind fun _ _ he => .pure (.cons .always he .nil)

lemma entry_agree {s : Schema} {l l' : Ident} (h : l.name = l'.name) :
    Compile.Agree (fun e e' => e = e' ∧ e ∈ s.entries)
      (liftM (s.entry l) : Compile Entry) (liftM (s.entry l') : Compile Entry) := by
  unfold Schema.entry
  rw [h]
  cases hfind : s.find? l'.name with
  | none => exact .throw _ _
  | some e => exact .pure ⟨rfl, List.mem_of_find?_eq_some hfind⟩

/-- Alike clauses fail together, or become alike branches. -/
theorem compileFrom_alike (hsite : site.Alike M site') (hNM : N ≤ M) {cs cs' : List Clause}
    (h : List.Forall₂ (Clause.Alike N) cs cs') {seen seen' : List Ident}
    (hseen : seen.map (·.name) = seen'.map (·.name)) :
    Compile.Agree (DispatchAlike M) (site.compileFrom seen cs) (site'.compileFrom seen' cs') := by
  induction h generalizing seen seen' with
  | nil => exact .pure (close_alike hsite seen seen')
  | @cons c c' cs cs' hc hcs ih =>
    have hlabel := hc.choose_spec.1.label?_eq
    rw [compileFrom.eq_def, compileFrom.eq_def]
    dsimp only
    cases hp : c.pattern with
    | default =>
      have hq : c'.pattern = .default := by
        cases hq : c'.pattern with
        | default => rfl
        | case => simp [hp, hq, Pattern.label?] at hlabel
      rw [hq]
      cases hcs with
      | nil => exact .lift (closeWith_alike hc hNM seen seen')
      | cons => exact .throw _ _
    | case l params =>
      cases hq : c'.pattern with
      | default => simp [hp, hq, Pattern.label?] at hlabel
      | case l' params' =>
        have hl : l.name = l'.name := by simpa [hp, hq, Pattern.label?] using hlabel
        have hfind := isSome_find?_congr Ident.name hseen hl
        dsimp only
        cases hfirst : seen.find? (·.name = l.name) with
        | some first =>
          cases hfirst' : seen'.find? (·.name = l'.name) with
          | some first' => exact .throw _ _
          | none => simp [hfirst, hfirst'] at hfind
        | none =>
          cases hfirst' : seen'.find? (·.name = l'.name) with
          | some first' => simp [hfirst, hfirst'] at hfind
          | none =>
            dsimp only
            rw [← hsite.schema]
            refine (entry_agree hl).bind fun e e' hentry => ?_
            obtain ⟨rfl, hmem⟩ := hentry
            have hargs := Schema.fieldCalls_alike hsite.accessors hmem hsite.scrutinee
            refine (Compile.Agree.lift (action_alike hc hNM hargs)).bind fun a a' ha => ?_
            have hrest := @ih (l :: seen) (l' :: seen') (by simp [hl, hseen])
            exact hrest.bind fun d d' hd => .pure (.cons (.case hsite.scrutinee) ha hd)

theorem compile_alike (hsite : site.Alike M site') (hNM : N ≤ M) {cs cs' : List Clause}
    (h : List.Forall₂ (Clause.Alike N) cs cs') :
    Compile.Agree (DispatchAlike M) (site.compile cs) (site'.compile cs') := by
  unfold compile
  cases h with
  | nil => exact .throw _ _
  | cons hc hcs => exact compileFrom_alike hsite hNM (.cons hc hcs) rfl

end Site

lemma freshName_alike (stem : String) :
    Parallel (fun x y => (∃ n, x = freshName stem n) ∧ ∃ n, y = freshName stem n)
      (fresh stem) (fresh stem) :=
  fun n n' => ⟨⟨n, rfl⟩, n', rfl⟩

/-- Alike uses of one operator fail together, or have alike expansions. -/
theorem Operator.expand_alike (o : Operator) (hN : N.Plain) (hacc : ∀ f ∈ o.schema.accessors, N f f)
    {e e' : Core.Expr} (he : e.Alike N e') {cs cs' : List Clause}
    (hcs : List.Forall₂ (Clause.Alike N) cs cs') (site site' : Span) :
    Compile.Agree (fun x x' => x.expr.Alike N x'.expr)
      (o.expand e cs site) (o.expand e' cs' site') := by
  refine (Compile.Agree.lift (freshName_alike "scrutinee")).bind ?_
  rintro x y ⟨⟨n, rfl⟩, n', rfl⟩
  -- The names of the scrutinees hide no name of the parts.
  have hNM : N ≤ N.bind (freshName "scrutinee" n) (freshName "scrutinee" n') := by
    intro a b hab
    obtain ⟨ha, hb⟩ := hN a b hab
    refine .inr ⟨?_, ?_, hab⟩
    · rintro rfl
      exact ha (percent_mem_freshName "scrutinee" n)
    · rintro rfl
      exact hb (percent_mem_freshName "scrutinee" n')
  have hsite : Site.Alike (N.bind (freshName "scrutinee" n) (freshName "scrutinee" n'))
      ⟨o.schema, freshName "scrutinee" n, site⟩ ⟨o.schema, freshName "scrutinee" n', site'⟩ :=
    ⟨rfl, .inl ⟨rfl, rfl⟩, fun f hf => hNM f f (hacc f hf)⟩
  exact (Site.compile_alike hsite hNM hcs).bind fun d d' hd => .pure (.letIn he (.dispatch hd))

theorem Registry.expand_alike (r : Registry) (hN : N.Plain) (hacc : ∀ f ∈ r.accessors, N f f)
    {o o' : Ident} (ho : o.name = o'.name) {e e' : Core.Expr} (he : e.Alike N e')
    {cs cs' : List Clause} (hcs : List.Forall₂ (Clause.Alike N) cs cs') (site site' : Span) :
    Compile.Agree (fun x x' => x.expr.Alike N x'.expr)
      (r.expand o e cs site) (r.expand o' e' cs' site') := by
  unfold expand
  rw [ho]
  cases hfind : r.find? o'.name with
  | none => exact .throw _ _
  | some op =>
    have hop : op ∈ r.operators := List.mem_of_find?_eq_some hfind
    exact op.expand_alike hN (fun f hf => hacc f (List.mem_flatMap.mpr ⟨op, hop, hf⟩)) he hcs _ _

end Names

end Match

namespace Compile

/-- Alike matches are compiled to alike code; if one cannot be expanded, neither can the other. -/
theorem expandMatch_alike {registry : Match.Registry} {N : Names} (hN : N.Plain)
    (hacc : ∀ f ∈ registry.accessors, N f f) {o o' : Ident} (ho : o.name = o'.name)
    {e e' : Core.Expr} (he : e.Alike N e') {cs cs' : List Match.Clause}
    (hcs : List.Forall₂ (Match.Clause.Alike N) cs cs') (site site' : Span) :
    Parallel (Core.Expr.Alike N) (expandMatch registry o e cs site)
      (expandMatch registry o' e' cs' site') := by
  intro p p'
  have hexpand : Match.ResultsAgree (fun x x' => x.expr.Alike N x'.expr)
      (registry.expand o e cs site p.fresh).1 (registry.expand o' e' cs' site' p'.fresh).1 :=
    registry.expand_alike hN hacc ho he hcs site site' p.fresh p'.fresh
  rw [expandMatch_apply, expandMatch_apply]
  generalize registry.expand o e cs site p.fresh = a at hexpand
  generalize registry.expand o' e' cs' site' p'.fresh = b at hexpand
  obtain ⟨a, n⟩ := a
  obtain ⟨b, n'⟩ := b
  cases hexpand with
  | ok h => exact h
  | error => exact .error

end Compile

end ClosedSum
