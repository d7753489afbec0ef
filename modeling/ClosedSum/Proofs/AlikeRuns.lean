import ClosedSum.Proofs.Alike

/-!
# Alike runs

Alike code, run on related machines in scopes that agree on the names of the code, gives alike
results and leaves related machines. Calls keep machines related because bodies do, and bodies do
because they call one level deeper.
-/

namespace ClosedSum.Eval

open ClosedSum.Core (Names)

variable {α β γ δ : Type} {w : World} {m m' : Machine}

inductive ResultAlike (R : α → β → Prop) : Except Fault α → Except Fault β → Prop
  | ok {a : α} {b : β} (h : R a b) : ResultAlike R (.ok a) (.ok b)
  | error (f : Fault) : ResultAlike R (.error f) (.error f)

/-- Two runs give alike results and related machines, in a world that may have grown. -/
def World.Leads (w : World) (R : World → α → β → Prop) (r : Except Fault α × Machine)
    (r' : Except Fault β × Machine) : Prop :=
  ∃ w', w ≤ w' ∧ w'.Relates r.2 r'.2 ∧ ResultAlike (R w') r.1 r'.1

namespace World

variable {R : World → α → β → Prop} {S : World → γ → δ → Prop}

lemma Relates.ok (h : w.Relates m m') {a : α} {b : β} (hR : R w a b) :
    w.Leads R (.ok a, m) (.ok b, m') := ⟨w, w.refl, h, .ok hR⟩

lemma Relates.error (h : w.Relates m m') (f : Fault) : w.Leads R (.error f, m) (.error f, m') :=
  ⟨w, w.refl, h, .error f⟩

lemma Leads.of_le {w₁ : World} (hw : w ≤ w₁) {r : Except Fault α × Machine}
    {r' : Except Fault β × Machine} (h : w₁.Leads R r r') : w.Leads R r r' := by
  obtain ⟨w₂, hle, hrel, hres⟩ := h
  exact ⟨w₂, World.trans hw hle, hrel, hres⟩

/-- Runs in sequence: the second starts in the world that the first led to. -/
lemma Leads.bind {r : Run α} {r' : Run β} (h : w.Leads R (r m) (r' m')) {f : α → Run γ}
    {g : β → Run δ} (hf : ∀ w₁ m₁ m₁' a b, w ≤ w₁ → w₁.Relates m₁ m₁' → R w₁ a b →
      w₁.Leads S (f a m₁) (g b m₁')) :
    w.Leads S ((r >>= f) m) ((r' >>= g) m') := by
  obtain ⟨w₁, hle, hrel, hres⟩ := h
  rw [Run.bind_apply, Run.bind_apply]
  generalize r m = a at hrel hres
  generalize r' m' = b at hrel hres
  obtain ⟨a, m₁⟩ := a
  obtain ⟨b, m₁'⟩ := b
  cases hres with
  | ok hR => exact (hf w₁ m₁ m₁' _ _ hle hrel hR).of_le hle
  | error e => exact ⟨w₁, hle, hrel, .error e⟩

lemma Leads.within {r : Run α} {r' : Run β} (name? : Option String)
    (h : w.Leads R (r m) (r' m')) :
    w.Leads R (Run.within name? r m) (Run.within name? r' m') := by
  obtain ⟨w₁, hle, hrel, hres⟩ := h
  rw [Run.within_apply, Run.within_apply]
  refine ⟨w₁, hle, hrel, ?_⟩
  generalize (r m).1 = a at hres
  generalize (r' m').1 = b at hres
  cases hres with
  | ok hR => exact .ok hR
  | error f => exact .error _

end World

/-- What alike runs show of themselves: the same output, and the same text of the result or the same
fault. -/
theorem World.Leads.observed {r r' : Except Fault Value × Machine} (h : w.Leads Value.Alike r r') :
    r.2.output = r'.2.output ∧ r.1.map Value.text = r'.1.map Value.text := by
  obtain ⟨w', -, hrel, hres⟩ := h
  refine ⟨hrel.output, ?_⟩
  generalize r.1 = a at hres
  generalize r'.1 = b at hres
  cases hres with
  | ok hv => simp only [Except.map, hv.text_eq]
  | error f => rfl

/-- Two ways to call a value that do not tell related machines and alike values apart. -/
def CallsAlike (call call' : Value → List Value → Run Value) : Prop :=
  ∀ (w : World) (m m' : Machine) (f f' : Value) (vs vs' : List Value), w.Relates m m' →
    f.Alike w f' → Value.AlikeAll w vs vs' → w.Leads Value.Alike (call f vs m) (call' f' vs' m')

/-- Two ways to enter a body that do not tell related machines and alike bodies apart. -/
def EntersAlike (enter enter' : Option String → Env → Core.Expr → Run Value) : Prop :=
  ∀ (w : World) (m m' : Machine) (N : Names) (name? : Option String) (env env' : Env)
    (e e' : Core.Expr), w.Relates m m' → w.scopes env.current env'.current N → e.Alike N e' →
    w.Leads Value.Alike (enter name? env e m) (enter' name? env' e' m')

lemma lookup_alike (h : w.Relates m m') {env env' : Env} {N : Names}
    (hs : w.scopes env.current env'.current N) {x y : String} (hxy : N x y) :
    w.Leads Value.Alike (Run.lookup env x m) (Run.lookup env' y m') := by
  have hl := h.scopes_agree _ _ _ hs x y hxy
  rw [Run.lookup_apply, Run.lookup_apply, Env.lookup?, Env.lookup?]
  generalize m.store.lookup? env.current x = a at hl
  generalize m'.store.lookup? env'.current y = b at hl
  cases a <;> cases b
  · obtain rfl : x = y := hl
    exact h.error _
  · exact hl.elim
  · exact hl.elim
  · exact h.ok hl

lemma passes_alike (h : w.Relates m m') {env env' : Env} {N : Names}
    (hs : w.scopes env.current env'.current N) {t u : Core.Test} (htu : t.Alike N u) :
    w.Leads (fun _ a b => a = b) (passes env t m) (passes env' u m') := by
  cases htu with
  | always => exact h.ok rfl
  | case hxy =>
    refine (lookup_alike h hs hxy).bind fun w₁ m₁ m₁' v v' _ hrel hv => ?_
    cases hv <;> exact hrel.ok rfl

section Calls

variable {vs vs' : List Value}

lemma expectInt_alike (h : w.Relates m m') {v v' : Value} (hv : v.Alike w v') :
    w.Leads (fun _ a b => a = b) (expectInt v m) (expectInt v' m') := by
  cases hv with
  | int n => exact h.ok rfl
  | callable _ => exact h.error _
  | variant _ => exact h.error _
  | _ => exact h.error _

lemma expectOne_alike (h : w.Relates m m') (name : String) (hvs : Value.AlikeAll w vs vs') :
    w.Leads Value.Alike (expectOne name vs m) (expectOne name vs' m') := by
  cases hvs with
  | nil => exact h.error _
  | cons hv hvs =>
    cases hvs with
    | nil => exact h.ok hv
    | cons hv' hvs =>
      have hlen := hvs.length_eq
      simp only [expectOne, Run.fail_apply, List.length_cons, hlen]
      exact h.error _

lemma builtin_alike (h : w.Relates m m') (b : Builtin) (hvs : Value.AlikeAll w vs vs') :
    w.Leads Value.Alike (b.apply vs m) (b.apply vs' m') := by
  have hlen := hvs.length_eq
  have htext := hvs.map_text_eq
  -- Printing looks at the texts only; the others look at one or two arguments.
  cases b with
  | print =>
    have hp := (h.printLine (" ".intercalate (vs.map Value.text))).ok (R := Value.Alike) .unit
    rw [htext] at hp
    simpa only [Builtin.apply, Run.bind_apply, Run.printLine_apply, Run.pure_apply, htext] using hp
  | max | min =>
    match hvs with
    | .cons hv (.cons hv' .nil) =>
      refine (expectInt_alike h hv).bind fun w₁ m₁ m₁' a a' hle hrel ha => ?_
      refine (expectInt_alike hrel (hv'.mono hle)).bind fun w₂ m₂ m₂' b b' _ hrel hb => ?_
      subst ha hb
      exact hrel.ok (.int _)
    | .nil | .cons _ .nil => exact h.error _
    | .cons _ (.cons _ (.cons _ hvs)) =>
      simp only [List.length_cons] at hlen
      simp only [Builtin.apply, Run.fail_apply, List.length_cons, hlen]
      exact h.error _
  | toString =>
    match hvs with
    | .cons hv .nil =>
      simp only [Builtin.apply, Run.pure_apply, hv.text_eq]
      exact h.ok (.str _)
    | .nil => exact h.error _
    | .cons _ (.cons _ hvs) =>
      simp only [List.length_cons] at hlen
      simp only [Builtin.apply, Run.fail_apply, List.length_cons, hlen]
      exact h.error _

lemma readField_alike (h : w.Relates m m') (c : Case) (index : Nat) (name : String)
    {v v' : Value} (hv : v.Alike w v') :
    w.Leads Value.Alike (readField c index name v m) (readField c index name v' m') := by
  have hholds := c.holds_eq_of_alike hv
  cases hv with
  | @variant _ _ _ fs gs hfs =>
    simp only [readField, ← hholds]
    split
    · rcases hfs.getElem? index with ⟨a, b, ha, hb, hab⟩ | ⟨ha, hb⟩
      · rw [ha, hb]
        exact h.ok hab
      · rw [ha, hb]
        exact h.error _
    · exact h.error _
  | callable _ => exact h.error _
  | _ => exact h.error _

/-- Entering scopes that agree, and then running the rest. -/
lemma enter_alike (h : w.Relates m m') {p q : Nat} {N : Names} {bs bs' : List (String × Value)}
    (hp : p < m.store.size) (hq : q < m'.store.size)
    (hN : Agree w N (fun x => (bs.lookup x).or (m.store.lookup? p x))
      (fun y => (bs'.lookup y).or (m'.store.lookup? q y))) :
    w.Leads (fun w env env' => w.scopes (Env.current env) (Env.current env') N)
      (Run.enter (Env.extending p bs) m) (Run.enter (Env.extending q bs') m') :=
  ⟨_, w.le_addScopes _ _ _, h.push hp hq hN, .ok (.inr ⟨rfl, rfl, rfl⟩)⟩

lemma accepts_eq_of_alike {f g : Core.Lambda} {N : Names} (h : f.Alike N g) (n : Nat) :
    accepts f n = accepts g n := by
  unfold accepts Core.Lambda.arity
  rw [h.params, h.variadic]

lemma length_le_of_accepts {f : Core.Lambda} {n : Nat} (h : accepts f n = true) :
    f.params.length ≤ n := by
  unfold accepts at h
  split at h
  · exact of_decide_eq_true h
  · have hn : n = f.arity := by simpa using h
    exact Nat.le_of_eq hn.symm

variable {enter enter' : Option String → Env → Core.Expr → Run Value}

theorem callWith_alike (henter : EntersAlike enter enter') :
    CallsAlike (callWith enter) (callWith enter') := by
  intro w m m' f f' vs vs' h hf hvs
  have hlen := hvs.length_eq
  cases hf with
  | callable hf =>
    cases hf with
    | @closure _ _ s t f g N hn hs hcode =>
      simp only [callWith, expectAccepted, ← hlen, ← accepts_eq_of_alike hcode, Core.Lambda.arity,
        ← hcode.params]
      split
      · next hacc =>
        have hlt := h.scopes_lt s t N hs
        have hagree : Agree w N (fun x => (List.lookup x []).or (m.store.lookup? s x))
            (fun y => (List.lookup y []).or (m'.store.lookup? t y)) := h.scopes_agree s t N hs
        have hnames : (f.params.map (·.name)).length = (g.params.map (·.name)).length := by
          simp [hcode.params]
        have hparams := hagree.bindParams hnames (by simpa using length_le_of_accepts hacc) hvs
        simp only [List.append_nil] at hparams
        rw [pure_bind, pure_bind]
        refine (enter_alike h hlt.1 hlt.2 hparams).bind fun w₁ m₁ m₁' env env' _ hrel hscopes => ?_
        exact henter w₁ m₁ m₁' _ none env env' _ _ hrel hscopes hcode.body
      · exact h.error _
    | @function f g N hname hparams hs hbody =>
      simp only [callWith, expectArity, ← hlen, ← hparams, ← hname]
      split
      · next hcount =>
        have hlt := h.scopes_lt _ _ N hs
        have hagree : Agree w N (fun x => (List.lookup x []).or (m.store.lookup? Store.global x))
            (fun y => (List.lookup y []).or (m'.store.lookup? Store.global y)) :=
          h.scopes_agree _ _ N hs
        have hbind := hagree.bindParams hparams (Nat.le_of_eq hcount.symm) hvs
        simp only [List.append_nil] at hbind
        rw [pure_bind, pure_bind]
        refine (enter_alike h hlt.1 hlt.2 hbind).bind fun w₁ m₁ m₁' env env' _ hrel hscopes => ?_
        exact henter w₁ m₁ m₁' _ (some f.name) env env' _ _ hrel hscopes hbody
      · exact h.error _
    | constructor c =>
      simp only [callWith, expectArity, ← hlen]
      split
      · exact h.ok (.variant hvs)
      · exact h.error _
    | accessor c index name =>
      refine (expectOne_alike h name hvs).bind fun w₁ m₁ m₁' v v' _ hrel hv => ?_
      exact readField_alike hrel c index name hv
    | predicate c =>
      refine (expectOne_alike h c.predicate hvs).bind fun w₁ m₁ m₁' v v' _ hrel hv => ?_
      rw [c.holds_eq_of_alike hv]
      exact hrel.ok (.bool _)
    | builtin b => exact builtin_alike h b hvs
  | variant _ => exact h.error _
  | _ => exact h.error _

end Calls

lemma Value.IsPlain.alike {v : Value} (h : v.IsPlain) (w : World) : v.Alike w v := by
  cases v with
  | variant => exact h.elim
  | callable => exact h.elim
  | _ => constructor

section Evaluation

variable {call call' : Value → List Value → Run Value}

mutual

/-- Alike expressions evaluate alike in scopes that agree on their names. -/
theorem evalWith_alike (hcall : CallsAlike call call') {N : Names} :
    ∀ {e e' : Core.Expr}, e.Alike N e' → ∀ {w : World} {m m' : Machine} {env env' : Env},
      w.Relates m m' → w.scopes env.current env'.current N →
      w.Leads Value.Alike (evalWith call e env m) (evalWith call' e' env' m')
  | _, _, .lit l, _, _, _, _, _, h, _ => by
    cases l <;> exact h.ok (by constructor)
  | _, _, .var hxy, _, _, _, _, _, h, hs => lookup_alike h hs hxy
  | _, _, .call hf has, _, _, _, _, _, h, hs => by
    rw [evalWith, evalWith]
    refine (evalWith_alike hcall hf h hs).bind fun w₁ m₁ m₁' f f' hle hrel hff => ?_
    refine (evalArgs_alike hcall has hrel (hle.1 _ _ _ hs)).bind
      fun w₂ m₂ m₂' vs vs' hle' hrel' hvs => ?_
    exact hcall w₂ m₂ m₂' f f' vs vs' hrel' (hff.mono hle') hvs
  | _, _, .lambda hlen he, w, m, m', _, _, h, hs =>
    ⟨_, w.le_addClosures m.closures m'.closures, h.newClosure,
      .ok (.callable (.closure (.inr ⟨rfl, rfl⟩) hs ⟨hlen, rfl, he⟩))⟩
  | _, _, @Core.Expr.Alike.letIn _ x y _ _ _ _ hv he, _, _, _, env, env', h, hs => by
    rw [evalWith, evalWith]
    refine (evalWith_alike hcall hv h hs).bind fun w₁ m₁ m₁' v v' hle hrel hvv => ?_
    have hs₁ := hle.1 _ _ _ hs
    have hlt := hrel.scopes_lt _ _ _ hs₁
    have hagree : Agree w₁ N (fun a => (List.lookup a []).or (m₁.store.lookup? env.current a))
        (fun b => (List.lookup b []).or (m₁'.store.lookup? env'.current b)) :=
      hrel.scopes_agree _ _ N hs₁
    exact (evalWith_alike hcall he (hrel.push hlt.1 hlt.2 (hagree.cons hvv x y))
      (.inr ⟨rfl, rfl, rfl⟩)).of_le (w₁.le_addScopes _ _ _)
  | _, _, .seq has, _, _, _, _, _, h, hs => by
    rw [evalWith, evalWith]
    exact evalSeq_alike hcall has h hs .unit
  | _, _, .ifElse he hyes hno, _, _, _, _, _, h, hs => by
    rw [evalWith, evalWith]
    refine (evalWith_alike hcall he h hs).bind fun w₁ m₁ m₁' v v' hle hrel hv => ?_
    have hs₁ := hle.1 _ _ _ hs
    cases hv with
    | bool b =>
      cases b with
      | true => exact evalWith_alike hcall hyes hrel hs₁
      | false => exact evalWith_alike hcall hno hrel hs₁
    | callable _ => exact hrel.error _
    | variant _ => exact hrel.error _
    | _ => exact hrel.error _
  | _, _, .binary op ha hb, _, _, _, _, _, h, hs => by
    rw [evalWith, evalWith]
    refine (evalWith_alike hcall ha h hs).bind fun w₁ m₁ m₁' a a' hle hrel haa => ?_
    refine (evalWith_alike hcall hb hrel (hle.1 _ _ _ hs)).bind
      fun w₂ m₂ m₂' b b' hle' hrel' hbb => ?_
    rw [Run.ofExcept_apply, Run.ofExcept_apply,
      operate_eq_of_alike hrel' op (haa.mono hle') hbb]
    cases hop : operate op a' b' with
    | ok v => exact hrel'.ok ((operate_isPlain hop).alike w₂)
    | error cause => exact hrel'.error _
  | _, _, .dispatch hbs, _, _, _, _, _, h, hs => by
    rw [evalWith, evalWith]
    exact evalBranches_alike hcall hbs h hs
  | _, _, .fail variant, _, _, _, _, _, h, _ => h.error _
  | _, _, .error, _, _, _, _, _, h, _ => h.error _

theorem evalArgs_alike (hcall : CallsAlike call call') {N : Names} :
    ∀ {es es' : List Core.Expr}, Core.Expr.AlikeAll N es es' →
      ∀ {w : World} {m m' : Machine} {env env' : Env}, w.Relates m m' →
      w.scopes env.current env'.current N →
      w.Leads Value.AlikeAll (evalArgs call es env m) (evalArgs call' es' env' m')
  | _, _, .nil, _, _, _, _, _, h, _ => h.ok .nil
  | _, _, .cons he hes, _, _, _, _, _, h, hs => by
    rw [evalArgs, evalArgs]
    refine (evalWith_alike hcall he h hs).bind fun w₁ m₁ m₁' v v' hle hrel hv => ?_
    refine (evalArgs_alike hcall hes hrel (hle.1 _ _ _ hs)).bind
      fun w₂ m₂ m₂' vs vs' hle' hrel' hvs => ?_
    exact hrel'.ok (.cons (hv.mono hle') hvs)

theorem evalSeq_alike (hcall : CallsAlike call call') {N : Names} :
    ∀ {es es' : List Core.Expr}, Core.Expr.AlikeAll N es es' →
      ∀ {w : World} {m m' : Machine} {env env' : Env}, w.Relates m m' →
      w.scopes env.current env'.current N → ∀ {last last' : Value}, last.Alike w last' →
      w.Leads Value.Alike (evalSeq call es last env m) (evalSeq call' es' last' env' m')
  | _, _, .nil, _, _, _, _, _, h, _, _, _, hlast => h.ok hlast
  | _, _, .cons he hes, _, _, _, _, _, h, hs, _, _, _ => by
    rw [evalSeq, evalSeq]
    refine (evalWith_alike hcall he h hs).bind fun w₁ m₁ m₁' v v' hle hrel hv => ?_
    exact evalSeq_alike hcall hes hrel (hle.1 _ _ _ hs) hv

theorem evalBranches_alike (hcall : CallsAlike call call') {N : Names} :
    ∀ {bs bs' : List Core.Branch}, Core.Expr.AlikeBranches N bs bs' →
      ∀ {w : World} {m m' : Machine} {env env' : Env}, w.Relates m m' →
      w.scopes env.current env'.current N →
      w.Leads Value.Alike (evalBranches call bs env m) (evalBranches call' bs' env' m')
  | _, _, .nil, _, _, _, _, _, h, _ => h.error _
  | _, _, .cons ht he hbs, _, _, _, _, _, h, hs => by
    rw [evalBranches, evalBranches]
    refine (passes_alike h hs ht).bind fun w₁ m₁ m₁' b b' hle hrel hb => ?_
    subst hb
    have hs₁ := hle.1 _ _ _ hs
    cases b with
    | true => exact evalWith_alike hcall he hrel hs₁
    | false => exact evalBranches_alike hcall hbs hrel hs₁

end

end Evaluation

/-- Calls do not tell related machines apart, however many calls may still be nested. -/
theorem callAt_alike (limit left : Nat) : CallsAlike (callAt limit left) (callAt limit left) := by
  induction left with
  | zero =>
    refine callWith_alike fun w m m' N name? env env' e e' h _ _ => ?_
    exact h.error _
  | succ left ih =>
    refine callWith_alike fun w m m' N name? env env' e e' h hs he => ?_
    exact (evalWith_alike ih he h hs).within name?

end ClosedSum.Eval
