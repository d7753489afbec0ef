import ClosedSum.Proofs.Names
import ClosedSum.Proofs.Run

/-!
# What evaluation keeps

A discipline says which callables and variant values may exist. Evaluation keeps to it: a machine
whose values keep to a discipline runs code that keeps to it into such a machine, and the result
keeps to it as well. A strict discipline has no code that could not be compiled, so nothing run
under it comes to such code.
-/

namespace ClosedSum.Core.Expr

/-- A condition on an expression and on all of its parts. -/
inductive Every (P : Expr → Prop) : Expr → Prop
  | lit {l : Literal} (h : P (.lit l)) : Every P (.lit l)
  | var {x : String} (h : P (.var x)) : Every P (.var x)
  | call {f : Expr} {args : List Expr} (h : P (.call f args)) (hf : Every P f)
    (hargs : ∀ e ∈ args, Every P e) : Every P (.call f args)
  | lambda {ps : List Param} {variadic : Bool} {body : Expr} (h : P (.lambda ps variadic body))
    (hbody : Every P body) : Every P (.lambda ps variadic body)
  | letIn {x : String} {value body : Expr} (h : P (.letIn x value body)) (hvalue : Every P value)
    (hbody : Every P body) : Every P (.letIn x value body)
  | seq {es : List Expr} (h : P (.seq es)) (hes : ∀ e ∈ es, Every P e) : Every P (.seq es)
  | ifElse {test yes no : Expr} (h : P (.ifElse test yes no)) (htest : Every P test)
    (hyes : Every P yes) (hno : Every P no) : Every P (.ifElse test yes no)
  | binary {op : BinaryOp} {lhs rhs : Expr} (h : P (.binary op lhs rhs)) (hlhs : Every P lhs)
    (hrhs : Every P rhs) : Every P (.binary op lhs rhs)
  | dispatch {bs : List Branch} (h : P (.dispatch bs)) (hbs : ∀ b ∈ bs, Every P b.action) :
    Every P (.dispatch bs)
  | fail {variant : String} (h : P (.fail variant)) : Every P (.fail variant)
  | error (h : P .error) : Every P .error

lemma every_of_forall {P : Expr → Prop} (h : ∀ e, P e) (e : Expr) : e.Every P := by
  induction e using parts_induction with
  | lit l => exact .lit (h _)
  | var x => exact .var (h _)
  | call f args ihf ihargs => exact .call (h _) ihf ihargs
  | lambda ps variadic body ih => exact .lambda (h _) ih
  | letIn x value body ihv ihb => exact .letIn (h _) ihv ihb
  | seq es ih => exact .seq (h _) ih
  | ifElse test yes no iht ihy ihn => exact .ifElse (h _) iht ihy ihn
  | binary op lhs rhs ihl ihr => exact .binary (h _) ihl ihr
  | dispatch bs ih => exact .dispatch (h _) ih
  | fail variant => exact .fail (h _)
  | error => exact .error (h _)

lemma Every.mono {P Q : Expr → Prop} (hPQ : ∀ e, P e → Q e) {e : Expr} (h : e.Every P) :
    e.Every Q := by
  induction h with
  | lit h => exact .lit (hPQ _ h)
  | var h => exact .var (hPQ _ h)
  | call h _ _ ihf ihargs => exact .call (hPQ _ h) ihf ihargs
  | lambda h _ ih => exact .lambda (hPQ _ h) ih
  | letIn h _ _ ihv ihb => exact .letIn (hPQ _ h) ihv ihb
  | seq h _ ih => exact .seq (hPQ _ h) ih
  | ifElse h _ _ _ iht ihy ihn => exact .ifElse (hPQ _ h) iht ihy ihn
  | binary h _ _ ihl ihr => exact .binary (hPQ _ h) ihl ihr
  | dispatch h _ ih => exact .dispatch (hPQ _ h) ih
  | fail h => exact .fail (hPQ _ h)
  | error h => exact .error (hPQ _ h)

/-- Code that was compiled, and in which a dispatch has a branch for every value. -/
def Complete : Expr → Prop
  | .error => False
  | .dispatch bs => ∃ b ∈ bs, b.test = .always
  | _ => True

end ClosedSum.Core.Expr

namespace ClosedSum.Eval

/-- A condition on all callables in a value, and on each of its variant values by the variant, type
name, tag and number of fields. -/
inductive Value.Every (C : Callable → Prop) (V : String → String → Nat → Nat → Prop) : Value → Prop
  | unit : Every C V .unit
  | bool (b : Bool) : Every C V (.bool b)
  | int (n : Int) : Every C V (.int n)
  | str (s : String) : Every C V (.str s)
  | variant {v n : String} {t : Nat} {fields : List Value} (h : V v n t fields.length)
    (hfields : ∀ f ∈ fields, Every C V f) : Every C V (.variant v n t fields)
  | callable {f : Callable} (h : C f) : Every C V (.callable f)

lemma Value.Every.mono {C C' : Callable → Prop} {V : String → String → Nat → Nat → Prop}
    (hC : ∀ f, C f → C' f) {v : Value} (h : v.Every C V) : v.Every C' V := by
  induction h with
  | unit => exact .unit
  | bool b => exact .bool b
  | int n => exact .int n
  | str s => exact .str s
  | variant h _ ih => exact .variant h ih
  | callable h => exact .callable (hC _ h)

structure Discipline where
  /-- Whether code that could not be compiled is ruled out. -/
  strict : Prop
  /-- The variant values that may exist, by variant, type name, tag and number of fields. -/
  variant : String → String → Nat → Nat → Prop
  constructor : Case → Prop
  accessor : Case → Nat → Prop
  variant_of_constructor : ∀ c, constructor c → variant c.variant c.typeName c.tag c.arity
  index_lt : ∀ c i name count, strict → accessor c i →
    variant c.variant name c.tag count → i < count

namespace Discipline

def Code (D : Discipline) (e : Core.Expr) : Prop := e.Every fun e => D.strict → e.Complete

/-- The callables that may exist on a machine with so many scopes and closures. -/
def Allows (D : Discipline) (scopes closures : Nat) : Callable → Prop
  | .closure n f s => n < closures ∧ s < scopes ∧ D.Code f.body
  | .function f => D.Code f.body
  | .constructor c => D.constructor c
  | .accessor c i _ => D.accessor c i
  | .predicate _ | .builtin _ => True

def Fits (D : Discipline) (m : Machine) (v : Value) : Prop :=
  v.Every (D.Allows m.store.size m.closures) D.variant

/-- A machine whose values keep to the discipline. -/
structure Holds (D : Discipline) (m : Machine) : Prop where
  global_lt : Store.global < m.store.size
  fits : ∀ s x v, m.store.lookup? s x = some v → D.Fits m v

variable {D : Discipline} {m m' : Machine} {α β : Type}

lemma Fits.grow (h : m.Grows m') {v : Value} (hv : D.Fits m v) : D.Fits m' v := by
  refine hv.mono fun f hf => ?_
  cases f with
  | closure n f s =>
    obtain ⟨hn, hs, hcode⟩ := hf
    exact ⟨Nat.lt_of_lt_of_le hn h.closures, Nat.lt_of_lt_of_le hs h.scopes, hcode⟩
  | _ => exact hf

/-- What a run gives: a machine that has grown and keeps to the discipline, and a result that does
so too. -/
def Yields (D : Discipline) (Q : Machine → α → Prop) (m : Machine) (r : Except Fault α × Machine) :
    Prop :=
  m.Grows r.2 ∧ D.Holds r.2 ∧ match r.1 with
    | .ok a => Q r.2 a
    | .error f => D.strict → f.cause ≠ .uncompiled

lemma Holds.ok (h : D.Holds m) {Q : Machine → α → Prop} {a : α} (hQ : Q m a) :
    D.Yields Q m (.ok a, m) := ⟨.refl m, h, hQ⟩

lemma Holds.error (h : D.Holds m) {Q : Machine → α → Prop} {f : Fault}
    (hf : D.strict → f.cause ≠ .uncompiled) : D.Yields Q m (.error f, m) := ⟨.refl m, h, hf⟩

lemma Yields.bind {Q : Machine → α → Prop} {S : Machine → β → Prop} {r : Run α} {f : α → Run β}
    (h : D.Yields Q m (r m)) (hf : ∀ m₁ a, m.Grows m₁ → D.Holds m₁ → Q m₁ a →
      D.Yields S m₁ (f a m₁)) : D.Yields S m ((r >>= f) m) := by
  rw [Run.bind_apply]
  generalize r m = a at h
  obtain ⟨_ | a, m₁⟩ := a
  · exact h
  · obtain ⟨hgrow, hholds, hQ⟩ := h
    obtain ⟨hgrow', hrest⟩ := hf m₁ a hgrow hholds hQ
    exact ⟨hgrow.trans hgrow', hrest⟩

lemma Yields.within {Q : Machine → α → Prop} {r : Run α} (name? : Option String)
    (h : D.Yields Q m (r m)) : D.Yields Q m (Run.within name? r m) := by
  rw [Run.within_apply]
  refine ⟨h.1, h.2.1, ?_⟩
  have hres := h.2.2
  generalize (r m).1 = a at hres
  cases a with
  | ok a => exact hres
  | error f => cases name? <;> exact hres

lemma fits_of_isPlain {v : Value} (h : v.IsPlain) : D.Fits m v := by
  cases v with
  | variant => exact h.elim
  | callable => exact h.elim
  | _ => constructor

/-- A new scope holds bindings that keep to the discipline. -/
lemma Holds.push (h : D.Holds m) {p : Nat} {bs : List (String × Value)} (hp : p < m.store.size)
    (hbs : ∀ b ∈ bs, D.Fits m b.2) :
    m.Grows { m with store := (m.store.push p bs).2 } ∧
      D.Holds { m with store := (m.store.push p bs).2 } := by
  have hgrow := Machine.Grows.push m p bs
  refine ⟨hgrow, Nat.lt_of_lt_of_le h.global_lt hgrow.scopes, fun s x v hv => Fits.grow hgrow ?_⟩
  rcases Store.of_lookup?_push hp hv with hb | ⟨s', hold⟩
  · exact hbs (x, v) hb
  · exact h.fits s' x v hold

/-- A machine that holds globals only keeps to the discipline if they do. -/
lemma Holds.ofGlobals {bs : List (String × Value)} (hm : m.store = .ofGlobals bs)
    (h : ∀ b ∈ bs, D.Fits m b.2) : D.Holds m := by
  refine ⟨by simp [hm, Store.ofGlobals, Store.global, Store.size], fun s x v hv => ?_⟩
  rw [hm] at hv
  exact h (x, v) (Store.mem_of_lookup?_ofGlobals hv)

lemma Holds.lookup (h : D.Holds m) (env : Env) (x : String) :
    D.Yields D.Fits m (Run.lookup env x m) := by
  rw [Run.lookup_apply]
  cases hv : env.lookup? m.store x with
  | none => exact h.error (by simp)
  | some v => exact h.ok (h.fits _ x v hv)

lemma Holds.passes (h : D.Holds m) (env : Env) (t : Core.Test) :
    D.Yields (fun _ b => t = .always → b = true) m (passes env t m) := by
  cases t with
  | always => exact h.ok fun _ => rfl
  | case x variant tag p =>
    refine (h.lookup env x).bind fun m₁ v _ hholds _ => ?_
    cases v <;> exact hholds.ok (by simp)

section Calls

variable {args : List Value}

lemma Holds.expectInt (h : D.Holds m) (v : Value) :
    D.Yields (fun _ _ => True) m (expectInt v m) := by
  cases v with
  | int n => exact h.ok trivial
  | _ => exact h.error (by simp)

lemma Holds.expectOne (h : D.Holds m) (name : String) (hargs : ∀ v ∈ args, D.Fits m v) :
    D.Yields D.Fits m (expectOne name args m) := by
  match args with
  | [v] => exact h.ok (hargs v (by simp))
  | [] | _ :: _ :: _ => exact h.error (by simp)

lemma Holds.builtin (h : D.Holds m) (b : Builtin) : D.Yields D.Fits m (b.apply args m) := by
  have hint : ∀ (f : Int → Int → Int) (v w : Value), D.Yields D.Fits m ((do
      return .int (f (← Eval.expectInt v) (← Eval.expectInt w)) : Run Value) m) := by
    intro f v w
    refine (h.expectInt v).bind fun m₁ a _ h₁ _ => ?_
    exact (h₁.expectInt w).bind fun m₂ b _ h₂ _ => h₂.ok (.int _)
  cases b with
  | print =>
    exact ⟨⟨Nat.le_refl _, Nat.le_refl _, fun _ _ _ => rfl⟩, ⟨h.global_lt, h.fits⟩, .unit⟩
  | max =>
    match args with
    | [v, w] => exact hint max v w
    | [] | [_] | _ :: _ :: _ :: _ => exact h.error (by simp)
  | min =>
    match args with
    | [v, w] => exact hint min v w
    | [] | [_] | _ :: _ :: _ :: _ => exact h.error (by simp)
  | toString =>
    match args with
    | [v] => exact h.ok (.str _)
    | [] | _ :: _ :: _ => exact h.error (by simp)

lemma Holds.readField (h : D.Holds m) {c : Case} {index : Nat} (name : String)
    (hc : D.accessor c index) {v : Value} (hv : D.Fits m v) :
    D.Yields D.Fits m (readField c index name v m) := by
  cases hv with
  | @variant u n t fields hvariant hfields =>
    simp only [Eval.readField]
    split
    · next hholds =>
      obtain ⟨rfl, rfl⟩ : u = c.variant ∧ t = c.tag := by simpa [Case.holds] using hholds
      cases hget : fields[index]? with
      | some field => exact h.ok (hfields field (List.mem_of_getElem? hget))
      | none =>
        refine h.error fun hstrict => ?_
        have hlt := D.index_lt c index n fields.length hstrict hc hvariant
        have hle := List.getElem?_eq_none_iff.mp hget
        omega
    · exact h.error (by simp)
  | _ => exact h.error (by simp)

/-- A way to call a value that keeps to the discipline. -/
def Calls (D : Discipline) (call : Value → List Value → Run Value) : Prop :=
  ∀ (m : Machine) (f : Value) (args : List Value), D.Holds m → D.Fits m f →
    (∀ v ∈ args, D.Fits m v) → D.Yields D.Fits m (call f args m)

/-- A way to enter a body that keeps to the discipline. -/
def Enters (D : Discipline) (enter : Option String → Env → Core.Expr → Run Value) : Prop :=
  ∀ (m : Machine) (name? : Option String) (env : Env) (e : Core.Expr), D.Holds m →
    env.current < m.store.size → D.Code e → D.Yields D.Fits m (enter name? env e m)

lemma fits_bindParams (params : List String) (hargs : ∀ v ∈ args, D.Fits m v) :
    ∀ b ∈ bindParams params args, D.Fits m b.2 := by
  intro b hb
  exact hargs b.2 (List.of_mem_zip (List.mem_reverse.mp hb)).2

theorem callWith_calls {enter : Option String → Env → Core.Expr → Run Value}
    (henter : D.Enters enter) : D.Calls (callWith enter) := by
  intro m f args h hf hargs
  cases hf with
  | @callable f hf =>
    cases f with
    | closure n f s =>
      obtain ⟨-, hs, hcode⟩ := hf
      simp only [callWith, expectAccepted]
      split
      · rw [pure_bind]
        obtain ⟨hgrow, hholds⟩ := h.push hs (fits_bindParams (f.params.map (·.name)) hargs)
        have hbody := henter _ none ⟨[m.store.size]⟩ f.body hholds (by simp [Env.current]) hcode
        exact ⟨hgrow.trans hbody.1, hbody.2⟩
      · exact h.error (by simp)
    | function f =>
      simp only [callWith, expectArity]
      split
      · rw [pure_bind]
        obtain ⟨hgrow, hholds⟩ := h.push h.global_lt (fits_bindParams f.params hargs)
        have hbody := henter _ (some f.name) ⟨[m.store.size]⟩ f.body hholds
          (by simp [Env.current]) hf
        exact ⟨hgrow.trans hbody.1, hbody.2⟩
      · exact h.error (by simp)
    | constructor c =>
      simp only [callWith, expectArity]
      split
      · next hcount =>
        exact h.ok (.variant (hcount ▸ D.variant_of_constructor c hf) hargs)
      · exact h.error (by simp)
    | accessor c index name =>
      exact (h.expectOne name hargs).bind fun m₁ v _ h₁ hv => h₁.readField name hf hv
    | predicate c => exact (h.expectOne c.predicate hargs).bind fun m₁ v _ h₁ _ => h₁.ok (.bool _)
    | builtin b => exact h.builtin b
  | _ => exact h.error (by simp)

end Calls

section Evaluation

variable {call : Value → List Value → Run Value}

/-- What evaluation of an expression keeps to, in every environment and on every machine. -/
def Evaluates (D : Discipline) (call : Value → List Value → Run Value) (e : Core.Expr) : Prop :=
  ∀ (m : Machine) (env : Env), D.Holds m → env.current < m.store.size →
    D.Yields D.Fits m (evalWith call e env m)

lemma evalArgs_yields {es : List Core.Expr} (he : ∀ e ∈ es, D.Evaluates call e) {env : Env}
    (h : D.Holds m) (henv : env.current < m.store.size) :
    D.Yields (fun m vs => ∀ v ∈ vs, D.Fits m v) m (evalArgs call es env m) := by
  induction es generalizing m with
  | nil => exact h.ok (by simp)
  | cons e es ih =>
    rw [evalArgs]
    refine (he e (by simp) m env h henv).bind fun m₁ v hgrow h₁ hv => ?_
    have henv₁ := Nat.lt_of_lt_of_le henv hgrow.scopes
    refine (ih (fun e' he' => he e' (by simp [he'])) h₁ henv₁).bind fun m₂ vs hgrow' h₂ hvs => ?_
    exact h₂.ok (List.forall_mem_cons.mpr ⟨hv.grow hgrow', hvs⟩)

lemma evalSeq_yields {es : List Core.Expr} (he : ∀ e ∈ es, D.Evaluates call e) {env : Env}
    (h : D.Holds m) (henv : env.current < m.store.size) {last : Value} (hlast : D.Fits m last) :
    D.Yields D.Fits m (evalSeq call es last env m) := by
  induction es generalizing m last with
  | nil => exact h.ok hlast
  | cons e es ih =>
    rw [evalSeq]
    refine (he e (by simp) m env h henv).bind fun m₁ v hgrow h₁ hv => ?_
    exact ih (fun e' he' => he e' (by simp [he'])) h₁ (Nat.lt_of_lt_of_le henv hgrow.scopes) hv

lemma evalBranches_yields {bs : List Core.Branch} (hb : ∀ b ∈ bs, D.Evaluates call b.action)
    (htotal : D.strict → ∃ b ∈ bs, b.test = .always) {env : Env} (h : D.Holds m)
    (henv : env.current < m.store.size) : D.Yields D.Fits m (evalBranches call bs env m) := by
  induction bs generalizing m with
  | nil => exact h.error fun hstrict => by simpa using htotal hstrict
  | cons b bs ih =>
    obtain ⟨t, a⟩ := b
    rw [evalBranches]
    refine (h.passes env t).bind fun m₁ passed hgrow h₁ hpassed => ?_
    have henv₁ := Nat.lt_of_lt_of_le henv hgrow.scopes
    cases passed with
    | true => exact hb (.mk t a) (by simp) m₁ env h₁ henv₁
    | false =>
      refine ih (fun b' hb' => hb b' (by simp [hb'])) (fun hstrict => ?_) h₁ henv₁
      obtain ⟨b', hmem, halways⟩ := htotal hstrict
      rcases List.mem_cons.mp hmem with rfl | hmem
      · exact absurd (hpassed halways) (by simp)
      · exact ⟨b', hmem, halways⟩

/-- Code that keeps to a discipline evaluates by it. -/
theorem evalWith_yields (hcall : D.Calls call) {e : Core.Expr} (he : D.Code e) :
    D.Evaluates call e := by
  induction e using Core.Expr.parts_induction with
  | lit l =>
    intro m env h henv
    cases l <;> exact h.ok (by constructor)
  | var x => exact fun m env h _ => h.lookup env x
  | call f args ihf ihargs =>
    intro m env h henv
    cases he with
    | call _ hf hargs =>
      rw [evalWith]
      refine (ihf hf m env h henv).bind fun m₁ g hgrow h₁ hg => ?_
      refine (evalArgs_yields (fun e he => ihargs e he (hargs e he)) h₁
        (Nat.lt_of_lt_of_le henv hgrow.scopes)).bind fun m₂ vs hgrow' h₂ hvs => ?_
      exact hcall m₂ g vs h₂ (hg.grow hgrow') hvs
  | lambda ps variadic body ih =>
    intro m env h henv
    cases he with
    | lambda _ hbody =>
      have hgrow := Machine.Grows.newClosure m
      exact ⟨hgrow, ⟨h.global_lt, fun s x v hv => (h.fits s x v hv).grow hgrow⟩,
        .callable ⟨Nat.lt_succ_self _, henv, hbody⟩⟩
  | letIn x value body ihv ihb =>
    intro m env h henv
    cases he with
    | letIn _ hvalue hbody =>
      rw [evalWith]
      refine (ihv hvalue m env h henv).bind fun m₁ v hgrow h₁ hv => ?_
      have hbinding : ∀ b ∈ [(x, v)], D.Fits m₁ b.2 := by simpa using hv
      obtain ⟨hgrow', h₂⟩ := h₁.push (Nat.lt_of_lt_of_le henv hgrow.scopes) hbinding
      have hinner := ihb hbody _ (env.push [(x, v)] m₁.store).1 h₂ (by simp [Env.push, Env.current])
      exact ⟨hgrow'.trans hinner.1, hinner.2⟩
  | seq es ih =>
    intro m env h henv
    cases he with
    | seq _ hes =>
      rw [evalWith]
      exact evalSeq_yields (fun e he => ih e he (hes e he)) h henv .unit
  | ifElse test yes no iht ihy ihn =>
    intro m env h henv
    cases he with
    | ifElse _ htest hyes hno =>
      rw [evalWith]
      refine (iht htest m env h henv).bind fun m₁ v hgrow h₁ hv => ?_
      have henv₁ := Nat.lt_of_lt_of_le henv hgrow.scopes
      cases v with
      | bool b =>
        cases b with
        | true => exact ihy hyes m₁ env h₁ henv₁
        | false => exact ihn hno m₁ env h₁ henv₁
      | _ => exact h₁.error (by simp)
  | binary op lhs rhs ihl ihr =>
    intro m env h henv
    cases he with
    | binary _ hlhs hrhs =>
      rw [evalWith]
      refine (ihl hlhs m env h henv).bind fun m₁ a hgrow h₁ ha => ?_
      refine (ihr hrhs m₁ env h₁ (Nat.lt_of_lt_of_le henv hgrow.scopes)).bind
        fun m₂ b hgrow' h₂ hb => ?_
      rw [Run.ofExcept_apply]
      cases hop : operate op a b with
      | ok v => exact h₂.ok (fits_of_isPlain (operate_isPlain hop))
      | error cause =>
        obtain ⟨o, rfl⟩ | ⟨o, s, t, rfl⟩ := operate_cause hop <;> exact h₂.error (by simp)
  | dispatch bs ih =>
    intro m env h henv
    cases he with
    | dispatch hcomplete hbs =>
      rw [evalWith]
      exact evalBranches_yields (fun b hb => ih b hb (hbs b hb)) hcomplete h henv
  | fail variant => exact fun m env h _ => h.error (by simp)
  | error =>
    intro m env h henv
    cases he with
    | error hcomplete => exact h.error fun hstrict => (hcomplete hstrict).elim

end Evaluation

/-- Calls keep to a discipline, however many calls may still be nested. -/
theorem callAt_calls (limit left : Nat) : D.Calls (callAt limit left) := by
  induction left with
  | zero => exact callWith_calls fun m name? env e h _ _ => h.error (by simp)
  | succ left ih =>
    refine callWith_calls fun m name? env e h henv he => ?_
    exact (evalWith_yields ih he m env h henv).within name?

end Discipline

/-- A callable that, if it is a closure, this machine made in a scope of its store. -/
def Callable.Within (scopes closures : Nat) : Callable → Prop
  | .closure n _ s => n < closures ∧ s < scopes
  | _ => True

def Value.Within (m : Machine) (v : Value) : Prop :=
  v.Every (Callable.Within m.store.size m.closures) fun _ _ _ _ => True

/-- A machine that made all the closures it can reach. -/
structure Machine.WellScoped (m : Machine) : Prop where
  global_lt : Store.global < m.store.size
  within : ∀ s x v, m.store.lookup? s x = some v → v.Within m

/-- The discipline that asks no more than well-scoped closures. -/
def Discipline.scoping : Discipline where
  strict := False
  variant _ _ _ _ := True
  constructor _ := True
  accessor _ _ := True
  variant_of_constructor _ _ := trivial
  index_lt _ _ _ _ h := h.elim

lemma Discipline.scoping_code (e : Core.Expr) : scoping.Code e :=
  Core.Expr.every_of_forall (fun _ h => h.elim) e

lemma Discipline.fits_scoping_iff {m : Machine} {v : Value} : scoping.Fits m v ↔ v.Within m := by
  constructor
  · intro h
    refine h.mono fun f hf => ?_
    cases f with
    | closure n f s => exact ⟨hf.1, hf.2.1⟩
    | _ => trivial
  · intro h
    refine h.mono fun f hf => ?_
    cases f with
    | closure n f s => exact ⟨hf.1, hf.2, scoping_code f.body⟩
    | function f => exact scoping_code f.body
    | _ => trivial

lemma Discipline.holds_scoping_iff {m : Machine} : scoping.Holds m ↔ m.WellScoped :=
  ⟨fun h => ⟨h.global_lt, fun s x v hv => fits_scoping_iff.mp (h.fits s x v hv)⟩,
    fun h => ⟨h.global_lt, fun s x v hv => fits_scoping_iff.mpr (h.within s x v hv)⟩⟩

lemma Machine.WellScoped.ofGlobals {m : Machine} {bs : List (String × Value)}
    (hm : m.store = .ofGlobals bs) (h : ∀ b ∈ bs, b.2.Within m) : m.WellScoped :=
  Discipline.holds_scoping_iff.mp
    (.ofGlobals hm fun b hb => Discipline.fits_scoping_iff.mpr (h b hb))

/-- A program starts on a well-scoped machine. -/
theorem wellScoped_ofProgram (p : Core.Program) (limit : Nat) :
    (Interpreter.ofProgram p limit).machine.WellScoped := by
  refine .ofGlobals rfl fun b hb => ?_
  have hmem := List.mem_reverse.mp hb
  simp only [programGlobals, caseGlobals, List.mem_append, List.mem_map, List.mem_flatMap,
    List.mem_cons] at hmem
  -- Every global is a callable, and none is a closure.
  rcases hmem with (⟨_, _, rfl⟩ | ⟨_, _, _, _, rfl | rfl | ⟨_, _, rfl⟩⟩) | ⟨_, _, rfl⟩
  all_goals exact .callable trivial

/-- Evaluation leaves a well-scoped machine larger at most and well-scoped, whether it gives a value
or a fault, and the closures in a value that it gives are ones of that machine. -/
theorem evalWith_wellScoped (limit left : Nat) (e : Core.Expr) {m : Machine} {env : Env}
    (h : m.WellScoped) (henv : env.current < m.store.size) :
    m.Grows (evalWith (callAt limit left) e env m).2 ∧
      (evalWith (callAt limit left) e env m).2.WellScoped ∧
      ∀ v, (evalWith (callAt limit left) e env m).1 = .ok v →
        v.Within (evalWith (callAt limit left) e env m).2 := by
  obtain ⟨hgrow, hholds, hresult⟩ := Discipline.evalWith_yields
    (Discipline.callAt_calls limit left) (Discipline.scoping_code e) m env
    (Discipline.holds_scoping_iff.mpr h) henv
  refine ⟨hgrow, Discipline.holds_scoping_iff.mp hholds, fun v hv => ?_⟩
  rw [hv] at hresult
  exact Discipline.fits_scoping_iff.mp hresult

end ClosedSum.Eval
