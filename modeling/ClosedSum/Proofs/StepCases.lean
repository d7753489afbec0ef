import ClosedSum.Proofs.DepthLimit
import ClosedSum.Proofs.Stepping

/-!
# What one step does

Besides entering calls and leaving them, a step keeps the depth and the number of calls that are
open. It gives a fault that it met, or a new one that names no function and tells of no limit. No
step changes or adds a binding in a scope that was there before, and only a call of `print` prints.
-/

namespace ClosedSum.Eval

variable {α β : Type}

namespace Run

/-- A computation that leaves the store alone, prints a text, and fails only by faults of its own,
which are none of the depth limit. -/
structure Simple (line : String) (r : Run α) : Prop where
  store : ∀ m, (r m).2.store = m.store
  output : ∀ m, (r m).2.output = m.output ++ line
  fault : ∀ m f, (r m).1 = .error f → f.frames = [] ∧ ¬ f.IsTooDeep

namespace Simple

lemma pure (a : α) : Simple "" (Pure.pure a) :=
  ⟨fun _ => rfl, fun _ => String.append_empty.symm, nofun⟩

lemma fail {cause : Cause} (h : ∀ limit, cause ≠ .tooDeep limit) :
    Simple "" (Run.fail cause : Run α) := by
  refine ⟨fun _ => rfl, fun _ => String.append_empty.symm, ?_⟩
  rintro m f ⟨⟩
  refine ⟨rfl, ?_⟩
  rintro ⟨limit, hlimit⟩
  exact h limit hlimit

lemma bind {line : String} {r : Run α} {f : α → Run β} (h : Simple line r)
    (hf : ∀ a, Simple "" (f a)) : Simple line (r >>= f) := by
  refine ⟨?_, ?_, ?_⟩
  · intro m
    have hstore := h.store m
    rw [bind_apply]
    generalize r m = x at hstore
    obtain ⟨e | a, m'⟩ := x
    · exact hstore
    · exact ((hf a).store m').trans hstore
  · intro m
    have houtput := h.output m
    rw [bind_apply]
    generalize r m = x at houtput
    obtain ⟨e | a, m'⟩ := x
    · exact houtput
    · have hmore := (hf a).output m'
      rw [String.append_empty] at hmore
      exact hmore.trans houtput
  · intro m g hg
    have hfault := h.fault m
    rw [bind_apply] at hg
    generalize r m = x at hfault hg
    obtain ⟨e | a, m'⟩ := x
    · cases hg
      exact hfault _ rfl
    · exact (hf a).fault m' g hg

lemma lookup (env : Env) (name : String) : Simple "" (Run.lookup env name) := by
  refine ⟨?_, ?_, ?_⟩
  · intro m
    rw [lookup_apply]
    cases env.lookup? m.store name <;> rfl
  · intro m
    rw [lookup_apply, String.append_empty]
    cases env.lookup? m.store name <;> rfl
  · intro m f hf
    rw [lookup_apply] at hf
    cases hlookup : env.lookup? m.store name with
    | some v =>
      rw [hlookup] at hf
      cases hf
    | none =>
      rw [hlookup] at hf
      cases hf
      refine ⟨rfl, ?_⟩
      rintro ⟨limit, hlimit⟩
      cases hlimit

lemma newClosure (f : Core.Lambda) (scope : Nat) : Simple "" (Run.newClosure f scope) :=
  ⟨fun _ => rfl, fun _ => String.append_empty.symm, nofun⟩

lemma printLine (line : String) : Simple (line ++ "\n") (Run.printLine line) :=
  ⟨fun _ => rfl, fun _ => String.append_assoc, nofun⟩

end Simple

end Run

open Run (Simple)

lemma operate_simple (op : BinaryOp) (a b : Value) :
    Simple "" (Run.ofExcept (operate op a b)) := by
  cases hop : operate op a b with
  | ok v => exact .pure v
  | error cause => obtain ⟨o, rfl⟩ | ⟨o, s, t, rfl⟩ := operate_cause hop <;> exact .fail (by simp)

lemma passes_simple (env : Env) (t : Core.Test) : Simple "" (passes env t) := by
  cases t with
  | always => exact .pure true
  | case x variant tag predicate =>
    refine (Simple.lookup env x).bind fun v => ?_
    cases v <;> exact .pure _

lemma expectArity_simple (callee : String) (expected found : Nat) :
    Simple "" (expectArity callee expected found) := by
  unfold expectArity
  split
  · exact .pure ()
  · exact .fail (by simp)

lemma expectInt_simple (v : Value) : Simple "" (expectInt v) := by
  unfold expectInt
  split
  · exact .pure _
  · exact .fail (by simp)

lemma expectOne_simple (callee : String) (args : List Value) :
    Simple "" (expectOne callee args) := by
  unfold expectOne
  split
  · exact .pure _
  · exact .fail (by simp)

lemma readField_simple (c : Case) (index : Nat) (name : String) (v : Value) :
    Simple "" (readField c index name v) := by
  unfold readField
  split
  · split
    · split
      · exact .pure _
      · exact .fail (by simp)
    · exact .fail (by simp)
  · exact .fail (by simp)

/-- The text that a call prints. -/
def Value.printed (args : List Value) : Value → String
  | .callable (.builtin .print) => " ".intercalate (args.map Value.text) ++ "\n"
  | _ => ""

lemma builtin_simple (b : Builtin) (args : List Value) :
    Simple (Value.printed args (.callable (.builtin b))) (b.apply args) := by
  unfold Builtin.apply
  split
  · exact (Simple.printLine _).bind fun _ => .pure _
  · exact (expectInt_simple _).bind fun _ => (expectInt_simple _).bind fun _ => .pure _
  · exact (expectInt_simple _).bind fun _ => (expectInt_simple _).bind fun _ => .pure _
  · exact .pure _
  · next hprint _ _ _ =>
    have hsilent : Value.printed args (.callable (.builtin b)) = "" := by
      cases b with
      | print => exact absurd rfl hprint
      | _ => rfl
    rw [hsilent]
    exact .fail (by simp)

/-- Whether a callee has a body, and takes so many arguments. -/
def Value.Enters (count : Nat) : Value → Prop
  | .callable (.closure _ f _) => accepts f count = true
  | .callable (.function f) => count = f.params.length
  | _ => False

/-- Leaving a scope makes no scope known. -/
lemma Env.mem_of_mem_pop {env : Env} {i : Nat} (h : i ∈ env.pop.scopes) : i ∈ env.scopes := by
  unfold pop at h
  split at h
  · next hscopes =>
    rw [hscopes]
    exact List.mem_cons_of_mem _ h
  · exact h

namespace Moment

/-- The fault that is given. -/
def fault? : Moment → Option Fault
  | .giving (.error f) _ _ => some f
  | _ => none

/-- The calls that were entered and are not yet left. -/
def openCalls (a : Moment) : List Pending := a.pending.filter (·.isCall)

/-- The text that the next step prints. -/
def line : Moment → String
  | .doing (.call f args) _ _ => Value.printed args f
  | _ => ""

/-- A step that enters no call and leaves none. -/
structure Ordinary (a b : Moment) : Prop where
  depth : b.status.depth = a.status.depth
  openCalls : b.openCalls = a.openCalls
  fault : ∀ f, b.fault? = some f → a.fault? = some f ∨
    a.fault? = none ∧ f.frames = [] ∧ ¬ f.IsTooDeep
  store : a.status.machine.store.Keeps b.status.machine.store
  scopes : ∀ i ∈ b.status.env.1.scopes, i ∈ a.status.env.1.scopes ∨
    i < b.status.machine.store.size
  output : b.status.machine.output = a.status.machine.output ++ a.line

/-- What a step does. -/
inductive StepCase (limit : Nat) : Moment → Moment → Prop
  | ordinary {a b : Moment} (h : Ordinary a b) : StepCase limit a b
  /-- A call that passes its count of arguments is refused. -/
  | refuses {f : Value} {args : List Value} {s : Status} {k : List Pending}
    (henters : f.Enters args.length) (hdeep : limit ≤ s.depth) (scope : Nat)
    (bindings : List (String × Value)) :
    StepCase limit (.doing (.call f args) s k)
      (.giving (.error { cause := .tooDeep limit }) (s.extend scope bindings).2 k)
  | enters {f : Value} {args : List Value} {s : Status} {k : List Pending}
    (henters : f.Enters args.length) (hroom : s.depth < limit) (scope : Nat)
    (bindings : List (String × Value)) (name? : Option String) (body : Core.Expr) :
    StepCase limit (.doing (.call f args) s k)
      (.doing (.eval body) { (s.extend scope bindings).2 with
        env := (s.extend scope bindings).1
        depth := s.depth + 1 } (.leaveCall s.env name? :: k))
  | leaves (r : Except Fault Value) (s : Status) (saved : LiveEnv) (name? : Option String)
    (k : List Pending) : StepCase limit (.giving r s (.leaveCall saved name? :: k))
      (.giving (r.mapError fun f => name?.elim f f.leaving) (s.leaveCall saved) k)

lemma Ordinary.after {a : Moment} {s : Status} {r : Run Value} {k : List Pending}
    (hs : a.status = s) (hk : k.filter (·.isCall) = a.openCalls) (hfault : a.fault? = none)
    (hr : Simple a.line r) : Ordinary a (s.after r k) := by
  subst hs
  refine ⟨rfl, hk, ?_, ?_, fun i hi => .inl hi, hr.output _⟩
  · intro f hf
    refine .inr ⟨hfault, hr.fault a.status.machine f ?_⟩
    unfold Status.after at hf
    generalize (r a.status.machine).1 = x at hf
    cases x with
    | ok v => cases hf
    | error g =>
      cases hf
      rfl
  · have hstore : (a.status.after r k).status.machine.store = a.status.machine.store :=
      hr.store a.status.machine
    rw [hstore]
    exact .refl _

/-- A step that only says what to do next. -/
lemma Ordinary.turn {a b : Moment} (hs : b.status = a.status) (hk : b.openCalls = a.openCalls)
    (hfault : b.fault? = none) (hline : a.line = "") : Ordinary a b := by
  refine ⟨by rw [hs], hk, ?_, ?_, ?_, ?_⟩
  · intro f hf
    rw [hfault] at hf
    cases hf
  · rw [hs]
    exact .refl _
  · rw [hs]
    exact fun i hi => .inl hi
  · rw [hs, hline, String.append_empty]

lemma Ordinary.nextArgument {a : Moment} {s : Status} {k : List Pending} (hs : a.status = s)
    (hk : k.filter (·.isCall) = a.openCalls) (hline : a.line = "") (f : Value) (done : List Value)
    (es : List Core.Expr) : Ordinary a (nextArgument f done es s k) := by
  cases es with
  | nil => exact .turn hs.symm hk rfl hline
  | cons e es => exact .turn hs.symm hk rfl hline

/-- A result goes past what does not look at it. -/
lemma Ordinary.passing (r : Except Fault Value) (s : Status) {p : Pending} {k : List Pending}
    (hcall : p.isCall = false) : Ordinary (.giving r s (p :: k)) (.giving r (p.leave s) k) := by
  have hcalls : k.filter (·.isCall) = (p :: k).filter (·.isCall) := by
    rw [List.filter_cons_of_neg (by simp [hcall])]
  have hfault : ∀ f, fault? (.giving r (p.leave s) k) = some f →
      fault? (.giving r s (p :: k)) = some f ∨
        fault? (.giving r s (p :: k)) = none ∧ f.frames = [] ∧ ¬ f.IsTooDeep := by
    intro f hf
    cases r with
    | ok v => cases hf
    | error g => exact .inl hf
  cases p with
  | leaveCall saved name? => cases hcall
  | leaveScope =>
    refine ⟨rfl, hcalls, hfault, .refl _, ?_, String.append_empty.symm⟩
    exact fun i hi => .inl (Env.mem_of_mem_pop hi)
  | _ => exact ⟨rfl, hcalls, hfault, .refl _, fun i hi => .inl hi, String.append_empty.symm⟩

lemma stepEval_ordinary (e : Core.Expr) (s : Status) (k : List Pending) :
    Ordinary (.doing (.eval e) s k) (stepEval e s k) := by
  cases e with
  | lit l => exact .after rfl rfl rfl (.pure _)
  | var x => exact .after rfl rfl rfl (.lookup _ _)
  | call f args => exact .turn rfl rfl rfl rfl
  | lambda ps variadic body => exact .after rfl rfl rfl (.newClosure _ _)
  | letIn x value body => exact .turn rfl rfl rfl rfl
  | seq es => exact .turn rfl rfl rfl rfl
  | ifElse test yes no => exact .turn rfl rfl rfl rfl
  | binary op lhs rhs => exact .turn rfl rfl rfl rfl
  | dispatch bs =>
    cases bs with
    | nil => exact .after rfl rfl rfl (.fail (by simp))
    | cons b bs =>
      obtain ⟨test, action⟩ := b
      have hfault := (passes_simple s.env.1 test).fault s.machine
      simp only [stepEval]
      generalize (passes s.env.1 test s.machine).1 = x at hfault
      cases x with
      | ok passed => cases passed <;> exact .turn rfl rfl rfl rfl
      | error f =>
        refine ⟨rfl, rfl, ?_, .refl _, fun i hi => .inl hi, String.append_empty.symm⟩
        rintro g ⟨⟩
        exact .inr ⟨rfl, hfault f rfl⟩
  | fail variant => exact .after rfl rfl rfl (.fail (by simp))
  | error => exact .after rfl rfl rfl (.fail (by simp))

/-- A new scope is pushed, and its binding goes there. -/
lemma bind_ordinary (x : String) (v : Value) (body : Core.Expr) (s : Status) (k : List Pending) :
    Ordinary (.giving (.ok v) s (.bind x body :: k))
      (.doing (.eval body) (s.pushScope.define x v) (.leaveScope :: k)) := by
  obtain ⟨hmachine, henv⟩ := Status.define_pushScope s x v
  refine ⟨rfl, rfl, nofun, ?_, ?_, ?_⟩
  · simp only [status, hmachine]
    exact .push _ _ _
  · simp only [status, hmachine, henv]
    intro i hi
    obtain rfl | hi := List.mem_cons.mp hi
    · exact .inr (by simp [Env.push])
    · exact .inl hi
  · simp only [status, hmachine]
    exact String.append_empty.symm

lemma resume_ordinary (v : Value) {p : Pending} (hp : p.isCall = false) (s : Status)
    (k : List Pending) : Ordinary (.giving (.ok v) s (p :: k)) (resume v p s k) := by
  cases p with
  | callee args =>
    apply Ordinary.nextArgument
    all_goals rfl
  | argument f done rest =>
    apply Ordinary.nextArgument
    all_goals rfl
  | bind x body => exact bind_ordinary x v body s k
  | leaveScope => exact .passing _ s rfl
  | seq es =>
    cases es with
    | nil => exact .turn rfl rfl rfl rfl
    | cons e es => exact .turn rfl rfl rfl rfl
  | choose yes no =>
    cases v with
    | bool b => cases b <;> exact .turn rfl rfl rfl rfl
    | _ => exact .after rfl rfl rfl (.fail (by simp))
  | right op rhs => exact .turn rfl rfl rfl rfl
  | operate op left => exact .after rfl rfl rfl (operate_simple _ _ _)
  | leaveCall saved name? => cases hp

/-- A call enters a body or is refused, if the callee has one and takes as many arguments. -/
lemma enterBody_case (limit : Nat) {f : Value} {args : List Value} (henters : f.Enters args.length)
    (s : Status) (scope : Nat) (bindings : List (String × Value)) (name? : Option String)
    (body : Core.Expr) (k : List Pending) : StepCase limit (.doing (.call f args) s k)
      ((s.extend scope bindings).2.enterBody limit (s.extend scope bindings).1 name? body k) := by
  unfold Status.enterBody
  have hdepth : (s.extend scope bindings).2.depth = s.depth := rfl
  rw [hdepth]
  by_cases hdeep : limit ≤ s.depth
  · rw [if_pos hdeep]
    exact .refuses henters hdeep scope bindings
  · rw [if_neg hdeep]
    exact .enters henters (Nat.lt_of_not_le hdeep) scope bindings name? body

lemma stepCall_case (limit : Nat) (f : Value) (args : List Value) (s : Status) (k : List Pending) :
    StepCase limit (.doing (.call f args) s k) (stepCall limit f args s k) := by
  cases f with
  | callable f =>
    cases f with
    | closure n f scope =>
      unfold stepCall
      by_cases haccepts : accepts f args.length = true
      · have henters : Value.Enters args.length (.callable (.closure n f scope)) := haccepts
        simp only [if_pos haccepts]
        exact enterBody_case limit henters _ _ _ _ _ _
      · simp only [if_neg haccepts]
        exact .ordinary (.after rfl rfl rfl (.fail (by simp)))
    | function f =>
      unfold stepCall
      by_cases hcount : args.length = f.params.length
      · have henters : Value.Enters args.length (.callable (.function f)) := hcount
        simp only [if_pos hcount]
        exact enterBody_case limit henters _ _ _ _ _ _
      · simp only [if_neg hcount]
        exact .ordinary (.after rfl rfl rfl (.fail (by simp)))
    | constructor c =>
      refine .ordinary (.after rfl rfl rfl ?_)
      exact (expectArity_simple _ _ _).bind fun _ => .pure _
    | accessor c index name =>
      refine .ordinary (.after rfl rfl rfl ?_)
      exact (expectOne_simple _ _).bind fun _ => readField_simple _ _ _ _
    | predicate c =>
      refine .ordinary (.after rfl rfl rfl ?_)
      exact (expectOne_simple _ _).bind fun _ => .pure _
    | builtin b => exact .ordinary (.after rfl rfl rfl (builtin_simple b args))
  | _ => exact .ordinary (.after rfl rfl rfl (.fail (by simp)))

lemma mark_of_not_isCall {p : Pending} (hp : p.isCall = false) (f : Fault) : p.mark f = f := by
  cases p with
  | leaveCall saved name? => cases hp
  | _ => rfl

theorem step_case (limit : Nat) (a : Moment) : StepCase limit a (step limit a) := by
  match a with
  | .doing (.eval e) s k => exact .ordinary (stepEval_ordinary e s k)
  | .doing (.call f args) s k => exact stepCall_case limit f args s k
  | .giving r s [] =>
    have hstays : Ordinary (.giving r s []) (.giving r s []) :=
      ⟨rfl, rfl, fun f hf => .inl hf, .refl _, fun i hi => .inl hi, String.append_empty.symm⟩
    rw [step]
    exact .ordinary hstays
  | .giving r s (p :: k) =>
    by_cases hp : p.isCall = true
    · cases p with
      | leaveCall saved name? =>
        rw [step_leaveCall]
        exact .leaves r s saved name? k
      | _ => cases hp
    · rw [Bool.not_eq_true] at hp
      cases r with
      | ok v => exact .ordinary (resume_ordinary v hp s k)
      | error f =>
        rw [step, mark_of_not_isCall hp]
        exact .ordinary (.passing _ s hp)

end Moment

end ClosedSum.Eval
