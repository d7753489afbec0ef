import ClosedSum.Proofs.Names
import ClosedSum.Proofs.Run
import Mathlib.Logic.Function.Iterate

/-!
# Evaluation step by step

An interpreter at work has one environment, whose scopes are pushed and popped as code enters and
leaves them, a counter of the calls it is in, and a stack of what is still to be done. One step does
a bounded amount of work: it looks at the code it is to evaluate, makes a call, or hands a result to
what waits for it. A fault leaves everything that waits, but scopes and calls are left in order.
Nothing here ends by construction. Step by step the interpreter comes to the result of evaluation,
on the same machine, and then its environment and its counter are as they were.
-/

namespace ClosedSum.Eval

/-- An environment with a scope for code to run in. -/
abbrev LiveEnv := { env : Env // env.scopes ≠ [] }

/-- What an interpreter changes while it works. -/
@[ext]
structure Status where
  machine : Machine
  env : LiveEnv
  depth : Nat

def Interpreter.status (i : Interpreter) : Status := ⟨i.machine, ⟨{}, List.cons_ne_nil _ _⟩, 0⟩

/-- What is to be done. -/
inductive Job where
  | eval (e : Core.Expr)
  | call (callee : Value) (args : List Value)

/-- What waits for a result. -/
inductive Pending where
  | callee (args : List Core.Expr)
  | argument (callee : Value) (done : List Value) (rest : List Core.Expr)
  | bind (name : String) (body : Core.Expr)
  | leaveScope
  | seq (rest : List Core.Expr)
  | choose (yes no : Core.Expr)
  | right (op : BinaryOp) (rhs : Core.Expr)
  | operate (op : BinaryOp) (left : Value)
  /-- The environment of the caller, and the name of the function if it has one. -/
  | leaveCall (saved : LiveEnv) (name? : Option String)

/-- A moment between two steps. -/
inductive Moment where
  | doing (job : Job) (status : Status) (pending : List Pending)
  | giving (result : Except Fault Value) (status : Status) (pending : List Pending)

def Moment.status : Moment → Status
  | .doing _ s _ | .giving _ s _ => s

def Moment.pending : Moment → List Pending
  | .doing _ _ k | .giving _ _ k => k

def Store.defineAll (s : Store) (scope : Nat) (bindings : List (String × Value)) : Store :=
  bindings.foldl (fun s b => s.define scope b.1 b.2) s

lemma Env.pop_scopes_ne_nil {env : Env} (h : env.scopes ≠ []) : env.pop.scopes ≠ [] := by
  obtain ⟨scopes⟩ := env
  match scopes with
  | [] => exact h
  | [_] => exact h
  | _ :: _ :: _ => exact List.cons_ne_nil _ _

namespace Status

def after (s : Status) (r : Run Value) (k : List Pending) : Moment :=
  .giving (r s.machine).1 { s with machine := (r s.machine).2 } k

def pushScope (s : Status) : Status :=
  let pushed := s.env.1.push [] s.machine.store
  { s with
    machine := { s.machine with store := pushed.2 }
    env := ⟨pushed.1, List.cons_ne_nil _ _⟩ }

def popScope (s : Status) : Status := { s with env := ⟨s.env.1.pop, Env.pop_scopes_ne_nil s.env.2⟩ }

def define (s : Status) (name : String) (value : Value) : Status :=
  { s with
    machine := { s.machine with store := s.machine.store.define s.env.1.current name value } }

def extend (s : Status) (scope : Nat) (bindings : List (String × Value)) : LiveEnv × Status :=
  let extended := Env.extending scope [] s.machine.store
  let store := extended.2.defineAll extended.1.current bindings
  (⟨extended.1, List.cons_ne_nil _ _⟩, { s with machine := { s.machine with store } })

def enterBody (limit : Nat) (s : Status) (env : LiveEnv) (name? : Option String)
    (body : Core.Expr) (k : List Pending) : Moment :=
  if limit ≤ s.depth then .giving (.error { cause := .tooDeep limit }) s k
  else .doing (.eval body) { s with env, depth := s.depth + 1 } (.leaveCall s.env name? :: k)

def leaveCall (s : Status) (saved : LiveEnv) : Status :=
  { s with env := saved, depth := s.depth - 1 }

end Status

namespace Pending

/-- What is left when a result comes, be it a value or a fault. -/
def leave (s : Status) : Pending → Status
  | .leaveScope => s.popScope
  | .leaveCall saved _ => s.leaveCall saved
  | _ => s

/-- The fault that goes on when a fault comes. -/
def mark (f : Fault) : Pending → Fault
  | .leaveCall _ name? => name?.elim f f.leaving
  | _ => f

def isCall : Pending → Bool
  | .leaveCall .. => true
  | _ => false

end Pending

/-- Goes on to the next argument, or to the call if there is none. -/
def nextArgument (callee : Value) (done : List Value) (rest : List Core.Expr) (s : Status)
    (k : List Pending) : Moment :=
  match rest with
  | [] => .doing (.call callee done) s k
  | e :: es => .doing (.eval e) s (.argument callee done es :: k)

def stepEval (e : Core.Expr) (s : Status) (k : List Pending) : Moment :=
  match e with
  | .lit l => s.after (pure (.ofLiteral l)) k
  | .var x => s.after (Run.lookup s.env.1 x) k
  | .call callee args => .doing (.eval callee) s (.callee args :: k)
  | .lambda params variadic body =>
    s.after (Run.newClosure ⟨params, variadic, body⟩ s.env.1.current) k
  | .letIn x value body => .doing (.eval value) s (.bind x body :: k)
  | .seq es => .giving (.ok .unit) s (.seq es :: k)
  | .ifElse test yes no => .doing (.eval test) s (.choose yes no :: k)
  | .binary op lhs rhs => .doing (.eval lhs) s (.right op rhs :: k)
  | .dispatch [] => s.after (Run.fail .uncompiled) k
  | .dispatch (.mk test action :: bs) =>
    match (passes s.env.1 test s.machine).1 with
    | .ok true => .doing (.eval action) s k
    | .ok false => .doing (.eval (.dispatch bs)) s k
    | .error f => .giving (.error f) s k
  | .fail variant => s.after (Run.fail (.matchFailure variant)) k
  | .error => s.after (Run.fail .uncompiled) k

def stepCall (limit : Nat) (callee : Value) (args : List Value) (s : Status) (k : List Pending) :
    Moment :=
  match callee with
  | .callable (.closure _ f scope) =>
    if accepts f args.length then
      let (env, s) := s.extend scope ((f.params.map (·.name)).zip args)
      s.enterBody limit env none f.body k
    else s.after (Run.fail (.wrongArity "closure" f.arity args.length)) k
  | .callable (.function f) =>
    if args.length = f.params.length then
      let (env, s) := s.extend Store.global (f.params.zip args)
      s.enterBody limit env f.name f.body k
    else s.after (Run.fail (.wrongArity f.name f.params.length args.length)) k
  -- No other callee has a body that could be entered.
  | callee => s.after (callWith (fun _ _ _ => Run.fail .uncompiled) callee args) k

def resume (v : Value) (p : Pending) (s : Status) (k : List Pending) : Moment :=
  match p with
  | .callee args => nextArgument v [] args s k
  | .argument callee done rest => nextArgument callee (done ++ [v]) rest s k
  | .bind x body => .doing (.eval body) (s.pushScope.define x v) (.leaveScope :: k)
  | .seq [] => .giving (.ok v) s k
  | .seq (e :: es) => .doing (.eval e) s (.seq es :: k)
  | .choose yes no =>
    match v with
    | .bool true => .doing (.eval yes) s k
    | .bool false => .doing (.eval no) s k
    | v => s.after (Run.fail (.typeMismatch .bool v.type)) k
  | .right op rhs => .doing (.eval rhs) s (.operate op v :: k)
  | .operate op left => s.after (Run.ofExcept (operate op left v)) k
  | .leaveScope | .leaveCall .. => .giving (.ok v) (p.leave s) k

/-- One step. With nothing left to do, the result stays. -/
def step (limit : Nat) : Moment → Moment
  | .doing (.eval e) s k => stepEval e s k
  | .doing (.call callee args) s k => stepCall limit callee args s k
  | .giving r s [] => .giving r s []
  | .giving (.ok v) s (p :: k) => resume v p s k
  | .giving (.error f) s (p :: k) => .giving (.error (p.mark f)) (p.leave s) k

/-- What evaluation gives for a job, with the calls that are left at the depth. -/
def Job.run (limit : Nat) (s : Status) : Job → Run Value
  | .eval e => evalWith (callAt limit (limit - s.depth)) e s.env.1
  | .call callee args => callAt limit (limit - s.depth) callee args

section Stores

variable (s : Store) (parent : Nat) (bindings : List (String × Value))

lemma Store.define_push (name : String) (value : Value) :
    (s.push parent bindings).2.define s.size name value =
      (s.push parent ((name, value) :: bindings)).2 := by
  unfold push define
  congr 1
  apply Array.ext_getElem?
  intro i
  rw [Array.getElem?_modify]
  by_cases hi : i = s.size
  · subst hi
    simp [size]
  · have hne : i ≠ s.scopes.size := hi
    simp [Array.getElem?_push, hne, Ne.symm hi]

/-- The last of several bindings of one name counts. -/
lemma Store.defineAll_push (bs : List (String × Value)) :
    (s.push parent bindings).2.defineAll s.size bs =
      (s.push parent (bs.reverse ++ bindings)).2 := by
  induction bs generalizing bindings with
  | nil => rfl
  | cons b bs ih =>
    have hcons : (s.push parent bindings).2.defineAll s.size (b :: bs) =
        ((s.push parent bindings).2.define s.size b.1 b.2).defineAll s.size bs := rfl
    rw [hcons, define_push, ih]
    simp

end Stores

/-- A run comes from one moment to another. -/
def Leads (limit : Nat) (a b : Moment) : Prop := ∃ n, (step limit)^[n] a = b

namespace Leads

variable {limit : Nat} {a b c : Moment}

lemma refl (limit : Nat) (a : Moment) : Leads limit a a := ⟨0, rfl⟩

lemma head (h : Leads limit (step limit a) b) : Leads limit a b := by
  obtain ⟨n, hn⟩ := h
  exact ⟨n + 1, hn⟩

lemma trans (h : Leads limit a b) (h' : Leads limit b c) : Leads limit a c := by
  obtain ⟨n, rfl⟩ := h
  obtain ⟨n', rfl⟩ := h'
  exact ⟨n' + n, Function.iterate_add_apply _ _ _ _⟩

variable {s : Status} {k : List Pending}

/-- A computation that waits for a value goes on from it. -/
lemma bind {p : Pending} {r : Run Value} {f : Value → Run Value} (hmark : ∀ e, p.mark e = e)
    (hleave : ∀ m, p.leave { s with machine := m } = { s with machine := m })
    (h : Leads limit a (s.after r (p :: k)))
    (hf : ∀ v m, Leads limit (.giving (.ok v) { s with machine := m } (p :: k))
      (Status.after { s with machine := m } (f v) k)) : Leads limit a (s.after (r >>= f) k) := by
  refine h.trans ?_
  unfold Status.after
  rw [Run.bind_apply]
  generalize r s.machine = x
  obtain ⟨e | v, m⟩ := x
  · apply head
    simp only [step, hmark, hleave]
    exact refl _ _
  · exact hf v m

end Leads

section Evaluation

variable {limit depth : Nat} {call : Value → List Value → Run Value}

/-- A run does at some depth what a way to call says. -/
def CallsLead (limit depth : Nat) (call : Value → List Value → Run Value) : Prop :=
  ∀ (s : Status) (f : Value) (args : List Value) (k : List Pending), s.depth = depth →
    Leads limit (.doing (.call f args) s k) (s.after (call f args) k)

/-- A run does at some depth what evaluation of an expression says. -/
def EvalLeads (limit depth : Nat) (call : Value → List Value → Run Value) (e : Core.Expr) : Prop :=
  ∀ (s : Status) (k : List Pending), s.depth = depth →
    Leads limit (.doing (.eval e) s k) (s.after (evalWith call e s.env.1) k)

lemma evalArgs_leads (hcall : CallsLead limit depth call) {es : List Core.Expr}
    (hes : ∀ e ∈ es, EvalLeads limit depth call e) (f : Value) (done : List Value) (s : Status)
    (k : List Pending) (hs : s.depth = depth) :
    Leads limit (nextArgument f done es s k)
      (s.after (evalArgs call es s.env.1 >>= fun vs => call f (done ++ vs)) k) := by
  induction es generalizing done s with
  | nil =>
    rw [evalArgs, pure_bind, List.append_nil]
    exact hcall s f done k hs
  | cons e es ih =>
    rw [evalArgs, bind_assoc]
    refine (hes e (List.mem_cons_self ..) s _ hs).bind (fun _ => rfl) (fun _ => rfl) ?_
    intro v m
    apply Leads.head
    have hrest := ih (fun e' he' => hes e' (List.mem_cons_of_mem _ he')) (done ++ [v])
      { s with machine := m } hs
    simp only [List.append_assoc, List.singleton_append] at hrest
    simp only [bind_assoc, pure_bind]
    exact hrest

lemma evalSeq_leads {es : List Core.Expr} (hes : ∀ e ∈ es, EvalLeads limit depth call e)
    (last : Value) (s : Status) (k : List Pending) (hs : s.depth = depth) :
    Leads limit (.giving (.ok last) s (.seq es :: k))
      (s.after (evalSeq call es last s.env.1) k) := by
  induction es generalizing last s with
  | nil => exact .head (.refl _ _)
  | cons e es ih =>
    rw [evalSeq]
    apply Leads.head
    refine (hes e (List.mem_cons_self ..) s _ hs).bind (fun _ => rfl) (fun _ => rfl) ?_
    intro v m
    exact ih (fun e' he' => hes e' (List.mem_cons_of_mem _ he')) v { s with machine := m } hs

lemma passes_machine (env : Env) (t : Core.Test) (m : Machine) : (passes env t m).2 = m := by
  cases t with
  | always => rfl
  | case x variant tag predicate =>
    rw [passes, Run.bind_apply, Run.lookup_apply]
    cases env.lookup? m.store x with
    | none => rfl
    | some v => cases v <;> rfl

lemma evalBranches_leads {bs : List Core.Branch}
    (hbs : ∀ b ∈ bs, EvalLeads limit depth call b.action) (s : Status) (k : List Pending)
    (hs : s.depth = depth) : Leads limit (.doing (.eval (.dispatch bs)) s k)
      (s.after (evalBranches call bs s.env.1) k) := by
  induction bs with
  | nil =>
    rw [evalBranches]
    exact .head (.refl _ _)
  | cons b bs ih =>
    obtain ⟨test, action⟩ := b
    apply Leads.head
    have hmachine := passes_machine s.env.1 test s.machine
    simp only [step, stepEval, Status.after, evalBranches, Run.bind_apply]
    generalize passes s.env.1 test s.machine = x at hmachine
    obtain ⟨f | passed, m⟩ := x
    · obtain rfl : m = s.machine := hmachine
      exact .refl _ _
    · obtain rfl : m = s.machine := hmachine
      cases passed with
      | true => exact hbs _ (List.mem_cons_self ..) s k hs
      | false => exact ih fun b' hb' => hbs b' (List.mem_cons_of_mem _ hb')

lemma Status.define_pushScope (s : Status) (x : String) (v : Value) :
    (s.pushScope.define x v).machine =
        { s.machine with store := (s.env.1.push [(x, v)] s.machine.store).2 } ∧
      (s.pushScope.define x v).env.1 = (s.env.1.push [(x, v)] s.machine.store).1 := by
  refine ⟨?_, rfl⟩
  have hstore := Store.define_push s.machine.store s.env.1.current [] x v
  unfold define pushScope
  exact congrArg (fun store => { s.machine with store }) hstore

lemma Status.popScope_pushScope (s : Status) (x : String) (v : Value) (m : Machine) :
    popScope { s.pushScope.define x v with machine := m } = { s with machine := m } := by
  apply Status.ext
  · rfl
  · exact Subtype.ext (Env.pop_push s.env.1 [] s.machine.store s.env.2)
  · rfl

lemma step_leaveScope (r : Except Fault Value) (s : Status) (k : List Pending) :
    step limit (.giving r s (.leaveScope :: k)) = .giving r s.popScope k := by
  cases r <;> rfl

lemma step_leaveCall (r : Except Fault Value) (s : Status) (saved : LiveEnv)
    (name? : Option String) (k : List Pending) :
    step limit (.giving r s (.leaveCall saved name? :: k)) =
      .giving (r.mapError fun f => name?.elim f f.leaving) (s.leaveCall saved) k := by
  cases r <;> rfl

theorem eval_leads (hcall : CallsLead limit depth call) (e : Core.Expr) :
    EvalLeads limit depth call e := by
  induction e using Core.Expr.parts_induction with
  | lit l => exact fun s k hs => .head (.refl _ _)
  | var x => exact fun s k hs => .head (.refl _ _)
  | call f args ihf ihargs =>
    intro s k hs
    rw [evalWith]
    apply Leads.head
    refine (ihf s _ hs).bind (fun _ => rfl) (fun _ => rfl) ?_
    intro v m
    apply Leads.head
    exact evalArgs_leads hcall ihargs v [] { s with machine := m } k hs
  | lambda ps variadic body ih => exact fun s k hs => .head (.refl _ _)
  | letIn x value body ihv ihb =>
    intro s k hs
    rw [evalWith]
    apply Leads.head
    refine (ihv s _ hs).bind (fun _ => rfl) (fun _ => rfl) ?_
    intro v m
    apply Leads.head
    have hbody := ihb (Status.pushScope { s with machine := m } |>.define x v) (.leaveScope :: k) hs
    refine hbody.trans (.head ?_)
    obtain ⟨hmachine, henv⟩ := Status.define_pushScope { s with machine := m } x v
    rw [Status.after, step_leaveScope, Status.popScope_pushScope, hmachine, henv]
    exact .refl _ _
  | seq es ih =>
    intro s k hs
    rw [evalWith]
    exact .head (evalSeq_leads ih .unit s k hs)
  | ifElse test yes no iht ihy ihn =>
    intro s k hs
    rw [evalWith]
    apply Leads.head
    refine (iht s _ hs).bind (fun _ => rfl) (fun _ => rfl) ?_
    intro v m
    apply Leads.head
    cases v with
    | bool b =>
      cases b with
      | true => exact ihy { s with machine := m } k hs
      | false => exact ihn { s with machine := m } k hs
    | _ => exact .refl _ _
  | binary op lhs rhs ihl ihr =>
    intro s k hs
    rw [evalWith]
    apply Leads.head
    refine (ihl s _ hs).bind (fun _ => rfl) (fun _ => rfl) ?_
    intro a m
    apply Leads.head
    refine (ihr { s with machine := m } _ hs).bind (fun _ => rfl) (fun _ => rfl) ?_
    intro b m'
    exact .head (.refl _ _)
  | dispatch bs ih =>
    intro s k hs
    rw [evalWith]
    exact evalBranches_leads ih s k hs
  | fail variant => exact fun s k hs => .head (.refl _ _)
  | error => exact fun s k hs => .head (.refl _ _)

def EntersLead (limit depth : Nat) (enter : Option String → Env → Core.Expr → Run Value) : Prop :=
  ∀ (s : Status) (env : LiveEnv) (name? : Option String) (body : Core.Expr) (k : List Pending),
    s.depth = depth →
      Leads limit (s.enterBody limit env name? body k) (s.after (enter name? env.1 body) k)

lemma Status.extend_eq (s : Status) (scope : Nat) (bindings : List (String × Value)) :
    s.extend scope bindings = (⟨⟨[s.machine.store.size]⟩, List.cons_ne_nil _ _⟩,
      { s with machine := { s.machine with
        store := (s.machine.store.push scope bindings.reverse).2 } }) := by
  have hstore := Store.defineAll_push s.machine.store scope [] bindings
  rw [List.append_nil] at hstore
  rw [← hstore]
  rfl

lemma callWith_leads {enter : Option String → Env → Core.Expr → Run Value}
    (henter : EntersLead limit depth enter) : CallsLead limit depth (callWith enter) := by
  intro s f args k hs
  apply Leads.head
  cases f with
  | callable f =>
    cases f with
    | closure n f scope =>
      simp only [step, stepCall, callWith, expectAccepted, Status.extend_eq]
      split
      · exact henter _ _ _ _ _ hs
      · exact .refl _ _
    | function f =>
      simp only [step, stepCall, callWith, expectArity, Status.extend_eq]
      split
      · exact henter _ _ _ _ _ hs
      · exact .refl _ _
    | _ => exact .refl _ _
  | _ => exact .refl _ _

/-- The calls of the evaluator do what the steps do, if as many are left as the limit is above the
depth. -/
theorem call_leads (limit depth : Nat) : CallsLead limit depth (callAt limit (limit - depth)) := by
  generalize hleft : limit - depth = left
  induction left generalizing depth with
  | zero =>
    apply callWith_leads
    intro s env name? body k hs
    have hrefused : limit ≤ s.depth := by omega
    rw [Status.enterBody, if_pos hrefused]
    exact .refl _ _
  | succ left ih =>
    apply callWith_leads
    intro s env name? body k hs
    have hentered : ¬ limit ≤ s.depth := by omega
    rw [Status.enterBody, if_neg hentered]
    have hbody := eval_leads (ih (depth + 1) (by omega)) body
      { s with env, depth := s.depth + 1 } (.leaveCall s.env name? :: k) (congrArg (· + 1) hs)
    refine hbody.trans (.head ?_)
    rw [Status.after, step_leaveCall, Status.after]
    dsimp only
    rw [Run.within_apply]
    exact .refl _ _

/-- Step by step, an interpreter comes to what evaluation gives for its job, and nothing of its
status but the machine has changed. -/
theorem Job.leads (limit : Nat) (j : Job) (s : Status) (k : List Pending) :
    Leads limit (.doing j s k) (s.after (j.run limit s) k) := by
  cases j with
  | eval e => exact eval_leads (call_leads limit s.depth) e s k rfl
  | call callee args => exact call_leads limit s.depth s callee args k rfl

end Evaluation

end ClosedSum.Eval
