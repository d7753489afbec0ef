import ClosedSum.Proofs.Run

/-!
# Raising the depth limit

Two runs of the same code under two limits go hand in hand until the lower limit refuses a call. Up
to there they share the machine, and from there on the deeper run can only print more: no construct
takes a fault back. `Run.Deepens` says this of two computations and is kept by sequencing, so it
goes from calls to expressions and back to calls that may be nested one level deeper.
-/

namespace ClosedSum.Eval

variable {α β : Type}

/-- A machine that has printed what another had, and perhaps more. -/
def Machine.Prints (m m' : Machine) : Prop := ∃ more, m'.output = m.output ++ more

namespace Machine.Prints

lemma refl (m : Machine) : m.Prints m := ⟨"", by simp⟩

lemma trans {m₁ m₂ m₃ : Machine} (h : m₁.Prints m₂) (h' : m₂.Prints m₃) : m₁.Prints m₃ := by
  obtain ⟨s, hs⟩ := h
  obtain ⟨t, ht⟩ := h'
  exact ⟨s ++ t, by rw [ht, hs, String.append_assoc]⟩

end Machine.Prints

/-- Whether a fault is the refusal of a call that was nested too deep. -/
def Fault.IsTooDeep (f : Fault) : Prop := ∃ limit, f.cause = .tooDeep limit

namespace Run

variable {d : Nat} {r r' : Run α}

/-- The first run is refused by the limit `d` and has printed a part of what the second prints, or
it meets no limit and both are the same. -/
def Deepens (d : Nat) (r r' : Run α) : Prop :=
  ∀ m, m.Prints (r' m).2 ∧
    (r' m = r m ∧ (∀ f, (r m).1 = .error f → ¬ f.IsTooDeep) ∨
      ∃ f, (r m).1 = .error f ∧ f.cause = .tooDeep d ∧ (r m).2.Prints (r' m).2)

namespace Deepens

lemma pure (a : α) : Deepens d (Pure.pure a) (Pure.pure a) :=
  fun m => ⟨.refl m, .inl ⟨rfl, nofun⟩⟩

lemma fail {cause : Cause} (h : ∀ limit, cause ≠ .tooDeep limit) :
    Deepens d (Run.fail cause : Run α) (Run.fail cause) := by
  intro m
  refine ⟨.refl m, .inl ⟨rfl, ?_⟩⟩
  rintro f ⟨⟩ ⟨limit, hlimit⟩
  exact h limit hlimit

/-- A refused call, beside one that goes on and prints. -/
lemma refused (h : ∀ m : Machine, m.Prints (r' m).2) : Deepens d (Run.fail (.tooDeep d)) r' :=
  fun m => ⟨h m, .inr ⟨_, rfl, rfl, h m⟩⟩

lemma bind (h : Deepens d r r') {f f' : α → Run β} (hf : ∀ a, Deepens d (f a) (f' a)) :
    Deepens d (r >>= f) (r' >>= f') := by
  intro m
  obtain ⟨hprints, hsame | ⟨e, he, hcause, hmore⟩⟩ := h m
  · obtain ⟨hrun, hfits⟩ := hsame
    rw [bind_apply, bind_apply, hrun]
    rw [hrun] at hprints
    generalize r m = a at hprints hfits
    obtain ⟨e | a, m₁⟩ := a
    · refine ⟨hprints, .inl ⟨rfl, ?_⟩⟩
      rintro f ⟨⟩
      exact hfits e rfl
    · obtain ⟨hprints', hrest⟩ := hf a m₁
      exact ⟨hprints.trans hprints', hrest⟩
  · have hrefused : (r >>= f) m = (.error e, (r m).2) := bind_of_error (Prod.ext he rfl) f
    -- The second run goes on, and what it does from here on only prints.
    have hgoes : (r' m).2.Prints ((r' >>= f') m).2 := by
      rw [bind_apply]
      generalize r' m = a
      obtain ⟨e' | a, m₁⟩ := a
      · exact .refl m₁
      · exact (hf a m₁).1
    refine ⟨hprints.trans hgoes, .inr ⟨e, ?_, hcause, ?_⟩⟩
    · rw [hrefused]
    · rw [hrefused]
      exact hmore.trans hgoes

lemma within (h : Deepens d r r') (name? : Option String) :
    Deepens d (Run.within name? r) (Run.within name? r') := by
  have hcause : ∀ f : Fault, (name?.elim f f.leaving).cause = f.cause := by
    intro f
    cases name? <;> rfl
  intro m
  rw [within_apply, within_apply]
  obtain ⟨hprints, hsame | ⟨e, he, hdeep, hmore⟩⟩ := h m
  · obtain ⟨hrun, hfits⟩ := hsame
    refine ⟨hprints, .inl ⟨by rw [hrun], ?_⟩⟩
    generalize (r m).1 = a at hfits
    cases a with
    | ok a => exact nofun
    | error f =>
      rintro _ ⟨⟩ ⟨limit, hlimit⟩
      exact hfits f rfl ⟨limit, (hcause f).symm.trans hlimit⟩
  · refine ⟨hprints, .inr ⟨name?.elim e e.leaving, ?_, (hcause e).trans hdeep, hmore⟩⟩
    simp only [he]
    rfl

lemma enter (f : Store → Env × Store) : Deepens d (Run.enter f) (Run.enter f) :=
  fun m => ⟨.refl m, .inl ⟨rfl, nofun⟩⟩

lemma newClosure (f : Core.Lambda) (scope : Nat) :
    Deepens d (Run.newClosure f scope) (Run.newClosure f scope) :=
  fun m => ⟨.refl m, .inl ⟨rfl, nofun⟩⟩

lemma lookup (env : Env) (name : String) :
    Deepens d (Run.lookup env name) (Run.lookup env name) := by
  intro m
  rw [lookup_apply]
  cases env.lookup? m.store name with
  | some v => exact pure v m
  | none =>
    have hfail : Deepens d (Run.fail (.undefined name) : Run Value) (Run.fail (.undefined name)) :=
      fail (by simp)
    exact hfail m

lemma printLine (line : String) : Deepens d (Run.printLine line) (Run.printLine line) :=
  fun m => ⟨⟨line ++ "\n", by simp [String.append_assoc]⟩, .inl ⟨rfl, nofun⟩⟩

end Deepens

end Run

open Run (Deepens)

section Calls

variable {d : Nat}

lemma expectArity_deepens (callee : String) (expected found : Nat) :
    Deepens d (expectArity callee expected found) (expectArity callee expected found) := by
  unfold expectArity
  split
  · exact .pure ()
  · exact .fail (by simp)

lemma expectAccepted_deepens (f : Core.Lambda) (count : Nat) :
    Deepens d (expectAccepted f count) (expectAccepted f count) := by
  unfold expectAccepted
  split
  · exact .pure ()
  · exact .fail (by simp)

lemma expectOne_deepens (callee : String) (args : List Value) :
    Deepens d (expectOne callee args) (expectOne callee args) := by
  unfold expectOne
  split
  · exact .pure _
  · exact .fail (by simp)

lemma expectInt_deepens (v : Value) : Deepens d (expectInt v) (expectInt v) := by
  unfold expectInt
  split
  · exact .pure _
  · exact .fail (by simp)

lemma builtin_deepens (b : Builtin) (args : List Value) :
    Deepens d (b.apply args) (b.apply args) := by
  unfold Builtin.apply
  split
  · exact (Deepens.printLine _).bind fun _ => .pure _
  · exact (expectInt_deepens _).bind fun _ => (expectInt_deepens _).bind fun _ => .pure _
  · exact (expectInt_deepens _).bind fun _ => (expectInt_deepens _).bind fun _ => .pure _
  · exact .pure _
  · exact .fail (by simp)

lemma readField_deepens (c : Case) (index : Nat) (name : String) (v : Value) :
    Deepens d (readField c index name v) (readField c index name v) := by
  unfold readField
  split
  · split
    · split
      · exact .pure _
      · exact .fail (by simp)
    · exact .fail (by simp)
  · exact .fail (by simp)

/-- Calls go hand in hand as far as the bodies that they enter do. -/
lemma callWith_deepens {enter enter' : Option String → Env → Core.Expr → Run Value}
    (henter : ∀ name? env e, Deepens d (enter name? env e) (enter' name? env e)) (callee : Value)
    (args : List Value) :
    Deepens d (callWith enter callee args) (callWith enter' callee args) := by
  unfold callWith
  split
  · exact (expectAccepted_deepens _ _).bind fun _ => (Deepens.enter _).bind fun _ => henter _ _ _
  · exact (expectArity_deepens _ _ _).bind fun _ => (Deepens.enter _).bind fun _ => henter _ _ _
  · exact (expectArity_deepens _ _ _).bind fun _ => .pure _
  · exact (expectOne_deepens _ _).bind fun _ => readField_deepens _ _ _ _
  · exact (expectOne_deepens _ _).bind fun _ => .pure _
  · exact builtin_deepens _ _
  · exact .fail (by simp)

end Calls

section Evaluation

variable {d : Nat} {call call' : Value → List Value → Run Value}

lemma passes_deepens (env : Env) (t : Core.Test) : Deepens d (passes env t) (passes env t) := by
  cases t with
  | always => exact .pure true
  | case x variant tag p =>
    refine (Deepens.lookup env x).bind fun v => ?_
    cases v <;> exact .pure _

lemma operate_deepens (op : BinaryOp) (a b : Value) :
    Deepens d (Run.ofExcept (operate op a b)) (Run.ofExcept (operate op a b)) := by
  cases hop : operate op a b with
  | ok v => exact .pure v
  | error cause => obtain ⟨o, rfl⟩ | ⟨o, s, t, rfl⟩ := operate_cause hop <;> exact .fail (by simp)

mutual

/-- Evaluation goes hand in hand as far as calls do. -/
theorem evalWith_deepens (hcall : ∀ f args, Deepens d (call f args) (call' f args)) :
    ∀ (e : Core.Expr) (env : Env), Deepens d (evalWith call e env) (evalWith call' e env)
  | .lit l, _ => by
    rw [evalWith, evalWith]
    exact .pure _
  | .var x, env => by
    rw [evalWith, evalWith]
    exact .lookup env x
  | .call callee args, env => by
    rw [evalWith, evalWith]
    exact (evalWith_deepens hcall callee env).bind fun f =>
      (evalArgs_deepens hcall args env).bind fun vs => hcall f vs
  | .lambda params variadic body, env => by
    rw [evalWith, evalWith]
    exact .newClosure _ _
  | .letIn x value body, env => by
    rw [evalWith, evalWith]
    exact (evalWith_deepens hcall value env).bind fun v =>
      (Deepens.enter _).bind fun inner => evalWith_deepens hcall body inner
  | .seq es, env => by
    rw [evalWith, evalWith]
    exact evalSeq_deepens hcall es .unit env
  | .ifElse test yes no, env => by
    rw [evalWith, evalWith]
    refine (evalWith_deepens hcall test env).bind fun v => ?_
    split
    · exact evalWith_deepens hcall yes env
    · exact evalWith_deepens hcall no env
    · exact .fail (by simp)
  | .binary op lhs rhs, env => by
    rw [evalWith, evalWith]
    exact (evalWith_deepens hcall lhs env).bind fun a =>
      (evalWith_deepens hcall rhs env).bind fun b => operate_deepens op a b
  | .dispatch bs, env => by
    rw [evalWith, evalWith]
    exact evalBranches_deepens hcall bs env
  | .fail variant, _ => by
    rw [evalWith, evalWith]
    exact .fail (by simp)
  | .error, _ => by
    rw [evalWith, evalWith]
    exact .fail (by simp)

lemma evalArgs_deepens (hcall : ∀ f args, Deepens d (call f args) (call' f args)) :
    ∀ (es : List Core.Expr) (env : Env), Deepens d (evalArgs call es env) (evalArgs call' es env)
  | [], _ => by
    rw [evalArgs, evalArgs]
    exact .pure []
  | e :: es, env => by
    rw [evalArgs, evalArgs]
    exact (evalWith_deepens hcall e env).bind fun v =>
      (evalArgs_deepens hcall es env).bind fun vs => .pure (v :: vs)

lemma evalSeq_deepens (hcall : ∀ f args, Deepens d (call f args) (call' f args)) :
    ∀ (es : List Core.Expr) (last : Value) (env : Env),
      Deepens d (evalSeq call es last env) (evalSeq call' es last env)
  | [], last, _ => by
    rw [evalSeq, evalSeq]
    exact .pure last
  | e :: es, _, env => by
    rw [evalSeq, evalSeq]
    exact (evalWith_deepens hcall e env).bind fun v => evalSeq_deepens hcall es v env

lemma evalBranches_deepens (hcall : ∀ f args, Deepens d (call f args) (call' f args)) :
    ∀ (bs : List Core.Branch) (env : Env),
      Deepens d (evalBranches call bs env) (evalBranches call' bs env)
  | [], _ => by
    rw [evalBranches, evalBranches]
    exact .fail (by simp)
  | .mk test action :: bs, env => by
    rw [evalBranches, evalBranches]
    refine (passes_deepens env test).bind fun passed => ?_
    cases passed with
    | true => exact evalWith_deepens hcall action env
    | false => exact evalBranches_deepens hcall bs env

end

end Evaluation

/-- A call under the limit `d` with `left` calls to go, and one that may go deeper. -/
theorem callAt_deepens (d d' : Nat) {left left' : Nat} (h : left ≤ left') (f : Value)
    (args : List Value) : Deepens d (callAt d left f args) (callAt d' left' f args) := by
  induction left' generalizing left f args with
  | zero =>
    obtain rfl : left = 0 := Nat.le_zero.mp h
    exact callWith_deepens (fun _ _ _ => .refused fun m => .refl m) f args
  | succ left' ih =>
    cases left with
    | zero =>
      refine callWith_deepens (fun name? env e => .refused fun m => ?_) f args
      have hdeep := evalWith_deepens (fun f args => ih (Nat.zero_le _) f args) e env
      exact (hdeep.within name? m).1
    | succ left =>
      refine callWith_deepens (fun name? env e => ?_) f args
      exact (evalWith_deepens (ih (Nat.le_of_succ_le_succ h)) e env).within name?

/-- What an answer under the limit `d` has to do with the answer under a higher one. Unless a call
was refused, both are the same and leave the same machine; and if one was, all that was printed
before is printed under the higher limit too, in front of anything else. -/
structure Raised (d : Nat) (r r' : Except Fault Value × Interpreter) : Prop where
  fitted : (∀ f, r.1 = .error f → ¬ f.IsTooDeep) → r'.1 = r.1 ∧ r'.2.machine = r.2.machine
  refused : ∀ f, r.1 = .error f → f.IsTooDeep →
    f.cause = .tooDeep d ∧ ∃ more, r'.2.output = r.2.output ++ more

lemma Run.Deepens.raised {r r' : Run Value} {i : Interpreter} {limit : Nat}
    (h : Deepens i.limit r r') : Raised i.limit (i.run r) ({ i with limit }.run r') := by
  obtain ⟨-, ⟨hrun, hfits⟩ | ⟨e, he, hcause, hmore⟩⟩ := h i.machine
  · have hresult := congrArg Prod.fst hrun
    have hmachine := congrArg Prod.snd hrun
    exact ⟨fun _ => ⟨hresult, hmachine⟩, fun f hf hdeep => (hfits f hf hdeep).elim⟩
  · refine ⟨fun hfits => (hfits e he ⟨i.limit, hcause⟩).elim, fun f hf _ => ?_⟩
    obtain rfl : e = f := Except.error.inj (he.symm.trans hf)
    exact ⟨hcause, hmore⟩

/-- A fault that comes before any call has nothing to do with the limit. -/
lemma raised_of_error (i : Interpreter) (limit : Nat) {cause : Cause}
    (h : ∀ limit, cause ≠ .tooDeep limit) :
    Raised i.limit (.error { cause }, i) (.error { cause }, { i with limit }) := by
  refine ⟨fun _ => ⟨rfl, rfl⟩, ?_⟩
  rintro f ⟨⟩ ⟨limit, hlimit⟩
  exact (h limit hlimit).elim

/-- Raising the depth limit of an interpreter never changes a run or a call that fitted, and one
that was refused has printed the beginning of what is printed under the higher limit. -/
theorem raise_limit (i : Interpreter) {limit : Nat} (h : i.limit ≤ limit) :
    Raised i.limit i.runMain { i with limit }.runMain ∧
      ∀ name args,
        Raised i.limit (i.callGlobal name args) ({ i with limit }.callGlobal name args) := by
  constructor
  · unfold Interpreter.runMain Interpreter.global?
    dsimp only
    split
    · exact (callAt_deepens i.limit limit h _ _).raised
    · exact raised_of_error i limit (by simp)
  · intro name args
    unfold Interpreter.callGlobal Interpreter.global?
    dsimp only
    split
    · exact (callAt_deepens i.limit limit h _ _).raised
    · exact raised_of_error i limit (by simp)

/-- A program that prints and then runs itself again, without end. -/
def endless : Core.Program :=
  ⟨[], [⟨"main", [], .seq [.call (.var "print") [.lit (.str "on")], .call (.var "main") []]⟩]⟩

/-- An endless run is refused under both limits, and prints more under the higher one. -/
theorem raise_limit_endless : (Interpreter.ofProgram endless 1).limit ≤ 2 ∧
    (Interpreter.ofProgram endless 1).runMain.2.output = "on\n" ∧
      (Interpreter.ofProgram endless 2).runMain.2.output = "on\non\n" ∧
        Raised 1 (Interpreter.ofProgram endless 1).runMain
          (Interpreter.ofProgram endless 2).runMain := by
  have hlimit : (Interpreter.ofProgram endless 1).limit ≤ 2 := by decide
  exact ⟨hlimit, by decide +kernel, by decide +kernel, (raise_limit _ hlimit).1⟩

end ClosedSum.Eval
