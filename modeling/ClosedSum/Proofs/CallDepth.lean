import ClosedSum.Proofs.StepCases

/-!
# Calls within the depth limit

Every job ends, whatever code it enters: the steps lead to the result that evaluation gives. On the
way the counter of calls stays within the limit, since the one step that raises it is the one that
looks at the limit. A call that finds the counter at the limit is the only source of a fault of too
deep nesting, and such a fault is never lost. Each function that a fault names is one that was
entered, so no fault names more functions than the limit has room for.
-/

namespace ClosedSum.Eval

namespace Moment

variable {limit : Nat} {a b : Moment}

/-- A call that passes its count of arguments with the counter at the limit. -/
def Refused (limit : Nat) : Moment → Prop
  | .doing (.call f args) s _ => f.Enters args.length ∧ s.depth = limit
  | _ => False

/-- The next step meets a fault, where there was none. -/
def Raises (limit : Nat) (a : Moment) (cause : Cause) : Prop :=
  a.fault? = none ∧ ∃ f, (step limit a).fault? = some f ∧ f.cause = cause

lemma fault?_eq_none_of_refused (h : a.Refused limit) : a.fault? = none := by
  cases a with
  | doing job s k => rfl
  | giving r s k => exact h.elim

lemma fault?_enterBody {s : Status} (hfull : limit ≤ s.depth) (env : LiveEnv)
    (name? : Option String) (body : Core.Expr) (k : List Pending) :
    (s.enterBody limit env name? body k).fault? = some { cause := .tooDeep limit } := by
  rw [Status.enterBody, if_pos hfull]
  rfl

lemma fault?_stepCall {s : Status} (hfull : limit ≤ s.depth) {f : Value} {args : List Value}
    (henters : f.Enters args.length) (k : List Pending) :
    (stepCall limit f args s k).fault? = some { cause := .tooDeep limit } := by
  unfold Value.Enters at henters
  unfold stepCall
  split at henters
  · simp only [if_pos henters]
    apply fault?_enterBody
    exact hfull
  · simp only [if_pos henters]
    apply fault?_enterBody
    exact hfull
  · exact henters.elim

lemma step_of_refused (h : a.Refused limit) :
    (step limit a).fault? = some { cause := .tooDeep limit } := by
  unfold Refused at h
  split at h
  · exact fault?_stepCall (Nat.le_of_eq h.2.symm) h.1 _
  · exact h.elim

/-- Only a refused call meets the limit. -/
lemma StepCase.refused (h : StepCase limit a b) (hdepth : a.status.depth ≤ limit)
    (hnone : a.fault? = none) {f : Fault} (hf : b.fault? = some f) (hdeep : f.IsTooDeep) :
    f.cause = .tooDeep limit ∧ a.Refused limit := by
  cases h with
  | ordinary h =>
    obtain hbefore | ⟨-, -, hother⟩ := h.fault f hf
    · rw [hnone] at hbefore
      cases hbefore
    · exact absurd hdeep hother
  | refuses henters hfull =>
    cases hf
    exact ⟨rfl, henters, Nat.le_antisymm hdepth hfull⟩
  | enters henters hroom => cases hf
  | leaves r s saved name? k =>
    cases r with
    | ok v => cases hf
    | error g => cases hnone

theorem raises_tooDeep_iff (ha : a.status.depth ≤ limit) (l : Nat) :
    a.Raises limit (.tooDeep l) ↔ l = limit ∧ a.Refused limit := by
  constructor
  · rintro ⟨hnone, f, hf, hcause⟩
    obtain ⟨hlimit, hrefused⟩ := (step_case limit a).refused ha hnone hf ⟨l, hcause⟩
    rw [hcause] at hlimit
    exact ⟨Cause.tooDeep.inj hlimit, hrefused⟩
  · rintro ⟨rfl, hrefused⟩
    exact ⟨fault?_eq_none_of_refused hrefused, _, step_of_refused hrefused, rfl⟩

/-- The counter is raised only below the limit. -/
lemma StepCase.depth_le (h : StepCase limit a b) (ha : a.status.depth ≤ limit) :
    b.status.depth ≤ limit := by
  cases h with
  | ordinary h =>
    rw [h.depth]
    exact ha
  | refuses henters hfull => exact ha
  | enters henters hroom => exact hroom
  | leaves r s saved name? k => exact Nat.le_trans (Nat.sub_le _ _) ha

lemma depth_le (ha : a.status.depth ≤ limit) (n : Nat) :
    ((step limit)^[n] a).status.depth ≤ limit := by
  refine Function.Iterate.rec (fun b : Moment => b.status.depth ≤ limit) ha ?_ n
  intro b hb
  exact (step_case limit b).depth_le hb

/-- The counter counts the calls that are open, and a fault names functions that were left. -/
structure Accounted (limit : Nat) (a : Moment) : Prop where
  depth : a.status.depth ≤ limit
  openCalls : a.openCalls.length ≤ a.status.depth
  frames : ∀ f, a.fault? = some f → f.frames.length + a.status.depth ≤ limit

lemma StepCase.accounted (h : StepCase limit a b) (ha : a.Accounted limit) :
    b.Accounted limit := by
  obtain ⟨hdepth, hopen, hframes⟩ := ha
  have hdepth' := h.depth_le hdepth
  cases h with
  | ordinary h =>
    refine ⟨hdepth', ?_, ?_⟩
    · rw [h.openCalls, h.depth]
      exact hopen
    · intro f hf
      rw [h.depth]
      obtain hbefore | ⟨-, hnew, -⟩ := h.fault f hf
      · exact hframes f hbefore
      · rw [hnew, List.length_nil, Nat.zero_add]
        exact hdepth
  | refuses henters hfull =>
    refine ⟨hdepth', hopen, ?_⟩
    rintro f ⟨⟩
    rw [List.length_nil, Nat.zero_add]
    exact hdepth
  | enters henters hroom => exact ⟨hdepth', Nat.succ_le_succ hopen, nofun⟩
  | leaves r s saved name? k =>
    have hcount : (k.filter (·.isCall)).length + 1 ≤ s.depth := hopen
    refine ⟨hdepth', Nat.le_sub_one_of_lt hcount, ?_⟩
    intro f hf
    cases r with
    | ok v => cases hf
    | error g =>
      have hg := hframes g rfl
      cases hf
      -- The function that is named is the one whose call is counted down.
      have hname : (name?.elim g g.leaving).frames.length ≤ g.frames.length + 1 := by
        cases name? with
        | none => exact Nat.le_succ _
        | some name => simp [Fault.leaving]
      simp only [status, Status.leaveCall] at hg ⊢
      omega

lemma Accounted.iterate (ha : a.Accounted limit) (n : Nat) :
    ((step limit)^[n] a).Accounted limit := by
  refine Function.Iterate.rec (Accounted limit) ha ?_ n
  intro b hb
  exact (step_case limit b).accounted hb

/-- A fault stays, for the same cause. -/
lemma fault?_step {f : Fault} (hf : a.fault? = some f) (limit : Nat) :
    ∃ f', (step limit a).fault? = some f' ∧ f'.cause = f.cause := by
  match a with
  | .giving (.error g) s k =>
    cases hf
    cases k with
    | nil => exact ⟨f, rfl, rfl⟩
    | cons p k =>
      refine ⟨p.mark f, rfl, ?_⟩
      cases p with
      | leaveCall saved name? => cases name? <;> rfl
      | _ => rfl

lemma fault?_iterate {f : Fault} (hf : a.fault? = some f) (limit n : Nat) :
    ∃ f', ((step limit)^[n] a).fault? = some f' ∧ f'.cause = f.cause := by
  refine Function.Iterate.rec (fun b : Moment => ∃ f', b.fault? = some f' ∧ f'.cause = f.cause)
    ⟨f, hf, rfl⟩ ?_ n
  rintro b ⟨g, hg, hcause⟩
  obtain ⟨f', hf', hcause'⟩ := fault?_step hg limit
  exact ⟨f', hf', hcause'.trans hcause⟩

/-- A fault of the limit comes from a call that was refused before. -/
lemma refused_of_tooDeep (hdepth : a.status.depth ≤ limit) (hnone : a.fault? = none) (n : Nat)
    {f : Fault} (hf : ((step limit)^[n] a).fault? = some f) (hdeep : f.IsTooDeep) :
    f.cause = .tooDeep limit ∧ ∃ m, ((step limit)^[m] a).Refused limit := by
  induction n generalizing f with
  | zero =>
    rw [Function.iterate_zero_apply, hnone] at hf
    cases hf
  | succ n ih =>
    rw [Function.iterate_succ_apply'] at hf
    cases hbefore : ((step limit)^[n] a).fault? with
    | none =>
      obtain ⟨hcause, hm⟩ :=
        (step_case limit _).refused (depth_le hdepth n) hbefore hf hdeep
      exact ⟨hcause, n, hm⟩
    | some g =>
      obtain ⟨f', hf', hcause⟩ := fault?_step hbefore limit
      rw [hf] at hf'
      cases hf'
      obtain ⟨l, hl⟩ := hdeep
      obtain ⟨hlimit, hm⟩ := ih hbefore ⟨l, hcause.symm.trans hl⟩
      exact ⟨hcause.trans hlimit, hm⟩

end Moment

section Jobs

variable {limit : Nat} (j : Job) (s : Status)

/-- With nothing that waits for it, a result stays. -/
lemma iterate_result (limit : Nat) (r : Except Fault Value) (n : Nat) :
    (step limit)^[n] (.giving r s []) = .giving r s [] := by
  induction n with
  | zero => rfl
  | succ n ih => exact ih

/-- The fault of a job names no more functions than there is room for above its depth. -/
lemma Job.frames_le (hs : s.depth ≤ limit) {f : Fault}
    (hf : (j.run limit s s.machine).1 = .error f) : f.frames.length + s.depth ≤ limit := by
  obtain ⟨n, hn⟩ := j.leads limit s []
  have hstart : Moment.Accounted limit (.doing j s []) := ⟨hs, Nat.zero_le _, nofun⟩
  have hend := hstart.iterate n
  rw [hn] at hend
  refine hend.frames f ?_
  unfold Status.after
  rw [hf]
  rfl

/-- A job meets the limit just if some call is refused on the way. -/
lemma Job.tooDeep_iff (hs : s.depth ≤ limit) (l : Nat) :
    (∃ f, (j.run limit s s.machine).1 = .error f ∧ f.cause = .tooDeep l) ↔
      l = limit ∧ ∃ n, ((step limit)^[n] (.doing j s [])).Refused limit := by
  obtain ⟨n, hn⟩ := j.leads limit s []
  have hresult : ∀ f, (s.after (j.run limit s) []).fault? = some f ↔
      (j.run limit s s.machine).1 = .error f := by
    intro f
    unfold Status.after
    generalize (j.run limit s s.machine).1 = r
    cases r <;> simp [Moment.fault?]
  constructor
  · rintro ⟨f, hf, hcause⟩
    rw [← hresult, ← hn] at hf
    obtain ⟨hlimit, hm⟩ := Moment.refused_of_tooDeep hs rfl n hf ⟨l, hcause⟩
    rw [hcause] at hlimit
    exact ⟨Cause.tooDeep.inj hlimit, hm⟩
  · rintro ⟨rfl, m, hm⟩
    -- The refused call is followed by its fault, and both runs end in the same result.
    obtain ⟨f, hf, hcause⟩ := Moment.fault?_iterate (Moment.step_of_refused hm) l n
    rw [← Function.iterate_succ_apply' (step l), ← Function.iterate_add_apply,
      Nat.add_comm, Function.iterate_add_apply, hn] at hf
    unfold Status.after at hf
    rw [iterate_result] at hf
    exact ⟨f, (hresult f).mp hf, hcause⟩

end Jobs

namespace Interpreter

/-- Outside of all calls, the steps of a job come to an answer. -/
def Answers (i : Interpreter) (j : Job) (answer : Except Fault Value × Interpreter) : Prop :=
  Leads i.limit (.doing j i.status []) (.giving answer.1 answer.2.status [])

/-- What an interpreter is asked for comes from the steps of a job, or from no job at all. -/
structure Ends (i : Interpreter) : Prop where
  eval : ∀ e, i.Answers (.eval e) (i.eval e)
  call : ∀ f args, i.Answers (.call f args) (i.call f args)
  callGlobal : ∀ name args, match i.global? name with
    | some f => i.Answers (.call f args) (i.callGlobal name args)
    | none => i.callGlobal name args = (.error { cause := .undefined name }, i)
  runMain : match i.global? "main" with
    | some (.callable (.function f)) => i.Answers (.call (.callable (.function f)) []) i.runMain
    | _ => i.runMain = (.error { cause := .noMain }, i)

lemma answers_eval (i : Interpreter) (e : Core.Expr) : i.Answers (.eval e) (i.eval e) :=
  Job.leads i.limit (.eval e) i.status []

lemma answers_call (i : Interpreter) (f : Value) (args : List Value) :
    i.Answers (.call f args) (i.call f args) :=
  Job.leads i.limit (.call f args) i.status []

lemma ends (i : Interpreter) : i.Ends := by
  refine ⟨i.answers_eval, i.answers_call, ?_, ?_⟩
  · intro name args
    unfold callGlobal
    cases i.global? name with
    | none => rfl
    | some f => exact i.answers_call f args
  · unfold runMain
    generalize i.global? "main" = main
    split
    · exact i.answers_call _ []
    · next hmain =>
      split
      · exact (hmain _ rfl).elim
      · rfl

lemma frames_call_le (i : Interpreter) (callee : Value) (args : List Value) {f : Fault}
    (hf : (i.call callee args).1 = .error f) : f.frames.length ≤ i.limit :=
  Job.frames_le (.call callee args) i.status (Nat.zero_le _) hf

lemma frames_callGlobal_le (i : Interpreter) (name : String) (args : List Value) {f : Fault}
    (hf : (i.callGlobal name args).1 = .error f) : f.frames.length ≤ i.limit := by
  unfold callGlobal at hf
  cases hglobal : i.global? name with
  | none =>
    rw [hglobal] at hf
    cases hf
    exact Nat.zero_le _
  | some callee =>
    rw [hglobal] at hf
    exact i.frames_call_le callee args hf

end Interpreter

/-- Every job ends with the counter of calls within the limit all the way. Too deep nesting is met
by just the calls that pass their count of arguments at the limit, and it ends the job. -/
theorem Job.within_limit (limit : Nat) (j : Job) (s : Status) (k : List Pending)
    (hs : s.depth ≤ limit) :
    Leads limit (.doing j s k) (s.after (j.run limit s) k) ∧
    (∀ n, ((step limit)^[n] (.doing j s k)).status.depth ≤ limit) ∧
    (∀ n l, ((step limit)^[n] (.doing j s k)).Raises limit (.tooDeep l) ↔
      l = limit ∧ ((step limit)^[n] (.doing j s k)).Refused limit) ∧
    (∀ l, (∃ f, (j.run limit s s.machine).1 = .error f ∧ f.cause = .tooDeep l) ↔
      l = limit ∧ ∃ n, ((step limit)^[n] (.doing j s [])).Refused limit) ∧
    (∀ f, (j.run limit s s.machine).1 = .error f → f.frames.length + s.depth ≤ limit) ∧
    ∀ i : Interpreter, i.Ends ∧ ∀ name args f, (i.callGlobal name args).1 = .error f →
      f.frames.length ≤ i.limit := by
  refine ⟨j.leads limit s k, Moment.depth_le hs, ?_, j.tooDeep_iff s hs, ?_, ?_⟩
  · intro n l
    exact Moment.raises_tooDeep_iff (Moment.depth_le hs n) l
  · intro f hf
    exact j.frames_le s hs hf
  · intro i
    exact ⟨i.ends, fun name args f hf => i.frames_callGlobal_le name args hf⟩

/-- An endless program is stopped in its second call, which is refused. -/
theorem Job.within_limit_endless :
    (Interpreter.ofProgram endless 1).status.depth ≤ 1 ∧
    ((Job.eval (.call (.var "main") [])).run 1 (Interpreter.ofProgram endless 1).status
      (Interpreter.ofProgram endless 1).machine).1 = .error ⟨.tooDeep 1, ["main"]⟩ ∧
    ∃ n, ((step 1)^[n] (.doing (.eval (.call (.var "main") []))
      (Interpreter.ofProgram endless 1).status [])).Refused 1 := by
  have hrun : ((Job.eval (.call (.var "main") [])).run 1 (Interpreter.ofProgram endless 1).status
      (Interpreter.ofProgram endless 1).machine).1 = .error ⟨.tooDeep 1, ["main"]⟩ := by
    with_unfolding_all rfl
  have hs : (Interpreter.ofProgram endless 1).status.depth ≤ 1 := Nat.zero_le 1
  obtain ⟨-, -, -, hlimit, -⟩ := Job.within_limit 1 (.eval (.call (.var "main") [])) _ [] hs
  exact ⟨hs, hrun, ((hlimit 1).mp ⟨_, hrun, rfl⟩).2⟩

end ClosedSum.Eval
