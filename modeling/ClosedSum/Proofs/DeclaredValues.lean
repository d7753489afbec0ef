import ClosedSum.Proofs.Discipline
import ClosedSum.Proofs.Restoring

/-!
# Values of declared cases

A variant value comes into being in one way only, by a call of a constructor with as many arguments
as its case has fields. So whatever is asked of an interpreter, in whatever order, each variant
value in its scopes, in its hands and among what waits is a value of a declared case. This is a
discipline that asks nothing of the code, and the steps keep it.
-/

namespace ClosedSum.Eval

variable {D : Discipline} {m m' : Machine} {s : Status} {k : List Pending}

def Job.Fits (D : Discipline) (m : Machine) : Job → Prop
  | .eval _ => True
  | .call callee args => D.Fits m callee ∧ ∀ v ∈ args, D.Fits m v

def Pending.values : Pending → List Value
  | .argument f done _ => f :: done
  | .operate _ left => [left]
  | _ => []

namespace Moment

variable {a : Moment} {limit : Nat}

/-- What waits keeps to a discipline. -/
def Waits (D : Discipline) (m : Machine) (k : List Pending) : Prop :=
  ∀ p ∈ k, ∀ v ∈ p.values, D.Fits m v

/-- A moment on a machine that has grown, with values that keep to a discipline. -/
structure Fits (D : Discipline) (m : Machine) (a : Moment) : Prop where
  grows : m.Grows a.status.machine
  holds : D.Holds a.status.machine
  waits : Waits D a.status.machine a.pending
  job : ∀ j s k, a = .doing j s k → j.Fits D s.machine
  result : ∀ v s k, a = .giving (.ok v) s k → D.Fits s.machine v

lemma Waits.grow (hgrow : m.Grows m') (hk : Waits D m k) : Waits D m' k :=
  fun p hp v hv => (hk p hp v hv).grow hgrow

lemma Waits.cons {p : Pending} (hp : ∀ v ∈ p.values, D.Fits m v) (hk : Waits D m k) :
    Waits D m (p :: k) :=
  List.forall_mem_cons.mpr ⟨hp, hk⟩

namespace Fits

lemma doing {j : Job} (hgrow : m.Grows s.machine) (hm : D.Holds s.machine)
    (hj : j.Fits D s.machine) (hk : Waits D m k) : Fits D m (.doing j s k) := by
  refine ⟨hgrow, hm, hk.grow hgrow, ?_, nofun⟩
  rintro j s k ⟨⟩
  exact hj

lemma giving {r : Except Fault Value} (hgrow : m.Grows s.machine) (hm : D.Holds s.machine)
    (hr : ∀ v, r = .ok v → D.Fits s.machine v) (hk : Waits D m k) :
    Fits D m (.giving r s k) := by
  refine ⟨hgrow, hm, hk.grow hgrow, nofun, ?_⟩
  rintro v s k ⟨⟩
  exact hr v rfl

lemma after {r : Run Value} (hr : D.Yields D.Fits s.machine (r s.machine))
    (hk : Waits D s.machine k) : Fits D s.machine (s.after r k) := by
  obtain ⟨hgrow, hholds, hresult⟩ := hr
  refine giving hgrow hholds (fun v hv => ?_) hk
  rw [hv] at hresult
  exact hresult

lemma turn (hm : D.Holds s.machine) (e : Core.Expr) (hk : Waits D s.machine k) :
    Fits D s.machine (.doing (.eval e) s k) :=
  doing (.refl _) hm trivial hk

lemma nextArgument {f : Value} {done : List Value} (hm : D.Holds s.machine)
    (hf : D.Fits s.machine f) (hdone : ∀ v ∈ done, D.Fits s.machine v) (hk : Waits D s.machine k)
    (es : List Core.Expr) : Fits D s.machine (nextArgument f done es s k) := by
  cases es with
  | nil => exact doing (.refl _) hm ⟨hf, hdone⟩ hk
  | cons e es => exact turn hm e (.cons (List.forall_mem_cons.mpr ⟨hf, hdone⟩) hk)

end Fits

section Steps

variable (hlax : ¬ D.strict) (hm : D.Holds s.machine) (hk : Waits D s.machine k)

include hlax hm hk in
lemma fits_fail (cause : Cause) : Fits D s.machine (s.after (Run.fail cause) k) :=
  .after (hm.error fun h => absurd h hlax) hk

include hlax hm hk in
/-- Looking at code gives no value but a literal, one that is bound, or a new closure. -/
lemma fits_stepEval (hs : s.Placed) (e : Core.Expr) : Fits D s.machine (stepEval e s k) := by
  cases e with
  | lit l => exact .after (hm.ok (by cases l <;> constructor)) hk
  | var x => exact .after (hm.lookup s.env.1 x) hk
  | call f args => exact .turn hm f (.cons (List.forall_mem_nil _) hk)
  | lambda ps variadic body =>
    have hcode : D.Code (.lambda ps variadic body) :=
      Core.Expr.every_of_forall (fun _ h => absurd h hlax) _
    have hcalls : D.Calls fun _ _ => Run.fail .noMain := fun m _ _ h _ _ =>
      h.error fun h => absurd h hlax
    exact .after (Discipline.evalWith_yields hcalls hcode s.machine s.env.1 hm hs.current_lt) hk
  | letIn x value body => exact .turn hm value (.cons (List.forall_mem_nil _) hk)
  | seq es =>
    refine .giving (.refl _) hm ?_ (.cons (List.forall_mem_nil _) hk)
    rintro v ⟨⟩
    exact .unit
  | ifElse test yes no => exact .turn hm test (.cons (List.forall_mem_nil _) hk)
  | binary op lhs rhs => exact .turn hm lhs (.cons (List.forall_mem_nil _) hk)
  | dispatch bs =>
    cases bs with
    | nil => exact fits_fail hlax hm hk _
    | cons b bs =>
      obtain ⟨test, action⟩ := b
      simp only [stepEval]
      split
      · exact .turn hm action hk
      · exact .turn hm _ hk
      · exact .giving (.refl _) hm (fun _ h => by cases h) hk
  | fail variant => exact fits_fail hlax hm hk _
  | error => exact fits_fail hlax hm hk _

include hlax hm hk in
lemma fits_resume {v : Value} (hv : D.Fits s.machine v) (hs : s.Placed) {p : Pending}
    (hp : ∀ v ∈ p.values, D.Fits s.machine v) : Fits D s.machine (resume v p s k) := by
  have hgives : ∀ w, (.ok v : Except Fault Value) = .ok w → D.Fits s.machine w := by
    rintro w ⟨⟩
    exact hv
  cases p with
  | callee args => exact .nextArgument hm hv (List.forall_mem_nil _) hk args
  | argument f done rest =>
    obtain ⟨hf, hdone⟩ := List.forall_mem_cons.mp hp
    refine .nextArgument hm hf ?_ hk rest
    exact List.forall_mem_append.mpr ⟨hdone, List.forall_mem_singleton.mpr hv⟩
  | bind x body =>
    obtain ⟨hmachine, -⟩ := Status.define_pushScope s x v
    have hbinding : ∀ b ∈ [(x, v)], D.Fits s.machine b.2 := List.forall_mem_singleton.mpr hv
    obtain ⟨hgrow, hholds⟩ := hm.push hs.current_lt hbinding
    have hpushed : (s.pushScope.define x v).machine =
      { s.machine with store := (s.machine.store.push s.env.1.current [(x, v)]).2 } := hmachine
    rw [← hpushed] at hgrow hholds
    exact .doing hgrow hholds trivial (.cons (List.forall_mem_nil _) hk)
  | leaveScope => exact .giving (.refl _) hm hgives hk
  | leaveCall saved name? => exact .giving (.refl _) hm hgives hk
  | seq es =>
    cases es with
    | nil => exact .giving (.refl _) hm hgives hk
    | cons e es => exact .turn hm e (.cons (List.forall_mem_nil _) hk)
  | choose yes no =>
    cases v with
    | bool b =>
      cases b with
      | true => exact .turn hm yes hk
      | false => exact .turn hm no hk
    | _ => exact fits_fail hlax hm hk _
  | right op rhs => exact .turn hm rhs (.cons (List.forall_mem_singleton.mpr hv) hk)
  | operate op left =>
    refine .after ?_ hk
    rw [Run.ofExcept_apply]
    cases hop : operate op left v with
    | ok w => exact hm.ok (Discipline.fits_of_isPlain (operate_isPlain hop))
    | error cause => exact hm.error fun h => absurd h hlax

include hm hk in
lemma fits_enterBody {scope : Nat} (hscope : scope < s.machine.store.size)
    {bindings : List (String × Value)} (hbindings : ∀ b ∈ bindings, D.Fits s.machine b.2)
    (limit : Nat) (name? : Option String) (body : Core.Expr) :
    Fits D s.machine ((s.extend scope bindings).2.enterBody limit (s.extend scope bindings).1 name?
      body k) := by
  have hreversed : ∀ b ∈ bindings.reverse, D.Fits s.machine b.2 := fun b hb =>
    hbindings b (List.mem_reverse.mp hb)
  obtain ⟨hgrow, hholds⟩ := hm.push hscope hreversed
  rw [Status.extend_eq]
  unfold Status.enterBody
  split
  · exact .giving hgrow hholds nofun hk
  · exact .doing hgrow hholds trivial (.cons (List.forall_mem_nil _) hk)

include hlax hm hk in
/-- Of all callees, a constructor alone gives a new variant value. -/
lemma fits_stepCall {f : Value} {args : List Value} (hf : D.Fits s.machine f)
    (hargs : ∀ v ∈ args, D.Fits s.machine v) (limit : Nat) :
    Fits D s.machine (stepCall limit f args s k) := by
  have hbindings : ∀ params : List String, ∀ b ∈ params.zip args, D.Fits s.machine b.2 :=
    fun params b hb => hargs b.2 (List.of_mem_zip hb).2
  have hsimple : Fits D s.machine
      (s.after (callWith (fun _ _ _ => Run.fail .uncompiled) f args) k) :=
    .after (Discipline.callWith_calls (fun m _ _ _ h _ _ => h.error fun h => absurd h hlax)
      s.machine f args hm hf hargs) hk
  cases f with
  | callable f =>
    cases f with
    | closure n f scope =>
      obtain ⟨-, hscope, -⟩ : D.Allows s.machine.store.size s.machine.closures
        (.closure n f scope) := by cases hf; assumption
      simp only [stepCall]
      split
      · exact fits_enterBody hm hk hscope (hbindings _) limit none f.body
      · exact fits_fail hlax hm hk _
    | function f =>
      simp only [stepCall]
      split
      · exact fits_enterBody hm hk hm.global_lt (hbindings _) limit f.name f.body
      · exact fits_fail hlax hm hk _
    | _ => exact hsimple
  | _ => exact hsimple

end Steps

/-- A step keeps to a discipline that asks nothing of code. -/
theorem Fits.step (hlax : ¬ D.strict) (hplaced : a.Placed) (h : a.Fits D m) (limit : Nat) :
    (step limit a).Fits D a.status.machine := by
  obtain ⟨-, hm, hk, hjob, hresult⟩ := h
  have hs := hplaced.current
  match a with
  | .doing (.eval e) s k => exact fits_stepEval hlax hm hk hs e
  | .doing (.call f args) s k =>
    obtain ⟨hf, hargs⟩ := hjob _ s k rfl
    exact fits_stepCall hlax hm hk hf hargs limit
  | .giving r s [] => exact .giving (.refl _) hm (fun v hr => hresult v s [] (by rw [hr])) hk
  | .giving (.ok v) s (p :: k) =>
    obtain ⟨hp, hk⟩ := List.forall_mem_cons.mp hk
    exact fits_resume hlax hm hk (hresult v s _ rfl) hs hp
  | .giving (.error f) s (p :: k) =>
    obtain ⟨-, hk⟩ := List.forall_mem_cons.mp hk
    have hmachine : (p.leave s).machine = s.machine := by cases p <;> rfl
    have hgives : Fits D s.machine (.giving (.error (p.mark f)) (p.leave s) k) := by
      refine .giving ?_ ?_ nofun hk <;> rw [hmachine]
      exacts [.refl _, hm]
    exact hgives

end Moment

/-- What may be asked of an interpreter: code to evaluate, or a call. The values that are handed in
are plain, are bound globally or came out before. -/
def Job.Open (s : Status) (vs : List Value) : Job → Prop
  | .eval _ => True
  | .call f args => ∀ v ∈ f :: args,
    v.IsPlain ∨ v ∈ vs ∨ ∃ x, s.machine.store.lookup? Store.global x = some v

/-- The moments of an interpreter of a program, with the values that came out of it before. One job
is asked after the other, whatever the result of those before it, and the output may be taken away
in between. -/
inductive Arises (p : Core.Program) (limit : Nat) : List Value → Moment → Prop
  | first {j : Job} (hj : j.Open (Interpreter.ofProgram p limit).status []) :
    Arises p limit [] (.doing j (Interpreter.ofProgram p limit).status [])
  | step {vs : List Value} {a : Moment} (h : Arises p limit vs a) :
    Arises p limit vs (Eval.step limit a)
  | ask {vs : List Value} {r : Except Fault Value} {s : Status} {j : Job}
    (h : Arises p limit vs (.giving r s [])) (hj : j.Open s (r.toOption.toList ++ vs)) :
    Arises p limit (r.toOption.toList ++ vs) (.doing j s [])
  | drain {vs : List Value} {r : Except Fault Value} {s : Status}
    (h : Arises p limit vs (.giving r s [])) :
    Arises p limit vs (.giving r { s with machine := { s.machine with output := "" } } [])

namespace Arises

variable {p : Core.Program} {limit : Nat} {vs : List Value} {a : Moment}

lemma keeps (h : Arises p limit vs a) :
    (Interpreter.ofProgram p limit).machine.store.Keeps a.status.machine.store := by
  induction h with
  | first hj => exact .refl _
  | step h ih => exact ih.trans (Moment.step_case limit _).keeps
  | ask h hj ih => exact ih
  | drain h ih => exact ih

lemma placed (h : Arises p limit vs a) : a.Placed := by
  induction h with
  | @first j hj => exact Moment.placed_ofProgram p limit j
  | step h ih => exact (Moment.step_case limit _).placed ih
  | ask h hj ih => exact ⟨ih.current, ih.saved⟩
  | drain h ih => exact ⟨ih.current, ih.saved⟩

/-- Whatever is asked, values keep to a discipline by which the program starts. -/
theorem fits (hlax : ¬ D.strict) (hstart : D.Holds (Interpreter.ofProgram p limit).machine)
    (h : Arises p limit vs a) :
    a.Fits D a.status.machine ∧ ∀ v ∈ vs, D.Fits a.status.machine v := by
  -- what is handed in is plain, was bound globally or came out
  have hopen : ∀ {s : Status} {vs : List Value} {j : Job}, D.Holds s.machine →
      (∀ v ∈ vs, D.Fits s.machine v) → j.Open s vs → j.Fits D s.machine := by
    intro s vs j hm hvs hj
    cases j with
    | eval e => trivial
    | call f args =>
      refine List.forall_mem_cons.mp fun v hv => ?_
      obtain hplain | hv | ⟨x, hx⟩ := hj v hv
      · exact Discipline.fits_of_isPlain hplain
      · exact hvs v hv
      · exact hm.fits _ x v hx
  induction h with
  | first hj =>
    refine ⟨.doing (.refl _) hstart (hopen hstart ?_ hj) ?_, ?_⟩ <;> exact List.forall_mem_nil _
  | step h ih =>
    obtain ⟨hfits, hvs⟩ := ih
    have hstep := hfits.step hlax h.placed limit
    exact ⟨⟨.refl _, hstep.holds, hstep.waits, hstep.job, hstep.result⟩,
      fun v hv => (hvs v hv).grow hstep.grows⟩
  | @ask vs r s j h hj ih =>
    obtain ⟨⟨-, hm, hk, -, hresult⟩, hvs⟩ := ih
    have hall : ∀ v ∈ r.toOption.toList ++ vs, D.Fits s.machine v := by
      refine List.forall_mem_append.mpr ⟨fun v hv => hresult v s [] ?_, hvs⟩
      cases r with
      | error f => cases hv
      | ok w => rw [List.mem_singleton.mp hv]
    exact ⟨.doing (.refl _) hm (hopen hm hall hj) hk, hall⟩
  | @drain vs r s h ih =>
    obtain ⟨⟨-, hm, hk, -, hresult⟩, hvs⟩ := ih
    exact ⟨.giving (.refl _) ⟨hm.global_lt, hm.fits⟩
      (fun v hr => hresult v s [] (by rw [hr])) hk, hvs⟩

end Arises

end ClosedSum.Eval
