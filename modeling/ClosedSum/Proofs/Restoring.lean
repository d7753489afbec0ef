import ClosedSum.Proofs.StepCases

/-!
# What evaluation leaves behind

Scopes are shared by the environments and closures that know them, and a run pushes scopes, binds
names in them and swaps environments while jobs may fail at any step. No step touches a scope that
was there when the run began, since names are bound only in a scope that was pushed for them. Nor
does a step take back what was printed. A job that ends, be it with a value or a fault, ends in the
environment and at the depth where it began.
-/

namespace ClosedSum.Eval

/-- A store has the scopes of an environment. -/
def Store.Knows (s : Store) (env : Env) : Prop := ∀ i ∈ env.scopes, i < s.size

lemma Store.Knows.mono {s s' : Store} {env : Env} (h : s.Knows env) (hkeeps : s.Keeps s') :
    s'.Knows env :=
  fun i hi => Nat.lt_of_lt_of_le (h i hi) hkeeps.size_le

/-- The store has the scopes of the environment, as it has in every run of a program. -/
def Status.Placed (s : Status) : Prop := s.machine.store.Knows s.env.1

lemma Env.current_mem {env : Env} (h : env.scopes ≠ []) : env.current ∈ env.scopes := by
  obtain ⟨scopes⟩ := env
  cases scopes with
  | nil => exact absurd rfl h
  | cons i scopes => exact List.mem_cons_self ..

lemma Status.Placed.current_lt {s : Status} (h : s.Placed) :
    s.env.1.current < s.machine.store.size :=
  h _ (Env.current_mem s.env.2)

namespace Moment

variable {limit : Nat} {a b : Moment}

/-- A callee with a body prints nothing when it is called. -/
lemma printed_of_enters {f : Value} {args : List Value} (h : f.Enters args.length) :
    f.printed args = "" := by
  unfold Value.Enters at h
  split at h
  · rfl
  · rfl
  · exact h.elim

lemma keeps_extend (s : Status) (scope : Nat) (bindings : List (String × Value)) :
    s.machine.store.Keeps (s.extend scope bindings).2.machine.store := by
  rw [Status.extend_eq]
  exact .push _ _ _

lemma StepCase.keeps (h : StepCase limit a b) :
    a.status.machine.store.Keeps b.status.machine.store := by
  cases h with
  | ordinary h => exact h.store
  | refuses henters hfull scope bindings => exact keeps_extend _ scope bindings
  | enters henters hroom scope bindings name? body => exact keeps_extend _ scope bindings
  | leaves r s saved name? k => exact .refl _

lemma StepCase.output (h : StepCase limit a b) :
    b.status.machine.output = a.status.machine.output ++ a.line := by
  cases h with
  | ordinary h => exact h.output
  | refuses henters hfull =>
    rw [line, printed_of_enters henters, String.append_empty]
    rfl
  | enters henters hroom =>
    rw [line, printed_of_enters henters, String.append_empty]
    rfl
  | leaves r s saved name? k => exact String.append_empty.symm

lemma keeps (limit : Nat) (a : Moment) (n : Nat) :
    a.status.machine.store.Keeps ((step limit)^[n] a).status.machine.store := by
  refine Function.Iterate.rec
    (fun b : Moment => a.status.machine.store.Keeps b.status.machine.store) (.refl _) ?_ n
  intro b hb
  exact hb.trans (step_case limit b).keeps

/-- The store has the scopes of the code that runs and of those that wait for it. -/
structure Placed (a : Moment) : Prop where
  current : a.status.Placed
  saved : ∀ env name?, .leaveCall env name? ∈ a.openCalls → a.status.machine.store.Knows env.1

lemma StepCase.placed (h : StepCase limit a b) (ha : a.Placed) : b.Placed := by
  have hkeeps := h.keeps
  obtain ⟨hcurrent, hsaved⟩ := ha
  cases h with
  | ordinary h =>
    refine ⟨?_, ?_⟩
    · intro i hi
      obtain hold | hnew := h.scopes i hi
      · exact Nat.lt_of_lt_of_le (hcurrent i hold) hkeeps.size_le
      · exact hnew
    · intro env name? hmem
      rw [h.openCalls] at hmem
      exact (hsaved env name? hmem).mono hkeeps
  | refuses henters hfull scope bindings =>
    exact ⟨Store.Knows.mono hcurrent hkeeps,
      fun env name? hmem => (hsaved env name? hmem).mono hkeeps⟩
  | enters henters hroom scope bindings name? body =>
    refine ⟨?_, ?_⟩
    · rw [Status.extend_eq]
      intro i hi
      obtain rfl := List.mem_singleton.mp hi
      simp [status]
    · intro env name? hmem
      obtain heq | hmem := List.mem_cons.mp hmem
      · cases heq
        exact Store.Knows.mono hcurrent hkeeps
      · exact (hsaved env name? hmem).mono hkeeps
  | leaves r s saved name? k =>
    exact ⟨hsaved saved name? (List.mem_cons_self ..),
      fun env name? hmem => hsaved env name? (List.mem_cons_of_mem _ hmem)⟩

/-- Environments have only scopes that are there, all the way. -/
theorem Placed.iterate (limit : Nat) (ha : a.Placed) (n : Nat) : ((step limit)^[n] a).Placed := by
  refine Function.Iterate.rec Placed ha ?_ n
  intro b hb
  exact (step_case limit b).placed hb

/-- A program starts in the scope of its globals, which is there. -/
lemma placed_ofProgram (p : Core.Program) (limit : Nat) (j : Job) :
    Placed (.doing j (Interpreter.ofProgram p limit).status []) := by
  refine ⟨?_, nofun⟩
  intro i hi
  obtain rfl := List.mem_singleton.mp hi
  exact Nat.zero_lt_one

/-- The text that the first steps of a run print. -/
def printed (limit : Nat) (a : Moment) : Nat → String
  | 0 => ""
  | n + 1 => a.printed limit n ++ ((step limit)^[n] a).line

lemma output (limit : Nat) (a : Moment) (n : Nat) :
    ((step limit)^[n] a).status.machine.output =
      a.status.machine.output ++ a.printed limit n := by
  induction n with
  | zero => exact String.append_empty.symm
  | succ n ih =>
    rw [Function.iterate_succ_apply', (step_case limit _).output, ih, printed,
      String.append_assoc]

end Moment

/-- A job comes to the result of evaluation in the environment and at the depth where it began. The
scopes that were there have the bindings that they had, and the output is what it was and then what
the steps printed. -/
theorem Job.restores (limit : Nat) (j : Job) (s : Status) (k : List Pending) :
    ∃ n s', (step limit)^[n] (.doing j s k) = .giving (j.run limit s s.machine).1 s' k ∧
      s'.machine = (j.run limit s s.machine).2 ∧ s'.env = s.env ∧ s'.depth = s.depth ∧
      (∀ i < s.machine.store.size,
        s'.machine.store.scopes[i]? = s.machine.store.scopes[i]?) ∧
      s'.machine.output = s.machine.output ++ Moment.printed limit (.doing j s k) n := by
  obtain ⟨n, hn⟩ := j.leads limit s k
  have hkeeps := Moment.keeps limit (.doing j s k) n
  have houtput := Moment.output limit (.doing j s k) n
  rw [hn] at hkeeps houtput
  exact ⟨n, _, hn, rfl, rfl, rfl, hkeeps.scopes, houtput⟩

end ClosedSum.Eval
