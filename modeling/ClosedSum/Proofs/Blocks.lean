import ClosedSum.Compile.Tree
import ClosedSum.Proofs.Restoring

/-!
# Blocks run in order

A block compiles to nested code: a binding has the statements after it as its body, and statements
without a binding stand in one sequence. Here its statements are compiled one by one and run in
order, each in the scopes that those before it left open. The code of the block does the same, and
closes the scopes at its end.
-/

namespace ClosedSum

namespace Compile

/-- A statement whose expression is compiled. -/
inductive Line where
  | value (code : Core.Expr)
  | bind (name : String) (code : Core.Expr)

namespace Line

def code : Line → Core.Expr
  | .value e | .bind _ e => e

def name? : Line → Option String
  | .value _ => none
  | .bind x _ => some x

end Line

def line (registry : Match.Registry) : Surface.Stmt → Step Line
  | .expr e => do return .value (← expr registry e)
  | .bind name value => do return .bind name.name (← expr registry value)

/-- The expressions of a block, from its lines. -/
def assemble : List Line → List Core.Expr
  | [] => []
  | .value e :: ls => e :: assemble ls
  | .bind x e :: ls => [.letIn x e (sequence (assemble ls))]

lemma stmts_eq_assemble (registry : Match.Registry) (ss : List Surface.Stmt) :
    stmts registry ss = assemble <$> ss.mapM (line registry) := by
  induction ss with
  | nil => simp [stmts, assemble]
  | cons s ss ih =>
    cases s with
    | expr e => simp [stmts, line, ih, assemble]
    | bind name value => simp [stmts, line, ih, assemble]

end Compile

namespace Eval

open Compile (Line assemble)

lemma evalWith_sequence (call : Value → List Value → Run Value) (es : List Core.Expr) (env : Env) :
    evalWith call (Compile.sequence es) env = evalSeq call es .unit env := by
  match es with
  | [] => simp [Compile.sequence, Core.Expr.unit, evalWith, evalSeq, Value.ofLiteral]
  | [e] => simp [Compile.sequence, evalSeq]
  | e :: e' :: es => simp [Compile.sequence, evalWith]

namespace Status

/-- What a name stands for in the current scope. -/
def sees? (s : Status) (name : String) : Option Value := s.env.1.lookup? s.machine.store name

/-- Runs a line. A binding evaluates its expression and then opens a scope with its name. -/
def runLine (limit : Nat) (s : Status) (l : Line) : Except Fault Value × Status :=
  let (r, machine) := (Job.eval l.code).run limit s s.machine
  let s := { s with machine }
  match l, r with
  | .value _, r => (r, s)
  | .bind x _, .ok v => (.ok .unit, s.pushScope.define x v)
  | .bind .., .error f => (.error f, s)

/-- Runs lines in order until one fails. The last of them gives the value. -/
def runLines (limit : Nat) (last : Value) (s : Status) : List Line → Except Fault Value × Status
  | [] => (.ok last, s)
  | l :: ls =>
    match s.runLine limit l with
    | (.ok v, s) => s.runLines limit v ls
    | (.error f, s) => (.error f, s)

end Status

/-- The expressions of a block give what its lines give. -/
theorem evalSeq_assemble (limit : Nat) (ls : List Line) (last : Value) (s : Status) :
    evalSeq (callAt limit (limit - s.depth)) (assemble ls) last s.env.1 s.machine =
      ((s.runLines limit last ls).1, (s.runLines limit last ls).2.machine) := by
  induction ls generalizing last s with
  | nil => rfl
  | cons l ls ih =>
    have hrun : ∀ e, (Job.eval e).run limit s =
        evalWith (callAt limit (limit - s.depth)) e s.env.1 := fun _ => rfl
    cases l with
    | value e =>
      simp only [assemble, evalSeq, Run.bind_apply, Status.runLines, Status.runLine, Line.code,
        hrun]
      generalize evalWith (callAt limit (limit - s.depth)) e s.env.1 s.machine = result
      obtain ⟨f | v, m⟩ := result
      · rfl
      · exact ih v { s with machine := m }
    | bind x e =>
      simp only [assemble, evalSeq, bind_pure]
      simp only [evalWith, evalWith_sequence, Run.bind_apply, Status.runLines, Status.runLine,
        Line.code, hrun]
      generalize evalWith (callAt limit (limit - s.depth)) e s.env.1 s.machine = result
      obtain ⟨f | v, m⟩ := result
      · rfl
      · have hrest := ih .unit (Status.pushScope { s with machine := m } |>.define x v)
        obtain ⟨hmachine, henv⟩ := Status.define_pushScope { s with machine := m } x v
        rw [hmachine, henv] at hrest
        exact hrest

lemma run_block (limit : Nat) (ls : List Line) (s : Status) :
    (Job.eval (Compile.sequence (assemble ls))).run limit s s.machine =
      ((s.runLines limit .unit ls).1, (s.runLines limit .unit ls).2.machine) := by
  rw [Job.run, evalWith_sequence]
  exact evalSeq_assemble limit ls .unit s

lemma Job.run_keeps (limit : Nat) (j : Job) (s : Status) :
    s.machine.store.Keeps (j.run limit s s.machine).2.store := by
  obtain ⟨n, hn⟩ := j.leads limit s []
  have hkeeps := Moment.keeps limit (.doing j s []) n
  rw [hn] at hkeeps
  exact hkeeps

namespace Status

variable {limit : Nat} {s t : Status}

lemma Placed.sees?_of_keeps (h : s.Placed) {m : Machine} (hkeeps : s.machine.store.Keeps m.store)
    (name : String) : sees? { s with machine := m } name = s.sees? name :=
  hkeeps.lookup? name h.current_lt

lemma Placed.sees?_define (h : s.Placed) (x : String) (v : Value) (name : String) :
    (s.pushScope.define x v).sees? name = if name = x then some v else s.sees? name := by
  obtain ⟨hmachine, henv⟩ := define_pushScope s x v
  unfold sees? Env.lookup?
  rw [hmachine, henv, Env.current_push]
  dsimp only [Env.push]
  rw [Store.lookup?_push_self _ _ _ h.current_lt]
  by_cases hname : name = x
  · subst hname
    simp
  · have hother : (name == x) = false := beq_false_of_ne hname
    simp [List.lookup_cons, hname, hother]

lemma Placed.define (h : s.Placed) (x : String) (v : Value) :
    (s.pushScope.define x v).Placed := by
  obtain ⟨hmachine, henv⟩ := define_pushScope s x v
  unfold Placed
  rw [hmachine, henv]
  intro i hi
  obtain rfl | hi := List.mem_cons.mp hi
  · simp [Env.push]
  · exact (Store.Knows.mono h (.push _ _ _)) i hi

lemma runLine_ok {l : Line} {w : Value} (h : s.runLine limit l = (.ok w, t)) :
    ∃ v m, (Job.eval l.code).run limit s s.machine = (.ok v, m) ∧
      s.machine.store.Keeps m.store ∧
      (l.name? = none ∧ w = v ∧ t = { s with machine := m } ∨
        ∃ x, l.name? = some x ∧ w = .unit ∧
          t = (pushScope { s with machine := m }).define x v) := by
  have hkeeps := Job.run_keeps limit (.eval l.code) s
  unfold runLine at h
  generalize (Job.eval l.code).run limit s s.machine = result at h hkeeps
  obtain ⟨f | v, m⟩ := result
  · cases l <;> cases h
  · refine ⟨v, m, rfl, hkeeps, ?_⟩
    cases l with
    | value e =>
      cases h
      exact .inl ⟨rfl, rfl, rfl⟩
    | bind x e =>
      cases h
      exact .inr ⟨x, rfl, rfl, rfl⟩

lemma Placed.runLine (hs : s.Placed) {l : Line} {w : Value}
    (h : s.runLine limit l = (.ok w, t)) : t.Placed := by
  obtain ⟨v, m, -, hkeeps, hcase⟩ := runLine_ok h
  have hplaced : Placed { s with machine := m } := Store.Knows.mono hs hkeeps
  obtain ⟨-, -, rfl⟩ | ⟨x, -, -, rfl⟩ := hcase
  · exact hplaced
  · exact hplaced.define x v

lemma Placed.sees?_runLine (hs : s.Placed) {l : Line} {w : Value}
    (h : s.runLine limit l = (.ok w, t)) :
    ∃ v, ((Job.eval l.code).run limit s s.machine).1 = .ok v ∧
      w = (if l.name?.isSome then .unit else v) ∧
      ∀ name, t.sees? name = if l.name? = some name then some v else s.sees? name := by
  obtain ⟨v, m, hrun, hkeeps, hcase⟩ := runLine_ok h
  refine ⟨v, by rw [hrun], ?_⟩
  obtain ⟨hname, rfl, rfl⟩ | ⟨x, hname, rfl, rfl⟩ := hcase
  · simp only [hname]
    exact ⟨rfl, fun name => hs.sees?_of_keeps hkeeps name⟩
  · have hplaced : Placed { s with machine := m } := Store.Knows.mono hs hkeeps
    simp only [hname]
    refine ⟨rfl, ?_⟩
    intro name
    rw [hplaced.sees?_define, hs.sees?_of_keeps hkeeps]
    simp only [Option.some.injEq, eq_comm]

lemma Placed.runLines (hs : s.Placed) {ls : List Line} {last w : Value}
    (h : s.runLines limit last ls = (.ok w, t)) : t.Placed := by
  induction ls generalizing s last with
  | nil =>
    cases h
    exact hs
  | cons l ls ih =>
    rw [Status.runLines] at h
    cases hline : s.runLine limit l with
    | mk r s' =>
      rw [hline] at h
      cases r with
      | error f => cases h
      | ok v => exact ih (hs.runLine hline) h

end Status

/-- A block does what its statements do in order, each compiled on its own: the first fault ends it,
and the last value is its value. A binding is seen by the statements after it, no sooner, and not
after the block. -/
theorem block_in_order (registry : Match.Registry) (ss : List Surface.Stmt) (p : Compile.Progress)
    (limit : Nat) (s : Status) (hs : s.Placed) (k : List Pending) :
    ∃ ls, ss.mapM (Compile.line registry) p = (ls, (Compile.stmts registry ss p).2) ∧
      (∃ n s', (step limit)^[n]
          (.doing (.eval (Compile.sequence (Compile.stmts registry ss p).1)) s k) =
            .giving (s.runLines limit .unit ls).1 s' k ∧
        s'.machine = (s.runLines limit .unit ls).2.machine ∧ s'.env = s.env ∧
        s'.depth = s.depth ∧ ∀ name, s'.sees? name = s.sees? name) ∧
      ∀ before l after v w t t', ls = before ++ l :: after →
        s.runLines limit .unit before = (.ok v, t) → t.runLine limit l = (.ok w, t') →
        ∃ u, ((Job.eval l.code).run limit t t.machine).1 = .ok u ∧
          w = (if l.name?.isSome then .unit else u) ∧
          ∀ name, t'.sees? name = if l.name? = some name then some u else t.sees? name := by
  refine ⟨(ss.mapM (Compile.line registry) p).1, ?_, ?_, ?_⟩
  · rw [Compile.stmts_eq_assemble]
    rfl
  · rw [Compile.stmts_eq_assemble]
    obtain ⟨n, hn⟩ := Job.leads limit
      (.eval (Compile.sequence (assemble (ss.mapM (Compile.line registry) p).1))) s k
    have hkeeps := Job.run_keeps limit
      (.eval (Compile.sequence (assemble (ss.mapM (Compile.line registry) p).1))) s
    rw [Status.after, run_block] at hn
    rw [run_block] at hkeeps
    exact ⟨n, _, hn, rfl, rfl, rfl, hs.sees?_of_keeps hkeeps⟩
  · intro before l after v w t t' _ hbefore hline
    exact (hs.runLines hbefore).sees?_runLine hline

/-- `let x = 1; print(x); let x = x + 1; x` -/
def rebinding : List Surface.Stmt :=
  [.bind ⟨"x", .none⟩ (.int .none 1), .expr (.call .none (.ident .none "print") [.ident .none "x"]),
    .bind ⟨"x", .none⟩ (.binary .none .add (.ident .none "x") (.int .none 1)),
    .expr (.ident .none "x")]

/-- Each of two bindings of a name is seen where it should be, and none is left. -/
theorem block_in_order_rebinding :
    (Interpreter.ofProgram ⟨[], []⟩ 8).status.Placed ∧
    ∃ n s', (step 8)^[n] (.doing (.eval (Compile.sequence (Compile.stmts {} rebinding {}).1))
        (Interpreter.ofProgram ⟨[], []⟩ 8).status []) = .giving (.ok (.int 2)) s' [] ∧
      s'.machine.output = "1\n" ∧ s'.sees? "x" = none := by
  have hplaced : (Interpreter.ofProgram ⟨[], []⟩ 8).status.Placed :=
    (Moment.placed_ofProgram ⟨[], []⟩ 8 (.eval .unit)).current
  obtain ⟨ls, hls, ⟨n, s', hn, hmachine, -, -, hsees⟩, -⟩ :=
    block_in_order {} rebinding {} 8 (Interpreter.ofProgram ⟨[], []⟩ 8).status hplaced []
  obtain rfl : (rebinding.mapM (Compile.line {}) {}).1 = ls := congrArg Prod.fst hls
  have hvalue : ((Interpreter.ofProgram ⟨[], []⟩ 8).status.runLines 8 .unit
      (rebinding.mapM (Compile.line {}) {}).1).1 = .ok (.int 2) := by
    with_unfolding_all rfl
  have houtput : ((Interpreter.ofProgram ⟨[], []⟩ 8).status.runLines 8 .unit
      (rebinding.mapM (Compile.line {}) {}).1).2.machine.output = "1\n" := by
    with_unfolding_all rfl
  have hunseen : (Interpreter.ofProgram ⟨[], []⟩ 8).status.sees? "x" = none := by
    with_unfolding_all rfl
  rw [hvalue] at hn
  rw [← hmachine] at houtput
  exact ⟨hplaced, n, s', hn, houtput, (hsees "x").trans hunseen⟩

end Eval

end ClosedSum
