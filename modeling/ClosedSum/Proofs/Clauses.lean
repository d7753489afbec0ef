import ClosedSum.Proofs.Dispatch

/-!
# Running clauses

The branch of a clause makes the function of the clause, reads the fields of the scrutinee and calls
the function on them. The fields are read by the accessors of the variant, which the scope of the
match has to know.
-/

namespace ClosedSum

namespace Eval

variable {enter : Option String → Env → Core.Expr → Run Value} {env : Env} {m : Machine}

/-- How a body is entered with a number of calls to go: it is evaluated one call deeper, unless the
limit is met. -/
def enterAt (limit : Nat) : Nat → Option String → Env → Core.Expr → Run Value
  | 0 => fun _ _ _ => Run.fail (.tooDeep limit)
  | left + 1 => fun name? env body => Run.within name? (evalWith (callAt limit left) body env)

lemma callAt_eq (limit left : Nat) : callAt limit left = callWith (enterAt limit left) := by
  cases left <;> rfl

/-- Every accessor of a variant is known by its name. -/
def Resolves (d : Variant.Decls) (env : Env) (m : Machine) : Prop :=
  ∀ c ∈ d.cases, ∀ i f, c.fields[i]? = some f →
    env.lookup? m.store f.accessor = some (.callable (.accessor (.ofDecl c) i f.accessor))

lemma eval_var {x : String} {v : Value} (h : env.lookup? m.store x = some v)
    (call : Value → List Value → Run Value) : evalWith call (.var x) env m = (.ok v, m) := by
  rw [evalWith, Run.lookup_apply, h]

lemma readField_apply (c : Case) (i : Nat) (name : String) {v n : String} {t : Nat}
    {fields : List Value} (h : c.holds (.variant v n t fields) = true) :
    readField c i name (.variant v n t fields) m = match fields[i]? with
      | some field => (.ok field, m)
      | none => (.error { cause := .uncompiled }, m) := by
  simp only [readField, h, if_true]
  cases fields[i]? <;> rfl

lemma eval_fieldCall (enter : Option String → Env → Core.Expr → Run Value) {c : Case} {i : Nat}
    {f x : String} {v n : String} {t : Nat} {fields : List Value}
    (hf : env.lookup? m.store f = some (.callable (.accessor c i f)))
    (hx : env.lookup? m.store x = some (.variant v n t fields))
    (hholds : c.holds (.variant v n t fields) = true) :
    evalWith (callWith enter) (.call (.var f) [.var x]) env m = match fields[i]? with
      | some field => (.ok field, m)
      | none => (.error { cause := .uncompiled }, m) := by
  have harg : evalArgs (callWith enter) [.var x] env m = (.ok [.variant v n t fields], m) := by
    rw [evalArgs, Run.bind_of_ok (eval_var hx _)]
    rfl
  rw [evalWith, Run.bind_of_ok (eval_var hf _), Run.bind_of_ok harg,
    ← readField_apply c i f hholds]
  rfl

/-- The fields of a value from a place on, read one after the other; none is read behind one that
the value does not have. -/
lemma evalArgs_fieldCalls (enter : Option String → Env → Core.Expr → Run Value) {c : Case}
    {x : String} {v n : String} {t : Nat} {fields : List Value}
    (hx : env.lookup? m.store x = some (.variant v n t fields))
    (hholds : c.holds (.variant v n t fields) = true) {fs : List String} (start : Nat)
    (hstart : start ≤ fields.length) (hfs : ∀ i f, fs[i]? = some f →
      env.lookup? m.store f = some (.callable (.accessor c (start + i) f))) :
    evalArgs (callWith enter) (fs.map fun f => .call (.var f) [.var x]) env m =
      if fields.length < start + fs.length then (.error { cause := .uncompiled }, m)
      else (.ok ((fields.drop start).take fs.length), m) := by
  induction fs generalizing start with
  | nil =>
    rw [if_neg (by simpa using hstart)]
    rfl
  | cons f fs ih =>
    have hcall := eval_fieldCall enter (hfs 0 f rfl) hx hholds
    rw [Nat.add_zero] at hcall
    rw [List.map_cons, evalArgs, List.length_cons]
    cases hget : fields[start]? with
    | none =>
      rw [hget] at hcall
      have hlen := List.getElem?_eq_none_iff.mp hget
      rw [Run.bind_of_error hcall, if_pos (by omega)]
    | some field =>
      rw [hget] at hcall
      obtain ⟨hlt, rfl⟩ := List.getElem?_eq_some_iff.mp hget
      have hrest := ih (start + 1) hlt fun i g hg => by
        have hi : start + 1 + i = start + (i + 1) := by omega
        rw [hi]
        exact hfs (i + 1) g (by simpa using hg)
      rw [Run.bind_of_ok hcall, Run.bind_apply, hrest]
      by_cases hshort : fields.length < start + 1 + fs.length
      · rw [if_pos hshort, if_pos (by omega)]
      · rw [if_neg hshort, if_neg (by omega), List.drop_eq_getElem_cons hlt, List.take_succ_cons]
        rfl

/-- What the call of a function does on arguments that are the fields of a value: a missing field
is met first, then a wrong count, and then the body is entered. -/
lemma eval_callFields {c : Case} {x : String} {v n : String} {t : Nat} {fields : List Value}
    (hx : env.lookup? m.store x = some (.variant v n t fields))
    (hholds : c.holds (.variant v n t fields) = true) {fs : List String}
    (hfs : ∀ i f, fs[i]? = some f →
      env.lookup? m.store f = some (.callable (.accessor c i f))) (g : Core.Lambda) :
    evalWith (callWith enter) (.call g.toExpr (fs.map fun f => .call (.var f) [.var x])) env m =
      if fields.length < fs.length then
        (.error { cause := .uncompiled }, { m with closures := m.closures + 1 })
      else callWith enter (.callable (.closure m.closures g env.current)) (fields.take fs.length)
        { m with closures := m.closures + 1 } := by
  have hargs := evalArgs_fieldCalls (m := { m with closures := m.closures + 1 }) enter hx hholds 0
    (Nat.zero_le _) fun i f hf => by simpa using hfs i f hf
  rw [Nat.zero_add, List.drop_zero] at hargs
  have hclosure : evalWith (callWith enter) g.toExpr env m =
      (.ok (.callable (.closure m.closures g env.current)),
        { m with closures := m.closures + 1 }) := rfl
  rw [evalWith, Run.bind_of_ok hclosure]
  split
  · next hshort =>
    rw [if_pos hshort] at hargs
    rw [Run.bind_of_error hargs]
  · next hshort =>
    rw [if_neg hshort] at hargs
    rw [Run.bind_of_ok hargs]

lemma callWith_closure (k : Nat) (g : Core.Lambda) (scope : Nat) (args : List Value) :
    callWith enter (.callable (.closure k g scope)) args m =
      if accepts g args.length then
        enter none ⟨[m.store.size]⟩ g.body
          { m with store := (m.store.push scope (bindParams (g.params.map (·.name)) args)).2 }
      else (.error { cause := .wrongArity "closure" g.arity args.length }, m) := by
  simp only [callWith, expectAccepted]
  split <;> rfl

lemma eval_default (enter : Option String → Env → Core.Expr → Run Value) (body : Core.Expr) :
    evalWith (callWith enter) (.call (.lambda [] false body) []) env m =
      enter none ⟨[m.store.size]⟩ body
        { m with
          closures := m.closures + 1
          store := (m.store.push env.current []).2 } := by
  have hclosure : evalWith (callWith enter) (.lambda [] false body) env m =
      (.ok (.callable (.closure m.closures ⟨[], false, body⟩ env.current)),
        { m with closures := m.closures + 1 }) := rfl
  have hargs : evalArgs (callWith enter) [] env { m with closures := m.closures + 1 } =
      (.ok [], { m with closures := m.closures + 1 }) := rfl
  rw [evalWith, Run.bind_of_ok hclosure, Run.bind_of_ok hargs, callWith_closure]
  rfl

end Eval

namespace Match

open Eval (Value Env Machine Run)

lemma Pattern.arity_compile_list {label : Ident} {ps : List Param} {body : Core.Expr} {n : Nat} :
    ((Pattern.case label (.list ps)).compile body n).1.arity = ps.length :=
  (Param.mapM_compile ps n).2.length_eq.symm

lemma Pattern.accepts_compile_list {label : Ident} {ps : List Param} {body : Core.Expr}
    {n found : Nat} :
    Eval.accepts ((Pattern.case label (.list ps)).compile body n).1 found =
      decide (found = ps.length) := by
  rw [← arity_compile_list]
  rfl

lemma Pattern.accepts_compile_rest {label : Ident} {p : Param} {body : Core.Expr} {n found : Nat} :
    Eval.accepts ((Pattern.case label (.rest p)).compile body n).1 found = true := rfl

variable {s : Variant.Spec} {d : Definition}

lemma fieldCalls_eq (hd : Definition.ofSpec s = .ok d) {c : Variant.CaseDecl}
    (hc : c ∈ d.decls.cases) (scrutinee : String) :
    d.operator.schema.fieldCalls (.ofDecl c) scrutinee =
      (c.fields.map (·.accessor)).map fun f => .call (.var f) [.var scrutinee] := by
  obtain ⟨-, rfl⟩ := Definition.ofSpec_ok hd
  simp only [Schema.fieldCalls, Entry.ofDecl, List.map_map]
  apply List.map_congr_left
  intro f hf
  simp only [Function.comp_apply, Variant.Decls.accessor_of_mem hc hf]
  rfl

/-- What the branch of a clause does on a value of its case. A field that the value lacks is met
first, then a wrong number of parameters, and then the body is entered in a scope inside that of the
match. -/
theorem eval_clause (enter : Option String → Env → Core.Expr → Run Value)
    (hd : Definition.ofSpec s = .ok d) {c : Variant.CaseDecl} (hc : c ∈ d.decls.cases) {env : Env}
    {m : Machine} (hres : Eval.Resolves d.decls env m) {x : String} {u t : String} {tag : Nat}
    {fields : List Value} (hx : env.lookup? m.store x = some (.variant u t tag fields))
    (hholds : (Eval.Case.ofDecl c).holds (.variant u t tag fields) = true) (g : Core.Lambda) :
    Eval.evalWith (Eval.callWith enter)
        (.call g.toExpr (d.operator.schema.fieldCalls (.ofDecl c) x)) env m =
      if fields.length < c.fields.length then
        (.error { cause := .uncompiled }, { m with closures := m.closures + 1 })
      else if Eval.accepts g c.fields.length then
        enter none ⟨[m.store.size]⟩ g.body
          { m with
            closures := m.closures + 1
            store := (m.store.push env.current (Eval.bindParams (g.params.map (·.name))
              (fields.take c.fields.length))).2 }
      else (.error { cause := .wrongArity "closure" g.arity c.fields.length },
        { m with closures := m.closures + 1 }) := by
  have hfs : ∀ i f, (c.fields.map (·.accessor))[i]? = some f →
      env.lookup? m.store f = some (.callable (.accessor (.ofDecl c) i f)) := by
    intro i f hf
    rw [List.getElem?_map, Option.map_eq_some_iff] at hf
    obtain ⟨field, hfield, rfl⟩ := hf
    exact hres c hc i field hfield
  rw [fieldCalls_eq hd hc, Eval.eval_callFields hx hholds hfs, List.length_map]
  split
  · rfl
  · next hlong =>
    rw [Eval.callWith_closure, List.length_take, Nat.min_eq_left (by omega)]

end Match

end ClosedSum
