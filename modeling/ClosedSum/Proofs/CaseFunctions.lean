import ClosedSum.Proofs.DeclaredValues
import ClosedSum.Proofs.GuardedCalls

/-!
# Constructors, predicates and accessors

The functions that are generated for the cases of a program fit each other. A constructor takes one
value for each field and the accessors give them back, a predicate is true of the values of its own
case only, and an accessor takes no value of another case. All this goes by the variant and the tag
of a value, so it rests on no two cases having both in common, and on each generated name standing
for its own function.
-/

namespace ClosedSum

open Variant (CaseDecl FieldDecl)

def Variant.CaseDecl.make (c : CaseDecl) (fields : List Eval.Value) : Eval.Value :=
  .variant c.parent c.name c.tag fields

namespace Core.Program

def HasCase (p : Program) (c : CaseDecl) : Prop := ∃ d ∈ p.decls, c ∈ d.cases

/-- Exactly one case of the program has this data and so many fields. -/
def Declares (p : Program) (variant typeName : String) (tag count : Nat) : Prop :=
  ∃! c, p.HasCase c ∧ c.parent = variant ∧ c.name = typeName ∧ c.tag = tag ∧
    c.fields.length = count

variable {p : Program} {c c' : CaseDecl}

lemma Distinct.eq_of_hasCase (h : p.Distinct) (hc : p.HasCase c) (hc' : p.HasCase c')
    (hparent : c.parent = c'.parent) (htag : c.tag = c'.tag) : c = c' := by
  obtain ⟨d, hd, hc⟩ := hc
  obtain ⟨d', hd', hc'⟩ := hc'
  exact h d hd d' hd' c hc c' hc' hparent htag

lemma Distinct.declares (h : p.Distinct) (hc : p.HasCase c) :
    p.Declares c.parent c.name c.tag c.fields.length :=
  ⟨c, ⟨hc, rfl, rfl, rfl, rfl⟩,
    fun _ ⟨hc', hparent, _, htag, _⟩ => h.eq_of_hasCase hc' hc hparent htag⟩

end Core.Program

namespace Eval

variable {p : Core.Program} {i : Interpreter} {c c' : CaseDecl} {args : List Value}

/-- A value all of whose variant values are of declared cases and have their fields. -/
def Value.Declared (p : Core.Program) (v : Value) : Prop := v.Every (fun _ => True) p.Declares

/-- A call of a global gives a result and leaves the interpreter as it was. -/
def Interpreter.Replies (i : Interpreter) (name : String) (args : List Value)
    (r : Except Fault Value) : Prop := i.callGlobal name args = (r, i)

/-- The functions of a case do for an interpreter what they should. -/
structure Interpreter.Serves (i : Interpreter) (p : Core.Program) (c : CaseDecl) : Prop where
  constructs : ∀ args : List Value, args.length = c.fields.length →
    i.Replies c.name args (.ok (c.make args))
  counts : ∀ args : List Value, args.length ≠ c.fields.length →
    i.Replies c.name args (.error ⟨.wrongArity c.name c.fields.length args.length, []⟩)
  /-- The accessor of a field gives the argument at the place of the field. -/
  reads : ∀ args : List Value, args.length = c.fields.length →
    ∀ (n : Nat) (f : FieldDecl), c.fields[n]? = some f →
      ∃ a, args[n]? = some a ∧ i.Replies f.accessor [c.make args] (.ok a)
  recognizes : ∀ args, i.Replies c.predicate [c.make args] (.ok (.bool true))
  /-- No other case takes its values for its own. -/
  others : ∀ c', p.HasCase c' → c' ≠ c → ∀ args,
    i.Replies c'.predicate [c.make args] (.ok (.bool false)) ∧ ∀ f ∈ c'.fields,
      i.Replies f.accessor [c.make args] (.error ⟨.wrongCase f.accessor c'.name c.name, []⟩)
  /-- It takes no other value for its own. -/
  rejects : ∀ v, v.Declared p → (∀ args : List Value, args.length = c.fields.length →
      v ≠ c.make args) →
    i.Replies c.predicate [v] (.ok (.bool false)) ∧ ∀ f ∈ c.fields,
      i.Replies f.accessor [v] (.error ⟨.wrongCase f.accessor c.name v.kindName, []⟩)

/-- The generated functions of a case are bound to its global names. -/
structure Interpreter.Binds (i : Interpreter) (c : CaseDecl) : Prop where
  constructor : i.global? c.name = some (.callable (.constructor (.ofDecl c)))
  predicate : i.global? c.predicate = some (.callable (.predicate (.ofDecl c)))
  accessor : ∀ (n : Nat) (f : FieldDecl), c.fields[n]? = some f →
    i.global? f.accessor = some (.callable (.accessor (.ofDecl c) n f.accessor))

lemma Case.holds_make : (Case.ofDecl c').holds (c.make args) =
    (decide (c.parent = c'.parent) && decide (c.tag = c'.tag)) := rfl

lemma Interpreter.answers_of_call {f : Value} {name : String} {r : Except Fault Value}
    (hf : i.global? name = some f)
    (hr : ∀ enter, callWith enter f args i.machine = (r, i.machine)) : i.Replies name args r := by
  have hcall : i.call f args = ((callAt i.limit i.limit f args i.machine).1,
      { i with machine := (callAt i.limit i.limit f args i.machine).2 }) := rfl
  rw [Replies, callGlobal, hf]
  dsimp only
  rw [hcall, callAt_eq, hr]

namespace Interpreter.Binds

variable (h : i.Binds c)

include h in
lemma answers_constructor (args : List Value) :
    i.Replies c.name args (if args.length = c.fields.length then .ok (c.make args)
      else .error ⟨.wrongArity c.name c.fields.length args.length, []⟩) := by
  refine answers_of_call h.constructor fun enter => ?_
  have harity : (Case.ofDecl c).arity = c.fields.length := List.length_map _
  simp only [callWith, expectArity, harity]
  split <;> rfl

include h in
lemma answers_predicate (v : Value) :
    i.Replies c.predicate [v] (.ok (.bool ((Case.ofDecl c).holds v))) :=
  answers_of_call h.predicate fun _ => rfl

include h in
lemma answers_accessor {args : List Value} {n : Nat} {f : FieldDecl} {a : Value}
    (hf : c.fields[n]? = some f) (ha : args[n]? = some a) :
    i.Replies f.accessor [c.make args] (.ok a) := by
  refine answers_of_call (h.accessor n f hf) fun enter => ?_
  have hholds : (Case.ofDecl c).holds (c.make args) = true := by simp [Case.holds_make]
  have hread := readField_apply (m := i.machine) (Case.ofDecl c) n f.accessor hholds
  rw [ha] at hread
  exact hread

include h in
lemma answers_of_not_holds {v : Value} (hv : (Case.ofDecl c).holds v = false) :
    i.Replies c.predicate [v] (.ok (.bool false)) ∧ ∀ f ∈ c.fields,
      i.Replies f.accessor [v] (.error ⟨.wrongCase f.accessor c.name v.kindName, []⟩) := by
  refine ⟨hv ▸ h.answers_predicate v, fun f hf => ?_⟩
  obtain ⟨n, hn⟩ := List.mem_iff_getElem?.mp hf
  refine answers_of_call (h.accessor n f hn) fun enter => ?_
  have hread : readField (Case.ofDecl c) n f.accessor v i.machine =
      (.error ⟨.wrongCase f.accessor c.name v.kindName, []⟩, i.machine) := by
    cases v with
    | «variant» => simp only [readField, hv, Bool.false_eq_true, if_false]; rfl
    | _ => rfl
  exact hread

/-- A declared value that goes by the variant and the tag of a case is made of its fields. -/
lemma eq_make_of_holds (hp : p.Distinct) (hc : p.HasCase c) {v : Value} (hv : v.Declared p)
    (hholds : (Case.ofDecl c).holds v = true) :
    ∃ args, args.length = c.fields.length ∧ v = c.make args := by
  cases hv with
  | @variant u n t fields hdeclared _ =>
    have hsame : u = (Case.ofDecl c).variant ∧ t = (Case.ofDecl c).tag := by
      simpa [Case.holds] using hholds
    obtain ⟨rfl, rfl⟩ : u = c.parent ∧ t = c.tag := hsame
    obtain ⟨c', ⟨hc', hparent, rfl, htag, hcount⟩, -⟩ := hdeclared
    obtain rfl := hp.eq_of_hasCase hc' hc hparent htag
    exact ⟨fields, hcount.symm, rfl⟩
  | _ => cases hholds

/-- The functions of a case fit each other, and those of the other cases. -/
theorem serves (hp : p.Distinct) (hall : ∀ c, p.HasCase c → i.Binds c) (hc : p.HasCase c) :
    i.Serves p c := by
  have h := hall c hc
  refine ⟨fun args hargs => ?_, fun args hargs => ?_, fun args hargs n f hf => ?_, fun args => ?_,
    fun c' hc' hne args => ?_, fun v hv hnot => ?_⟩
  · simpa only [if_pos hargs] using h.answers_constructor args
  · simpa only [if_neg hargs] using h.answers_constructor args
  · have hn : n < args.length := hargs ▸ (List.getElem?_eq_some_iff.mp hf).1
    exact ⟨args[n], List.getElem?_eq_getElem hn,
      h.answers_accessor hf (List.getElem?_eq_getElem hn)⟩
  · simpa [Case.holds_make] using h.answers_predicate (c.make args)
  · refine (hall c' hc').answers_of_not_holds ?_
    by_contra hholds
    simp only [Case.holds_make, Bool.not_eq_false, Bool.and_eq_true, decide_eq_true_eq] at hholds
    exact hne (hp.eq_of_hasCase hc' hc hholds.1.symm hholds.2.symm)
  · refine h.answers_of_not_holds ?_
    by_contra hholds
    obtain ⟨args, hargs, heq⟩ := eq_make_of_holds hp hc hv (Bool.not_eq_false _ ▸ hholds)
    exact hnot args hargs heq

end Interpreter.Binds

lemma binds_ofProgram (hnames : ((generated p).map (·.1)).Nodup) (hc : p.HasCase c)
    (limit : Nat) : (Interpreter.ofProgram p limit).Binds c := by
  obtain ⟨d, hd, hc⟩ := hc
  have hglobal : ∀ b ∈ caseGlobals c,
      (Interpreter.ofProgram p limit).global? b.1 = some b.2 := fun b hb =>
    lookup?_ofProgram hnames (mem_generated_of_mem hd hc hb) limit
  exact ⟨hglobal _ (List.mem_cons_self ..), hglobal _ (List.mem_cons_of_mem _
    (List.mem_cons_self ..)), fun n f hf => hglobal _ (accessor_mem_caseGlobals hf)⟩

lemma Interpreter.Binds.keeps {j : Interpreter} (h : i.Binds c)
    (hglobal : Store.global < i.machine.store.size)
    (hkeeps : i.machine.store.Keeps j.machine.store) : j.Binds c := by
  have hsame : ∀ x, j.global? x = i.global? x := fun x => hkeeps.lookup? x hglobal
  exact ⟨(hsame _).trans h.constructor, (hsame _).trans h.predicate,
    fun n f hf => (hsame _).trans (h.accessor n f hf)⟩

/-- The discipline of the values of a program, which asks nothing of its code. -/
def Discipline.declared (p : Core.Program) (h : p.Distinct) : Discipline where
  strict := False
  variant := p.Declares
  constructor c := ∃ d, p.HasCase d ∧ c = .ofDecl d
  accessor _ _ := True
  variant_of_constructor := by
    rintro c ⟨d, hd, rfl⟩
    have harity : (Case.ofDecl d).arity = d.fields.length := List.length_map _
    rw [harity]
    exact h.declares hd
  index_lt := fun _ _ _ _ hstrict => hstrict.elim

lemma Discipline.holds_declared (h : p.Distinct) (limit : Nat) :
    (declared p h).Holds (Interpreter.ofProgram p limit).machine := by
  refine .ofGlobals rfl fun b hb => ?_
  have hmem := List.mem_reverse.mp hb
  simp only [programGlobals, List.mem_append, List.mem_map, List.mem_flatMap] at hmem
  rcases hmem with (⟨builtin, -, rfl⟩ | ⟨d, hd, c, hc, hcase⟩) | ⟨f, hf, rfl⟩
  · exact .callable trivial
  · simp only [caseGlobals, List.mem_cons, List.mem_map] at hcase
    rcases hcase with rfl | rfl | ⟨⟨field, index⟩, -, rfl⟩
    · exact .callable ⟨c, ⟨d, hd, hc⟩, rfl⟩
    · exact .callable trivial
    · exact .callable trivial
  · exact .callable (Core.Expr.every_of_forall (fun _ hstrict => hstrict.elim) _)

/-- The values of a moment: those that are bound in a scope, those that something waits with, those
that are handed in, and the one that is given. -/
inductive Moment.Has (a : Moment) (v : Value) : Prop
  | bound (scope : Nat) (x : String) (h : a.status.machine.store.lookup? scope x = some v)
  | waiting (p : Pending) (hp : p ∈ a.pending) (h : v ∈ p.values)
  | handed (f : Value) (args : List Value) (s : Status) (k : List Pending)
    (ha : a = .doing (.call f args) s k) (h : v ∈ f :: args)
  | given (s : Status) (k : List Pending) (ha : a = .giving (.ok v) s k)

lemma Moment.Fits.of_has {D : Discipline} {m : Machine} {a : Moment} (h : a.Fits D m) {v : Value}
    (hv : a.Has v) : D.Fits a.status.machine v := by
  cases hv with
  | bound scope x hx => exact h.holds.fits scope x v hx
  | waiting p hp hv => exact h.waits p hp v hv
  | handed f args s k ha hv =>
    subst ha
    obtain ⟨hf, hargs⟩ := h.job _ s k rfl
    exact List.forall_mem_cons.mpr ⟨hf, hargs⟩ v hv
  | given s k ha =>
    subst ha
    exact h.result v s k rfl

end Eval

namespace Compile

open Eval (Interpreter Arises)

/-- Whatever is asked of the interpreter of a module, and at every moment of it, the functions of
each declared case fit each other, and each variant value that there is is of exactly one declared
case and has its fields. -/
theorem case_functions (m : Surface.Module) (fresh limit : Nat) {vs : List Eval.Value}
    {a : Eval.Moment} (h : Arises (Compiled.ofModule m fresh).program limit vs a) :
    (∀ c, (Compiled.ofModule m fresh).program.HasCase c →
      Interpreter.Serves ⟨a.status.machine, limit⟩ (Compiled.ofModule m fresh).program c) ∧
    ∀ v, a.Has v ∨ v ∈ vs → v.Declared (Compiled.ofModule m fresh).program := by
  have hdistinct : (Compiled.ofModule m fresh).program.Distinct :=
    (Collected.faithful_ofModule m).distinct _
  have hstart := Eval.Discipline.holds_declared hdistinct limit
  obtain ⟨hfits, hvs⟩ := h.fits not_false hstart
  refine ⟨fun c hc => ?_, fun v hv => ?_⟩
  · refine Interpreter.Binds.serves hdistinct (fun c hc => ?_) hc
    exact (Eval.binds_ofProgram (nodup_generated m fresh) hc limit).keeps hstart.global_lt h.keeps
  · have hfit : (Eval.Discipline.declared _ hdistinct).Fits a.status.machine v :=
      hv.elim hfits.of_has (hvs v)
    exact hfit.mono fun _ _ => trivial

def fullBox : CaseDecl :=
  ⟨"BoxFull", "Full", "Box", 1, "is_box_full", [], [⟨"value", "box_full_value", []⟩]⟩

/-- A full box is made by a call of its constructor. -/
theorem case_functions_unboxing :
    ∃ a, Arises (Compiled.ofModule unboxingTree 0).program 8 [] a ∧ a.Has (fullBox.make [.int 1]) ∧
      (fullBox.make [.int 1]).Declared (Compiled.ofModule unboxingTree 0).program ∧
        Interpreter.Serves ⟨a.status.machine, 8⟩ (Compiled.ofModule unboxingTree 0).program
          fullBox := by
  have hcase : (Compiled.ofModule unboxingTree 0).program.HasCase fullBox := by
    have hcases : fullBox ∈ (Compiled.ofModule unboxingTree 0).program.decls.flatMap (·.cases) := by
      decide +kernel
    exact List.mem_flatMap.mp hcases
  have hbound := (Eval.binds_ofProgram (nodup_generated unboxingTree 0) hcase 8).constructor
  have hstart : Arises (Compiled.ofModule unboxingTree 0).program 8 []
      (.doing (.call (.callable (.constructor (.ofDecl fullBox))) [.int 1])
        (Interpreter.ofProgram (Compiled.ofModule unboxingTree 0).program 8).status []) := by
    refine .first (List.forall_mem_cons.mpr ⟨.inr (.inr ⟨_, hbound⟩), ?_⟩)
    exact List.forall_mem_singleton.mpr (.inl trivial)
  obtain ⟨hserves, hdeclared⟩ := case_functions unboxingTree 0 8 hstart.step
  have hmade : Eval.Moment.Has (Eval.step 8 (.doing
      (.call (.callable (.constructor (.ofDecl fullBox))) [.int 1])
        (Interpreter.ofProgram (Compiled.ofModule unboxingTree 0).program 8).status []))
          (fullBox.make [.int 1]) :=
    .given (Interpreter.ofProgram (Compiled.ofModule unboxingTree 0).program 8).status [] rfl
  exact ⟨_, hstart.step, hmade, hdeclared _ (.inl hmade), hserves fullBox hcase⟩

end Compile

end ClosedSum
