import ClosedSum.Proofs.ValueOrigins
import Mathlib.Algebra.Group.Int.Defs
import Mathlib.Data.String.Basic
import Mathlib.Tactic.FinCases

/-!
# The algebra of operators

Values of one type can be compared for equality. Among the values of an interpreter this is
identity: a closure equals itself alone, and a variant value those of its case with equal fields.
Integers and strings are ordered, strings by their characters, and each comparison says what the
others leave. Arithmetic is exact wherever its result is an integer of the language.
-/

namespace ClosedSum.Eval

open Variant (CaseDecl)

/-- A comparison is true of two values. -/
def Holds (op : BinaryOp) (x y : Value) : Prop := operate op x y = .ok (.bool true)

def Fails (op : BinaryOp) (x y : Value) : Prop := operate op x y = .ok (.bool false)

section Equality

variable {p : Core.Program} {made : Nat → Core.Lambda × Nat} {x y : Value} {f g : Callable}

lemma ValueType.name_injective : Function.Injective ValueType.name := by
  intro t u h
  cases t <;> cases u <;> first | rfl | exact absurd h (by decide)

lemma isEq_compare {α : Type} [LinearOrder α] (a b : α) : (compare a b).isEq = decide (a = b) := by
  rcases lt_trichotomy a b with h | rfl | h
  · simp [compare_lt_iff_lt.mpr h, h.ne]
  · simp
  · simp [compare_gt_iff_gt.mpr h, h.ne']

lemma isNe_compare {α : Type} [LinearOrder α] (a b : α) :
    (compare a b).isNe = !decide (a = b) := by
  rw [← isEq_compare]
  cases compare a b <;> rfl

/-- Values of one type are equal or not, and no others can be asked. -/
lemma operate_eq (x y : Value) : operate .eq x y = if x.type = y.type then
    .ok (.bool (x.same y)) else .error (.badOperands .eq x.type y.type) := by
  unfold operate
  split
  · simp only [operateInts, holdsOf, isEq_compare, Value.type, Value.same, if_true]
  · simp only [operateStrings, holdsOf, isEq_compare, Value.type, Value.same, if_true]
  · rfl

lemma operate_ne (x y : Value) : operate .ne x y = if x.type = y.type then
    .ok (.bool !(x.same y)) else .error (.badOperands .ne x.type y.type) := by
  unfold operate
  split
  · simp only [operateInts, holdsOf, isNe_compare, Value.type, Value.same, if_true]
  · simp only [operateStrings, holdsOf, isNe_compare, Value.type, Value.same, if_true]
  · rfl

lemma type_eq_of_same (h : x.same y = true) : x.type = y.type := by
  cases x <;> cases y <;> first | rfl | cases h

lemma holds_eq_iff : Holds .eq x y ↔ x.same y = true := by
  rw [Holds, operate_eq]
  constructor
  · intro h
    split at h
    · simpa using h
    · cases h
  · intro h
    rw [if_pos (type_eq_of_same h), h]

lemma fails_eq_iff (h : x.type = y.type) : Fails .eq x y ↔ ¬ Holds .eq x y := by
  rw [holds_eq_iff, Fails, operate_eq, if_pos h]
  simp

lemma sameAll_iff {vs ws : List Value} :
    Value.sameAll vs ws = true ↔ List.Forall₂ (Holds .eq) vs ws := by
  induction vs generalizing ws with
  | nil => cases ws <;> simp [Value.sameAll]
  | cons v vs ih =>
    cases ws with
    | nil => simp [Value.sameAll]
    | cons w ws => simp [Value.sameAll, ih, holds_eq_iff]

lemma forall₂_iff_eq {R : Value → Value → Prop} {vs ws : List Value}
    (h : ∀ v ∈ vs, ∀ w ∈ ws, (R v w ↔ v = w)) : List.Forall₂ R vs ws ↔ vs = ws := by
  induction vs generalizing ws with
  | nil => cases ws <;> simp
  | cons v vs ih =>
    cases ws with
    | nil => simp
    | cons w ws =>
      have hrest := ih fun v hv w hw =>
        h v (List.mem_cons_of_mem _ hv) w (List.mem_cons_of_mem _ hw)
      rw [List.forall₂_cons, hrest, h v List.mem_cons_self w List.mem_cons_self, List.cons.injEq]

lemma mem_functions_of_mem_programGlobals {x : String} {f : Core.Function}
    (h : (x, Value.callable (.function f)) ∈ programGlobals p) : f ∈ p.functions := by
  simp only [programGlobals, caseGlobals, List.mem_append, List.mem_map, List.mem_flatMap,
    List.mem_cons, Prod.mk.injEq, Value.callable.injEq] at h
  rcases h with (⟨_, _, _, hf⟩ | ⟨_, _, _, _, ⟨_, hf⟩ | ⟨_, hf⟩ | ⟨_, _, _, hf⟩⟩) | ⟨_, hmem, _, hf⟩
  all_goals cases hf
  exact hmem

lemma accessor_of_mem_programGlobals {x name : String} {c : Case} {i : Nat}
    (h : (x, Value.callable (.accessor c i name)) ∈ programGlobals p) :
    ∃ d, p.HasCase d ∧ c = .ofDecl d ∧ (d.fields[i]?).map (·.accessor) = some name := by
  simp only [programGlobals, caseGlobals, List.mem_append, List.mem_map, List.mem_flatMap,
    List.mem_cons, Prod.mk.injEq, Value.callable.injEq] at h
  rcases h with (⟨_, _, _, hf⟩ | ⟨d, hd, c, hc, ⟨_, hf⟩ | ⟨_, hf⟩ | ⟨⟨f, i⟩, hmem, _, hf⟩⟩) |
    ⟨_, _, _, hf⟩
  all_goals cases hf
  exact ⟨c, ⟨d, hd, hc⟩, rfl, by rw [List.mk_mem_zipIdx_iff_getElem?.mp hmem]; rfl⟩

lemma Callable.Traced.same_iff (hp : p.Distinct) (hnames : (p.functions.map (·.name)).Nodup)
    (hf : f.Traced p made) (hg : g.Traced p made) : f.same g = true ↔ f = g := by
  cases f with
  | closure n f s =>
    cases g with
    | closure n' f' s' =>
      have hmade : n = n' → (f, s) = (f', s') := by
        rintro rfl
        exact hf.symm.trans hg
      simpa [Callable.same] using hmade
    | _ => simp [Callable.same]
  | function f =>
    cases g with
    | function g =>
      obtain ⟨x, hf⟩ := hf
      obtain ⟨y, hg⟩ := hg
      have hinj := List.inj_on_of_nodup_map hnames (mem_functions_of_mem_programGlobals hf)
        (mem_functions_of_mem_programGlobals hg)
      simp only [Callable.same, decide_eq_true_eq, Callable.function.injEq]
      exact ⟨fun h => hinj h, congrArg _⟩
    | _ => simp [Callable.same]
  | accessor c i name =>
    cases g with
    | accessor c' i' name' =>
      obtain ⟨x, hf⟩ := hf
      obtain ⟨y, hg⟩ := hg
      obtain ⟨d, hd, rfl, hname⟩ := accessor_of_mem_programGlobals hf
      obtain ⟨d', hd', rfl, hname'⟩ := accessor_of_mem_programGlobals hg
      have hnames : Case.ofDecl d = Case.ofDecl d' ∧ i = i' → name = name' := by
        rintro ⟨hcase, rfl⟩
        obtain rfl : d = d' := hp.eq_of_hasCase hd hd' (congrArg Case.variant hcase)
          (congrArg Case.tag hcase)
        exact Option.some.inj (hname.symm.trans hname')
      simpa [Callable.same] using hnames
    | _ => simp [Callable.same]
  | constructor c => cases g <;> simp [Callable.same]
  | predicate c => cases g <;> simp [Callable.same]
  | builtin b => cases g <;> simp [Callable.same]

/-- Values of an interpreter are equal if they are the same. -/
theorem Value.Traced.same_iff (hp : p.Distinct) (hnames : (p.functions.map (·.name)).Nodup)
    (hx : x.Traced p made) (hy : y.Traced p made) : x.same y = true ↔ x = y := by
  induction hx generalizing y with
  | unit => cases y <;> simp [Value.same]
  | bool b => cases y <;> simp [Value.same]
  | int n => cases y <;> simp [Value.same]
  | str s => cases y <;> simp [Value.same]
  | @«variant» u n t fields _ _ ih =>
    cases hy with
    | @«variant» u' n' t' fields' _ hfields' =>
      have hall : List.Forall₂ (Holds .eq) fields fields' ↔ fields = fields' :=
        forall₂_iff_eq fun f hf g hg => holds_eq_iff.trans (ih f hf (hfields' g hg))
      simp only [Value.same, Bool.and_eq_true, decide_eq_true_eq, sameAll_iff, hall,
        Value.variant.injEq, and_assoc]
    | _ => simp [Value.same]
  | callable hf =>
    cases hy with
    | callable hg =>
      simp only [Value.same, hf.same_iff hp hnames hg, Value.callable.injEq]
    | _ => simp [Value.same]

end Equality

section Order

variable {α : Type} [LinearOrder α] {inj : α → Value}

/-- How values that are made of an ordered type are compared. -/
structure Ordered (inj : α → Value) : Prop where
  exactly_one : ∀ a b,
    Holds .lt (inj a) (inj b) ∧ Fails .eq (inj a) (inj b) ∧ Fails .gt (inj a) (inj b) ∨
    Fails .lt (inj a) (inj b) ∧ Holds .eq (inj a) (inj b) ∧ Fails .gt (inj a) (inj b) ∨
    Fails .lt (inj a) (inj b) ∧ Fails .eq (inj a) (inj b) ∧ Holds .gt (inj a) (inj b)
  le : ∀ a b, Holds .le (inj a) (inj b) ∧ Fails .gt (inj a) (inj b) ∨
    Fails .le (inj a) (inj b) ∧ Holds .gt (inj a) (inj b)
  ge : ∀ a b, Holds .ge (inj a) (inj b) ∧ Fails .lt (inj a) (inj b) ∨
    Fails .ge (inj a) (inj b) ∧ Holds .lt (inj a) (inj b)
  lt_trans : ∀ a b c, Holds .lt (inj a) (inj b) → Holds .lt (inj b) (inj c) →
    Holds .lt (inj a) (inj c)
  lt_iff : ∀ a b, Holds .lt (inj a) (inj b) ↔ a < b

lemma Ordered.of_compare (h : ∀ op ∈ [BinaryOp.eq, .lt, .le, .gt, .ge], ∀ a b,
    operate op (inj a) (inj b) = .ok (.bool (holdsOf op (compare a b)))) : Ordered inj := by
  have hholds : ∀ op ∈ [BinaryOp.eq, .lt, .le, .gt, .ge], ∀ a b,
      (Holds op (inj a) (inj b) ↔ holdsOf op (compare a b) = true) ∧
        (Fails op (inj a) (inj b) ↔ holdsOf op (compare a b) = false) := by
    intro op hop a b
    rw [Holds, Fails, h op hop a b]
    simp
  have hlt : ∀ a b, Holds .lt (inj a) (inj b) ↔ a < b := by
    intro a b
    rw [(hholds .lt (by simp) a b).1, ← compare_lt_iff_lt]
    exact Ordering.isLT_iff_eq_lt
  simp only [List.forall_mem_cons, List.not_mem_nil, false_imp_iff, forall_true_iff] at hholds
  obtain ⟨heq, hl, hle, hgt, hge, -⟩ := hholds
  refine ⟨fun a b => ?_, fun a b => ?_, fun a b => ?_, fun a b c hab hbc => ?_, hlt⟩
  · simp only [heq, hl, hgt]
    cases compare a b <;> decide
  · simp only [hle, hgt]
    cases compare a b <;> decide
  · simp only [hge, hl]
    cases compare a b <;> decide
  · exact (hlt a c).mpr (((hlt a b).mp hab).trans ((hlt b c).mp hbc))

lemma ordered_int : Ordered Value.int := by
  refine .of_compare fun op hop a b => ?_
  fin_cases hop <;> rfl

lemma ordered_str : Ordered Value.str := by
  refine .of_compare fun op hop a b => ?_
  fin_cases hop <;> rfl

/-- Strings are ordered by their characters, and these by their code points. -/
lemma str_lt_iff (a b : String) :
    a < b ↔ List.Lex (fun c d : Char => c.toNat < d.toNat) a.toList b.toList := by
  rw [String.lt_iff_toList_lt]
  exact Iff.rfl

end Order

section Arithmetic

/-- What an arithmetic operator means. -/
def arithmetic? : BinaryOp → Option (Int → Int → Int)
  | .add => some (· + ·)
  | .sub => some (· - ·)
  | .mul => some (· * ·)
  | _ => none

lemma fits_iff (n : Int) : Integer.fits n = true ↔ -2 ^ 63 ≤ n ∧ n < 2 ^ 63 := by
  have hleast : Integer.least = -2 ^ 63 := rfl
  have hgreatest : Integer.greatest = 2 ^ 63 - 1 := rfl
  rw [Integer.fits, hleast, hgreatest]
  simp only [Bool.and_eq_true, decide_eq_true_eq]
  omega

lemma operate_ints {op : BinaryOp} {f : Int → Int → Int} (h : arithmetic? op = some f)
    (a b : Int) : operate op (.int a) (.int b) =
      if -2 ^ 63 ≤ f a b ∧ f a b < 2 ^ 63 then .ok (.int (f a b)) else .error (.overflow op) := by
  have hop : operate op (.int a) (.int b) = checked op (f a b) := by
    cases op <;> cases h <;> rfl
  rw [hop, checked]
  simp only [fits_iff]

end Arithmetic

section Laws

/-- The values of an interpreter: those of a moment, those that came out before, and what is in
them. -/
inductive Moment.Knows (vs : List Value) (a : Moment) : Value → Prop
  | has {v : Value} (h : a.Has v) : Knows vs a v
  | out {v : Value} (h : v ∈ vs) : Knows vs a v
  | field {u n : String} {t : Nat} {fields : List Value} {v : Value}
    (h : Knows vs a (.variant u n t fields)) (hv : v ∈ fields) : Knows vs a v

/-- What is equal, and what can be asked, among the values of an interpreter. -/
structure EqualityLaws (p : Core.Program) (vs : List Value) (a : Moment) : Prop where
  defined : ∀ x y, (∃ v, operate .eq x y = .ok v) ↔ x.type.name = y.type.name
  opposite : ∀ x y, x.type.name = y.type.name →
    Holds .eq x y ∧ Fails .ne x y ∨ Fails .eq x y ∧ Holds .ne x y
  refl : ∀ x, a.Knows vs x → Holds .eq x x
  symm : ∀ x y, a.Knows vs x → a.Knows vs y → Holds .eq x y → Holds .eq y x
  trans : ∀ x y z, a.Knows vs x → a.Knows vs y → a.Knows vs z → Holds .eq x y → Holds .eq y z →
    Holds .eq x z
  /-- Each variant value is of a declared case. -/
  cases : ∀ x, a.Knows vs x → x.type = .variant →
    ∃ c fs, p.HasCase c ∧ fs.length = c.fields.length ∧ x = c.make fs
  /-- Variant values are equal or not by their cases and fields, whatever the types of these. -/
  variants : ∀ c c', p.HasCase c → p.HasCase c' → ∀ fs gs,
    (Holds .eq (c.make fs) (c'.make gs) ↔ c = c' ∧ List.Forall₂ (Holds .eq) fs gs) ∧
      (Fails .eq (c.make fs) (c'.make gs) ↔ ¬ (c = c' ∧ List.Forall₂ (Holds .eq) fs gs))
  callables : ∀ f g, a.Knows vs (.callable f) → a.Knows vs (.callable g) →
    (Holds .eq (.callable f) (.callable g) ↔ f = g)
  /-- A closure equals none that was made before. -/
  closures : ∀ ps variadic body s k, a = .doing (.eval (.lambda ps variadic body)) s k →
    ∀ f, a.Knows vs (.callable f) → Fails .eq (.callable f)
      (.callable (.closure s.machine.closures ⟨ps, variadic, body⟩ s.env.1.current))

/-- The laws of the operators among the values of an interpreter. -/
structure OperatorLaws (p : Core.Program) (vs : List Value) (a : Moment) : Prop where
  equality : EqualityLaws p vs a
  ints : Ordered Value.int
  strs : Ordered Value.str
  code_points : ∀ s t, Holds .lt (.str s) (.str t) ↔
    List.Lex (fun c d : Char => c.toNat < d.toNat) s.toList t.toList
  arithmetic : ∀ op f, arithmetic? op = some f → ∀ x y,
    (-2 ^ 63 ≤ f x y ∧ f x y < 2 ^ 63 → operate op (.int x) (.int y) = .ok (.int (f x y))) ∧
      (¬ (-2 ^ 63 ≤ f x y ∧ f x y < 2 ^ 63) →
        operate op (.int x) (.int y) = .error (.overflow op))

variable {p : Core.Program} {vs : List Value} {a : Moment} {limit : Nat}

/-- A condition on values and what is in them holds of all values of an interpreter. -/
lemma Moment.Knows.every {C : Callable → Prop} {V : String → String → Nat → Nat → Prop}
    (h : ∀ v, a.Has v ∨ v ∈ vs → v.Every C V) {v : Value} (hv : a.Knows vs v) : v.Every C V := by
  induction hv with
  | has hv => exact h _ (.inl hv)
  | out hv => exact h _ (.inr hv)
  | field _ hmem ih =>
    cases ih with
    | variant _ hfields => exact hfields _ hmem

lemma Value.Declared.exists_make {x : Value} (h : x.Declared p) (hx : x.type = .variant) :
    ∃ c fs, p.HasCase c ∧ fs.length = c.fields.length ∧ x = CaseDecl.make c fs := by
  cases h with
  | @«variant» u n t fields hdeclared _ =>
    obtain ⟨c, ⟨hc, rfl, rfl, rfl, hcount⟩, -⟩ := hdeclared
    exact ⟨c, fields, hc, hcount.symm, rfl⟩
  | _ => cases hx

lemma holds_eq_make (hp : p.Distinct) {c c' : CaseDecl} (hc : p.HasCase c) (hc' : p.HasCase c')
    (fs gs : List Value) : Holds .eq (c.make fs) (c'.make gs) ↔
      c = c' ∧ List.Forall₂ (Holds .eq) fs gs := by
  have hcase : (c.parent = c'.parent ∧ c.name = c'.name) ∧ c.tag = c'.tag ↔ c = c' :=
    ⟨fun h => hp.eq_of_hasCase hc hc' h.1.1 h.2, fun h => by subst h; exact ⟨⟨rfl, rfl⟩, rfl⟩⟩
  rw [holds_eq_iff]
  simp only [CaseDecl.make, Value.same, Bool.and_eq_true, decide_eq_true_eq, sameAll_iff, hcase]

/-- Whatever is asked of an interpreter, equality among its values is identity. -/
theorem Arises.equalityLaws (hp : p.Distinct) (hnames : (p.functions.map (·.name)).Nodup)
    (hdeclared : ∀ v, a.Has v ∨ v ∈ vs → v.Declared p) (h : Arises p limit vs a) :
    EqualityLaws p vs a := by
  obtain ⟨made, htraced⟩ := h.traced
  have hidentity : ∀ x y, a.Knows vs x → a.Knows vs y → (Holds .eq x y ↔ x = y) :=
    fun x y hx hy => holds_eq_iff.trans
      (Value.Traced.same_iff hp hnames (hx.every htraced) (hy.every htraced))
  refine ⟨fun x y => ?_, fun x y hxy => ?_, fun x hx => ?_, fun x y hx hy hxy => ?_,
    fun x y z hx hy hz hxy hyz => ?_, fun x hx => Value.Declared.exists_make (hx.every hdeclared),
    fun c c' hc hc' fs gs => ?_, fun f g hf hg => ?_, ?_⟩
  · rw [ValueType.name_injective.eq_iff, operate_eq]
    constructor
    · rintro ⟨v, hv⟩
      by_contra hne
      rw [if_neg hne] at hv
      cases hv
    · intro htype
      exact ⟨_, if_pos htype⟩
  · have htype := ValueType.name_injective hxy
    simp only [Holds, Fails, operate_eq, operate_ne, if_pos htype]
    cases x.same y <;> simp
  · exact (hidentity x x hx hx).mpr rfl
  · exact (hidentity y x hy hx).mpr ((hidentity x y hx hy).mp hxy).symm
  · exact (hidentity x z hx hz).mpr
      (((hidentity x y hx hy).mp hxy).trans ((hidentity y z hy hz).mp hyz))
  · have hholds := holds_eq_make hp hc hc' fs gs
    have htype : (c.make fs).type = (c'.make gs).type := rfl
    exact ⟨hholds, (fails_eq_iff htype).trans hholds.not⟩
  · rw [hidentity _ _ hf hg, Value.callable.injEq]
  · rintro ps variadic body s k rfl f hf
    have htype {g : Callable} : (Value.callable f).type = (Value.callable g).type := rfl
    refine (fails_eq_iff htype).mpr fun hholds => ?_
    have hwithin := hf.every h.within
    have hsame := holds_eq_iff.mp hholds
    cases hwithin with
    | callable hin =>
      cases f with
      | closure n g scope =>
        have hnumber : n = s.machine.closures := by
          simpa [Value.same, Callable.same] using hsame
        exact Nat.lt_irrefl _ (hnumber ▸ hin.1)
      | _ => cases hsame

end Laws

end ClosedSum.Eval

namespace ClosedSum.Compile

open Eval (Interpreter Arises Moment OperatorLaws)

lemma nodup_functions (m : Surface.Module) (fresh : Nat) :
    ((Compiled.ofModule m fresh).program.functions.map (·.name)).Nodup := by
  have hnodup := nodup_generated m fresh
  rw [Eval.generated, List.map_append, List.map_map] at hnodup
  exact (List.nodup_append.mp hnodup).2.1

/-- Whatever is asked of the interpreter of a module, the operators obey their laws on the values
that there are. -/
theorem operator_laws (m : Surface.Module) (fresh limit : Nat) {vs : List Eval.Value} {a : Moment}
    (h : Arises (Compiled.ofModule m fresh).program limit vs a) :
    OperatorLaws (Compiled.ofModule m fresh).program vs a := by
  have hdistinct : (Compiled.ofModule m fresh).program.Distinct :=
    (Collected.faithful_ofModule m).distinct _
  have hstart := Eval.Discipline.holds_declared hdistinct limit
  obtain ⟨hfits, hvs⟩ := h.fits not_false hstart
  refine ⟨h.equalityLaws hdistinct (nodup_functions m fresh) fun v hv => ?_, Eval.ordered_int,
    Eval.ordered_str, fun s t => (Eval.ordered_str.lt_iff s t).trans (Eval.str_lt_iff s t),
    fun op f hop x y => ?_⟩
  · have hfit : (Eval.Discipline.declared _ hdistinct).Fits a.status.machine v :=
      hv.elim hfits.of_has (hvs v)
    exact hfit.mono fun _ _ => trivial
  · rw [Eval.operate_ints hop]
    exact ⟨fun hin => if_pos hin, fun hout => if_neg hout⟩

def thunk : Core.Lambda := ⟨[], false, .lit .unit⟩

/-- Each evaluation of a function expression gives a closure of its own. -/
theorem operator_laws_thunks : ∃ vs a, Arises (Compiled.ofModule unboxingTree 0).program 8 vs a ∧
    OperatorLaws (Compiled.ofModule unboxingTree 0).program vs a ∧
    a.Knows vs (.callable (.closure 0 thunk 0)) ∧ a.Knows vs (.callable (.closure 1 thunk 0)) ∧
    Eval.Fails .eq (.callable (.closure 0 thunk 0)) (.callable (.closure 1 thunk 0)) := by
  have hfirst : Arises (Compiled.ofModule unboxingTree 0).program 8 []
      (.doing (.eval (.lambda [] false (.lit .unit)))
        (Interpreter.ofProgram (Compiled.ofModule unboxingTree 0).program 8).status []) :=
    .first trivial
  have hgiven : Arises (Compiled.ofModule unboxingTree 0).program 8 []
      (.giving (.ok (.callable (.closure 0 thunk 0))) _ []) := hfirst.step
  have hsecond := Arises.ask (j := .eval (.lambda [] false (.lit .unit))) hgiven trivial
  have hknown := operator_laws unboxingTree 0 8 hsecond.step
  exact ⟨_, _, hsecond.step, hknown, .out List.mem_cons_self, .has (.given _ [] rfl), rfl⟩

end ClosedSum.Compile
