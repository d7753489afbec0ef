import ClosedSum.Proofs.CaseFunctions

/-!
# Where values come from

A value that is there after a step was there before, is plain, was a field of a value, was just
made by a constructor, or is the one new closure. So every callable of an interpreter is a global of
its program or a closure, and a number of a closure stands for one closure only.
-/

namespace ClosedSum.Eval

/-- What a name stands for after a scope was added is bound in it or was bound before, wherever the
new scope is. -/
lemma Store.mem_or_lookup?_of_push {s : Store} {parent : Nat} {bindings : List (String × Value)}
    {scope : Nat} {x : String} {v : Value}
    (h : (s.push parent bindings).2.lookup? scope x = some v) :
    (x, v) ∈ bindings ∨ ∃ scope', s.lookup? scope' x = some v := by
  by_cases hparent : parent < s.size
  · exact of_lookup?_push hparent h
  · rcases Nat.lt_trichotomy scope s.size with hold | rfl | hnone
    · exact .inr ⟨scope, (lookup?_push_of_lt _ _ _ _ hold).symm.trans h⟩
    · have hget : (s.push parent bindings).2.scopes[s.size]? = some ⟨bindings, some parent⟩ := by
        simp [push, size]
      rw [lookup?, hget] at h
      dsimp only at h
      cases hx : bindings.lookup x with
      | some w =>
        rw [hx] at h
        obtain rfl : w = v := Option.some.inj h
        obtain ⟨l, r, rfl, -⟩ := List.lookup_eq_some_iff.mp hx
        exact .inl (List.mem_append_right _ (List.mem_cons_self ..))
      | none =>
        rw [hx] at h
        simp only [if_neg hparent] at h
        cases h
    · rw [lookup?_of_size_le _ _ (by rw [size_push]; exact hnone)] at h
      cases h

lemma mem_of_readField {c : Case} {index : Nat} {name : String} {v w : Value} {m : Machine}
    (h : (readField c index name v m).1 = .ok w) :
    ∃ u n t fields, v = .variant u n t fields ∧ w ∈ fields := by
  cases v with
  | «variant» u n t fields =>
    refine ⟨u, n, t, fields, rfl, ?_⟩
    simp only [readField] at h
    split at h
    · cases hget : fields[index]? with
      | some field =>
        rw [hget] at h
        cases h
        exact List.mem_of_getElem? hget
      | none =>
        rw [hget] at h
        cases h
    · cases h
  | _ => cases h

lemma builtin_isPlain {b : Builtin} {args : List Value} {v : Value} {m : Machine}
    (h : (b.apply args m).1 = .ok v) : v.IsPlain := by
  have hint : ∀ (f : Int → Int → Int) (u w : Value), ((do
      return .int (f (← expectInt u) (← expectInt w)) : Run Value) m).1 = .ok v → v.IsPlain := by
    intro f u w hv
    cases u with
    | int a =>
      cases w with
      | int b =>
        cases hv
        trivial
      | _ => cases hv
    | _ => cases hv
  unfold Builtin.apply at h
  split at h
  · cases h
    trivial
  · exact hint max _ _ h
  · exact hint min _ _ h
  · cases h
    trivial
  · cases h

/-- The values that something is to be done with. -/
def Job.values : Job → List Value
  | .eval _ => []
  | .call f args => f :: args

namespace Moment

/-- How a value that is there after a step came from the moment before. -/
inductive Brings (a : Moment) : Value → Prop
  | old {v : Value} (h : a.Has v) : Brings a v
  | plain {v : Value} (h : v.IsPlain) : Brings a v
  | field {u n : String} {t : Nat} {fields : List Value} {v : Value}
    (h : a.Has (.variant u n t fields)) (hv : v ∈ fields) : Brings a v
  | closure {ps : List Core.Param} {variadic : Bool} {body : Core.Expr} {s : Status}
    {k : List Pending} (ha : a = .doing (.eval (.lambda ps variadic body)) s k) :
    Brings a (.callable (.closure s.machine.closures ⟨ps, variadic, body⟩ s.env.1.current))
  | constructed {c : Case} {args : List Value} {s : Status} {k : List Pending}
    (ha : a = .doing (.call (.callable (.constructor c)) args) s k) :
    Brings a (.variant c.variant c.typeName c.tag args)

variable {P : Value → Prop} {s : Status} {k : List Pending}

/-- A condition on the values that are bound and on those that something waits with. -/
structure Keeping (P : Value → Prop) (s : Status) (k : List Pending) : Prop where
  bound : ∀ i x v, s.machine.store.lookup? i x = some v → P v
  waits : ∀ p ∈ k, ∀ v ∈ p.values, P v

namespace Keeping

lemma cons (h : Keeping P s k) {p : Pending} (hp : ∀ v ∈ p.values, P v) : Keeping P s (p :: k) :=
  ⟨h.bound, List.forall_mem_cons.mpr ⟨hp, h.waits⟩⟩

lemma doing (h : Keeping P s k) {j : Job} (hj : ∀ v ∈ j.values, P v) {v : Value}
    (hv : (Moment.doing j s k).Has v) : P v := by
  cases hv with
  | bound i x h' => exact h.bound i x v h'
  | waiting p hp hv => exact h.waits p hp v hv
  | handed f args s k ha hv =>
    cases ha
    exact hj v hv
  | given s k ha => cases ha

lemma giving (h : Keeping P s k) {r : Except Fault Value} (hr : ∀ v, r = .ok v → P v) {v : Value}
    (hv : (Moment.giving r s k).Has v) : P v := by
  cases hv with
  | bound i x h' => exact h.bound i x v h'
  | waiting p hp hv => exact h.waits p hp v hv
  | handed f args s k ha hv => cases ha
  | given s k ha =>
    cases ha
    exact hr v rfl

lemma fault (h : Keeping P s k) {f : Fault} {v : Value}
    (hv : (Moment.giving (.error f) s k).Has v) : P v := by
  refine h.giving (fun w hw => ?_) hv
  cases hw

/-- A computation that leaves the store alone. -/
lemma after (h : Keeping P s k) {r : Run Value} {line : String} (hr : Run.Simple line r)
    (hresult : ∀ v, (r s.machine).1 = .ok v → P v) {v : Value} (hv : (s.after r k).Has v) :
    P v := by
  refine giving ⟨fun i x v hv => ?_, h.waits⟩ hresult hv
  dsimp only at hv
  rw [hr.store] at hv
  exact h.bound i x v hv

lemma fail (h : Keeping P s k) {cause : Cause} {v : Value}
    (hv : (s.after (Run.fail cause) k).Has v) : P v :=
  fault (f := ⟨cause, []⟩) ⟨h.bound, h.waits⟩ hv

lemma nextArgument (h : Keeping P s k) {f : Value} {done : List Value} (hf : P f)
    (hdone : ∀ v ∈ done, P v) (es : List Core.Expr) {v : Value}
    (hv : (nextArgument f done es s k).Has v) : P v := by
  have hall : ∀ v ∈ f :: done, P v := List.forall_mem_cons.mpr ⟨hf, hdone⟩
  cases es with
  | nil => exact h.doing (j := .call f done) hall hv
  | cons e es => exact (h.cons (p := .argument f done es) hall).doing (List.forall_mem_nil _) hv

lemma push (h : Keeping P s k) {parent : Nat} {bindings : List (String × Value)}
    (hbindings : ∀ b ∈ bindings, P b.2) {s' : Status}
    (hs' : s'.machine.store = (s.machine.store.push parent bindings).2) : Keeping P s' k := by
  refine ⟨fun i x v hv => ?_, h.waits⟩
  rw [hs'] at hv
  rcases Store.mem_or_lookup?_of_push hv with hb | ⟨i', hold⟩
  · exact hbindings (x, v) hb
  · exact h.bound i' x v hold

lemma enterBody (h : Keeping P s k) {bindings : List (String × Value)}
    (hbindings : ∀ b ∈ bindings, P b.2) (limit scope : Nat) (name? : Option String)
    (body : Core.Expr) {v : Value} (hv : ((s.extend scope bindings).2.enterBody limit
      (s.extend scope bindings).1 name? body k).Has v) : P v := by
  have hreversed : ∀ b ∈ bindings.reverse, P b.2 := fun b hb => hbindings b (List.mem_reverse.mp hb)
  rw [Status.extend_eq] at hv
  unfold Status.enterBody at hv
  split at hv
  · exact (h.push hreversed rfl).fault hv
  · exact ((h.push hreversed rfl).cons (List.forall_mem_nil _)).doing (List.forall_mem_nil _) hv

end Keeping

/-- All that is there is there. -/
lemma keeping_brings_doing (j : Job) (s : Status) (k : List Pending) :
    Keeping (Moment.doing j s k).Brings s k :=
  ⟨fun i x _ h => .old (.bound i x h), fun p hp _ hv => .old (.waiting p hp hv)⟩

lemma keeping_brings_giving (r : Except Fault Value) (s : Status) (p : Pending)
    (k : List Pending) : Keeping (Moment.giving r s (p :: k)).Brings s k :=
  ⟨fun i x _ h => .old (.bound i x h),
    fun p hp _ hv => .old (.waiting p (List.mem_cons_of_mem _ hp) hv)⟩

lemma brings_stepEval (e : Core.Expr) {v : Value} (h : (stepEval e s k).Has v) :
    (Moment.doing (.eval e) s k).Brings v := by
  have hkeep := keeping_brings_doing (.eval e) s k
  have hturn : ∀ e', ∀ v ∈ (Job.eval e').values,
      (Moment.doing (.eval e) s k).Brings v := fun _ => List.forall_mem_nil _
  cases e with
  | lit l =>
    refine hkeep.after (.pure _) (fun v hv => ?_) h
    cases hv
    exact .plain (by cases l <;> trivial)
  | var x =>
    refine hkeep.after (.lookup _ _) (fun v hv => ?_) h
    rw [Run.lookup_apply] at hv
    cases hx : s.env.1.lookup? s.machine.store x with
    | none =>
      rw [hx] at hv
      cases hv
    | some w =>
      rw [hx] at hv
      cases hv
      exact hkeep.bound _ x v hx
  | call f args => exact (hkeep.cons (List.forall_mem_nil _)).doing (hturn f) h
  | lambda ps variadic body =>
    refine hkeep.after (.newClosure _ _) (fun v hv => ?_) h
    cases hv
    exact .closure rfl
  | letIn x value body => exact (hkeep.cons (List.forall_mem_nil _)).doing (hturn value) h
  | seq es =>
    refine (hkeep.cons (List.forall_mem_nil _)).giving (fun v hv => ?_) h
    cases hv
    exact .plain trivial
  | ifElse test yes no => exact (hkeep.cons (List.forall_mem_nil _)).doing (hturn test) h
  | binary op lhs rhs => exact (hkeep.cons (List.forall_mem_nil _)).doing (hturn lhs) h
  | dispatch bs =>
    cases bs with
    | nil => exact hkeep.fail h
    | cons b bs =>
      obtain ⟨test, action⟩ := b
      simp only [stepEval] at h
      split at h
      · exact hkeep.doing (hturn action) h
      · exact hkeep.doing (hturn (.dispatch bs)) h
      · exact hkeep.fault h
  | fail variant => exact hkeep.fail h
  | error => exact hkeep.fail h

lemma brings_resume {v : Value} (p : Pending) {w : Value} (h : (resume v p s k).Has w) :
    (Moment.giving (.ok v) s (p :: k)).Brings w := by
  have hkeep := keeping_brings_giving (.ok v) s p k
  have hv : (Moment.giving (.ok v) s (p :: k)).Brings v := .old (.given s _ rfl)
  have hp : ∀ w ∈ p.values, (Moment.giving (.ok v) s (p :: k)).Brings w :=
    fun w hw => .old (.waiting p List.mem_cons_self hw)
  have hgives : ∀ w, (.ok v : Except Fault Value) = .ok w →
      (Moment.giving (.ok v) s (p :: k)).Brings w := by
    rintro w ⟨⟩
    exact hv
  cases p with
  | callee args => exact hkeep.nextArgument hv (List.forall_mem_nil _) args h
  | argument f done rest =>
    obtain ⟨hf, hdone⟩ := List.forall_mem_cons.mp hp
    exact hkeep.nextArgument hf
      (List.forall_mem_append.mpr ⟨hdone, List.forall_mem_singleton.mpr hv⟩) rest h
  | bind x body =>
    have hstore := congrArg Machine.store (Status.define_pushScope s x v).1
    exact ((hkeep.push (List.forall_mem_singleton.mpr hv) hstore).cons
      (List.forall_mem_nil _)).doing (List.forall_mem_nil _) h
  | leaveScope => exact Keeping.giving (s := s.popScope) ⟨hkeep.bound, hkeep.waits⟩ hgives h
  | leaveCall saved name? =>
    exact Keeping.giving (s := s.leaveCall saved) ⟨hkeep.bound, hkeep.waits⟩ hgives h
  | seq es =>
    cases es with
    | nil => exact hkeep.giving hgives h
    | cons e es => exact (hkeep.cons (List.forall_mem_nil _)).doing (List.forall_mem_nil _) h
  | choose yes no =>
    cases v with
    | bool b => cases b <;> exact hkeep.doing (List.forall_mem_nil _) h
    | _ => exact hkeep.fail h
  | right op rhs =>
    exact (hkeep.cons (p := .operate op v) (List.forall_mem_singleton.mpr hv)).doing
      (List.forall_mem_nil _) h
  | operate op left =>
    refine hkeep.after (operate_simple op left v) (fun u hu => ?_) h
    rw [Run.ofExcept_apply] at hu
    cases hop : operate op left v with
    | ok u' =>
      rw [hop] at hu
      cases hu
      exact .plain (operate_isPlain hop)
    | error cause =>
      rw [hop] at hu
      cases hu

lemma brings_of_handed {f v : Value} {args : List Value} (h : v ∈ f :: args) :
    (Moment.doing (.call f args) s k).Brings v := .old (.handed f args s k rfl h)

lemma brings_stepCall {f : Value} {args : List Value} (limit : Nat) {v : Value}
    (h : (stepCall limit f args s k).Has v) : (Moment.doing (.call f args) s k).Brings v := by
  have hkeep := keeping_brings_doing (.call f args) s k
  have hbindings : ∀ params : List String, ∀ b ∈ params.zip args,
      (Moment.doing (.call f args) s k).Brings b.2 := fun params b hb =>
    brings_of_handed (List.mem_cons_of_mem _ (List.of_mem_zip hb).2)
  cases f with
  | callable f =>
    cases f with
    | closure n f scope =>
      simp only [stepCall] at h
      split at h
      · exact hkeep.enterBody (hbindings _) limit scope none f.body h
      · exact hkeep.fail h
    | function f =>
      simp only [stepCall] at h
      split at h
      · exact hkeep.enterBody (hbindings _) limit Store.global f.name f.body h
      · exact hkeep.fail h
    | constructor c =>
      refine hkeep.after ((expectArity_simple _ _ _).bind fun _ => .pure _) (fun v hv => ?_) h
      simp only [expectArity] at hv
      split at hv
      · cases hv
        exact .constructed rfl
      · cases hv
    | accessor c index name =>
      refine hkeep.after ((expectOne_simple _ _).bind fun _ => readField_simple _ _ _ _)
        (fun v hv => ?_) h
      rcases args with _ | ⟨w, _ | ⟨w', rest⟩⟩
      · cases hv
      · obtain ⟨u, n, t, fields, rfl, hmem⟩ := mem_of_readField hv
        exact .field (.handed _ _ s k rfl (List.mem_cons_of_mem _ (List.mem_cons_self ..))) hmem
      · cases hv
    | predicate c =>
      refine hkeep.after ((expectOne_simple _ _).bind fun _ => .pure _) (fun v hv => ?_) h
      rcases args with _ | ⟨w, _ | ⟨w', rest⟩⟩
      · cases hv
      · cases hv
        exact .plain trivial
      · cases hv
    | builtin b =>
      exact hkeep.after (builtin_simple b args) (fun v hv => .plain (builtin_isPlain hv)) h
  | _ => exact hkeep.fail h

/-- A value that is there after a step came from the moment before, and in no other way than these.
-/
theorem brings_of_has_step {a : Moment} (limit : Nat) {v : Value} (h : (step limit a).Has v) :
    a.Brings v := by
  match a with
  | .doing (.eval e) s k => exact brings_stepEval e h
  | .doing (.call f args) s k => exact brings_stepCall limit h
  | .giving r s [] => exact .old h
  | .giving (.ok u) s (p :: k) => exact brings_resume p h
  | .giving (.error f) s (p :: k) =>
    have hkeep := keeping_brings_giving (.error f) s p k
    have hmachine : (p.leave s).machine = s.machine := by cases p <;> rfl
    have hleft : Keeping (Moment.giving (.error f) s (p :: k)).Brings (p.leave s) k :=
      ⟨hmachine ▸ hkeep.bound, hkeep.waits⟩
    exact hleft.fault h

end Moment

section Tracing

variable {p : Core.Program} {made made' : Nat → Core.Lambda × Nat} {limit : Nat}
  {vs : List Value} {a : Moment} {m : Machine} {v : Value}

/-- A global of a program, or the one closure that was made with its number. -/
def Callable.Traced (p : Core.Program) (made : Nat → Core.Lambda × Nat) : Callable → Prop
  | .closure n f scope => made n = (f, scope)
  | f => ∃ x, (x, .callable f) ∈ programGlobals p

def Value.Traced (p : Core.Program) (made : Nat → Core.Lambda × Nat) (v : Value) : Prop :=
  v.Every (Callable.Traced p made) fun _ _ _ _ => True

lemma Value.traced_of_isPlain (h : v.IsPlain) : v.Traced p made := by
  cases v with
  | «variant» => exact h.elim
  | callable => exact h.elim
  | _ => constructor

lemma Value.traced_of_mem_programGlobals {b : String × Value} (h : b ∈ programGlobals p) :
    b.2.Traced p made := by
  obtain ⟨x, v⟩ := b
  have hglobal := h
  simp only [programGlobals, caseGlobals, List.mem_append, List.mem_map, List.mem_flatMap,
    List.mem_cons, Prod.mk.injEq] at h
  rcases h with (⟨_, _, _, rfl⟩ | ⟨_, _, _, _, ⟨_, rfl⟩ | ⟨_, rfl⟩ | ⟨_, _, _, rfl⟩⟩) |
    ⟨_, _, _, rfl⟩
  all_goals exact .callable ⟨x, hglobal⟩

/-- Closures made later have other numbers. -/
lemma Value.Traced.extend (h : v.Traced p made) (hwithin : v.Within m)
    (hsame : ∀ n < m.closures, made' n = made n) : v.Traced p made' := by
  induction h with
  | unit => exact .unit
  | bool b => exact .bool b
  | int n => exact .int n
  | str s => exact .str s
  | variant _ _ ih =>
    cases hwithin with
    | variant _ hfields => exact .variant trivial fun f hf => ih f hf (hfields f hf)
  | @callable f hf =>
    cases hwithin with
    | callable hin =>
      refine .callable ?_
      cases f with
      | closure n f scope => exact (hsame n hin.1).trans hf
      | _ => exact hf

/-- What a step brings is traced, given the number of the closure that it makes. -/
lemma Moment.Brings.traced (hv : a.Brings v) (h : ∀ v, a.Has v → v.Traced p made)
    (hwithin : ∀ v, a.Has v → v.Within a.status.machine)
    (hsame : ∀ n < a.status.machine.closures, made' n = made n)
    (hnew : ∀ ps variadic body s k, a = .doing (.eval (.lambda ps variadic body)) s k →
      made' s.machine.closures = (⟨ps, variadic, body⟩, s.env.1.current)) : v.Traced p made' := by
  cases hv with
  | old hv => exact (h v hv).extend (hwithin v hv) hsame
  | plain hv => exact Value.traced_of_isPlain hv
  | field hv hmem =>
    have hwhole := (h _ hv).extend (hwithin _ hv) hsame
    cases hwhole with
    | variant _ hfields => exact hfields v hmem
  | closure ha => exact .callable (hnew _ _ _ _ _ ha)
  | @constructed c args s k ha =>
    refine .variant trivial fun f hf => ?_
    have hhas : a.Has f := .handed _ args s k ha (List.mem_cons_of_mem _ hf)
    exact (h f hhas).extend (hwithin f hhas) hsame

/-- A step makes one closure at most, and gives it a number of its own. -/
lemma Moment.traced_step (limit : Nat) (h : ∀ v, a.Has v → v.Traced p made)
    (hwithin : ∀ v, a.Has v → v.Within a.status.machine) :
    ∃ made', (∀ n < a.status.machine.closures, made' n = made n) ∧
      ∀ v, (step limit a).Has v → v.Traced p made' := by
  by_cases hmakes : ∃ ps variadic body s k, a = .doing (.eval (.lambda ps variadic body)) s k
  · obtain ⟨ps, variadic, body, s, k, rfl⟩ := hmakes
    have hsame : ∀ n < s.machine.closures, Function.update made s.machine.closures
        (⟨ps, variadic, body⟩, s.env.1.current) n = made n := fun n hn =>
      Function.update_of_ne (Nat.ne_of_lt hn) _ _
    refine ⟨_, hsame, fun v hv => (brings_of_has_step limit hv).traced h hwithin hsame ?_⟩
    rintro _ _ _ _ _ ⟨⟩
    exact Function.update_self ..
  · refine ⟨made, fun _ _ => rfl, fun v hv => (brings_of_has_step limit hv).traced h hwithin
      (fun _ _ => rfl) fun ps variadic body s k ha => ?_⟩
    exact absurd ⟨ps, variadic, body, s, k, ha⟩ hmakes

/-- Whatever is asked of an interpreter, its values have the closures that it made and no others. -/
lemma Arises.within (h : Arises p limit vs a) :
    ∀ v, a.Has v ∨ v ∈ vs → v.Within a.status.machine := by
  obtain ⟨hfits, hvs⟩ := h.fits (D := Discipline.scoping) not_false
    (Discipline.holds_scoping_iff.mpr (wellScoped_ofProgram p limit))
  exact fun v hv => Discipline.fits_scoping_iff.mp (hv.elim hfits.of_has (hvs v))

/-- Whatever is asked of an interpreter, each callable in its values is a global of the program or
the one closure that was made with its number. -/
theorem Arises.traced (h : Arises p limit vs a) :
    ∃ made, ∀ v, a.Has v ∨ v ∈ vs → v.Traced p made := by
  -- what is asked for is there already, or plain
  have hopen {made : Nat → Core.Lambda × Nat} {s : Status} {vs : List Value} {j : Job}
      (hbound : ∀ i x v, s.machine.store.lookup? i x = some v → v.Traced p made)
      (hvs : ∀ v ∈ vs, v.Traced p made) (hj : j.Open s vs) :
      ∀ v, (Moment.doing j s []).Has v → v.Traced p made := by
    refine fun v hv => Moment.Keeping.doing ⟨hbound, List.forall_mem_nil _⟩ (fun w hw => ?_) hv
    cases j with
    | eval e => cases hw
    | call f args =>
      obtain hplain | hout | ⟨x, hx⟩ := hj w hw
      · exact Value.traced_of_isPlain hplain
      · exact hvs w hout
      · exact hbound _ x w hx
  induction h with
  | @first j hj =>
    refine ⟨fun _ => (⟨[], false, .error⟩, 0), fun v hv => ?_⟩
    refine hopen (fun i x v hv => ?_) (List.forall_mem_nil _) hj v
      (hv.resolve_right List.not_mem_nil)
    exact Value.traced_of_mem_programGlobals
      (List.mem_reverse.mp (Store.mem_of_lookup?_ofGlobals hv))
  | step h ih =>
    obtain ⟨made, ih⟩ := ih
    obtain ⟨made', hsame, hnew⟩ := Moment.traced_step limit (fun v hv => ih v (.inl hv))
      fun v hv => h.within v (.inl hv)
    exact ⟨made', fun v hv => hv.elim (hnew v) fun hout =>
      (ih v (.inr hout)).extend (h.within v (.inr hout)) hsame⟩
  | @ask vs r s j h hj ih =>
    obtain ⟨made, ih⟩ := ih
    have hall : ∀ v ∈ r.toOption.toList ++ vs, v.Traced p made := by
      refine List.forall_mem_append.mpr ⟨fun v hv => ih v (.inl (.given s [] ?_)),
        fun v hv => ih v (.inr hv)⟩
      cases r with
      | error f => cases hv
      | ok w => rw [List.mem_singleton.mp hv]
    exact ⟨made, fun v hv => hv.elim
      (hopen (fun i x v hv => ih v (.inl (.bound i x hv))) hall hj v) (hall v)⟩
  | @drain vs r s h ih =>
    obtain ⟨made, ih⟩ := ih
    refine ⟨made, fun v hv => hv.elim (fun hhas => ?_) fun hout => ih v (.inr hout)⟩
    refine Moment.Keeping.giving ⟨fun i x v hv => ?_, List.forall_mem_nil _⟩ (fun v hr => ?_) hhas
    · exact ih v (.inl (.bound i x hv))
    · exact ih v (.inl (.given s [] (by rw [hr])))

end Tracing

end ClosedSum.Eval
