import ClosedSum.Proofs.GuardedCalls
import ClosedSum.Proofs.ReadBack
import ClosedSum.Proofs.Renumbering

/-!
# Drawn names

The use of a match operator binds its scrutinee and its wildcards to names that are drawn for them.
The counter only goes up, so no name is drawn twice, and each holds a percent sign, so it is no name
of the source and none that is built from the source. A scrutinee is bound right around the dispatch
on it, where nothing can hide it.
-/

namespace ClosedSum

/-- A drawn name tells its number. -/
lemma eq_of_freshName_eq {stem stem' : String} (h : NoPercent stem) {n n' : Nat}
    (heq : freshName stem n = freshName stem' n') (h' : NoPercent stem') : n = n' := by
  have hdigits : '%' ∉ Nat.toDigits 10 n := fun hmem =>
    absurd (Nat.isDigit_of_mem_toDigits (by decide) (by decide) hmem) (by decide)
  have hlist := congrArg String.toList heq
  rw [toList_freshName, toList_freshName, List.append_cons_inj_of_notMem h hdigits] at hlist
  obtain rfl : stem = stem' := String.toList_inj.mp hlist.1
  exact Core.Expr.freshName_injective stem heq

namespace Core

def Expr.isDispatch : Expr → Bool
  | .dispatch _ => true
  | _ => false

mutual

/-- The names that expansions bind: those of the scrutinees of dispatches, and those of parameters
that stand for wildcards. -/
def Expr.drawn : Expr → List String
  | .lit _ | .var _ | .fail _ | .error => []
  | .call callee args => callee.drawn ++ drawnAll args
  | .lambda params _ body => (params.filter (·.unused)).map (·.name) ++ body.drawn
  | .letIn x value body => (if body.isDispatch then [x] else []) ++ (value.drawn ++ body.drawn)
  | .seq exprs => drawnAll exprs
  | .ifElse test yes no => test.drawn ++ (yes.drawn ++ no.drawn)
  | .binary _ lhs rhs => lhs.drawn ++ rhs.drawn
  | .dispatch branches => drawnBranches branches

def drawnAll : List Expr → List String
  | [] => []
  | e :: es => e.drawn ++ drawnAll es

def drawnBranches : List Branch → List String
  | [] => []
  | .mk _ action :: bs => action.drawn ++ drawnBranches bs

end

def Program.drawn (p : Program) : List String := p.functions.flatMap (·.body.drawn)

mutual

/-- Code in which each dispatch stands right inside the binding of its scrutinee. -/
inductive Expr.Scoped : Expr → Prop
  | lit (l : Literal) : Expr.Scoped (.lit l)
  | var (x : String) : Expr.Scoped (.var x)
  | call {f : Expr} {args : List Expr} (hf : Expr.Scoped f) (hargs : ∀ e ∈ args, Expr.Scoped e) :
    Expr.Scoped (.call f args)
  | lambda (params : List Param) (variadic : Bool) {body : Expr} (hbody : Expr.Scoped body) :
    Expr.Scoped (.lambda params variadic body)
  | letIn (x : String) {value body : Expr} (hvalue : Expr.Scoped value) (hbody : Expr.Scoped body) :
    Expr.Scoped (.letIn x value body)
  | seq {es : List Expr} (hes : ∀ e ∈ es, Expr.Scoped e) : Expr.Scoped (.seq es)
  | ifElse {test yes no : Expr} (htest : Expr.Scoped test) (hyes : Expr.Scoped yes)
    (hno : Expr.Scoped no) : Expr.Scoped (.ifElse test yes no)
  | binary (op : BinaryOp) {lhs rhs : Expr} (hlhs : Expr.Scoped lhs) (hrhs : Expr.Scoped rhs) :
    Expr.Scoped (.binary op lhs rhs)
  | fail (variant : String) : Expr.Scoped (.fail variant)
  | error : Expr.Scoped .error
  | dispatch {x : String} {value : Expr} {bs : List Branch} (hvalue : Expr.Scoped value)
    (hbs : ∀ b ∈ bs, Branch.Scoped x b) : Expr.Scoped (.letIn x value (.dispatch bs))

/-- A branch that reads `x` alone: its test asks for the case of `x`, and the function of its clause
is called on fields of `x`. -/
inductive Branch.Scoped : String → Branch → Prop
  | fail (x variant : String) : Branch.Scoped x (.mk .always (.fail variant))
  | default (x : String) {body : Expr} (hbody : Expr.Scoped body) :
    Branch.Scoped x (.mk .always (.call (.lambda [] false body) []))
  | case (x variant : String) (tag : Nat) (predicate : String) (params : List Param)
    (variadic : Bool) {body : Expr} (hbody : Expr.Scoped body) (accessors : List String) :
    Branch.Scoped x (.mk (.case x variant tag predicate) (.call (.lambda params variadic body)
      (accessors.map fun f => .call (.var f) [.var x])))

end

lemma Expr.Scoped.isDispatch_eq_false {e : Expr} (h : e.Scoped) : e.isDispatch = false := by
  cases h <;> rfl

lemma drawnAll_eq_flatMap (es : List Expr) : drawnAll es = es.flatMap (·.drawn) := by
  induction es with
  | nil => rfl
  | cons e es ih => rw [drawnAll, ih, List.flatMap_cons]

end Core

/-- A name that is drawn while the counter goes from `lo` to `hi`. -/
def DrawnName (lo hi : Nat) (x : String) : Prop :=
  ∃ i, lo ≤ i ∧ i < hi ∧ (x = freshName "scrutinee" i ∨ x = freshName "_" i)

/-- Names that are drawn while the counter goes from `lo` to `hi`, none of them twice. -/
def DrawnNames (lo hi : Nat) (xs : List String) : Prop :=
  xs.Nodup ∧ ∀ x ∈ xs, DrawnName lo hi x

namespace DrawnNames

variable {lo mid hi : Nat} {xs ys : List String}

lemma nil (lo hi : Nat) : DrawnNames lo hi [] := ⟨.nil, List.forall_mem_nil _⟩

lemma perm (h : DrawnNames lo hi xs) (hperm : xs.Perm ys) : DrawnNames lo hi ys :=
  ⟨hperm.nodup h.1, fun x hx => h.2 x (hperm.mem_iff.mpr hx)⟩

/-- What is drawn later has a higher number. -/
lemma append (hxs : DrawnNames lo mid xs) (hys : DrawnNames mid hi ys) (hlo : lo ≤ mid)
    (hhi : mid ≤ hi) : DrawnNames lo hi (xs ++ ys) := by
  have hscrutinee : NoPercent "scrutinee" := by simp [NoPercent]
  have hwildcard : NoPercent "_" := by simp [NoPercent]
  refine ⟨List.nodup_append.mpr ⟨hxs.1, hys.1, ?_⟩, List.forall_mem_append.mpr ⟨?_, ?_⟩⟩
  · rintro x hx y hy rfl
    obtain ⟨i, -, hi, hxi⟩ := hxs.2 x hx
    obtain ⟨j, hj, -, hxj⟩ := hys.2 x hy
    have hij : i = j := by
      rcases hxi with rfl | rfl <;> rcases hxj with heq | heq
      · exact eq_of_freshName_eq hscrutinee heq hscrutinee
      · exact eq_of_freshName_eq hscrutinee heq hwildcard
      · exact eq_of_freshName_eq hwildcard heq hscrutinee
      · exact eq_of_freshName_eq hwildcard heq hwildcard
    omega
  · intro x hx
    obtain ⟨i, hle, hlt, hxi⟩ := hxs.2 x hx
    exact ⟨i, hle, by omega, hxi⟩
  · intro x hx
    obtain ⟨i, hle, hlt, hxi⟩ := hys.2 x hx
    exact ⟨i, by omega, hlt, hxi⟩

lemma scrutinee (n : Nat) : DrawnNames n (n + 1) [freshName "scrutinee" n] :=
  ⟨List.nodup_singleton _,
    List.forall_mem_singleton.mpr ⟨n, Nat.le_refl n, Nat.lt_succ_self n, .inl rfl⟩⟩

lemma wildcard (n : Nat) : DrawnNames n (n + 1) [freshName "_" n] :=
  ⟨List.nodup_singleton _,
    List.forall_mem_singleton.mpr ⟨n, Nat.le_refl n, Nat.lt_succ_self n, .inr rfl⟩⟩

end DrawnNames

namespace Match

/-- The names of the parameters that stand for wildcards are drawn in turn. -/
lemma Param.mapM_compile_drawn (params : List Param) (n : Nat) :
    DrawnNames n (params.mapM Param.compile n).2
      (((params.mapM Param.compile n).1.filter (·.unused)).map (·.name)) := by
  induction params generalizing n with
  | nil => exact .nil _ _
  | cons p params ih =>
    have hcons : (p :: params).mapM Param.compile n =
        ((p.compile n).1 :: (params.mapM Param.compile (p.compile n).2).1,
          (params.mapM Param.compile (p.compile n).2).2) := by
      rw [List.mapM_cons]
      rfl
    have hle := (Param.mapM_compile params (p.compile n).2).1
    have hrest := ih (p.compile n).2
    rw [hcons]
    cases p with
    | named i => exact hrest
    | wildcard span => exact (DrawnNames.wildcard n).append hrest (Nat.le_succ n) hle

namespace Site

/-- A clause adds the names of its wildcards to those in its body. -/
lemma action_drawn (c : Clause) {args : List Core.Expr} (hargs : Core.drawnAll args = [])
    (n : Nat) : ∃ xs, DrawnNames n (action c args n).2 xs ∧
      (action c args n).1.drawn = xs ++ c.body.drawn := by
  cases hc : c.pattern with
  | default =>
    rw [action_of_default hc]
    exact ⟨[], .nil _ _, by simp [Core.Expr.drawn, hargs]⟩
  | case label params =>
    cases params with
    | rest param =>
      rw [action_of_rest hc]
      exact ⟨[], .nil _ _, by simp [Core.Expr.drawn, hargs]⟩
    | list params =>
      rw [action_of_list hc]
      exact ⟨_, Param.mapM_compile_drawn params n, by simp [Core.Expr.drawn, hargs]⟩

lemma drawnAll_fieldCalls (s : Schema) (e : Entry) (scrutinee : String) :
    Core.drawnAll (s.fieldCalls e scrutinee) = [] := by
  simp [Core.drawnAll_eq_flatMap, Schema.fieldCalls, Core.Expr.drawn, Core.drawnAll]

variable {site : Site} {seen : List Ident} {cs : List Clause} {n n' : Nat} {disp : Dispatch}

/-- The branches have the names of the bodies, and those of the wildcards. -/
lemma Compiles.drawn (h : site.Compiles seen cs n disp n') : ∃ xs, DrawnNames n n' xs ∧
    (cs.flatMap (·.body.drawn) ++ xs).Perm (Core.drawnBranches disp.branches) := by
  induction h with
  | close seen n => exact ⟨[], .nil _ _, .refl _⟩
  | @default seen c hc n =>
    rw [closeWith_default seen hc]
    exact ⟨[], .nil _ _, by simp [Core.drawnBranches, Core.Expr.drawn, Core.drawnAll]⟩
  | @case seen c label params cs e disp n n' hc hnew he hrest ih =>
    obtain ⟨xs, hxs, hdrawn⟩ := action_drawn c (drawnAll_fieldCalls _ _ _) n
    obtain ⟨ys, hys, hperm⟩ := ih
    refine ⟨xs ++ ys, hxs.append hys (le_counter_action c _ n) hrest.counter_le, ?_⟩
    rw [Dispatch.branches_addBranch, Core.drawnBranches, hdrawn, List.flatMap_cons]
    have hswap := List.perm_append_comm_assoc (c.body.drawn ++ cs.flatMap (·.body.drawn)) xs ys
    refine hswap.trans ?_
    rw [List.append_assoc c.body.drawn, ← List.append_assoc xs]
    exact hperm.append_left _

/-- The branches of scoped clauses read the scrutinee alone. -/
lemma Compiles.scoped (h : site.Compiles seen cs n disp n') (hcs : ∀ c ∈ cs, c.body.Scoped) :
    ∀ b ∈ disp.branches, b.Scoped site.scrutinee := by
  induction h with
  | close seen n => exact List.forall_mem_singleton.mpr (.fail _ _)
  | @default seen c hc n =>
    rw [closeWith_default seen hc]
    exact List.forall_mem_singleton.mpr (.default _ (hcs c (List.mem_singleton_self c)))
  | @case seen c label params cs e disp n n' hc hnew he hrest ih =>
    obtain ⟨hbody, hcs⟩ := List.forall_mem_cons.mp hcs
    refine List.forall_mem_cons.mpr ⟨?_, ih hcs⟩
    have hcalls : site.schema.fieldCalls e site.scrutinee =
        (e.fields.map (Variant.accessorName site.schema.variant e.label)).map
          fun f => .call (.var f) [.var site.scrutinee] := by
      rw [Schema.fieldCalls, List.map_map]
      rfl
    cases params with
    | list params =>
      rw [action_of_list hc, hcalls]
      exact .case _ _ _ _ _ _ hbody _
    | rest param =>
      rw [action_of_rest hc, hcalls]
      exact .case _ _ _ _ _ _ hbody _

end Site

/-- An expansion draws a name for its scrutinee, and names for its wildcards. -/
lemma Registry.expand_drawn {r : Registry} {operator : Ident} {scrutinee : Core.Expr}
    {clauses : List Clause} {span : Span} {n n' : Nat} {x : Operator.Expansion}
    (h : r.expand operator scrutinee clauses span n = (.ok x, n')) :
    (∃ xs, DrawnNames n n' xs ∧
      (scrutinee.drawn ++ clauses.flatMap (·.body.drawn) ++ xs).Perm x.expr.drawn) ∧
    (scrutinee.Scoped → (∀ c ∈ clauses, c.body.Scoped) → x.expr.Scoped) := by
  unfold Registry.expand at h
  cases hfind : r.find? operator.name with
  | none =>
    rw [hfind] at h
    cases h
  | some o =>
    rw [hfind] at h
    obtain ⟨name, k, hname, h₁⟩ := Compile.bind_eq_ok h
    obtain ⟨disp, k', hcompile, h₂⟩ := Compile.bind_eq_ok h₁
    cases hname
    cases h₂
    have hcompiles := Site.compile_ok hcompile
    constructor
    · obtain ⟨xs, hxs, hperm⟩ := hcompiles.drawn
      refine ⟨_ :: xs, (DrawnNames.scrutinee n).append hxs (Nat.le_succ n) hcompiles.counter_le, ?_⟩
      refine List.perm_middle.trans (.cons _ ?_)
      rw [List.append_assoc]
      exact hperm.append_left _
    · exact fun hscrutinee hclauses => .dispatch hscrutinee (hcompiles.scoped hclauses)

end Match

namespace Compile

open Surface (Expr Stmt Clause)

variable {α β : Type} {registry : Match.Registry}

/-- A step that gives no number back, with a property of what it draws and of its result. -/
def Counts (s : Step α) (Q : Nat → Nat → α → Prop) : Prop :=
  ∀ p, p.fresh ≤ (s p).2.fresh ∧ Q p.fresh (s p).2.fresh (s p).1

namespace Counts

variable {Q : Nat → Nat → α → Prop} {R : Nat → Nat → β → Prop}

lemma pure {a : α} (h : ∀ n, Q n n a) : Counts (Pure.pure a) Q := fun _ => ⟨Nat.le_refl _, h _⟩

/-- What the second step draws comes behind what the first one drew. -/
lemma bind {s : Step α} {f : α → Step β} (hs : Counts s Q)
    (hf : ∀ a, Counts (f a) fun mid hi b => mid ≤ hi → ∀ lo ≤ mid, Q lo mid a → R lo hi b) :
    Counts (s >>= f) R := by
  intro p
  obtain ⟨hfirst, hQ⟩ := hs p
  obtain ⟨hsecond, hR⟩ := hf (s p).1 (s p).2
  exact ⟨Nat.le_trans hfirst hsecond, hR hsecond _ hfirst hQ⟩

lemma mono {s : Step α} {R : Nat → Nat → α → Prop} (hs : Counts s Q)
    (h : ∀ lo hi a, Q lo hi a → R lo hi a) : Counts s R :=
  fun p => ⟨(hs p).1, h _ _ _ (hs p).2⟩

end Counts

lemma report_counts (ds : List Diagnostic) : Counts (report ds) fun lo hi _ => lo = hi :=
  fun _ => ⟨Nat.le_refl _, rfl⟩

/-- Code that was compiled while the counter went from `lo` to `hi`. -/
structure Fresh (lo hi : Nat) (e : Core.Expr) : Prop where
  placed : e.Scoped
  names : DrawnNames lo hi e.drawn

structure FreshAll (lo hi : Nat) (es : List Core.Expr) : Prop where
  placed : ∀ e ∈ es, e.Scoped
  names : DrawnNames lo hi (Core.drawnAll es)

structure FreshClauses (lo hi : Nat) (cs : List Match.Clause) : Prop where
  placed : ∀ c ∈ cs, c.body.Scoped
  names : DrawnNames lo hi (cs.flatMap (·.body.drawn))

lemma FreshAll.nil (n : Nat) : FreshAll n n [] := ⟨List.forall_mem_nil _, .nil n n⟩

lemma FreshAll.cons {lo mid hi : Nat} {e : Core.Expr} {es : List Core.Expr} (he : Fresh lo mid e)
    (hes : FreshAll mid hi es) (hlo : lo ≤ mid) (hhi : mid ≤ hi) : FreshAll lo hi (e :: es) :=
  ⟨List.forall_mem_cons.mpr ⟨he.placed, hes.placed⟩, he.names.append hes.names hlo hhi⟩

lemma FreshAll.sequence {lo hi : Nat} {es : List Core.Expr} (h : FreshAll lo hi es) :
    Fresh lo hi (sequence es) := by
  match es with
  | [] => exact ⟨.lit _, .nil lo hi⟩
  | [e] =>
    obtain ⟨hscoped, hnames⟩ := h
    refine ⟨hscoped e (List.mem_singleton_self e), ?_⟩
    rwa [Core.drawnAll, Core.drawnAll, List.append_nil] at hnames
  | e :: e' :: es => exact ⟨.seq h.placed, h.names⟩

lemma expandMatch_counts (operator : Ident) (scrutinee : Core.Expr) (clauses : List Match.Clause)
    (site : Span) : Counts (expandMatch registry operator scrutinee clauses site) fun mid hi x =>
      (scrutinee.Scoped → (∀ c ∈ clauses, c.body.Scoped) → x.Scoped) ∧ ∀ lo ≤ mid,
        DrawnNames lo mid (scrutinee.drawn ++ clauses.flatMap (·.body.drawn)) →
          DrawnNames lo hi x.drawn := by
  intro p
  have hdraws := registry.expand_draws operator scrutinee clauses site p.fresh
  rw [expandMatch_apply]
  cases hexpand : registry.expand operator scrutinee clauses site p.fresh with
  | mk result fresh =>
    rw [hexpand] at hdraws
    cases result with
    | error f => exact ⟨hdraws, fun _ _ => .error, fun _ _ _ => .nil _ _⟩
    | ok x =>
      obtain ⟨⟨xs, hxs, hperm⟩, hscoped⟩ := Match.Registry.expand_drawn hexpand
      exact ⟨hdraws, hscoped, fun lo hlo hparts => (hparts.append hxs hlo hdraws).perm hperm⟩

mutual

/-- What is compiled of an expression has the names that are drawn meanwhile. -/
theorem expr_counts : (e : Expr) → Counts (expr registry e) Fresh
  | .unit _ | .bool .. | .int .. | .str .. => .pure fun n => ⟨.lit _, .nil n n⟩
  | .ident _ name => .pure fun n => ⟨.var name, .nil n n⟩
  | .call _ callee args =>
    (expr_counts callee).bind fun _ => (exprs_counts args).bind fun _ => .pure
      fun _ _ _ _ hargs hmid _ hlo hf =>
        ⟨.call hf.placed hargs.placed, hf.names.append hargs.names hlo hmid⟩
  | .binary _ op lhs rhs =>
    (expr_counts lhs).bind fun _ => (expr_counts rhs).bind fun _ => .pure
      fun _ _ _ _ hr hmid _ hlo hl =>
        ⟨.binary op hl.placed hr.placed, hl.names.append hr.names hlo hmid⟩
  | .ifElse _ test yes no =>
    (expr_counts test).bind fun _ => (expr_counts yes).bind fun _ => (expr_counts no).bind fun _ =>
      .pure fun _ _ _ _ hno hyn _ hy hyes htn _ ht htest =>
        ⟨.ifElse htest.placed hyes.placed hno.placed,
          htest.names.append (hyes.names.append hno.names hy hyn) ht htn⟩
  | .block _ body => (stmts_counts body).bind fun _ => .pure fun _ _ _ _ h => h.sequence
  | .matchUse _ operator scrutinee cs site =>
    (expr_counts scrutinee).bind fun s => (clauses_counts cs).bind fun clauses =>
      (expandMatch_counts operator s clauses site).mono fun _ _ _ h _ _ hmid hcs _ _ hlo hs =>
        ⟨h.1 hs.placed hcs.placed,
          h.2 _ (Nat.le_trans hlo hmid) (hs.names.append hcs.names hlo hmid)⟩
  | .error _ => .pure fun n => ⟨.error, .nil n n⟩

theorem exprs_counts : (es : List Expr) → Counts (exprs registry es) FreshAll
  | [] => .pure .nil
  | e :: es =>
    (expr_counts e).bind fun _ => (exprs_counts es).bind fun _ => .pure
      fun _ _ _ _ hes hmid _ hlo he => .cons he hes hlo hmid

theorem stmts_counts : (ss : List Stmt) → Counts (stmts registry ss) FreshAll
  | [] => .pure .nil
  | .expr e :: rest =>
    (expr_counts e).bind fun _ => (stmts_counts rest).bind fun _ => .pure
      fun _ _ _ _ hrest hmid _ hlo he => .cons he hrest hlo hmid
  | .bind name value :: rest =>
    (expr_counts value).bind fun _ => (stmts_counts rest).bind fun _ => .pure
      fun _ _ _ _ hrest hmid _ hlo hvalue => by
        have hbody := hrest.sequence
        refine ⟨List.forall_mem_singleton.mpr (.letIn _ hvalue.placed hbody.placed), ?_⟩
        have hnames := hvalue.names.append hbody.names hlo hmid
        simpa [Core.drawnAll, Core.Expr.drawn, hbody.placed.isDispatch_eq_false] using hnames

theorem clauses_counts : (cs : List Clause) → Counts (clauses registry cs) FreshClauses
  | [] => .pure fun n => ⟨List.forall_mem_nil _, .nil n n⟩
  | .mk pattern body span :: rest =>
    (stmts_counts body).bind fun _ => (report_counts _).bind fun _ => (clauses_counts rest).bind
      fun _ => .pure fun _ _ _ _ hrest _ _ _ hreport hmid _ hlo hbody => by
        subst hreport
        have hsequence := hbody.sequence
        exact ⟨List.forall_mem_cons.mpr ⟨hsequence.placed, hrest.placed⟩,
          hsequence.names.append hrest.names hlo hmid⟩

end

lemma functions_counts (fs : List Surface.Function) :
    Counts (fs.mapM (function registry)) fun lo hi gs => (∀ g ∈ gs, g.body.Scoped) ∧
      DrawnNames lo hi (gs.flatMap (·.body.drawn)) := by
  induction fs with
  | nil => exact .pure fun n => ⟨List.forall_mem_nil _, .nil n n⟩
  | cons f fs ih =>
    have hfunction : Counts (function registry f) fun lo hi g => Fresh lo hi g.body :=
      (expr_counts f.body).bind fun _ => .pure fun _ _ _ _ h => h
    rw [List.mapM_cons]
    refine hfunction.bind fun g => ih.bind fun gs => .pure ?_
    rintro n - lo - ⟨hscoped, hnames⟩ hmid lo' hlo hg
    exact ⟨List.forall_mem_cons.mpr ⟨hg.placed, hscoped⟩, hg.names.append hnames hlo hmid⟩

/-- The global names of an item from a source hold no percent sign. -/
lemma noPercent_globalNames {i : Surface.Item} (h : ∀ a ∈ i.names, NoPercent a) :
    ∀ x ∈ i.globalNames, NoPercent x := by
  cases i with
  | function f =>
    exact List.forall_mem_singleton.mpr (h _ (List.mem_cons_self ..))
  | «variant» s =>
    have hs := Variant.Spec.noPercent_of_names h
    have hmatch : NoPercent "match" := by simp [NoPercent]
    have his : NoPercent "is" := by simp [NoPercent]
    have hwords : ∀ {ps : List String}, (∀ p ∈ ps, NoPercent p) → NoPercent (Words.snake ps) :=
      Words.noPercent_snake
    simp only [Surface.Item.globalNames, List.mem_flatMap, List.mem_cons, List.mem_map]
    rintro x (rfl | rfl | ⟨c, hc, rfl | rfl | ⟨f, hf, rfl⟩⟩)
    · exact hs.name
    · exact hwords (by simp [hmatch, hs.name])
    · exact Words.noPercent_camel (by simp [hs.name, hs.labels c hc])
    · exact hwords (by simp [his, hs.name, hs.labels c hc])
    · exact hwords (by simp [hs.name, hs.labels c hc, hs.fields c hc f hf])

lemma DrawnName.not_noPercent {lo hi : Nat} {x : String} (h : DrawnName lo hi x) :
    ¬ NoPercent x := by
  obtain ⟨i, -, -, rfl | rfl⟩ := h <;> exact fun hx => hx (percent_mem_freshName _ i)

/-- A module that is compiled with the counter elsewhere becomes the same, but for the numbers. -/
lemma Compiled.ofModule_add {m : Surface.Module} (hm : ∀ a ∈ m.names, NoPercent a) (fresh k : Nat) :
    ofModule m (fresh + k) = ⟨⟨(ofModule m fresh).program.decls,
      (ofModule m fresh).program.functions.map (·.rename (renumber (· + k)))⟩,
        (ofModule m fresh).diagnostics⟩ := by
  have hfunctions : ∀ f ∈ (Collected.ofModule m).functions, ∀ a ∈ f.body.names, NoPercent a := by
    intro f hf a ha
    have hitem := (Collected.faithful_ofModule m).functions f hf
    exact hm a (List.mem_flatMap.mpr ⟨_, hitem, List.mem_append_right _ ha⟩)
  have hfollows := functions_follow (renumber_renames (· + k))
    (Collected.noPercent_accessors hm) hfunctions
  have haligned : ∀ l, Aligned (renumber (· + k)) fresh (fresh + k) l := by
    intro l stem hstem i _
    rw [renumber_freshName _ hstem, Nat.add_right_comm]
  obtain ⟨gs, l, ds, hdoes, -, -⟩ := hfollows.logs fresh
  obtain ⟨gs', hdoes', rfl⟩ := hfollows.follows hdoes (haligned l)
  rw [Compiled.ofModule_eq hdoes, Compiled.ofModule_eq hdoes']

/-- Drawn names are well scoped. With the counter of drawn names anywhere, the names that expansions
bind in what is compiled of a text are all distinct, and none is a name of the text or a global name
of an item. Tests and the accessors of fields read the scrutinee that is bound right around them.
With the counter raised, all drawn names are raised, and nothing else changes. -/
theorem drawn_names (source : List Char) (fresh k : Nat) :
    let m := (Grammar.parse (Token.scan source).tokens).tree
    let program := (Compiled.ofModule m fresh).program
    (program.drawn.Nodup ∧ ∀ x ∈ program.drawn,
      (∃ i, fresh ≤ i ∧ (x = freshName "scrutinee" i ∨ x = freshName "_" i)) ∧
        (.ident x ∉ (Token.scan source).tokens.map (·.kind) ∧ x ∉ m.names) ∧
          ∀ i ∈ m.items, x ∉ i.globalNames) ∧
    (∀ f ∈ program.functions, f.body.Scoped) ∧
    ∃ ρ : String → String, (∀ x, NoPercent x → ρ x = x) ∧
      (∀ stem, NoPercent stem → ∀ i, ρ (freshName stem i) = freshName stem (i + k)) ∧
        Compiled.ofModule m (fresh + k) = ⟨⟨program.decls, program.functions.map (·.rename ρ)⟩,
          (Compiled.ofModule m fresh).diagnostics⟩ := by
  intro m program
  have hm : ∀ a ∈ m.names, NoPercent a := Grammar.noPercent_of_parse rfl
  obtain ⟨-, hscoped, hnodup, hdrawn⟩ :=
    functions_counts (Collected.ofModule m).functions ⟨fresh, (Collected.ofModule m).diagnostics⟩
  refine ⟨⟨hnodup, fun x hx => ?_⟩, hscoped, renumber (· + k), (renumber_renames _).plain,
    fun stem hstem i => renumber_freshName _ hstem i, Compiled.ofModule_add hm fresh k⟩
  have hsign := DrawnName.not_noPercent (hdrawn x hx)
  obtain ⟨i, hi, -, hname⟩ := hdrawn x hx
  refine ⟨⟨i, hi, hname⟩, ⟨fun hmem => hsign (Token.noPercent_of_mem_scan hmem),
    fun hmem => hsign (hm x hmem)⟩, fun i hi hmem => hsign ?_⟩
  exact noPercent_globalNames (fun a ha => hm a (List.mem_flatMap.mpr ⟨i, hi, ha⟩)) x hmem

/-- Both scrutinees of the program that opens boxes. -/
example : (Compiled.ofModule unboxingTree 7).program.drawn = ["scrutinee%8", "scrutinee%7"] := by
  decide +kernel

end Compile

end ClosedSum
