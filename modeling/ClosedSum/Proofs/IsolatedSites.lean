import ClosedSum.Proofs.ChangedModules
import ClosedSum.Proofs.GlobalNames
import ClosedSum.Proofs.Isolation
import ClosedSum.Proofs.ParserProgress

/-!
# Matches that cannot be expanded

A match that cannot be expanded leaves an error where it stands, and reports. All that it does to
the code around it is to draw names while its parts are compiled, so that the numbers of those that
are drawn later are higher.
-/

namespace ClosedSum

namespace Match

variable {α β α' β' : Type}

/-- Two compilations fail with the same fault, if they do, wherever the counter stands. -/
def Compile.FailsAlike (s : Compile α) (s' : Compile α') : Prop :=
  ∀ n n', (∃ f, (s n).1 = .error f ∧ (s' n').1 = .error f) ∨
    (∃ a, (s n).1 = .ok a) ∧ ∃ a, (s' n').1 = .ok a

namespace Compile.FailsAlike

lemma pure (a : α) (a' : α') : FailsAlike (Pure.pure a) (Pure.pure a') :=
  fun _ _ => .inr ⟨⟨a, rfl⟩, a', rfl⟩

lemma throw (f : Fault) : FailsAlike (throw f : Compile α) (throw f : Compile α') :=
  fun _ _ => .inl ⟨f, rfl, rfl⟩

lemma lift (s : StateM Nat α) (s' : StateM Nat α') :
    FailsAlike (liftM s : Compile α) (liftM s' : Compile α') :=
  fun n n' => .inr ⟨⟨(s n).1, rfl⟩, (s' n').1, rfl⟩

lemma bind {s : Compile α} {s' : Compile α'} {f : α → Compile β} {f' : α' → Compile β'}
    (hs : FailsAlike s s') (hf : ∀ a a', FailsAlike (f a) (f' a')) :
    FailsAlike (s >>= f) (s' >>= f') := by
  intro n n'
  have hfirst := hs n n'
  rw [Compile.bind_apply, Compile.bind_apply]
  generalize s n = r at hfirst
  generalize s' n' = r' at hfirst
  obtain ⟨_, k⟩ := r
  obtain ⟨_, k'⟩ := r'
  rcases hfirst with ⟨e, rfl, rfl⟩ | ⟨⟨a, rfl⟩, a', rfl⟩
  · exact .inl ⟨e, rfl, rfl⟩
  · exact hf a a' k k'

end Compile.FailsAlike

/-- The part of a clause that its match can fail for. -/
def Clause.head (c : Clause) : Pattern × Span := (c.pattern, c.span)

/-- Whether clauses can be compiled has nothing to do with their bodies. -/
lemma Site.compileFrom_failsAlike {site site' : Site} (hschema : site.schema = site'.schema)
    (seen : List Ident) {cs cs' : List Clause} (h : cs.map (·.head) = cs'.map (·.head)) :
    Compile.FailsAlike (site.compileFrom seen cs) (site'.compileFrom seen cs') := by
  induction cs generalizing seen cs' with
  | nil =>
    obtain rfl : cs' = [] := by simpa using h.symm
    exact .pure _ _
  | cons c cs ih =>
    cases cs' with
    | nil => cases h
    | cons c' cs' =>
      obtain ⟨hc, hcs⟩ := List.cons.inj h
      obtain ⟨pattern, body, span⟩ := c
      obtain ⟨pattern', body', span'⟩ := c'
      obtain ⟨rfl, rfl⟩ : pattern = pattern' ∧ span = span' := Prod.mk.inj hc
      rw [compileFrom.eq_def, compileFrom.eq_def site']
      cases pattern with
      | default =>
        cases cs with
        | nil =>
          obtain rfl : cs' = [] := by simpa using hcs.symm
          exact .lift _ _
        | cons d cs =>
          cases cs' with
          | nil => cases hcs
          | cons d' cs' =>
            have hspan : d.span = d'.span := (Prod.mk.inj (List.cons.inj hcs).1).2
            dsimp only
            rw [hspan]
            exact .throw _
      | case label params =>
        dsimp only
        split
        · exact .throw _
        · rw [hschema]
          refine .bind ?_ fun _ _ => .bind (.lift _ _) fun _ _ => ?_
          · unfold Schema.entry
            split
            · exact .pure _ _
            · exact .throw _
          · exact .bind (ih _ hcs) fun _ _ => .pure _ _

lemma Registry.expand_failsAlike (r : Registry) (operator : Ident)
    (scrutinee scrutinee' : Core.Expr) {cs cs' : List Clause}
    (h : cs.map (·.head) = cs'.map (·.head)) (span : Span) :
    Compile.FailsAlike (r.expand operator scrutinee cs span)
      (r.expand operator scrutinee' cs' span) := by
  have hempty : cs.isEmpty = cs'.isEmpty := by
    simpa using congrArg List.isEmpty h
  unfold expand
  cases r.find? operator.name with
  | none => exact .throw _
  | some o =>
    refine .bind (.lift _ _) fun _ _ => .bind ?_ fun _ _ => .pure _ _
    unfold Site.compile
    rw [hempty]
    split
    · exact .throw _
    · refine Site.compileFrom_failsAlike ?_ [] h
      rfl

end Match

namespace Compile

open Surface

variable {registry : Match.Registry} {Q : List Diagnostic → Prop}

/-- A match that cannot be expanded, whatever its parts are compiled to, for the fault that is
told. -/
def Unexpandable (registry : Match.Registry) (operator : Ident) (cs : List Clause) (site : Span)
    (f : Match.Fault) : Prop :=
  ∃ scrutinee xs n n', xs.map Match.Clause.head = cs.map (fun c => (c.pattern, c.span)) ∧
    registry.expand operator scrutinee xs site n = (.error f, n')

/-- The reports of a match that cannot be expanded: those on its scrutinee, those on its clauses,
and its fault. -/
def OfFailure (registry : Match.Registry) (scrutinee : Expr) (cs : List Clause) (f : Match.Fault)
    (ds : List Diagnostic) : Prop :=
  ∃ ds₁ ds₂, (∃ n x k, Does (expr registry scrutinee) n x k ds₁) ∧
    (∃ n xs k, Does (clauses registry cs) n xs k ds₂) ∧ ds = ds₁ ++ (ds₂ ++ [f.diagnostic])

lemma clauses_heads (cs : List Clause) : Logs (clauses registry cs) fun xs _ =>
    xs.map Match.Clause.head = cs.map fun c => (c.pattern, c.span) := by
  induction cs with
  | nil => exact .pure rfl
  | cons c rest ih =>
    obtain ⟨pattern, body, span⟩ := c
    exact (stmts_logs body).bind fun xs =>
      (report_logs (unusedParams_isDefinition pattern (sequence xs))).bind fun _ =>
        ih.bind fun ys => .pure fun _ hrest _ _ _ _ => by
          rw [List.map_cons, hrest]
          rfl

/-- A match that cannot be expanded is isolated from an error in its place. -/
lemma site_isolates {operator : Ident} {scrutinee : Expr} {cs : List Clause} {site : Span}
    {f : Match.Fault} (h : Unexpandable registry operator cs site f) (s : Span) (m : Nat) :
    Isolates m (OfFailure registry scrutinee cs f) (fun ρ x y => y = x.rename ρ)
      (expr registry (.error s)) (expr registry (.matchUse s operator scrutinee cs site)) := by
  obtain ⟨x₀, xs₀, n, n', hheads₀, hfail⟩ := h
  obtain ⟨x, i, ds₁, hx, -, -⟩ := @expr_logs registry scrutinee m
  obtain ⟨xs, j, ds₂, hxs, -, hheads⟩ := @clauses_heads registry cs (m + i)
  -- the failure is known of other parts, and it does not depend on them
  have hfault : (registry.expand operator x xs site (m + i + j)).1 = .error f := by
    rcases registry.expand_failsAlike operator x₀ x (hheads₀.trans hheads.symm) site n (m + i + j)
      with ⟨g, hg, hg'⟩ | ⟨⟨a, ha⟩, -⟩
    · rw [hfail] at hg
      cases hg
      exact hg'
    · rw [hfail] at ha
      cases ha
  obtain ⟨l, hl⟩ := Nat.exists_eq_add_of_le
    (registry.expand_draws operator x xs site (m + i + j))
  have hexpand : registry.expand operator x xs site (m + i + j) = (.error f, m + i + j + l) :=
    Prod.ext hfault hl
  have hsite : Does (expr registry (.matchUse s operator scrutinee cs site)) m .error
      (i + (j + l)) (ds₁ ++ (ds₂ ++ [f.diagnostic])) :=
    hx.bind (hxs.bind (expandMatch_does_error hexpand))
  refine ⟨.error, .error, 0, i + (j + l), 0, [], _, [], .pure _ m, ?_, rfl, ds₁, ds₂,
    ⟨_, _, _, hx⟩, ⟨_, _, _, hxs⟩, rfl⟩
  simpa using hsite

namespace Collected

/-- What is collected of an item has nothing to do with the functions that are there. -/
lemma add_functions (c : Collected) (i : Item) : ∃ added, ∀ fs,
    { c with functions := fs }.add i = { c.add i with functions := fs ++ added } := by
  cases i with
  | function f =>
    cases hclashes : clashes c.globals [functionGlobal f] with
    | nil => exact ⟨[f], fun fs => by simp only [add, take, hclashes]⟩
    | cons d ds => exact ⟨[], fun fs => by simp [add, take, hclashes, report]⟩
  | variant s =>
    refine ⟨[], fun fs => ?_⟩
    cases hspec : Match.Definition.ofSpec s with
    | error f => simp [add, hspec, report]
    | ok d =>
      cases hclashes : clashes c.globals (variantGlobals s d) with
      | nil => simp [add, hspec, take, hclashes]
      | cons e es => simp [add, hspec, take, hclashes, report]

lemma foldl_add_functions (is : List Item) (c : Collected) : ∃ added, ∀ fs,
    is.foldl add { c with functions := fs } =
      { is.foldl add c with functions := fs ++ added } := by
  induction is generalizing c with
  | nil => exact ⟨[], fun fs => by simp⟩
  | cons i is ih =>
    obtain ⟨new, hnew⟩ := c.add_functions i
    obtain ⟨added, hadded⟩ := ih (c.add i)
    refine ⟨new ++ added, fun fs => ?_⟩
    rw [List.foldl_cons, List.foldl_cons, hnew, hadded, List.append_assoc]

/-- A function is kept behind what is collected if its name is free. -/
def Free (c : Collected) (f : Function) : Prop := f.name.name ∉ c.globals.map (·.name)

lemma add_function_of_free {c : Collected} {f : Function} (h : c.Free f) :
    c.add (.function f) = { c.keep (.function f) with functions := c.functions ++ [f] } := by
  have hclashes : clashes c.globals [functionGlobal f] = [] :=
    clashes_eq_nil.mpr ⟨List.nodup_singleton _, List.forall_mem_singleton.mpr h⟩
  rw [add, take, hclashes]
  rfl

lemma add_function_of_taken {c : Collected} {f : Function} (h : ¬ c.Free f) :
    ∃ ds, ∀ body, c.add (.function { f with body }) = c.report ds := by
  cases hclashes : clashes c.globals [functionGlobal f] with
  | nil => exact absurd ((clashes_eq_nil.mp hclashes).2 _ (List.mem_singleton_self _)) h
  | cons d ds =>
    refine ⟨d :: ds, fun body => ?_⟩
    have hbody : clashes c.globals [functionGlobal { f with body }] = d :: ds := hclashes
    rw [add, take, hbody]

lemma ofModule_append (pre : List Item) (i : Item) (post : List Item) :
    ofModule ⟨pre ++ i :: post⟩ = post.foldl add ((ofModule ⟨pre⟩).add i) := by
  rw [ofModule, ofModule, List.foldl_append, List.foldl_cons]

/-- What is collected of a module with a function that is kept, whatever its body. -/
lemma ofModule_of_free {pre : List Item} {f : Function} (h : (ofModule ⟨pre⟩).Free f)
    (post : List Item) : ∃ c : Collected, ∃ fs gs, ∀ body,
      ofModule ⟨pre ++ .function { f with body } :: post⟩ =
        { c with functions := fs ++ { f with body } :: gs } := by
  obtain ⟨added, hadded⟩ := foldl_add_functions post ((ofModule ⟨pre⟩).keep (.function f))
  refine ⟨post.foldl add ((ofModule ⟨pre⟩).keep (.function f)), (ofModule ⟨pre⟩).functions, added,
    fun body => ?_⟩
  have hfold := hadded ((ofModule ⟨pre⟩).functions ++ [{ f with body }])
  rw [List.append_assoc, List.singleton_append] at hfold
  have hbody : (ofModule ⟨pre⟩).Free { f with body } := h
  rw [ofModule_append, add_function_of_free hbody]
  exact hfold

/-- What is collected of a module with a function that is not kept, whatever its body. -/
lemma ofModule_of_taken {pre : List Item} {f : Function} (h : ¬ (ofModule ⟨pre⟩).Free f)
    (post : List Item) : ∃ c, ∀ body, ofModule ⟨pre ++ .function { f with body } :: post⟩ = c := by
  obtain ⟨ds, hadd⟩ := add_function_of_taken h
  exact ⟨_, fun body => by rw [ofModule_append, hadd body]⟩

end Collected

/-- What a module is compiled to differs from what another is in nothing but the numbers of
generated names and in reports, which are as `Q` tells. -/
structure Isolated (Q : List Diagnostic → Prop) (c' c : Compiled) : Prop where
  decls : c.program.decls = c'.program.decls
  functions : ∃ n l, c.program.functions = c'.program.functions.map (·.rename (shift n l))
  reports : ∃ before inside after, c'.diagnostics = before ++ after ∧
    c.diagnostics = before ++ inside ++ after ∧ Q inside

lemma Isolates.isolated {m m' : Module} {c : Collected} {fs fs' : List Function}
    (hm : Collected.ofModule m = { c with functions := fs })
    (hm' : Collected.ofModule m' = { c with functions := fs' }) {fresh : Nat}
    (h : Isolates fresh Q (fun ρ gs gs' => gs' = gs.map (·.rename ρ))
      (fs'.mapM (function c.registry)) (fs.mapM (function c.registry))) :
    Isolated Q (Compiled.ofModule m' fresh) (Compiled.ofModule m fresh) := by
  obtain ⟨gs', gs, j, l, k, before, inside, after, hgs', hgs, hR, hQ⟩ := h
  have hmapM' : Does ((Collected.ofModule m').functions.mapM
      (function (Collected.ofModule m').registry)) fresh gs' (j + k) (before ++ after) := by
    rw [hm']
    exact hgs'
  have hmapM : Does ((Collected.ofModule m).functions.mapM
      (function (Collected.ofModule m).registry)) fresh gs (j + l + k)
        (before ++ inside ++ after) := by
    rw [hm]
    exact hgs
  rw [Compiled.ofModule_eq hmapM', Compiled.ofModule_eq hmapM, hm, hm']
  exact ⟨rfl, ⟨_, _, hR⟩, c.diagnostics ++ before, inside, after, by simp, by simp, hQ⟩

section Sources

variable {source : List Char} {m : Module}

lemma Collected.noPercent_functions (hm : ∀ a ∈ m.names, NoPercent a) :
    ∀ f ∈ (ofModule m).functions, ∀ a ∈ f.body.names, NoPercent a := by
  intro f hf a ha
  have hitem := (faithful_ofModule m).functions f hf
  have hnames : a ∈ (Item.function f).names := List.mem_append_right _ ha
  exact hm a (List.mem_flatMap.mpr ⟨_, hitem, hnames⟩)

/-- Of a function that is kept, the reports of a match in it that cannot be expanded. There are none
of a function that is not. -/
def InFunction (pre : List Item) (f : Function) (Q : List Diagnostic → Prop)
    (ds : List Diagnostic) : Prop :=
  ((Collected.ofModule ⟨pre⟩).Free f → Q ds) ∧ (¬ (Collected.ofModule ⟨pre⟩).Free f → ds = [])

/-- With an error in the place of a match that cannot be expanded, a module is compiled to the same,
but for the numbers of generated names and the reports of the match. -/
lemma function_isolated {pre post : List Item} {f : Function}
    (hm : ∀ a ∈ Module.names ⟨pre ++ .function f :: post⟩, NoPercent a) {operator : Ident}
    {scrutinee : Expr} {cs : List Clause} {span site : Span} {fault : Match.Fault}
    (hfault : Unexpandable (Collected.ofModule ⟨pre ++ .function f :: post⟩).registry operator cs
      site fault) {body' : Expr}
    (h : Expr.Replaced (.matchUse span operator scrutinee cs site) (.error span) f.body body')
    (fresh : Nat) :
    Isolated (InFunction pre f (OfFailure (Collected.ofModule ⟨pre ++ .function f :: post⟩).registry
        scrutinee cs fault))
      (Compiled.ofModule ⟨pre ++ .function { f with body := body' } :: post⟩ fresh)
      (Compiled.ofModule ⟨pre ++ .function f :: post⟩ fresh) := by
  have hr := Collected.noPercent_accessors hm
  have hfs := Collected.noPercent_functions hm
  by_cases hfree : (Collected.ofModule ⟨pre⟩).Free f
  · obtain ⟨c, fs, gs, hc⟩ := Collected.ofModule_of_free hfree post
    have hof := hc f.body
    rw [hof] at hr hfs hfault ⊢
    refine Isolates.isolated hof (hc body') ?_
    refine functions_isolate hr (fun m => ?_) h hfs fresh
    exact (site_isolates hfault span m).mono fun _ hds => ⟨fun _ => hds, (absurd hfree ·)⟩
  · obtain ⟨c, hc⟩ := Collected.ofModule_of_taken hfree post
    have hof := hc f.body
    rw [hof] at hr hfs
    refine Isolates.isolated hof (hc body') ?_
    exact (functions_isolate_self hr hfs fresh).mono fun _ hds => ⟨(absurd · hfree), fun _ => hds⟩

/-- The functions of a module report one after the other, and have errors just if they report
one. -/
lemma functions_report (hwhole : ∀ f ∈ (Collected.ofModule m).functions, f.body.Whole)
    (fresh : Nat) : ∃ rs : List (Core.Function × List Diagnostic),
      (Compiled.ofModule m fresh).program.functions = rs.map (·.1) ∧
      (Compiled.ofModule m fresh).diagnostics =
        (Collected.ofModule m).diagnostics ++ rs.flatMap (·.2) ∧
      List.Forall₂ (fun f r =>
        (∃ n k, Does (function (Collected.ofModule m).registry f) n r.1 k r.2) ∧
          (r.1.body.hasErrors = true ↔ ∃ d ∈ r.2, d.isError = true))
        (Collected.ofModule m).functions rs := by
  obtain ⟨rs, k, hdoes, -, hrs⟩ := functions_log m fresh
  rw [Compiled.ofModule_eq hdoes]
  refine ⟨rs, rfl, rfl, ?_⟩
  refine ((List.forall₂_and_left _ _).mpr ⟨hwhole, hrs⟩).imp ?_
  rintro f r ⟨hf, hdoes, -, -, herrors⟩
  exact ⟨hdoes, by rw [herrors hf, List.any_eq_true]⟩

/-- In the tree of any text, an error may as well stand in the place of a match that cannot be
expanded: the program differs in the numbers of generated names only, and the reports in those on
the scrutinee, on the clauses, and on the failure. A function has errors just if compiling it
reports one. -/
theorem failing_match_isolated (hm : (Grammar.parse (Token.scan source).tokens).tree = m)
    (fresh : Nat) :
    (∀ pre f post, m.items = pre ++ .function f :: post →
      ∀ span operator scrutinee cs site fault body',
        Unexpandable (Collected.ofModule m).registry operator cs site fault →
        Expr.Replaced (.matchUse span operator scrutinee cs site) (.error span) f.body body' →
        Isolated (InFunction pre f (OfFailure (Collected.ofModule m).registry scrutinee cs fault))
          (Compiled.ofModule ⟨pre ++ .function { f with body := body' } :: post⟩ fresh)
          (Compiled.ofModule m fresh)) ∧
    ∃ rs : List (Core.Function × List Diagnostic),
      (Compiled.ofModule m fresh).program.functions = rs.map (·.1) ∧
      (Compiled.ofModule m fresh).diagnostics =
        (Collected.ofModule m).diagnostics ++ rs.flatMap (·.2) ∧
      List.Forall₂ (fun f r =>
        (∃ n k, Does (function (Collected.ofModule m).registry f) n r.1 k r.2) ∧
          (r.1.body.hasErrors = true ↔ ∃ d ∈ r.2, d.isError = true))
        (Collected.ofModule m).functions rs := by
  constructor
  · intro pre f post hitems span operator scrutinee cs site fault body' hfault h
    obtain ⟨items⟩ := m
    obtain rfl : items = pre ++ .function f :: post := hitems
    exact function_isolated (Grammar.noPercent_of_parse hm) hfault h fresh
  · refine functions_report (fun f hf => ?_) fresh
    have hitem := (Collected.faithful_ofModule m).functions f hf
    rw [← hm] at hitem
    exact (Grammar.parse_items hitem).1

/-- A program with a match on a case that its variant does not have. In its scrutinee is a match
without clauses. -/
def blunder : List Char :=
  ("variant Bit { On, Off } fn main() = " ++
    "match_bit!(match_bit!(1) \x7b\x7d) \x7b Of() => 3 \x7d").toList

def blunderMatch : Expr := .matchUse ⟨47, 63⟩ ⟨"match_bit", ⟨47, 56⟩⟩ (.int ⟨58, 59⟩ 1) [] ⟨47, 63⟩

def blunderBit : Item :=
  .variant ⟨⟨"Bit", ⟨8, 11⟩⟩, [], [⟨⟨"On", ⟨14, 16⟩⟩, [], [], ⟨14, 16⟩⟩,
    ⟨⟨"Off", ⟨18, 21⟩⟩, [], [], ⟨18, 21⟩⟩], ⟨0, 23⟩⟩

def blunderMain (scrutinee : Expr) : Function :=
  ⟨⟨"main", ⟨27, 31⟩⟩, [], .matchUse ⟨36, 78⟩ ⟨"match_bit", ⟨36, 45⟩⟩ scrutinee
    [.mk (.case ⟨"Of", ⟨67, 69⟩⟩ (.list [])) [.expr (.int ⟨75, 76⟩ 3)] ⟨67, 76⟩] ⟨36, 78⟩,
    ⟨24, 78⟩⟩

def blunderTree (scrutinee : Expr) : Module := ⟨[blunderBit, .function (blunderMain scrutinee)]⟩

lemma parse_blunder :
    (Grammar.parse (Token.scan blunder).tokens).tree = blunderTree blunderMatch := by
  decide +kernel

/-- The match without clauses in the scrutinee of the other one, with an error in its place. -/
theorem failing_match_isolated_blunder :
    Isolated (InFunction [blunderBit] (blunderMain blunderMatch)
        (OfFailure (Collected.ofModule (blunderTree blunderMatch)).registry (.int ⟨58, 59⟩ 1) []
          (.empty "Bit" ⟨47, 63⟩)))
      (Compiled.ofModule (blunderTree (.error ⟨47, 63⟩)) 0)
      (Compiled.ofModule (blunderTree blunderMatch) 0) := by
  refine (failing_match_isolated parse_blunder 0).1 [blunderBit] (blunderMain blunderMatch) [] rfl
    ⟨47, 63⟩ _ _ _ ⟨47, 63⟩ _ _ ?_ (.scrutinee _ _ .here _ _)
  exact ⟨.lit (.int 1), [], 0, 1, rfl, by rfl⟩

end Sources

end Compile

end ClosedSum
