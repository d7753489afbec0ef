import ClosedSum.Proofs.FreeNames
import ClosedSum.Proofs.GlobalNames
import ClosedSum.Proofs.ParserProgress

/-!
# Reports on parameters

A parameter is reported as unused if the body of its clause, once it is compiled, does not mention
it. Compiled code mentions the names that the source reads, as the uses of operators are expanded.
So a report can differ from the source in two ways only: by a use that cannot be expanded, and by an
accessor that is called.
-/

namespace ClosedSum

namespace Compile

open Surface (Expr Stmt Clause Reading exprsRead stmtsRead clausesRead exprsParameters
  stmtsParameters clausesParameters exprsNames stmtsNames clausesNames)

variable {registry : Match.Registry}

/-- The reports on parameters among others. -/
def parameterReports (ds : List Diagnostic) : List Diagnostic :=
  ds.filter (·.code = .unusedParameter)

/-- The reports on those of some parameters that their clauses do not read. -/
def unread (site : Reading) (ps : List (Ident × List Stmt)) : List Diagnostic :=
  ps.filterMap fun p => if stmtsRead site p.1.name p.2 then none else some (unusedParam p.1)

lemma parameterReports_append (ds ds' : List Diagnostic) :
    parameterReports (ds ++ ds') = parameterReports ds ++ parameterReports ds' :=
  List.filter_append ..

lemma unread_append (site : Reading) (ps ps' : List (Ident × List Stmt)) :
    unread site (ps ++ ps') = unread site ps ++ unread site ps' :=
  List.filterMap_append

lemma unusedParams_eq (pattern : Match.Pattern) (body : Core.Expr) :
    unusedParams pattern body = pattern.named.filterMap fun i =>
      if body.mentions i.name then none else some (unusedParam i) := by
  match pattern with
  | .default | .case _ (.rest _) => rfl
  | .case _ (.list params) =>
    rw [unusedParams, Match.Pattern.named, List.filterMap_filterMap]
    refine List.filterMap_congr fun p _ => ?_
    cases p <;> rfl

lemma parameterReports_unusedParams (pattern : Match.Pattern) (body : Core.Expr) :
    parameterReports (unusedParams pattern body) = unusedParams pattern body := by
  refine List.filter_eq_self.mpr fun d hd => ?_
  obtain ⟨i, rfl⟩ := exists_of_mem_unusedParams hd
  rfl

/-- The parameters of a clause are checked by what its body is compiled to. -/
lemma unusedParams_eq_unread {site : Reading} {pattern : Match.Pattern} {body : Core.Expr}
    {ss : List Stmt} (hpattern : ∀ x ∈ pattern.binders, NoPercent x)
    (hbody : ∀ x, NoPercent x → body.mentions x = stmtsRead site x ss) :
    unusedParams pattern body = unread site (pattern.named.map fun i => (i, ss)) := by
  rw [unusedParams_eq, unread, List.filterMap_map]
  refine List.filterMap_congr fun i hi => ?_
  have hname := hpattern i.name (by
    rw [Match.Pattern.binders_eq_map_named]
    exact List.mem_map_of_mem hi)
  rw [Function.comp_apply, hbody i.name hname]

lemma mentions_sequence (x : String) (es : List Core.Expr) :
    (sequence es).mentions x = Core.Expr.mentionsAny x es := by
  match es with
  | [] => rfl
  | [e] => rw [Core.Expr.mentionsAny, Core.Expr.mentionsAny, Bool.or_false]; rfl
  | e :: e' :: es => rfl

lemma parameterReports_advice (as : List Match.Advice) :
    parameterReports (as.map (·.diagnostic)) = [] := by
  refine List.filter_eq_nil_iff.mpr fun d hd => ?_
  obtain ⟨a, -, rfl⟩ := List.mem_map.mp hd
  cases a <;> simp [Match.Advice.diagnostic, Match.Advice.code, Diagnostic.label, Diagnostic.note]

lemma parameterReports_fault (f : Match.Fault) : parameterReports [f.diagnostic] = [] := by
  refine List.filter_eq_nil_iff.mpr fun d hd => ?_
  obtain rfl := List.mem_singleton.mp hd
  cases f <;> simp [Match.Fault.diagnostic, Match.Fault.code, Diagnostic.label, Diagnostic.note,
    Diagnostic.suggest, Diagnostic.related]

lemma expandMatch_reads (operator : Ident) (scrutinee : Core.Expr) (clauses : List Match.Clause)
    (site : Span) : Logs (expandMatch registry operator scrutinee clauses site) fun e ds =>
      (∀ x, NoPercent x → e.mentions x =
        match registry.called operator (clauses.map (·.pattern)) with
        | some names => names.contains x || (scrutinee.mentions x ||
            clauses.any fun c => !c.pattern.binders.contains x && c.body.mentions x)
        | none => false) ∧ parameterReports ds = [] := by
  intro n
  have hcalled := registry.expand_called operator scrutinee clauses site n
  have hdraws := registry.expand_draws operator scrutinee clauses site n
  cases hnames : registry.called operator (clauses.map (·.pattern)) with
  | some names =>
    rw [hnames] at hcalled
    obtain ⟨e, k, hexpand, hmentions⟩ := hcalled
    rw [hexpand] at hdraws
    obtain ⟨l, rfl⟩ := Nat.exists_eq_add_of_le hdraws
    refine ⟨e.expr, l, _, expandMatch_does_ok hexpand, ?_, hmentions, parameterReports_advice _⟩
    simpa using fun a _ => a.isDefinition_code
  | none =>
    rw [hnames] at hcalled
    obtain ⟨f, k, hexpand⟩ := hcalled
    rw [hexpand] at hdraws
    obtain ⟨l, rfl⟩ := Nat.exists_eq_add_of_le hdraws
    refine ⟨.error, l, _, expandMatch_does_error hexpand, ?_, fun x _ => rfl,
      parameterReports_fault f⟩
    simpa using f.isDefinition_code

/-- What is compiled of an expression mentions the names that the expression reads, and the reports
are those on the parameters in it. -/
def Mirrors (registry : Match.Registry) (e : Expr) (x : Core.Expr) (ds : List Diagnostic) : Prop :=
  (∀ y, NoPercent y → x.mentions y = e.reads registry.called y) ∧
    parameterReports ds = unread registry.called e.parameters

def MirrorsAll (registry : Match.Registry) (es : List Expr) (xs : List Core.Expr)
    (ds : List Diagnostic) : Prop :=
  (∀ y, NoPercent y → Core.Expr.mentionsAny y xs = exprsRead registry.called y es) ∧
    parameterReports ds = unread registry.called (exprsParameters es)

def MirrorsStmts (registry : Match.Registry) (ss : List Stmt) (xs : List Core.Expr)
    (ds : List Diagnostic) : Prop :=
  (∀ y, NoPercent y → Core.Expr.mentionsAny y xs = stmtsRead registry.called y ss) ∧
    parameterReports ds = unread registry.called (stmtsParameters ss)

structure MirrorsClauses (registry : Match.Registry) (cs : List Clause) (xs : List Match.Clause)
    (ds : List Diagnostic) : Prop where
  patterns : xs.map (·.pattern) = cs.map (·.pattern)
  mentions : ∀ y, NoPercent y → (xs.any fun c => !c.pattern.binders.contains y &&
    c.body.mentions y) = clausesRead registry.called y cs
  reports : parameterReports ds = unread registry.called (clausesParameters cs)

mutual

theorem expr_reads : (e : Expr) → (∀ a ∈ e.names, NoPercent a) →
    Logs (expr registry e) (Mirrors registry e)
  | .unit _, _ | .bool .., _ | .int .., _ | .str .., _ | .error _, _ => .pure ⟨fun _ _ => rfl, rfl⟩
  | .ident _ name, _ => .pure ⟨fun _ _ => rfl, rfl⟩
  | .call _ callee args, h => by
    simp only [Expr.names, List.forall_mem_append] at h
    refine (expr_reads callee h.1).bind fun f => (exprs_reads args h.2).bind fun xs => .pure ?_
    rintro ds' ⟨hxs, hds'⟩ ds ⟨hf, hds⟩
    refine ⟨fun y hy => ?_, ?_⟩
    · rw [Core.Expr.mentions, Expr.reads, hf y hy, hxs y hy]
    · rw [List.append_nil, parameterReports_append, hds, hds', Expr.parameters, unread_append]
  | .binary _ op lhs rhs, h => by
    simp only [Expr.names, List.forall_mem_append] at h
    refine (expr_reads lhs h.1).bind fun l => (expr_reads rhs h.2).bind fun r => .pure ?_
    rintro ds' ⟨hr, hds'⟩ ds ⟨hl, hds⟩
    refine ⟨fun y hy => ?_, ?_⟩
    · rw [Core.Expr.mentions, Expr.reads, hl y hy, hr y hy]
    · rw [List.append_nil, parameterReports_append, hds, hds', Expr.parameters, unread_append]
  | .ifElse _ test yes no, h => by
    simp only [Expr.names, List.forall_mem_append] at h
    refine (expr_reads test h.1.1).bind fun t => (expr_reads yes h.1.2).bind fun y =>
      (expr_reads no h.2).bind fun n => .pure ?_
    rintro ds'' ⟨hn, hds''⟩ ds' ⟨hy, hds'⟩ ds ⟨ht, hds⟩
    refine ⟨fun z hz => ?_, ?_⟩
    · rw [Core.Expr.mentions, Expr.reads, ht z hz, hy z hz, hn z hz]
    · rw [List.append_nil, parameterReports_append, parameterReports_append, hds, hds', hds'',
        Expr.parameters, unread_append, unread_append]
  | .block _ body, h => by
    refine (stmts_reads body h).bind fun xs => .pure ?_
    rintro ds ⟨hxs, hds⟩
    refine ⟨fun y hy => ?_, ?_⟩
    · rw [mentions_sequence, Expr.reads, hxs y hy]
    · rw [List.append_nil, hds, Expr.parameters]
  | .matchUse _ operator scrutinee cs site, h => by
    simp only [Expr.names, List.forall_mem_cons, List.cons_append, List.forall_mem_append] at h
    refine (expr_reads scrutinee h.2.1).bind fun s => (clauses_reads cs h.2.2).bind fun xs =>
      (expandMatch_reads operator s xs site).mono ?_
    rintro x ds'' ⟨hx, hds''⟩ ds' ⟨hpatterns, hxs, hds'⟩ ds ⟨hs, hds⟩
    refine ⟨fun y hy => ?_, ?_⟩
    · have hmentions := hx y hy
      rw [hpatterns, hs y hy, hxs y hy] at hmentions
      exact hmentions
    · rw [parameterReports_append, parameterReports_append, hds, hds', hds'', List.append_nil,
        Expr.parameters, unread_append]

theorem exprs_reads : (es : List Expr) → (∀ a ∈ exprsNames es, NoPercent a) →
    Logs (exprs registry es) (MirrorsAll registry es)
  | [], _ => .pure ⟨fun _ _ => rfl, rfl⟩
  | e :: es, h => by
    simp only [exprsNames, List.forall_mem_append] at h
    refine (expr_reads e h.1).bind fun x => (exprs_reads es h.2).bind fun xs => .pure ?_
    rintro ds' ⟨hxs, hds'⟩ ds ⟨hx, hds⟩
    refine ⟨fun y hy => ?_, ?_⟩
    · rw [Core.Expr.mentionsAny, exprsRead, hx y hy, hxs y hy]
    · rw [List.append_nil, parameterReports_append, hds, hds', exprsParameters, unread_append]

theorem stmts_reads : (ss : List Stmt) → (∀ a ∈ stmtsNames ss, NoPercent a) →
    Logs (stmts registry ss) (MirrorsStmts registry ss)
  | [], _ => .pure ⟨fun _ _ => rfl, rfl⟩
  | .expr e :: rest, h => by
    simp only [stmtsNames, Surface.Stmt.names, List.forall_mem_append] at h
    refine (expr_reads e h.1).bind fun x => (stmts_reads rest h.2).bind fun xs => .pure ?_
    rintro ds' ⟨hxs, hds'⟩ ds ⟨hx, hds⟩
    refine ⟨fun y hy => ?_, ?_⟩
    · rw [Core.Expr.mentionsAny, stmtsRead, hx y hy, hxs y hy]
    · rw [List.append_nil, parameterReports_append, hds, hds', stmtsParameters, unread_append]
  | .bind name value :: rest, h => by
    simp only [stmtsNames, Surface.Stmt.names, List.cons_append, List.forall_mem_cons,
      List.forall_mem_append] at h
    refine (expr_reads value h.2.1).bind fun x => (stmts_reads rest h.2.2).bind fun xs => .pure ?_
    rintro ds' ⟨hxs, hds'⟩ ds ⟨hx, hds⟩
    refine ⟨fun y hy => ?_, ?_⟩
    · rw [Core.Expr.mentionsAny, Core.Expr.mentionsAny, Bool.or_false, Core.Expr.mentions,
        mentions_sequence, stmtsRead, hx y hy, hxs y hy]
    · rw [List.append_nil, parameterReports_append, hds, hds', stmtsParameters, unread_append]

theorem clauses_reads : (cs : List Clause) → (∀ a ∈ clausesNames cs, NoPercent a) →
    Logs (clauses registry cs) (MirrorsClauses registry cs)
  | [], _ => .pure ⟨rfl, fun _ _ => rfl, rfl⟩
  | .mk pattern body span :: rest, h => by
    simp only [clausesNames, Surface.Clause.names, List.forall_mem_append] at h
    have hbinders : ∀ x ∈ pattern.binders, NoPercent x := fun x hx =>
      h.1.1 x (Match.Pattern.mem_names_of_mem_binders hx)
    refine (stmts_reads body h.1.2).bind fun xs => ?_
    refine (report_logs (unusedParams_isDefinition pattern (sequence xs))).bind fun _ => ?_
    refine (clauses_reads rest h.2).bind fun cs => .pure ?_
    rintro ds'' ⟨hpatterns, hcs, hds''⟩ ds' rfl ds ⟨hxs, hds⟩
    have hbody : ∀ x, NoPercent x → (sequence xs).mentions x =
        stmtsRead registry.called x body := fun x hx => by rw [mentions_sequence, hxs x hx]
    refine ⟨?_, fun y hy => ?_, ?_⟩
    · rw [List.map_cons, List.map_cons, hpatterns, Surface.Clause.pattern]
    · rw [List.any_cons, hcs y hy, clausesRead, hbody y hy]
    · rw [List.append_nil, parameterReports_append, parameterReports_append, hds, hds'',
        parameterReports_unusedParams, unusedParams_eq_unread hbinders hbody, clausesParameters,
        unread_append, unread_append, List.append_assoc]

end

lemma parameterReports_eq_nil {ds : List Diagnostic} (h : ∀ d ∈ ds, d.code.isDefinition = true) :
    parameterReports ds = [] := by
  refine List.filter_eq_nil_iff.mpr fun d hd hcode => ?_
  have hdefinition := h d hd
  rw [of_decide_eq_true hcode] at hdefinition
  cases hdefinition

/-- Items that are not kept are reported for their names and their definitions only. -/
lemma Collected.Reported.parameterReports {taken : List String} {is : List Surface.Item}
    {ds : List Diagnostic} (h : Reported taken is ds) : Compile.parameterReports ds = [] := by
  induction h with
  | nil => rfl
  | kept _ _ ih => exact ih
  | rejected _ hds _ ih =>
    rw [parameterReports_append, ih, parameterReports_eq_nil hds.2, List.append_nil]

/-- The clause parameters of a module that are compiled, each with the body of its clause. -/
def Collected.parameters (c : Collected) : List (Ident × List Stmt) :=
  c.functions.flatMap (·.body.parameters)

/-- The reports of a module on parameters are those on the parameters that its operators leave
unread. -/
lemma Compiled.parameterReports_ofModule {m : Surface.Module} (hm : ∀ a ∈ m.names, NoPercent a)
    (fresh : Nat) : parameterReports (ofModule m fresh).diagnostics =
      unread (Collected.ofModule m).registry.called (Collected.ofModule m).parameters := by
  have hnames : ∀ f ∈ (Collected.ofModule m).functions, ∀ a ∈ f.body.names, NoPercent a := by
    intro f hf a ha
    have hitem := (Collected.faithful_ofModule m).functions f hf
    exact hm a (List.mem_flatMap.mpr ⟨_, hitem, List.mem_append_right _ ha⟩)
  have hfunctions : ∀ fs : List Surface.Function, (∀ f ∈ fs, ∀ a ∈ f.body.names, NoPercent a) →
      Logs (fs.mapM (function (Collected.ofModule m).registry)) fun _ ds => parameterReports ds =
        unread (Collected.ofModule m).registry.called (fs.flatMap (·.body.parameters)) := by
    intro fs hfs
    induction fs with
    | nil => exact .pure rfl
    | cons f fs ih =>
      obtain ⟨hf, hfs⟩ := List.forall_mem_cons.mp hfs
      have hfunction : Logs (function (Collected.ofModule m).registry f) fun _ ds =>
          parameterReports ds = unread (Collected.ofModule m).registry.called f.body.parameters :=
        (expr_reads f.body hf).bind fun _ => .pure fun ds h => by rw [List.append_nil, h.2]
      rw [List.mapM_cons]
      refine hfunction.bind fun g => (ih hfs).bind fun gs => .pure ?_
      rintro ds' hds' ds hds
      rw [List.append_nil, parameterReports_append, hds, hds', List.flatMap_cons, unread_append]
  obtain ⟨gs, k, ds, hdoes, -, hds⟩ := hfunctions _ hnames fresh
  rw [ofModule_eq hdoes, parameterReports_append,
    (Collected.ofModule_keeps m).reports.parameterReports, List.nil_append, hds,
    Collected.parameters]

/-- Unused parameters are reported by what the compiled body of their clause reads, each in its
turn. So a parameter that is free nowhere in the body of its clause is reported, unless it has the
name of an accessor, and one that is free there is not, unless the use of an operator in the body
cannot be expanded. -/
theorem parameter_reports (source : List Char) (fresh : Nat) :
    let m := (Grammar.parse (Token.scan source).tokens).tree
    let c := Collected.ofModule m
    parameterReports (Compiled.ofModule m fresh).diagnostics =
      (c.parameters.filterMap fun p =>
        if stmtsRead c.registry.called p.1.name p.2 then none else some (unusedParam p.1)) ∧
    ∀ p ∈ c.parameters,
      (p.1.name ∉ c.registry.accessors → stmtsRead .plain p.1.name p.2 = false →
        stmtsRead c.registry.called p.1.name p.2 = false) ∧
      ((∀ s ∈ Surface.stmtsSites p.2, (c.registry.called s.1 s.2).isSome) →
        stmtsRead .plain p.1.name p.2 = true →
          stmtsRead c.registry.called p.1.name p.2 = true) := by
  intro m c
  have hm : ∀ a ∈ m.names, NoPercent a := Grammar.noPercent_of_parse rfl
  refine ⟨Compiled.parameterReports_ofModule hm fresh, fun p _ => ⟨fun hname hfree => ?_, ?_⟩⟩
  · by_contra hread
    refine absurd (Surface.stmtsRead_mono p.2 (fun s _ names hnames => ?_)
      (Bool.not_eq_false _ ▸ hread)) (Bool.eq_false_iff.mp hfree)
    exact ⟨[], rfl, fun hx => absurd (Match.Registry.mem_accessors_of_called hnames hx) hname⟩
  · intro hsites
    refine Surface.stmtsRead_mono p.2 fun s hs names hnames => ?_
    obtain ⟨names', hnames'⟩ := Option.isSome_iff_exists.mp (hsites s hs)
    obtain rfl := Option.some.inj hnames
    exact ⟨names', hnames', fun hx => absurd hx List.not_mem_nil⟩

/-- Two functions that open a box. In the first, the parameter is used by an operator that is not
known. In the second, the parameter is not used, but it has the name of an accessor. -/
def strayParameters : List Char :=
  ("variant Box { Full(value) } fn f(b) = match_box!(b) \x7b Full(v) => match_bag!(v) " ++
    "\x7b _ => 0 \x7d \x7d fn g(b) = match_box!(b) \x7b Full(box_full_value) => match_box!(b) " ++
      "\x7b Full(_) => 0 \x7d \x7d").toList

def strayParametersTree : Surface.Module :=
  ⟨[.variant ⟨⟨"Box", ⟨8, 11⟩⟩, [], [⟨⟨"Full", ⟨14, 18⟩⟩, [], [⟨⟨"value", ⟨19, 24⟩⟩, []⟩],
      ⟨14, 25⟩⟩], ⟨0, 27⟩⟩,
    .function ⟨⟨"f", ⟨31, 32⟩⟩, [⟨"b", ⟨33, 34⟩⟩], .matchUse ⟨38, 91⟩ ⟨"match_box", ⟨38, 47⟩⟩
      (.ident ⟨49, 50⟩ "b") [.mk (.case ⟨"Full", ⟨54, 58⟩⟩ (.list [.named ⟨"v", ⟨59, 60⟩⟩]))
        [.expr (.matchUse ⟨65, 89⟩ ⟨"match_bag", ⟨65, 74⟩⟩ (.ident ⟨76, 77⟩ "v")
          [.mk .default [.expr (.int ⟨86, 87⟩ 0)] ⟨81, 87⟩] ⟨65, 89⟩)] ⟨54, 89⟩] ⟨38, 91⟩,
      ⟨28, 91⟩⟩,
    .function ⟨⟨"g", ⟨95, 96⟩⟩, [⟨"b", ⟨97, 98⟩⟩], .matchUse ⟨102, 174⟩ ⟨"match_box", ⟨102, 111⟩⟩
      (.ident ⟨113, 114⟩ "b") [.mk (.case ⟨"Full", ⟨118, 122⟩⟩
          (.list [.named ⟨"box_full_value", ⟨123, 137⟩⟩]))
        [.expr (.matchUse ⟨142, 172⟩ ⟨"match_box", ⟨142, 151⟩⟩ (.ident ⟨153, 154⟩ "b")
          [.mk (.case ⟨"Full", ⟨158, 162⟩⟩ (.list [.wildcard ⟨163, 164⟩]))
            [.expr (.int ⟨169, 170⟩ 0)] ⟨158, 170⟩] ⟨142, 172⟩)] ⟨118, 172⟩] ⟨102, 174⟩,
      ⟨92, 174⟩⟩]⟩

lemma parse_strayParameters :
    (Grammar.parse (Token.scan strayParameters).tokens).tree = strayParametersTree := by
  decide +kernel

/-- A parameter that is free in the body of its clause is reported as unused, and one that is not
free there is not reported. -/
theorem exists_astray_report :
    let m := (Grammar.parse (Token.scan strayParameters).tokens).tree
    (∃ p ∈ (Collected.ofModule m).parameters, stmtsRead .plain p.1.name p.2 = true ∧
      unusedParam p.1 ∈ (Compiled.ofModule m 0).diagnostics) ∧
    ∃ p ∈ (Collected.ofModule m).parameters, stmtsRead .plain p.1.name p.2 = false ∧
      unusedParam p.1 ∉ (Compiled.ofModule m 0).diagnostics := by
  dsimp only
  rw [parse_strayParameters]
  decide +kernel

end Compile

end ClosedSum
