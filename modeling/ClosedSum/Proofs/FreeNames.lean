import ClosedSum.Proofs.AlikeMatches
import ClosedSum.Proofs.ClauseLists
import ClosedSum.Proofs.GeneratedNames
import ClosedSum.Proofs.Renaming

/-!
# Free names of source trees

Which names occur free in a tree depends on what the uses of operators read. As it is written, a use
reads its parts. As it is compiled, it also refers to the accessors of the cases that its clauses
name, and if it cannot be expanded, nothing is left of its parts.
-/

namespace ClosedSum

namespace Match

/-- The identifiers that the body of a clause sees of its pattern. -/
def Pattern.named : Pattern → List Ident
  | .case _ (.list params) => params.filterMap fun
    | .named ident => some ident
    | .wildcard _ => none
  | _ => []

namespace Schema

/-- Whether clauses with these patterns can be compiled: there is one, their labels are declared and
differ, and none but the last is a default. -/
def accepts (s : Schema) (ps : List Pattern) : Bool :=
  !ps.isEmpty && (ps.filterMap (·.label?)).all (fun l => s.labels.contains l.name) &&
    decide ((ps.filterMap (·.label?)).map (·.name)).Nodup && ps.dropLast.all (!·.isDefault)

/-- The accessors that clauses with these patterns call. -/
def called (s : Schema) (ps : List Pattern) : List String :=
  (ps.filterMap (·.label?)).flatMap fun l => (s.find? l.name).toList.flatMap fun e =>
    e.fields.map (Variant.accessorName s.variant e.label)

end Schema

/-- The accessors that the use of an operator calls, if it can be expanded. -/
def Registry.called (r : Registry) (operator : Ident) (ps : List Pattern) : Option (List String) :=
  match r.find? operator.name with
  | some o => if o.schema.accepts ps then some (o.schema.called ps) else none
  | none => none

end Match

namespace Surface

/-- What the use of an operator reads besides its parts, or none if it comes to nothing. -/
abbrev Reading := Ident → List Match.Pattern → Option (List String)

def Reading.plain : Reading := fun _ _ => some []

mutual

/-- Whether a name occurs free, by what the uses of operators read. A binding binds its name in the
statements behind it, and the parameters of a list are bound in the body of their clause. -/
def Expr.reads (site : Reading) (x : String) : Expr → Bool
  | .unit _ | .bool .. | .int .. | .str .. | .error _ => false
  | .ident _ name => name = x
  | .call _ callee args => callee.reads site x || exprsRead site x args
  | .binary _ _ lhs rhs => lhs.reads site x || rhs.reads site x
  | .ifElse _ test yes no => test.reads site x || yes.reads site x || no.reads site x
  | .block _ body => stmtsRead site x body
  | .matchUse _ operator scrutinee cs _ =>
    match site operator (cs.map (·.pattern)) with
    | some names => names.contains x || (scrutinee.reads site x || clausesRead site x cs)
    | none => false

def exprsRead (site : Reading) (x : String) : List Expr → Bool
  | [] => false
  | e :: es => e.reads site x || exprsRead site x es

def stmtsRead (site : Reading) (x : String) : List Stmt → Bool
  | [] => false
  | .expr e :: rest => e.reads site x || stmtsRead site x rest
  | .bind name value :: rest =>
    value.reads site x || (name.name ≠ x && stmtsRead site x rest)

def clausesRead (site : Reading) (x : String) : List Clause → Bool
  | [] => false
  | .mk pattern body _ :: rest =>
    (!pattern.binders.contains x && stmtsRead site x body) || clausesRead site x rest

end

mutual

/-- The uses of operators, by the operator and the patterns of the clauses. -/
def Expr.sites : Expr → List (Ident × List Match.Pattern)
  | .unit _ | .bool .. | .int .. | .str .. | .ident .. | .error _ => []
  | .call _ callee args => callee.sites ++ exprsSites args
  | .binary _ _ lhs rhs => lhs.sites ++ rhs.sites
  | .ifElse _ test yes no => test.sites ++ (yes.sites ++ no.sites)
  | .block _ body => stmtsSites body
  | .matchUse _ operator scrutinee cs _ =>
    (operator, cs.map (·.pattern)) :: (scrutinee.sites ++ clausesSites cs)

def exprsSites : List Expr → List (Ident × List Match.Pattern)
  | [] => []
  | e :: es => e.sites ++ exprsSites es

def stmtsSites : List Stmt → List (Ident × List Match.Pattern)
  | [] => []
  | .expr e :: rest => e.sites ++ stmtsSites rest
  | .bind _ value :: rest => value.sites ++ stmtsSites rest

def clausesSites : List Clause → List (Ident × List Match.Pattern)
  | [] => []
  | .mk _ body _ :: rest => stmtsSites body ++ clausesSites rest

end

mutual

/-- The named parameters of clauses, each with the body of its clause. Those of a clause come behind
those inside its body. -/
def Expr.parameters : Expr → List (Ident × List Stmt)
  | .unit _ | .bool .. | .int .. | .str .. | .ident .. | .error _ => []
  | .call _ callee args => callee.parameters ++ exprsParameters args
  | .binary _ _ lhs rhs => lhs.parameters ++ rhs.parameters
  | .ifElse _ test yes no => test.parameters ++ (yes.parameters ++ no.parameters)
  | .block _ body => stmtsParameters body
  | .matchUse _ _ scrutinee cs _ => scrutinee.parameters ++ clausesParameters cs

def exprsParameters : List Expr → List (Ident × List Stmt)
  | [] => []
  | e :: es => e.parameters ++ exprsParameters es

def stmtsParameters : List Stmt → List (Ident × List Stmt)
  | [] => []
  | .expr e :: rest => e.parameters ++ stmtsParameters rest
  | .bind _ value :: rest => value.parameters ++ stmtsParameters rest

def clausesParameters : List Clause → List (Ident × List Stmt)
  | [] => []
  | .mk pattern body _ :: rest =>
    stmtsParameters body ++ (pattern.named.map fun i => (i, body)) ++ clausesParameters rest

end

section Reading

variable {site site' : Reading} {x : String}

/-- What a use reads in one way, it reads in another. -/
def Reading.Covers (site site' : Reading) (x : String) (sites : List (Ident × List Match.Pattern)) :
    Prop :=
  ∀ s ∈ sites, ∀ names, site s.1 s.2 = some names →
    ∃ names', site' s.1 s.2 = some names' ∧ (x ∈ names → x ∈ names')

lemma Reading.Covers.append {ss ss' : List (Ident × List Match.Pattern)} :
    Covers site site' x (ss ++ ss') ↔ Covers site site' x ss ∧ Covers site site' x ss' :=
  List.forall_mem_append

mutual

theorem Expr.reads_mono : (e : Expr) → site.Covers site' x e.sites →
    e.reads site x = true → e.reads site' x = true
  | .unit _, _, h | .bool .., _, h | .int .., _, h | .str .., _, h | .error _, _, h
  | .ident .., _, h => h
  | .call _ callee args, hs, h => by
    rw [Expr.sites, Reading.Covers.append] at hs
    simp only [Expr.reads, Bool.or_eq_true] at h ⊢
    exact h.imp (callee.reads_mono hs.1) (exprsRead_mono args hs.2)
  | .binary _ _ lhs rhs, hs, h => by
    rw [Expr.sites, Reading.Covers.append] at hs
    simp only [Expr.reads, Bool.or_eq_true] at h ⊢
    exact h.imp (lhs.reads_mono hs.1) (rhs.reads_mono hs.2)
  | .ifElse _ test yes no, hs, h => by
    rw [Expr.sites, Reading.Covers.append, Reading.Covers.append] at hs
    simp only [Expr.reads, Bool.or_eq_true] at h ⊢
    exact h.imp (Or.imp (test.reads_mono hs.1) (yes.reads_mono hs.2.1)) (no.reads_mono hs.2.2)
  | .block _ body, hs, h => by
    simp only [Expr.sites, Expr.reads] at hs h ⊢
    exact stmtsRead_mono body hs h
  | .matchUse _ operator scrutinee cs _, hs, h => by
    rw [Expr.sites] at hs
    obtain ⟨huse, hparts⟩ := List.forall_mem_cons.mp hs
    obtain ⟨hscrutinee, hcs⟩ := Reading.Covers.append.mp hparts
    simp only [Expr.reads] at h ⊢
    cases hsite : site operator (cs.map (·.pattern)) with
    | none => simp [hsite] at h
    | some names =>
      obtain ⟨names', hsite', hnames⟩ := huse names hsite
      simp only [hsite, hsite', Bool.or_eq_true, List.contains_iff_mem] at h ⊢
      exact h.imp hnames (Or.imp (scrutinee.reads_mono hscrutinee) (clausesRead_mono cs hcs))

theorem exprsRead_mono : (es : List Expr) → site.Covers site' x (exprsSites es) →
    exprsRead site x es = true → exprsRead site' x es = true
  | [], _, h => h
  | e :: es, hs, h => by
    rw [exprsSites, Reading.Covers.append] at hs
    simp only [exprsRead, Bool.or_eq_true] at h ⊢
    exact h.imp (e.reads_mono hs.1) (exprsRead_mono es hs.2)

theorem stmtsRead_mono : (ss : List Stmt) → site.Covers site' x (stmtsSites ss) →
    stmtsRead site x ss = true → stmtsRead site' x ss = true
  | [], _, h => h
  | .expr e :: rest, hs, h => by
    rw [stmtsSites, Reading.Covers.append] at hs
    simp only [stmtsRead, Bool.or_eq_true] at h ⊢
    exact h.imp (e.reads_mono hs.1) (stmtsRead_mono rest hs.2)
  | .bind name value :: rest, hs, h => by
    rw [stmtsSites, Reading.Covers.append] at hs
    simp only [stmtsRead, Bool.or_eq_true, Bool.and_eq_true] at h ⊢
    exact h.imp (value.reads_mono hs.1) (And.imp_right (stmtsRead_mono rest hs.2))

theorem clausesRead_mono : (cs : List Clause) → site.Covers site' x (clausesSites cs) →
    clausesRead site x cs = true → clausesRead site' x cs = true
  | [], _, h => h
  | .mk pattern body _ :: rest, hs, h => by
    rw [clausesSites, Reading.Covers.append] at hs
    simp only [clausesRead, Bool.or_eq_true, Bool.and_eq_true] at h ⊢
    exact h.imp (And.imp_right (stmtsRead_mono body hs.1)) (clausesRead_mono rest hs.2)

end

end Reading

end Surface

namespace Match

variable {x : String}

lemma Pattern.binders_eq_map_named (p : Pattern) : p.binders = p.named.map (·.name) := by
  match p with
  | .default | .case _ (.rest _) => rfl
  | .case _ (.list params) =>
    rw [Pattern.binders, Pattern.named, List.map_filterMap]
    refine List.filterMap_congr fun q _ => ?_
    cases q <;> rfl

lemma Registry.mem_accessors_of_called {r : Registry} {operator : Ident} {ps : List Pattern}
    {names : List String} (h : r.called operator ps = some names) (hx : x ∈ names) :
    x ∈ r.accessors := by
  unfold Registry.called at h
  cases hfind : r.find? operator.name with
  | none =>
    rw [hfind] at h
    cases h
  | some o =>
    simp only [hfind] at h
    split at h
    · obtain rfl := Option.some.inj h
      obtain ⟨l, -, hl⟩ := List.mem_flatMap.mp hx
      obtain ⟨e, he, hfield⟩ := List.mem_flatMap.mp hl
      have hentry : e ∈ o.schema.entries :=
        List.mem_of_find?_eq_some (Option.mem_toList.mp he)
      exact List.mem_flatMap.mpr ⟨o, List.mem_of_find?_eq_some hfind,
        List.mem_flatMap.mpr ⟨e, hentry, hfield⟩⟩
    · cases h

/-- The parameters of a function have the names that its clause binds, and drawn ones. -/
lemma Param.any_mapM_compile (hx : NoPercent x) (params : List Param) (n : Nat) :
    (params.mapM Param.compile n).1.any (·.name = x) =
      (params.filterMap (·.name?)).contains x := by
  obtain ⟨-, hall⟩ := Param.mapM_compile params n
  generalize (params.mapM Param.compile n).2 = n' at hall
  generalize (params.mapM Param.compile n).1 = qs at hall
  induction hall with
  | nil => rfl
  | @cons p q params qs hpq _ ih =>
    rw [List.any_cons, ih]
    cases hpq with
    | named i => simp [eq_comm]
    | @wildcard span k =>
      have hne : freshName "_" k ≠ x := fun heq => hx (heq ▸ percent_mem_freshName _ _)
      simp [hne]

namespace Site

variable {site : Site} {seen : List Ident} {cs : List Clause} {n n' : Nat} {disp : Dispatch}

/-- A clause mentions what its body does, apart from what it binds, and what its arguments do. -/
lemma mentions_action (hx : NoPercent x) (c : Clause) (args : List Core.Expr) (n : Nat) :
    (action c args n).1.mentions x = ((!c.pattern.binders.contains x && c.body.mentions x) ||
      Core.Expr.mentionsAny x args) := by
  cases hc : c.pattern with
  | default => simp [action_of_default hc, Core.Expr.mentions, Pattern.binders]
  | case label params =>
    cases params with
    | rest param => simp [action_of_rest hc, Core.Expr.mentions, Pattern.binders]
    | list params =>
      rw [action_of_list hc, Core.Expr.mentions, Core.Expr.mentions,
        Param.any_mapM_compile hx, Pattern.binders]

lemma mentionsAny_fieldCalls {scrutinee : String} (hx : scrutinee ≠ x) (s : Schema) (e : Entry) :
    Core.Expr.mentionsAny x (s.fieldCalls e scrutinee) =
      (e.fields.map (Variant.accessorName s.variant e.label)).contains x := by
  rw [Core.Expr.mentionsAny_eq_any, Schema.fieldCalls, List.any_map, Bool.eq_iff_iff]
  simp [Core.Expr.mentions, Core.Expr.mentionsAny, hx]

/-- The branches mention what the clauses do, and the accessors that are called for them. -/
lemma Compiles.mentions (hx : NoPercent x) (hscrutinee : site.scrutinee ≠ x)
    (h : site.Compiles seen cs n disp n') : Core.Expr.mentionsBranch x disp.branches =
      ((site.schema.called (cs.map (·.pattern))).contains x ||
        cs.any fun c => !c.pattern.binders.contains x && c.body.mentions x) := by
  induction h with
  | close seen n => rfl
  | @default seen c hc n =>
    rw [closeWith_default seen hc]
    simp [Core.Expr.mentionsBranch, Core.Test.mentions, Core.Expr.mentions,
      Core.Expr.mentionsAny, Schema.called, hc, Pattern.label?, Pattern.binders]
  | @case seen c label params cs e disp n n' hc hnew he hrest ih =>
    have hlabel : c.pattern.label? = some label := by rw [hc, Pattern.label?]
    rw [Dispatch.branches_addBranch, Core.Expr.mentionsBranch, ih, mentions_action hx,
      mentionsAny_fieldCalls hscrutinee, Core.Test.mentions, decide_eq_false hscrutinee]
    simp only [Schema.called, List.map_cons, List.filterMap_cons, hlabel, List.flatMap_cons, he,
      Option.toList_some, List.flatMap_nil, List.append_nil, List.contains_append, List.any_cons,
      Bool.false_or]
    ac_rfl

end Site

lemma default_last_iff {ps : List Pattern} :
    (∀ i p, ps[i]? = some p → p = .default → i + 1 = ps.length) ↔
      ∀ p ∈ ps.dropLast, p.isDefault = false := by
  constructor
  · intro h p hp
    obtain ⟨i, hi, rfl⟩ := List.mem_iff_getElem.mp hp
    rw [List.length_dropLast] at hi
    have hlast := h i ps[i] (List.getElem?_eq_getElem (by omega))
    rw [List.getElem_dropLast, ← Bool.not_eq_true, Pattern.isDefault_iff]
    exact fun hdefault => absurd (hlast hdefault) (by omega)
  · intro h i p hi hdefault
    obtain ⟨hlt, rfl⟩ := List.getElem?_eq_some_iff.mp hi
    by_contra hlast
    have hmem : ps[i] ∈ ps.dropLast := by
      rw [List.dropLast_eq_take, List.mem_take_iff_getElem]
      exact ⟨i, by omega, rfl⟩
    have hfalse := h _ hmem
    rw [hdefault] at hfalse
    cases hfalse

/-- The patterns of clauses tell whether they may stand in one match. -/
lemma Site.schema_accepts_iff (site : Site) (cs : List Clause) :
    site.schema.accepts (cs.map (·.pattern)) = true ↔ site.Accepts cs := by
  have hlabels : (cs.map (·.pattern)).filterMap (·.label?) = clauseLabels cs := by
    rw [List.filterMap_map]
    rfl
  have hlast : (∀ i c, cs[i]? = some c → c.pattern = .default → i + 1 = cs.length) ↔
      ∀ p ∈ (cs.map (·.pattern)).dropLast, p.isDefault = false := by
    rw [← default_last_iff, List.length_map]
    simp only [List.getElem?_map, Option.map_eq_some_iff]
    constructor
    · rintro h i p ⟨c, hc, rfl⟩
      exact h i c hc
    · exact fun h i c hc => h i c.pattern ⟨c, hc, rfl⟩
  rw [Site.accepts_iff, Site.proper_iff, hlast, Schema.accepts, hlabels]
  simp [and_assoc]

lemma Operator.expand_apply (o : Operator) (scrutinee : Core.Expr) (clauses : List Clause)
    (span : Span) (n : Nat) : o.expand scrutinee clauses span n =
      match Site.compile ⟨o.schema, freshName "scrutinee" n, span⟩ clauses (n + 1) with
      | (.ok d, k) =>
        (.ok ⟨.letIn (freshName "scrutinee" n) scrutinee (.dispatch d.branches), d.advice⟩, k)
      | (.error f, k) => (.error f, k) := by
  have hfresh : (liftM (fresh "scrutinee") : Compile String) n =
      (.ok (freshName "scrutinee" n), n + 1) := rfl
  rw [expand, Compile.bind_apply, hfresh]
  dsimp only
  rw [Compile.bind_apply]
  generalize Site.compile _ clauses (n + 1) = r
  obtain ⟨_ | d, k⟩ := r <;> rfl

/-- An expansion mentions its parts and the accessors that are called. There is none just if the
operator is not known or the clauses are not accepted. -/
theorem Registry.expand_called (r : Registry) (operator : Ident) (scrutinee : Core.Expr)
    (clauses : List Clause) (span : Span) (n : Nat) :
    match r.called operator (clauses.map (·.pattern)) with
    | some names => ∃ e k, r.expand operator scrutinee clauses span n = (.ok e, k) ∧
        ∀ x, NoPercent x → e.expr.mentions x = (names.contains x || (scrutinee.mentions x ||
          clauses.any fun c => !c.pattern.binders.contains x && c.body.mentions x))
    | none => ∃ f k, r.expand operator scrutinee clauses span n = (.error f, k) := by
  unfold Registry.called Registry.expand
  cases hfind : r.find? operator.name with
  | none => exact ⟨_, _, rfl⟩
  | some o =>
    let site : Site := ⟨o.schema, freshName "scrutinee" n, span⟩
    dsimp only
    rw [o.expand_apply]
    have haccepts : o.schema.accepts (clauses.map (·.pattern)) = true ↔ site.Accepts clauses :=
      site.schema_accepts_iff clauses
    by_cases hcs : clauses = []
    · subst hcs
      exact ⟨_, _, rfl⟩
    rcases hcompile : site.compile clauses (n + 1) with ⟨result, k⟩
    rcases Site.compile_answers site hcs (n + 1) with ⟨⟨d, hd⟩, hok⟩ | ⟨f, hf, -, hnot⟩
    · obtain rfl : result = .ok d := by rw [← hd, hcompile]
      rw [if_pos (haccepts.mpr hok)]
      refine ⟨_, k, rfl, fun x hx => ?_⟩
      have hne : site.scrutinee ≠ x := fun heq => hx (heq ▸ percent_mem_freshName _ _)
      have hbranches := (Site.compile_ok hcompile).mentions hx hne
      have hbound : decide (freshName "scrutinee" n ≠ x) = true := decide_eq_true hne
      simp only [Core.Expr.mentions, hbranches, hbound, Bool.true_and]
      ac_rfl
    · obtain rfl : result = .error f := by rw [← hf, hcompile]
      rw [if_neg (mt haccepts.mp hnot)]
      exact ⟨f, k, rfl⟩

end Match

end ClosedSum
