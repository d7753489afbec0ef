import ClosedSum.Proofs.Coverage

/-!
# Clause lists

The clauses of a match compile just if there is one at least, each names a declared case, no two
name the same one, and a default is the last of them. Otherwise the first clause that breaks a rule
is reported, with the first rule that it breaks: it stands behind a default, it repeats a case, or
its case is not declared. The branches of clauses that compile follow their order, and only the last
branch is taken by every value.
-/

namespace ClosedSum.Match

lemma mem_clauseLabels {cs : List Clause} {l : Ident} :
    l ∈ clauseLabels cs ↔ ∃ c ∈ cs, c.pattern.label? = some l := by
  simp [clauseLabels]

/-- The entry that a label is looked up to is the only one with the label. -/
lemma Schema.find?_eq_of_mem {s : Schema} (hs : s.labels.Nodup) {e e' : Entry} {label : String}
    (h : s.find? label = some e) (he' : e' ∈ s.entries) (hlabel : e'.label = label) : e' = e := by
  have he : e ∈ s.entries := List.mem_of_find?_eq_some h
  have hfound : e.label = label := by simpa using List.find?_some h
  apply List.inj_on_of_nodup_map hs he' he
  rw [hlabel, hfound]

lemma Schema.find?_eq_none {s : Schema} {label : String} :
    s.find? label = none ↔ label ∉ s.labels := by
  simp [find?, labels]

namespace Site

variable {site : Site} {before cs : List Clause} {c : Clause} {f g : Fault}

/-- A clause that may not stand behind others: one of them is a default, or it names a case that one
of them names or that is not declared. -/
def Offends (site : Site) (before : List Clause) (c : Clause) : Prop :=
  (∃ d ∈ before, d.pattern = .default) ∨ ∃ label, c.pattern.label? = some label ∧
    ((∃ l ∈ clauseLabels before, l.name = label.name) ∨ label.name ∉ site.schema.labels)

/-- The fault of a clause that may not stand behind others, by the first of the three reasons. -/
inductive FaultOf (site : Site) (before : List Clause) (c : Clause) : Fault → Prop
  | behindDefault {d : Clause} (hd : before.find? (·.pattern.isDefault) = some d) :
    FaultOf site before c (.defaultNotLast d.span c.span)
  | repeated {label first : Ident} (hnone : ∀ d ∈ before, d.pattern ≠ .default)
    (hlabel : c.pattern.label? = some label)
    (hfirst : (clauseLabels before).find? (·.name = label.name) = some first) :
    FaultOf site before c (.repeatedCase label.name label.span first.span)
  | undeclared {label : Ident} (hnone : ∀ d ∈ before, d.pattern ≠ .default)
    (hlabel : c.pattern.label? = some label)
    (hnew : ∀ l ∈ clauseLabels before, l.name ≠ label.name)
    (hundeclared : label.name ∉ site.schema.labels) :
    FaultOf site before c
      (.unknownCase site.schema.variant label.name label.span site.schema.labels)

/-- Clauses that may stand behind others, each behind those before it. -/
def Proper (site : Site) (before cs : List Clause) : Prop :=
  ∀ i c, cs[i]? = some c → ¬ site.Offends (before ++ cs.take i) c

/-- The fault of the first clause that may not stand where it does. -/
def FirstFault (site : Site) (before cs : List Clause) (f : Fault) : Prop :=
  ∃ i c, cs[i]? = some c ∧ site.FaultOf (before ++ cs.take i) c f ∧
    ∀ j < i, ∀ c', cs[j]? = some c' → ¬ site.Offends (before ++ cs.take j) c'

/-- Clauses that may stand in one match. -/
structure Accepts (site : Site) (cs : List Clause) : Prop where
  nonempty : cs ≠ []
  declared : ∀ l ∈ clauseLabels cs, l.name ∈ site.schema.labels
  distinct : ((clauseLabels cs).map (·.name)).Nodup
  default_last : ∀ i c, cs[i]? = some c → c.pattern = .default → i + 1 = cs.length

/-- The branch of a clause tests for the case that is declared with the label, and then calls the
function of the clause on the fields. A default calls its function without a test. -/
def Handles (site : Site) (c : Clause) (b : Core.Branch) : Prop :=
  match c.pattern with
  | .default => b = .mk .always (.call (.lambda [] false c.body) [])
  | .case label _ => ∃ n, ∀ e ∈ site.schema.entries, e.label = label.name →
    b = .mk (.case site.scrutinee site.schema.variant e.tag e.predicate)
      (action c (site.schema.fieldCalls e site.scrutinee) n).1

lemma find?_isDefault_eq_none (h : ∀ d ∈ before, d.pattern ≠ .default) :
    before.find? (·.pattern.isDefault) = none := by
  rw [List.find?_eq_none]
  intro d hd hdefault
  exact h d hd (Pattern.isDefault_iff.mp hdefault)

lemma FaultOf.offends (h : site.FaultOf before c f) : site.Offends before c := by
  cases h with
  | behindDefault hd =>
    have hdefault := List.find?_some hd
    exact .inl ⟨_, List.mem_of_find?_eq_some hd, Pattern.isDefault_iff.mp hdefault⟩
  | @repeated label first hnone hlabel hfirst =>
    have hname := List.find?_some hfirst
    exact .inr ⟨label, hlabel, .inl ⟨first, List.mem_of_find?_eq_some hfirst, by simpa using hname⟩⟩
  | undeclared hnone hlabel hnew hundeclared => exact .inr ⟨_, hlabel, .inr hundeclared⟩

lemma FaultOf.unique (h : site.FaultOf before c f) (h' : site.FaultOf before c g) : f = g := by
  cases h with
  | behindDefault hd =>
    cases h' with
    | behindDefault hd' =>
      rw [hd] at hd'
      cases hd'
      rfl
    | repeated hnone => simp [find?_isDefault_eq_none hnone] at hd
    | undeclared hnone => simp [find?_isDefault_eq_none hnone] at hd
  | @repeated label first hnone hlabel hfirst =>
    have hmem := List.mem_of_find?_eq_some hfirst
    have hname : first.name = label.name := by simpa using List.find?_some hfirst
    cases h' with
    | behindDefault hd => simp [find?_isDefault_eq_none hnone] at hd
    | repeated hnone' hlabel' hfirst' =>
      obtain rfl := Option.some.inj (hlabel.symm.trans hlabel')
      rw [hfirst] at hfirst'
      cases hfirst'
      rfl
    | undeclared hnone' hlabel' hnew =>
      obtain rfl := Option.some.inj (hlabel.symm.trans hlabel')
      exact absurd hname (hnew first hmem)
  | @undeclared label hnone hlabel hnew hundeclared =>
    cases h' with
    | behindDefault hd => simp [find?_isDefault_eq_none hnone] at hd
    | @repeated label' first hnone' hlabel' hfirst =>
      obtain rfl := Option.some.inj (hlabel.symm.trans hlabel')
      have hname : first.name = label.name := by simpa using List.find?_some hfirst
      exact absurd hname (hnew first (List.mem_of_find?_eq_some hfirst))
    | undeclared hnone' hlabel' =>
      obtain rfl := Option.some.inj (hlabel.symm.trans hlabel')
      rfl

section Places

lemma proper_nil : site.Proper before [] := by
  intro i c hc
  cases hc

lemma Proper.cons (hc : ¬ site.Offends before c) (hcs : site.Proper (before ++ [c]) cs) :
    site.Proper before (c :: cs) := by
  intro i c' hc'
  cases i with
  | zero =>
    obtain rfl : c = c' := by simpa using hc'
    simpa using hc
  | succ i => simpa using hcs i c' (by simpa using hc')

lemma FirstFault.head (h : site.FaultOf before c f) : site.FirstFault before (c :: cs) f := by
  refine ⟨0, c, rfl, by simpa using h, ?_⟩
  intro j hj
  exact absurd hj (Nat.not_lt_zero j)

lemma FirstFault.cons (hc : ¬ site.Offends before c) (hcs : site.FirstFault (before ++ [c]) cs f) :
    site.FirstFault before (c :: cs) f := by
  obtain ⟨i, c', hi, hfault, hleast⟩ := hcs
  refine ⟨i + 1, c', by simpa using hi, by simpa using hfault, ?_⟩
  intro j hj c'' hc''
  cases j with
  | zero =>
    obtain rfl : c = c'' := by simpa using hc''
    simpa using hc
  | succ j => simpa using hleast j (by omega) c'' (by simpa using hc'')

lemma FirstFault.not_proper (h : site.FirstFault before cs f) : ¬ site.Proper before cs := by
  obtain ⟨i, c, hi, hfault, -⟩ := h
  intro hproper
  exact hproper i c hi hfault.offends

lemma FirstFault.unique (h : site.FirstFault before cs f) (h' : site.FirstFault before cs g) :
    f = g := by
  obtain ⟨i, c, hi, hfault, hleast⟩ := h
  obtain ⟨j, d, hj, hfault', hleast'⟩ := h'
  rcases Nat.lt_trichotomy i j with hlt | rfl | hlt
  · exact absurd hfault.offends (hleast' i hlt c hi)
  · obtain rfl := Option.some.inj (hi.symm.trans hj)
    exact hfault.unique hfault'
  · exact absurd hfault'.offends (hleast j hlt d hj)

/-- Clauses may stand each where it does just if their labels are declared and differ, and a default
stands at the end. -/
lemma proper_iff : site.Proper [] cs ↔
    (∀ l ∈ clauseLabels cs, l.name ∈ site.schema.labels) ∧
      ((clauseLabels cs).map (·.name)).Nodup ∧
        ∀ i c, cs[i]? = some c → c.pattern = .default → i + 1 = cs.length := by
  have hnodup : ((clauseLabels cs).map (·.name)).Nodup ↔ ∀ i j (hi : i < cs.length)
      (hj : j < cs.length), i < j → ∀ l, cs[i].pattern.label? = some l →
        ∀ l', cs[j].pattern.label? = some l' → l.name ≠ l'.name := by
    rw [List.Nodup, List.pairwise_map, clauseLabels, List.pairwise_filterMap,
      List.pairwise_iff_getElem]
  rw [hnodup]
  constructor
  · intro h
    refine ⟨?_, ?_, ?_⟩
    · intro l hl
      obtain ⟨c, hc, hlabel⟩ := mem_clauseLabels.mp hl
      obtain ⟨i, hi⟩ := List.mem_iff_getElem?.mp hc
      by_contra hundeclared
      exact h i c hi (.inr ⟨l, hlabel, .inr hundeclared⟩)
    · intro i j hi hj hij l hl l' hl' hname
      apply h j cs[j] (List.getElem?_eq_getElem hj)
      refine .inr ⟨l', hl', .inl ⟨l, mem_clauseLabels.mpr ⟨cs[i], ?_, hl⟩, hname⟩⟩
      rw [List.nil_append, List.mem_take_iff_getElem]
      exact ⟨i, by omega, rfl⟩
    · intro i c hi hdefault
      by_contra hlast
      obtain ⟨hlt, rfl⟩ := List.getElem?_eq_some_iff.mp hi
      have hnext : i + 1 < cs.length := by omega
      apply h (i + 1) cs[i + 1] (List.getElem?_eq_getElem hnext)
      refine .inl ⟨cs[i], ?_, hdefault⟩
      rw [List.nil_append, List.mem_take_iff_getElem]
      exact ⟨i, by omega, rfl⟩
  · rintro ⟨hdeclared, hdistinct, hlast⟩ i c hi hoffends
    obtain ⟨hlt, rfl⟩ := List.getElem?_eq_some_iff.mp hi
    rw [List.nil_append] at hoffends
    rcases hoffends with ⟨d, hd, hdefault⟩ | ⟨label, hlabel, ⟨l, hl, hname⟩ | hundeclared⟩
    · obtain ⟨j, hj, rfl⟩ := List.mem_take_iff_getElem.mp hd
      have := hlast j _ (List.getElem?_eq_getElem _) hdefault
      omega
    · obtain ⟨d, hd, hlabel'⟩ := mem_clauseLabels.mp hl
      obtain ⟨j, hj, rfl⟩ := List.mem_take_iff_getElem.mp hd
      exact hdistinct j i (by omega) hlt (by omega) l hlabel' label hlabel hname
    · apply hundeclared
      exact hdeclared label (mem_clauseLabels.mpr ⟨cs[i], List.getElem_mem hlt, hlabel⟩)

end Places

section Compiling

lemma find?_reverse_clauseLabels (h : ((clauseLabels before).map (·.name)).Nodup) (name : String) :
    (clauseLabels before).reverse.find? (·.name = name) =
      (clauseLabels before).find? (·.name = name) := by
  cases hfind : (clauseLabels before).find? (·.name = name) with
  | none =>
    rw [List.find?_eq_none] at hfind ⊢
    intro l hl
    exact hfind l (List.mem_reverse.mp hl)
  | some first =>
    have hmem := List.mem_of_find?_eq_some hfind
    have hname : first.name = name := by simpa using List.find?_some hfind
    cases hfind' : (clauseLabels before).reverse.find? (·.name = name) with
    | none =>
      have hnone := List.find?_eq_none.mp hfind' first (List.mem_reverse.mpr hmem)
      simp [hname] at hnone
    | some last =>
      have hmem' := List.mem_reverse.mp (List.mem_of_find?_eq_some hfind')
      have hname' : last.name = name := by simpa using List.find?_some hfind'
      rw [List.inj_on_of_nodup_map h hmem' hmem (hname'.trans hname.symm)]

lemma entry_eq (s : Schema) (label : Ident) : s.entry label = match s.find? label.name with
    | some e => .ok e
    | none => .error (.unknownCase s.variant label.name label.span s.labels) := rfl

/-- A clause whose label is declared and new gets its branch in front of those of the others. -/
lemma compileFrom_cons {seen : List Ident} {label : Ident} {params : Params} {e : Entry}
    (hc : c.pattern = .case label params) (hnew : seen.find? (·.name = label.name) = none)
    (he : site.schema.find? label.name = some e) (n : Nat) :
    site.compileFrom seen (c :: cs) n =
      match site.compileFrom (label :: seen) cs
        (action c (site.schema.fieldCalls e site.scrutinee) n).2 with
      | (.ok d, k) =>
        (.ok (d.addBranch (.case site.scrutinee site.schema.variant e.tag e.predicate)
          (action c (site.schema.fieldCalls e site.scrutinee) n).1 (arityAdvice e c)), k)
      | (.error f, k) => (.error f, k) := by
  have hentry : (liftM (site.schema.entry label) : Compile Entry) n = (.ok e, n) := by
    rw [entry_eq, he]
    rfl
  have haction : ∀ args, (liftM (action c args) : Compile Core.Expr) n =
      (.ok (action c args n).1, (action c args n).2) := fun _ => rfl
  rw [compileFrom.eq_def]
  simp only [hc, hnew]
  rw [Compile.bind_apply, hentry]
  dsimp only
  rw [Compile.bind_apply, haction]
  dsimp only
  rw [Compile.bind_apply]
  generalize site.compileFrom (label :: seen) cs _ = r
  obtain ⟨_ | d, k⟩ := r
  · rfl
  · rfl

lemma clauseLabels_append_singleton {label : Ident} (hlabel : c.pattern.label? = some label) :
    clauseLabels (before ++ [c]) = clauseLabels before ++ [label] := by
  simp [clauseLabels, hlabel]

lemma forall_ne_default_append {label : Ident} {params : Params}
    (hnone : ∀ d ∈ before, d.pattern ≠ .default) (hc : c.pattern = .case label params) :
    ∀ d ∈ before ++ [c], d.pattern ≠ .default := by
  intro d hd
  rcases List.mem_append.mp hd with hd | hd
  · exact hnone d hd
  · obtain rfl := List.mem_singleton.mp hd
    simp [hc]

lemma nodup_append {label : Ident} (hnodup : ((clauseLabels before).map (·.name)).Nodup)
    (hlabel : c.pattern.label? = some label)
    (hnew : ∀ l ∈ clauseLabels before, l.name ≠ label.name) :
    ((clauseLabels (before ++ [c])).map (·.name)).Nodup := by
  rw [clauseLabels_append_singleton hlabel, List.map_append, List.nodup_append]
  refine ⟨hnodup, by simp, ?_⟩
  simpa using hnew

lemma not_offends_of_new {label : Ident} {e : Entry} (hnone : ∀ d ∈ before, d.pattern ≠ .default)
    (hlabel : c.pattern.label? = some label)
    (hnew : ∀ l ∈ clauseLabels before, l.name ≠ label.name)
    (he : site.schema.find? label.name = some e) : ¬ site.Offends before c := by
  rintro (⟨d, hd, hdefault⟩ | ⟨label', hsome, hrest⟩)
  · exact hnone d hd hdefault
  · obtain rfl := Option.some.inj (hlabel.symm.trans hsome)
    rcases hrest with ⟨l, hl, hname⟩ | hundeclared
    · exact hnew l hl hname
    · rw [Schema.find?_eq_none.mpr hundeclared] at he
      cases he

/-- Clauses behind others either may all stand there, and compile, or the first that may not is
reported. -/
theorem compileFrom_answers (site : Site) (hnone : ∀ d ∈ before, d.pattern ≠ .default)
    (hnodup : ((clauseLabels before).map (·.name)).Nodup) (n : Nat) :
    (∃ d, (site.compileFrom (clauseLabels before).reverse cs n).1 = .ok d) ∧
        site.Proper before cs ∨
      ∃ f, (site.compileFrom (clauseLabels before).reverse cs n).1 = .error f ∧
        site.FirstFault before cs f := by
  induction cs generalizing before n with
  | nil => exact .inl ⟨⟨_, rfl⟩, proper_nil⟩
  | cons c cs ih =>
    cases hc : c.pattern with
    | default =>
      have hlabel : c.pattern.label? = none := by rw [hc, Pattern.label?]
      have hfree : ¬ site.Offends before c := by
        rintro (⟨d, hd, hdefault⟩ | ⟨label, hsome, -⟩)
        · exact hnone d hd hdefault
        · simp [hlabel] at hsome
      rw [compileFrom.eq_def]
      simp only [hc]
      cases cs with
      | nil => exact .inl ⟨⟨_, rfl⟩, .cons hfree proper_nil⟩
      | cons following cs =>
        -- The loop stops at the default; it is the clause behind it that may not stand there.
        refine .inr ⟨_, rfl, .cons hfree (.head (.behindDefault ?_))⟩
        rw [List.find?_append, find?_isDefault_eq_none hnone, Option.none_or]
        simp [hc, Pattern.isDefault]
    | case label params =>
      have hlabel : c.pattern.label? = some label := by rw [hc, Pattern.label?]
      have hseen := find?_reverse_clauseLabels hnodup label.name
      cases hfirst : (clauseLabels before).find? (·.name = label.name) with
      | some first =>
        rw [compileFrom.eq_def]
        simp only [hc, hseen, hfirst]
        exact .inr ⟨_, rfl, .head (.repeated hnone hlabel hfirst)⟩
      | none =>
        have hnew : ∀ l ∈ clauseLabels before, l.name ≠ label.name := by simpa using hfirst
        cases hentry : site.schema.find? label.name with
        | none =>
          have hundeclared := Schema.find?_eq_none.mp hentry
          rw [compileFrom.eq_def]
          simp only [hc, hseen, hfirst, entry_eq, hentry]
          exact .inr ⟨_, rfl, .head (.undeclared hnone hlabel hnew hundeclared)⟩
        | some e =>
          have hfree := not_offends_of_new hnone hlabel hnew hentry
          rw [compileFrom_cons hc (hseen.trans hfirst) hentry]
          have hrest := ih (forall_ne_default_append hnone hc) (nodup_append hnodup hlabel hnew)
            (action c (site.schema.fieldCalls e site.scrutinee) n).2
          rw [clauseLabels_append_singleton hlabel, List.reverse_append] at hrest
          simp only [List.reverse_singleton, List.singleton_append] at hrest
          generalize site.compileFrom (label :: (clauseLabels before).reverse) cs _ = r at hrest
          rcases hrest with ⟨⟨d, hd⟩, hproper⟩ | ⟨f, hf, hfault⟩
          · obtain ⟨_, k⟩ := r
            obtain rfl := hd
            exact .inl ⟨⟨_, rfl⟩, hproper.cons hfree⟩
          · obtain ⟨_, k⟩ := r
            obtain rfl := hf
            exact .inr ⟨f, rfl, hfault.cons hfree⟩

end Compiling

section Branches

variable {seen : List Ident} {n n' : Nat} {disp : Dispatch}

/-- There is one branch for each clause, in their order, and one that fails behind them if none of
them is a default. -/
lemma Compiles.branches_eq (h : site.Compiles seen cs n disp n')
    (hdistinct : site.schema.labels.Nodup) : ∃ bs, List.Forall₂ site.Handles cs bs ∧
      disp.branches = bs ++ if cs.any (·.pattern.isDefault) then []
        else [.mk .always (.fail site.schema.variant)] := by
  induction h with
  | close seen n => exact ⟨[], .nil, rfl⟩
  | @default seen c hc n =>
    rw [closeWith_default seen hc]
    have hhandles : site.Handles c (.mk .always (.call (.lambda [] false c.body) [])) := by
      simp only [Handles, hc]
    exact ⟨_, .cons hhandles .nil, by simp [hc, Pattern.isDefault]⟩
  | @case seen c label params cs e disp n n' hc hnew he hrest ih =>
    obtain ⟨bs, hall, hbranches⟩ := ih
    have hhandles : site.Handles c (.mk (.case site.scrutinee site.schema.variant e.tag e.predicate)
        (action c (site.schema.fieldCalls e site.scrutinee) n).1) := by
      simp only [Handles, hc]
      refine ⟨n, ?_⟩
      intro e' he' hlabel
      rw [Schema.find?_eq_of_mem hdistinct he he' hlabel]
    refine ⟨_, .cons hhandles hall, ?_⟩
    rw [Dispatch.branches_addBranch, hbranches]
    simp [hc, Pattern.isDefault]

lemma Compiles.branches_ne_nil (h : site.Compiles seen cs n disp n') : disp.branches ≠ [] := by
  cases h with
  | close => exact List.cons_ne_nil _ _
  | default seen hc =>
    rw [closeWith_default seen hc]
    exact List.cons_ne_nil _ _
  | case => exact List.cons_ne_nil _ _

lemma always_iff_of_singleton {i : Nat} {b b' : Core.Branch} (halways : b'.test = .always)
    (hb : [b'][i]? = some b) : b.test = .always ↔ i + 1 = [b'].length := by
  obtain ⟨hi, rfl⟩ := List.getElem?_eq_some_iff.mp hb
  have hzero : i = 0 := by simpa using hi
  subst hzero
  simpa using halways

/-- Only the last branch is taken without a test. -/
lemma Compiles.always_iff (h : site.Compiles seen cs n disp n') {i : Nat} {b : Core.Branch}
    (hb : disp.branches[i]? = some b) : b.test = .always ↔ i + 1 = disp.branches.length := by
  induction h generalizing i b with
  | close seen n => exact always_iff_of_singleton rfl hb
  | @default seen c hc n =>
    rw [closeWith_default seen hc] at hb ⊢
    exact always_iff_of_singleton rfl hb
  | @case seen c label params cs e disp n n' hc hnew he hrest ih =>
    have hlength : 0 < disp.branches.length := List.length_pos_iff.mpr hrest.branches_ne_nil
    rw [Dispatch.branches_addBranch] at hb ⊢
    cases i with
    | zero =>
      obtain rfl : Core.Branch.mk _ _ = b := Option.some.inj hb
      simp only [Core.Branch.test, List.length_cons]
      constructor
      · intro h
        cases h
      · intro h
        omega
    | succ i =>
      rw [List.getElem?_cons_succ] at hb
      rw [ih hb, List.length_cons]
      omega

end Branches

lemma accepts_iff : site.Accepts cs ↔ cs ≠ [] ∧ site.Proper [] cs := by
  rw [proper_iff]
  constructor
  · intro h
    exact ⟨h.nonempty, h.declared, h.distinct, h.default_last⟩
  · rintro ⟨hcs, hdeclared, hdistinct, hlast⟩
    exact ⟨hcs, hdeclared, hdistinct, hlast⟩

/-- Clauses compile if they may stand in one match, and otherwise the first that may not is
reported. -/
lemma compile_answers (site : Site) (hcs : cs ≠ []) (n : Nat) :
    (∃ d, (site.compile cs n).1 = .ok d) ∧ site.Accepts cs ∨
      ∃ f, (site.compile cs n).1 = .error f ∧ site.FirstFault [] cs f ∧ ¬ site.Accepts cs := by
  have hrun : site.compile cs n = site.compileFrom (clauseLabels []).reverse cs n := by
    cases cs with
    | nil => exact absurd rfl hcs
    | cons c cs => rfl
  rw [hrun, accepts_iff]
  have hanswers := @compileFrom_answers [] cs site (List.forall_mem_nil _) .nil n
  rcases hanswers with ⟨hok, hproper⟩ | ⟨f, hf, hfault⟩
  · exact .inl ⟨hok, hcs, hproper⟩
  · exact .inr ⟨f, hf, hfault, fun h => hfault.not_proper h.2⟩

lemma compile_eq_empty_iff (n : Nat) (variant : String) (span : Span) :
    (site.compile cs n).1 = .error (.empty variant span) ↔
      cs = [] ∧ variant = site.schema.variant ∧ span = site.span := by
  constructor
  · intro hempty
    by_cases hcs : cs = []
    · subst hcs
      cases hempty
      exact ⟨rfl, rfl, rfl⟩
    · exfalso
      rcases compile_answers site hcs n with ⟨⟨d, hd⟩, -⟩ | ⟨f, hf, hfault, -⟩
      · rw [hempty] at hd
        cases hd
      · rw [hempty] at hf
        obtain rfl := Except.error.inj hf
        obtain ⟨i, c, -, hfault, -⟩ := hfault
        cases hfault
  · rintro ⟨rfl, rfl, rfl⟩
    rfl

/-- A match compiles just if its clauses may stand in one match. It is reported as empty just if it
has none, and otherwise by the first clause that may not stand where it does. What compiles has one
branch for each clause, in their order, and one that fails behind them if there is no default; only
the last branch is taken without a test. -/
theorem compile_exact (hdistinct : site.schema.labels.Nodup) (cs : List Clause) (n : Nat) :
    (∀ variant span, (site.compile cs n).1 = .error (.empty variant span) ↔
        cs = [] ∧ variant = site.schema.variant ∧ span = site.span) ∧
      ((∃ d, (site.compile cs n).1 = .ok d) ↔ site.Accepts cs) ∧
      (cs ≠ [] → ¬ site.Accepts cs →
        ∃ f, site.FirstFault [] cs f ∧ (site.compile cs n).1 = .error f) ∧
      ∀ d, (site.compile cs n).1 = .ok d →
        (∃ bs, List.Forall₂ site.Handles cs bs ∧
          d.branches = bs ++ if cs.any (·.pattern.isDefault) then []
            else [.mk .always (.fail site.schema.variant)]) ∧
        ∀ i b, d.branches[i]? = some b → (b.test = .always ↔ i + 1 = d.branches.length) := by
  refine ⟨compile_eq_empty_iff n, ?_, ?_, ?_⟩
  · by_cases hcs : cs = []
    · subst hcs
      constructor
      · rintro ⟨d, hd⟩
        cases hd
      · exact fun h => absurd rfl h.nonempty
    · rcases compile_answers site hcs n with ⟨hok, haccepts⟩ | ⟨f, hf, -, hnot⟩
      · exact ⟨fun _ => haccepts, fun _ => hok⟩
      · refine ⟨?_, fun h => absurd h hnot⟩
        rintro ⟨d, hd⟩
        rw [hf] at hd
        cases hd
  · intro hcs hnot
    rcases compile_answers site hcs n with ⟨-, haccepts⟩ | ⟨f, hf, hfault, -⟩
    · exact absurd haccepts hnot
    · exact ⟨f, hfault, hf⟩
  · intro d hd
    have hcompiles : site.Compiles [] cs n d (site.compile cs n).2 := compile_ok (Prod.ext hd rfl)
    exact ⟨hcompiles.branches_eq hdistinct, fun i b hb => hcompiles.always_iff hb⟩

end Site

def Site.box : Site := ⟨.ofDecls (.ofSpec Variant.Spec.box), "scrutinee%0", .none⟩

/-- Clauses with a repeated case, and a default that is not the last of them. -/
def Clause.muddled : List Clause :=
  [⟨.case ⟨"Full", ⟨0, 4⟩⟩ (.list []), .unit, ⟨0, 10⟩⟩,
    ⟨.case ⟨"Full", ⟨12, 16⟩⟩ (.list []), .unit, ⟨12, 22⟩⟩,
    ⟨.default, .unit, ⟨24, 30⟩⟩,
    ⟨.case ⟨"Lid", ⟨32, 35⟩⟩ (.list []), .unit, ⟨32, 40⟩⟩]

/-- The second clause is reported, and nothing is said of the clauses behind it. -/
theorem Site.compile_exact_muddled : Site.box.schema.labels.Nodup ∧ Clause.muddled ≠ [] ∧
    ¬ Site.box.Accepts Clause.muddled ∧
      (Site.box.compile Clause.muddled 0).1 =
        .error (.repeatedCase "Full" ⟨12, 16⟩ ⟨0, 4⟩) := by
  have hdistinct : Site.box.schema.labels.Nodup := by decide
  have hnonempty : Clause.muddled ≠ [] := List.cons_ne_nil _ _
  have hnot : ¬ Site.box.Accepts Clause.muddled := by
    intro h
    have hlast := h.default_last 2 _ rfl rfl
    cases hlast
  have hfirst : ¬ Site.box.Offends [] ⟨.case ⟨"Full", ⟨0, 4⟩⟩ (.list []), .unit, ⟨0, 10⟩⟩ := by
    rintro (⟨d, hd, -⟩ | ⟨label, hlabel, ⟨l, hl, -⟩ | hundeclared⟩)
    · cases hd
    · cases hl
    · cases hlabel
      exact hundeclared (by decide)
  have hsecond : Site.box.FaultOf [⟨.case ⟨"Full", ⟨0, 4⟩⟩ (.list []), .unit, ⟨0, 10⟩⟩]
      ⟨.case ⟨"Full", ⟨12, 16⟩⟩ (.list []), .unit, ⟨12, 22⟩⟩
      (.repeatedCase "Full" ⟨12, 16⟩ ⟨0, 4⟩) := by
    have hfound : (clauseLabels [⟨.case ⟨"Full", ⟨0, 4⟩⟩ (.list []), .unit, ⟨0, 10⟩⟩]).find?
        (·.name = "Full") = some ⟨"Full", ⟨0, 4⟩⟩ := rfl
    exact @FaultOf.repeated _ _ _ ⟨"Full", ⟨12, 16⟩⟩ _ (by simp) rfl hfound
  have hfault : Site.box.FirstFault [] Clause.muddled (.repeatedCase "Full" ⟨12, 16⟩ ⟨0, 4⟩) :=
    .cons hfirst (.head hsecond)
  obtain ⟨f, hf, hrun⟩ := (compile_exact hdistinct Clause.muddled 0).2.2.1 hnonempty hnot
  rw [hf.unique hfault] at hrun
  exact ⟨hdistinct, hnonempty, hnot, hrun⟩

end ClosedSum.Match
