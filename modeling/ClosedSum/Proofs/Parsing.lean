import ClosedSum.Proofs.ParserCompleteness
import Mathlib.Data.List.Basic

/-!
# Parsing

The parser accepts exactly the token lists that derive from the grammar, and its tree is that of the
derivation, of which there is one.
-/

namespace ClosedSum.Grammar

open Surface Parse
open Token (Kind)

variable {c : Cursor} {ls ts us vs : List Kind} {as : List Attribute} {i : Ident}

lemma ident_read (name : String) : Read .ident [.ident name] ⟨name, .none⟩ :=
  fun _ _ _ _ hc _ => ident_reads hc

section Attributes

lemma takeAttributes_nil (previous : Span) {tokens : List Token}
    (h : ∀ text, (tokens.map (·.kind)).headD .eof ≠ .attr text) :
    takeAttributes previous tokens = ([], ⟨tokens, previous⟩) := by
  match tokens with
  | [] => rfl
  | ⟨kind, span⟩ :: tokens =>
    cases kind with
    | attr text => exact absurd rfl (h text)
    | _ => rfl

lemma attributesNil_read : Read .attributes [] ([] : List Attribute) := by
  intro d c ls _ hc hfollows
  rw [List.nil_append] at hc
  have hnone : ∀ text, (c.rest.map (·.kind)).headD .eof ≠ .attr text := by
    intro text
    rw [← Cursor.kinds, hc]
    exact hfollows text
  have htake := takeAttributes_nil c.previous hnone
  refine ⟨[], c, ?_, hc, rfl⟩
  change (Except.ok (takeAttributes c.previous c.rest).1, _) = _
  rw [htake]
  rfl

lemma attributesCons_read (text : String) (h : Read .attributes ts as) :
    Read .attributes (.attr text :: ts) (⟨text, .none⟩ :: as) := by
  intro d c ls hlen hc hfollows
  obtain ⟨rest, previous⟩ := c
  cases rest with
  | nil => cases hc
  | cons t tokens =>
    obtain ⟨kind, span⟩ := t
    obtain ⟨rfl, htokens⟩ : kind = .attr text ∧ tokens.map (·.kind) = ts ++ ls := List.cons.inj hc
    rw [List.length_cons] at hlen
    obtain ⟨as', c', has', hc', herase⟩ :=
      h d ⟨tokens, span⟩ ls (by omega) htokens hfollows
    have htake : takeAttributes span tokens = (as', c') := by
      have hpair := Prod.ext_iff.mp has'
      exact Prod.ext (Except.ok.inj hpair.1) hpair.2
    subst herase
    refine ⟨⟨text, span⟩ :: as', c', ?_, hc', rfl⟩
    change (Except.ok (takeAttributes previous (⟨.attr text, span⟩ :: tokens)).1, _) = _
    rw [takeAttributes, htake]
    rfl

end Attributes

section Items

/-- A name ends the attributes before it. -/
lemma attributes_follow (hi : Derives .ident us i) (ls : List Kind) :
    Phrase.attributes.Follows ((us ++ ls).headD .eof) := by
  cases hi with
  | ident name => exact fun text h => by cases h

lemma field_read (ha : Read .attributes ts as) (hdi : Derives .ident us i)
    (hi : Read .ident us i) : Read .field (ts ++ us) ⟨i, as⟩ := by
  intro d c ls hlen hc _
  rw [List.length_append] at hlen
  have hc' : c.kinds = ts ++ (us ++ ls) := by simpa using hc
  refine (ha d c _ (by omega) hc' (attributes_follow hdi ls)).bind fun as' c₁ hc₁ has => ?_
  refine (hi d c₁ ls (by omega) hc₁ trivial).within.bind fun i' c₂ hc₂ hi' => .pure hc₂ ?_
  exact congrArg₂ Variant.FieldSpec.mk hi' has

lemma caseBare_read (ha : Read .attributes ts as) (hdi : Derives .ident us i)
    (hi : Read .ident us i) : Read .case (ts ++ us) ⟨i, as, [], .none⟩ := by
  intro d c ls hlen hc hfollows
  rw [List.length_append] at hlen
  have hc' : c.kinds = ts ++ (us ++ ls) := by simpa using hc
  refine (ha d c _ (by omega) hc' (attributes_follow hdi ls)).bind fun as' c₁ hc₁ has => ?_
  refine (hi d c₁ ls (by omega) hc₁ trivial).within.bind fun i' c₂ hc₂ hi' => ?_
  refine (isNext_leaves hc₂ hfollows).bind fun paren c₃ hc₃ hparen => ?_
  subst hparen
  exact .pure hc₃ (congrArg₂ (fun i as => Variant.CaseSpec.mk i as [] .none) hi' has)

lemma caseFields_read {fs : List Variant.FieldSpec} (ha : Read .attributes ts as)
    (hdi : Derives .ident us i) (hi : Read .ident us i)
    (hf : Read (.listOf .comma .field) vs fs) :
    Read .case (ts ++ us ++ .symbol .leftParen :: vs ++ [.symbol .rightParen])
      ⟨i, as, fs, .none⟩ := by
  intro d c ls hlen hc _
  simp only [List.length_append, List.length_cons, List.length_nil] at hlen
  have hc' : c.kinds = ts ++ (us ++ .symbol .leftParen :: (vs ++ .symbol .rightParen :: ls)) := by
    simpa using hc
  refine (ha d c _ (by omega) hc' (attributes_follow hdi _)).bind fun as' c₁ hc₁ has => ?_
  refine (hi d c₁ _ (by omega) hc₁ trivial).within.bind fun i' c₂ hc₂ hi' => ?_
  refine (isNext_reads hc₂).bind fun paren c₃ hc₃ hparen => ?_
  subst hparen
  refine (sign_reads hc₃).bind fun opened c₄ hc₄ _ => ?_
  have hlen' : vs.length ≤ d := by omega
  have hfields := closedList_reads hf rfl rfl rfl opened hlen' hlen' hc₄
  refine hfields.bind fun ⟨fs', closed⟩ c₅ hc₅ hr => .pure hc₅ ?_
  subst hi' has hr
  rfl

lemma variant_read {cs : List Variant.CaseSpec} (ha : Read .attributes ts as)
    (hi : Read .ident us i) (hcs : Read (.listOf .comma .case) vs cs) :
    Read .item (ts ++ .keyword .variant :: us ++ .symbol .leftBrace :: vs ++ [.symbol .rightBrace])
      (.variant ⟨i, as, cs, .none⟩) := by
  intro d c ls hlen hc _
  simp only [List.length_append, List.length_cons, List.length_nil] at hlen
  have hc' : c.kinds = ts ++ .keyword .variant :: (us ++ .symbol .leftBrace :: (vs ++
      .symbol .rightBrace :: ls)) := by simpa using hc
  refine (ha d c _ (by omega) hc' (fun text h => by cases h)).bind fun as' c₁ hc₁ has => ?_
  refine (kind_reads hc₁).bind fun t c₂ hc₂ ht => ?_
  subst ht
  refine Reads.bind (Q := fun spec => spec.erase = ⟨i, as, cs, .none⟩) ?_
    fun spec _ hc₃ hspec => .pure hc₃ (congrArg Item.variant hspec)
  refine Reads.within ((span_reads hc₂).bind fun start c₃ hc₃ _ => ?_)
  refine (keyword_reads hc₃).bind fun _ c₄ hc₄ _ => ?_
  refine (hi d c₄ _ (by omega) hc₄ trivial).bind fun i' c₅ hc₅ hi' => ?_
  refine (sign_reads hc₅).bind fun opened c₆ hc₆ _ => ?_
  have hlen' : vs.length ≤ d := by omega
  have hcases := closedList_reads hcs rfl rfl rfl opened hlen' hlen' hc₆
  refine hcases.bind fun ⟨cs', closed⟩ c₇ hc₇ hr => .pure hc₇ ?_
  subst hi' has hr
  rfl

lemma Cursor.length_kinds (c : Cursor) : c.kinds.length = c.rest.length := List.length_map _

lemma function_read {ps : List Ident} {e : Expr} (hi : Read .ident ts i)
    (hp : Read (.listOf .comma .ident) us ps) (he : Read (.expr .comparison) vs e) :
    Read .item (.keyword .fn :: ts ++ .symbol .leftParen :: us ++ .symbol .rightParen ::
      .symbol .assign :: vs) (.function ⟨i, ps, e, .none⟩) := by
  intro d c ls hlen hc hfollows
  simp only [List.length_append, List.length_cons] at hlen
  have hc' : c.kinds = .keyword .fn :: (ts ++ .symbol .leftParen :: (us ++
      .symbol .rightParen :: .symbol .assign :: (vs ++ ls))) := by simpa using hc
  have hnone := attributesNil_read d c _ (Nat.zero_le d) hc' fun text h => by cases h
  refine hnone.bind fun as c₁ hc₁ has => ?_
  obtain rfl : as = [] := List.map_eq_nil_iff.mp has
  refine (kind_reads hc₁).bind fun t c₂ hc₂ ht => ?_
  subst ht
  refine Reads.bind (Q := fun f => f.erase = ⟨i, ps, e, .none⟩) ?_
    fun f _ hc₃ hf => .pure hc₃ (congrArg Item.function hf)
  refine Reads.within ((keyword_reads hc₂).bind fun start c₃ hc₃ _ => ?_)
  refine (hi d c₃ _ (by omega) hc₃ trivial).bind fun i' c₄ hc₄ hi' => ?_
  refine (sign_reads hc₄).bind fun opened c₅ hc₅ _ => ?_
  have hlen' : us.length ≤ d := by omega
  have hparams := closedList_reads hp rfl rfl rfl opened hlen' hlen' hc₅
  refine hparams.bind fun ⟨ps', closed⟩ c₆ hc₆ hr => ?_
  refine (sign_reads hc₆).bind fun _ c₇ hc₇ _ => ?_
  have hdepth : vs.length ≤ c₇.rest.length := by
    rw [← Cursor.length_kinds, hc₇, List.length_append]
    omega
  have hbody : Reads expr c₇ ls (·.erase = e) := he c₇.rest.length c₇ ls hdepth hc₇ hfollows
  refine hbody.bind fun e' c₈ hc₈ he' => .pure hc₈ ?_
  subst hi' hr he'
  rfl

end Items

section Modules

/-- What begins an item, so that no expression before it goes on. -/
lemma item_ends {i : Item} (h : Derives .item ts i) (ls : List Kind) :
    Level.comparison.Ends ((ts ++ ls).headD .eof) := by
  cases h with
  | variant ha =>
    cases ha with
    | attributesNil => simp [Level.Ends, comparison?, additive?, multiplicative?]
    | attributesCons => simp [Level.Ends, comparison?, additive?, multiplicative?]
  | function => simp [Level.Ends, comparison?, additive?, multiplicative?]

lemma module_ends {is : List Item} (h : Derives .module us is) :
    Level.comparison.Ends ((us ++ [Kind.eof]).headD .eof) := by
  cases h with
  | moduleNil => simp [Level.Ends, comparison?, additive?, multiplicative?]
  | @moduleCons ts us _ _ hi h =>
    rw [List.append_assoc]
    exact item_ends hi (us ++ [.eof])

lemma moduleNil_read : Read .module [] ([] : List Item) := by
  intro rounds c _ hc
  cases rounds with
  | zero => exact ⟨[], rfl, rfl⟩
  | succ rounds =>
    have hend : c.atEnd = true := by
      rw [Cursor.atEnd, Cursor.kind_eq, hc]
      rfl
    exact ⟨[], by rw [items, hend]; rfl, rfl⟩

lemma moduleCons_read {i : Item} {is : List Item} (hdi : Derives .item ts i) (hi : Read .item ts i)
    (hd : Derives .module us is) (h : Read .module us is) : Read .module (ts ++ us) (i :: is) := by
  intro rounds c hrounds hc
  obtain ⟨t, vs, rfl, ht⟩ := hdi.head rfl
  simp only [List.length_append, List.length_cons] at hrounds
  obtain ⟨rounds, rfl⟩ : ∃ n, rounds = n + 1 := ⟨rounds - 1, by omega⟩
  have hc' : c.kinds = t :: vs ++ (us ++ [.eof]) := by simpa using hc
  have hend : c.atEnd = false := by
    rw [Cursor.atEnd, Cursor.kind_eq, hc']
    exact decide_eq_false ht.1
  have hdepth : (t :: vs).length ≤ c.rest.length := by
    rw [← Cursor.length_kinds, hc', List.length_append]
    omega
  obtain ⟨i', c₁, hitem, hc₁, rfl⟩ := hi c.rest.length c _ hdepth hc' (module_ends hd)
  obtain ⟨is', hitems, rfl⟩ := h rounds c₁ (by omega) hc₁
  have hitem' : Grammar.item c.rest.length c = (.ok i', c₁) := hitem
  refine ⟨i' :: is', ?_, rfl⟩
  rw [items, hend, hitem']
  simp only [Bool.false_eq_true, if_false, hitems]

end Modules

/-- What derives from a phrase is read as the tree of the derivation. -/
theorem Derives.read {p : Phrase} {ts : List Kind} {a : p.Tree} (h : Derives p ts a) :
    Read p ts a := by
  induction h with
  | ident name => exact ident_read name
  | attributesNil => exact attributesNil_read
  | attributesCons text _ ih => exact attributesCons_read text ih
  | field _ hi iha ihi => exact field_read iha hi ihi
  | caseBare _ hi iha ihi => exact caseBare_read iha hi ihi
  | caseFields _ hi _ iha ihi ihf => exact caseFields_read iha hi ihi ihf
  | variant _ _ _ iha ihi ihc => exact variant_read iha ihi ihc
  | function _ _ _ ihi ihp ihe => exact function_read ihi ihp ihe
  | moduleNil => exact moduleNil_read
  | moduleCons hi h ihi ih => exact moduleCons_read hi ihi h ih
  | level hl ha h iha ih => exact level_read hl ha iha h ih
  | operationsNil => exact operationsNil_read
  | operationsCons hl hop _ h ihb ih => exact operationsCons_read hl hop ihb h ih
  | negation _ ih => exact negation_read ih
  | applied hf h ihf ih => exact applied_read hf ihf h ih
  | callsNil => exact callsNil_read
  | callsCons _ _ iha ih => exact callsCons_read iha ih
  | int n => exact literal_read (k := .int n) (g := (.int · n)) rfl
  | str text => exact literal_read (k := .str text) (g := (.str · text)) rfl
  | boolTrue => exact literal_read (k := .keyword .true) (g := (.bool · true)) rfl
  | boolFalse => exact literal_read (k := .keyword .false) (g := (.bool · false)) rfl
  | parensNone => exact parensNone_read
  | parens h ih => exact parens_read h ih
  | primaryBlock h ih => exact primaryBlock_read h ih
  | primaryIf h ih => exact primaryIf_read h ih
  | matchUse name _ _ ihs ihc => exact matchUse_read name ihs ihc
  | name name => exact name_read name
  | ifBlock _ hy hn iht ihy ihn => exact conditional_read iht hy ihy (.inl ⟨hn, ihn⟩)
  | ifIf _ hy hn iht ihy ihn => exact conditional_read iht hy ihy (.inr ⟨hn, ihn⟩)
  | block _ ih => exact block_read ih
  | bind hi _ _ ihe => exact bind_read hi ihe
  | stmt h ih => exact stmt_read h ih
  | paramIdent h => exact paramIdent_read h
  | paramWildcard => exact paramWildcard_read
  | patternDefault => exact patternDefault_read
  | patternList hi _ _ ihp => exact patternList_read hi ihp
  | patternRest hi hp _ ihp => exact patternRest_read hi hp ihp
  | clause _ _ ihp ihe => exact clause_read ihp ihe
  | listNil => exact listNil_read
  | listOne _ h ih => exact listOne_read h ih
  | listCons ha _ iha ih => exact listCons_read ha iha ih

/-- A module that derives is parsed without faults, as the tree of the derivation. -/
theorem parse_complete {tokens : List Token} {ks : List Kind} {is : List Item}
    (hend : tokens.map (·.kind) = ks ++ [.eof]) (h : Derives .module ks is) :
    (parse tokens).faults = [] ∧ (parse tokens).tree.items.map Item.erase = is := by
  have hlen : ks.length ≤ tokens.length := by
    have hmap := congrArg List.length hend
    rw [List.length_map, List.length_append] at hmap
    omega
  obtain ⟨is', hitems, hmap⟩ := h.read tokens.length (.ofTokens tokens) hlen hend
  simp only [parse, hitems]
  exact ⟨trivial, hmap⟩

/-- The parser accepts exactly the modules of the grammar, up to the end of the file, and each has
one tree: what is parsed, without its spans. -/
theorem parse_exact {tokens : List Token} {ks : List Kind}
    (hend : tokens.map (·.kind) = ks ++ [.eof]) (hks : Kind.eof ∉ ks) :
    ((parse tokens).faults = [] ↔ ∃ is, Derives .module ks is) ∧
      ((parse tokens).faults = [] →
        ∀ is, Derives .module ks is ↔ is = (parse tokens).tree.erase.items) := by
  have hsound : (parse tokens).faults = [] →
      Derives .module ks (parse tokens).tree.erase.items := by
    intro h
    obtain ⟨ts, us, heq, heof, hd⟩ := parse_sound h
    -- Both lists go up to the first end of the file.
    have hts : ts = ks := by
      rw [hend] at heq
      match us, heof with
      | [], _ =>
        refine absurd ?_ hd.eof_not_mem
        rw [← List.append_nil ts, ← heq]
        simp
      | _ :: us, rfl =>
        exact ((List.append_cons_inj_of_notMem hks List.not_mem_nil).mp heq).1.symm
    rwa [hts] at hd
  refine ⟨⟨fun h => ⟨_, hsound h⟩, fun ⟨is, hd⟩ => (parse_complete hend hd).1⟩, fun h is => ?_⟩
  constructor
  · intro hd
    exact (parse_complete hend hd).2.symm
  · rintro rfl
    exact hsound h

/-- A function whose body is two differences, up to the end of the file. -/
def differences : List Token :=
  [Kind.keyword .fn, .ident "main", .symbol .leftParen, .symbol .rightParen, .symbol .assign,
    .int 3, .symbol .minus, .int 2, .symbol .minus, .int 1, .eof].map (⟨·, .none⟩)

/-- Differences group from the left, and in no other way. -/
theorem parse_exact_differences :
    (parse differences).faults = [] ∧
      ∀ is, Derives .module (differences.map (·.kind)).dropLast is ↔
        is = [.function ⟨⟨"main", .none⟩, [], .binary .none .sub
          (.binary .none .sub (.int .none 3) (.int .none 2)) (.int .none 1), .none⟩] := by
  have hparse : (parse differences).faults = [] := rfl
  exact ⟨hparse, (parse_exact rfl (by decide)).2 hparse⟩

end ClosedSum.Grammar
