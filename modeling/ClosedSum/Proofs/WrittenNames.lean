import ClosedSum.Proofs.GeneratedNames
import ClosedSum.Proofs.ParserSoundness
import ClosedSum.Proofs.Scanning
import ClosedSum.Proofs.Spelling

/-!
# Names as they are written

The names in a tree are the identifiers of the text that it was read from, in the same order. An
identifier holds letters, digits and underscores only, so no name in a tree is one that is drawn
from the counter of generated names.
-/

namespace ClosedSum

namespace Match

def Param.names : Param → List String
  | .named ident => [ident.name]
  | .wildcard _ => []

def Pattern.names : Pattern → List String
  | .case label (.list params) => label.name :: params.flatMap Param.names
  | .case label (.rest param) => label.name :: param.names
  | .default => []

end Match

namespace Variant

def CaseSpec.names (c : CaseSpec) : List String := c.label.name :: c.fields.map (·.name.name)

def Spec.names (s : Spec) : List String := s.name.name :: s.cases.flatMap CaseSpec.names

end Variant

namespace Surface

mutual

/-- The names in a tree, in the order in which they are written. -/
def Expr.names : Expr → List String
  | .unit _ | .bool .. | .int .. | .str .. | .error _ => []
  | .ident _ name => [name]
  | .call _ callee args => callee.names ++ exprsNames args
  | .binary _ _ lhs rhs => lhs.names ++ rhs.names
  | .ifElse _ test yes no => test.names ++ yes.names ++ no.names
  | .block _ stmts => stmtsNames stmts
  | .matchUse _ operator scrutinee clauses _ =>
    operator.name :: scrutinee.names ++ clausesNames clauses

def exprsNames : List Expr → List String
  | [] => []
  | e :: es => e.names ++ exprsNames es

def Stmt.names : Stmt → List String
  | .bind name value => name.name :: value.names
  | .expr value => value.names

def stmtsNames : List Stmt → List String
  | [] => []
  | s :: ss => s.names ++ stmtsNames ss

def Clause.names : Clause → List String
  | .mk pattern body _ => pattern.names ++ stmtsNames body

def clausesNames : List Clause → List String
  | [] => []
  | c :: cs => c.names ++ clausesNames cs

end

def Function.names (f : Function) : List String :=
  f.name.name :: f.params.map (·.name) ++ f.body.names

def Item.names : Item → List String
  | .variant spec => spec.names
  | .function f => f.names

def Module.names (m : Module) : List String := m.items.flatMap (·.names)

lemma exprsNames_eq_flatMap (es : List Expr) : exprsNames es = es.flatMap Expr.names := by
  induction es with
  | nil => simp [exprsNames]
  | cons e es ih => simp [exprsNames, ih]

lemma stmtsNames_eq_flatMap (ss : List Stmt) : stmtsNames ss = ss.flatMap Stmt.names := by
  induction ss with
  | nil => simp [stmtsNames]
  | cons s ss ih => simp [stmtsNames, ih]

lemma clausesNames_eq_flatMap (cs : List Clause) : clausesNames cs = cs.flatMap Clause.names := by
  induction cs with
  | nil => simp [clausesNames]
  | cons c cs ih => simp [clausesNames, ih]

lemma param_names_erase (p : Match.Param) : p.erase.names = p.names := by
  cases p <;> rfl

lemma pattern_names_erase (p : Match.Pattern) : p.erase.names = p.names := by
  match p with
  | .case label (.list params) =>
    simp [Match.Pattern.erase, Match.Pattern.names, Ident.erase, List.flatMap_map,
      param_names_erase]
  | .case label (.rest param) =>
    simp [Match.Pattern.erase, Match.Pattern.names, Ident.erase, param_names_erase]
  | .default => rfl

lemma spec_names_erase (s : Variant.Spec) : s.erase.names = s.names := by
  have hcase : ∀ c : Variant.CaseSpec, c.erase.names = c.names := fun c => by
    simp [Variant.CaseSpec.erase, Variant.CaseSpec.names, Variant.FieldSpec.erase, Ident.erase]
  simp [Variant.Spec.erase, Variant.Spec.names, Ident.erase, List.flatMap_map, hcase]

mutual

/-- Spans make no difference to the names. -/
lemma Expr.names_erase : (e : Expr) → e.erase.names = e.names
  | .unit _ | .bool .. | .int .. | .str .. | .ident .. | .error _ => by
    simp only [Expr.erase, Expr.names]
  | .call _ callee args => by
    simp only [Expr.erase, Expr.names, callee.names_erase, exprsNames_erase args]
  | .binary _ _ lhs rhs => by
    simp only [Expr.erase, Expr.names, lhs.names_erase, rhs.names_erase]
  | .ifElse _ test yes no => by
    simp only [Expr.erase, Expr.names, test.names_erase, yes.names_erase, no.names_erase]
  | .block _ stmts => by simp only [Expr.erase, Expr.names, stmtsNames_erase stmts]
  | .matchUse _ operator scrutinee clauses _ => by
    simp only [Expr.erase, Expr.names, Ident.erase, scrutinee.names_erase,
      clausesNames_erase clauses]

lemma exprsNames_erase : (es : List Expr) → exprsNames (eraseExprs es) = exprsNames es
  | [] => rfl
  | e :: es => by simp only [eraseExprs, exprsNames, e.names_erase, exprsNames_erase es]

lemma Stmt.names_erase : (s : Stmt) → s.erase.names = s.names
  | .bind name value => by simp only [Stmt.erase, Stmt.names, Ident.erase, value.names_erase]
  | .expr value => by simp only [Stmt.erase, Stmt.names, value.names_erase]

lemma stmtsNames_erase : (ss : List Stmt) → stmtsNames (eraseStmts ss) = stmtsNames ss
  | [] => rfl
  | s :: ss => by simp only [eraseStmts, stmtsNames, s.names_erase, stmtsNames_erase ss]

lemma Clause.names_erase : (c : Clause) → c.erase.names = c.names
  | .mk pattern body _ => by
    simp only [Clause.erase, Clause.names, pattern_names_erase, stmtsNames_erase body]

lemma clausesNames_erase : (cs : List Clause) → clausesNames (eraseClauses cs) = clausesNames cs
  | [] => rfl
  | c :: cs => by simp only [eraseClauses, clausesNames, c.names_erase, clausesNames_erase cs]

end

lemma Item.names_erase (i : Item) : i.erase.names = i.names := by
  cases i with
  | variant spec => exact spec_names_erase spec
  | function f =>
    simp [Item.erase, Item.names, Function.erase, Function.names, Ident.erase, Function.comp_def,
      f.body.names_erase]

end Surface

namespace Grammar

open Surface
open Token (Kind)

/-- The name that a token spells, if it spells one. -/
def spelled : Kind → List String
  | .ident name => [name]
  | _ => []

/-- The names that tokens spell. -/
def identifiers (ts : List Kind) : List String := ts.flatMap spelled

@[simp] lemma spelled_ident (name : String) : spelled (.ident name) = [name] := rfl

@[simp] lemma spelled_keyword (word : Token.Keyword) : spelled (.keyword word) = [] := rfl

@[simp] lemma spelled_symbol (sign : Token.Symbol) : spelled (.symbol sign) = [] := rfl

@[simp] lemma identifiers_nil : identifiers [] = [] := rfl

@[simp] lemma identifiers_cons (t : Kind) (ts : List Kind) :
    identifiers (t :: ts) = spelled t ++ identifiers ts := List.flatMap_cons

@[simp] lemma identifiers_append (ts us : List Kind) :
    identifiers (ts ++ us) = identifiers ts ++ identifiers us := List.flatMap_append

/-- The names in the tree of a phrase. -/
def Phrase.names : (p : Phrase) → p.Tree → List String
  | .ident => fun i : Ident => [i.name]
  | .attributes => fun _ => []
  | .field => fun f : Variant.FieldSpec => [f.name.name]
  | .case => Variant.CaseSpec.names
  | .item => Item.names
  | .module => fun is : List Item => is.flatMap (·.names)
  | .expr _ | .operations .. | .calls _ | .primary | .conditional | .block => Expr.names
  | .stmt => Stmt.names
  | .param => Match.Param.names
  | .pattern => Match.Pattern.names
  | .clause => Clause.names
  | .listOf _ p => fun as : List p.Tree => as.flatMap p.names

/-- The names of what was read before the tokens of a phrase. -/
def Phrase.before : Phrase → List String
  | .operations _ e | .calls e => e.names
  | _ => []

/-- Lists of what is read by itself, and not behind something that was read before. -/
def Phrase.Alone : Phrase → Prop
  | .listOf _ p => p.before = [] ∧ p.Alone
  | _ => True

lemma spelled_of_op? {l : Level} {t : Kind} {op : BinaryOp} (h : l.op? t = some op) :
    spelled t = [] := by
  cases t with
  | ident name => cases l <;> cases h
  | _ => rfl

lemma clauseBody_names (e : Expr) : stmtsNames (clauseBody e) = e.names := by
  cases e <;> simp [clauseBody, stmtsNames, Stmt.names, Expr.names]

/-- What derives from a phrase has the names that its tokens spell. -/
theorem Derives.names {p : Phrase} {ts : List Kind} {a : p.Tree} (h : Derives p ts a)
    (hp : p.Alone) : p.names a = p.before ++ identifiers ts := by
  induction h <;> simp only [Phrase.names, Phrase.before, Phrase.Alone, true_implies, and_self,
    List.nil_append] at *
  case attributesCons text _ _ _ ih => exact ih
  case field ha hi => simp [← ha, ← hi]
  case caseBare ha hi => simp [Variant.CaseSpec.names, ← ha, ← hi]
  case caseFields ha hi hf =>
    have hfields : List.map (fun f : Variant.FieldSpec => f.name.name) _ = identifiers _ :=
      List.map_eq_flatMap.trans hf
    simp [Variant.CaseSpec.names, ← ha, ← hi, hfields]
  case variant ha hi hc =>
    have hcases : List.flatMap Variant.CaseSpec.names _ = identifiers _ := hc
    simp [Item.names, Variant.Spec.names, ← ha, ← hi, hcases]
  case function hi hp he =>
    have hparams : List.map Ident.name _ = identifiers _ := List.map_eq_flatMap.trans hp
    simp [Item.names, Function.names, ← hi, hparams, he]
  case moduleCons hi h => simp [hi, h]
  case level ha h => simp [h, ha]
  case operationsNil | callsNil => simp
  case operationsCons hop _ _ hb h => simp [h, Expr.names, hb, spelled_of_op? hop]
  case negation h => simp [Expr.names, h]
  case applied hf h => simp [h, hf]
  case callsCons ha h =>
    have hargs : exprsNames _ = identifiers _ := (exprsNames_eq_flatMap _).trans ha
    simp [h, Expr.names, hargs]
  case parens h => simp [h]
  case primaryBlock h | primaryIf h | stmt h | paramIdent h => exact h
  case matchUse hs hc =>
    have hclauses : clausesNames _ = identifiers _ := (clausesNames_eq_flatMap _).trans hc
    simp [Expr.names, hs, hclauses]
  case ifBlock ht hy hn | ifIf ht hy hn => simp [Expr.names, ht, hy, hn]
  case block h =>
    have hstmts : stmtsNames _ = identifiers _ := (stmtsNames_eq_flatMap _).trans h
    simp [Expr.names, hstmts]
  case bind hi he => simp [Stmt.names, he, ← hi]
  case patternList hi hp =>
    have hparams : List.flatMap Match.Param.names _ = identifiers _ := hp
    simp [Match.Pattern.names, hparams, ← hi]
  case patternRest hi hp => simp [Match.Pattern.names, hp, ← hi]
  case clause hp he => simp [Clause.names, hp, clauseBody_names, he]
  case listOne h => simp [h, hp]
  case listCons ha h => simp [ha, h, hp]
  all_goals rfl

lemma mem_of_mem_identifiers {ts : List Kind} {name : String} (h : name ∈ identifiers ts) :
    .ident name ∈ ts := by
  obtain ⟨t, ht, hspelled⟩ := List.mem_flatMap.mp h
  cases t with
  | ident name' =>
    obtain rfl : name = name' := List.mem_singleton.mp hspelled
    exact ht
  | _ => cases hspelled

/-- The names in the tree of a text without faults stand in its tokens. -/
theorem mem_tokens_of_mem_names {tokens : List Token} (h : (parse tokens).faults = [])
    {name : String} (hname : name ∈ (parse tokens).tree.names) :
    .ident name ∈ tokens.map (·.kind) := by
  obtain ⟨ts, us, heq, -, hd⟩ := parse_sound h
  have hnames : (parse tokens).tree.erase.items.flatMap (·.names) = identifiers ts :=
    hd.names trivial
  have herase : (parse tokens).tree.erase.items.flatMap (·.names) = (parse tokens).tree.names := by
    simp [Module.erase, Module.names, List.flatMap_map, Item.names_erase]
  rw [← herase, hnames] at hname
  rw [heq]
  exact List.mem_append_left us (mem_of_mem_identifiers hname)

end Grammar

namespace Token

/-- A word that is read as a name spells that name. -/
lemma read_ident {c : Char} {cs : List Char} {name : String}
    (h : (read c cs).kind = .ok (.ident name)) : Spells (.ok (.ident name)) name.toList := by
  unfold read at h
  by_cases hquote : c = '"'
  · rw [if_pos hquote] at h
    dsimp only at h
    split at h <;> cases h
  · rw [if_neg hquote] at h
    by_cases hword : isWordStart c = true
    · rw [if_pos hword] at h
      unfold ofWord at h
      dsimp only at h
      split at h
      · cases h
      · next hsymbol =>
        split at h
        · cases h
        · next hkeyword =>
          cases h
          refine .ident ?_ hsymbol fun word heq => ?_
          · rw [String.toList_ofList]
            refine ⟨⟨c, rfl, hword⟩, List.forall_mem_cons.mpr ⟨isWordChar_of_isWordStart hword, ?_⟩⟩
            exact fun d hd => List.mem_takeWhile_imp hd
          · have hnot := List.find?_eq_none.mp hkeyword word (by cases word <;> decide)
            exact hnot (decide_eq_true heq)
    · rw [if_neg hword] at h
      unfold ofNumber at h
      dsimp only at h
      repeat' split at h
      all_goals cases h

/-- Every name in the tokens of a text is spelled there. -/
theorem spells_of_mem_scan {source : List Char} {name : String}
    (h : .ident name ∈ (scan source).tokens.map (·.kind)) :
    Spells (.ok (.ident name)) name.toList := by
  have hkinds : ∀ l ∈ lexemes 0 source, ∀ name, l.kind = .ok (.ident name) →
      Spells (.ok (.ident name)) name.toList := by
    let P (kind : Except Cause Kind) : Prop :=
      ∀ name, kind = .ok (.ident name) → Spells (.ok (.ident name)) name.toList
    have hread : ∀ c cs, P (read c cs).kind := fun c cs name => read_ident
    exact forall_mem_lexemes hread 0 source
  obtain ⟨t, ht, hkind⟩ := List.mem_map.mp h
  rcases List.mem_append.mp ht with hmem | hlast
  · obtain ⟨l, hl, rfl⟩ := List.mem_map.mp hmem
    apply hkinds l hl
    rw [Lexeme.token] at hkind
    cases hl : l.kind with
    | error cause =>
      rw [hl] at hkind
      cases hkind
    | ok kind =>
      rw [hl] at hkind
      exact congrArg Except.ok hkind
  · rw [List.mem_singleton.mp hlast] at hkind
    cases hkind

/-- No name in the tokens of a text holds a percent sign. -/
theorem noPercent_of_mem_scan {source : List Char} {name : String}
    (h : .ident name ∈ (scan source).tokens.map (·.kind)) : NoPercent name := by
  cases spells_of_mem_scan h with
  | ident hword => exact fun hmem => absurd (hword.2 '%' hmem) (by decide)

/-- A text that is scanned as one name. -/
def IsName (name : String) : Prop :=
  (scan name.toList).tokens.map (·.kind) = [.ident name, .eof]

instance : DecidablePred IsName := fun _ => inferInstanceAs (Decidable (_ = _))

lemma IsName.noPercent {name : String} (h : IsName name) : NoPercent name :=
  noPercent_of_mem_scan (by rw [h]; simp)

end Token

/-- A text that is read as a module without faults. -/
structure ReadAs (source : List Char) (m : Surface.Module) : Prop where
  scanned : (Token.scan source).faults = []
  parsed : (Grammar.parse (Token.scan source).tokens).faults = []
  tree : (Grammar.parse (Token.scan source).tokens).tree = m

/-- No name in the tree of a text holds a percent sign. -/
theorem ReadAs.noPercent {source : List Char} {m : Surface.Module} (h : ReadAs source m) :
    ∀ name ∈ m.names, NoPercent name := by
  intro name hname
  rw [← h.tree] at hname
  exact Token.noPercent_of_mem_scan (Grammar.mem_tokens_of_mem_names h.parsed hname)

end ClosedSum
