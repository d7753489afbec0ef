import ClosedSum.Proofs.ParserSoundness

/-!
# Whole trees

A tree is whole if nothing in it stands for an expression that could not be read. Only whole trees
derive from the grammar, so a parse without faults gives one.
-/

namespace ClosedSum

namespace Surface

mutual

/-- A tree without an expression that could not be read. -/
def Expr.Whole : Expr → Prop
  | .unit _ | .bool .. | .int .. | .str .. | .ident .. => True
  | .call _ callee args => callee.Whole ∧ WholeExprs args
  | .binary _ _ lhs rhs => lhs.Whole ∧ rhs.Whole
  | .ifElse _ test yes no => test.Whole ∧ yes.Whole ∧ no.Whole
  | .block _ stmts => WholeStmts stmts
  | .matchUse _ _ scrutinee clauses _ => scrutinee.Whole ∧ WholeClauses clauses
  | .error _ => False

def WholeExprs : List Expr → Prop
  | [] => True
  | e :: es => e.Whole ∧ WholeExprs es

def Stmt.Whole : Stmt → Prop
  | .bind _ value => value.Whole
  | .expr value => value.Whole

def WholeStmts : List Stmt → Prop
  | [] => True
  | s :: ss => s.Whole ∧ WholeStmts ss

def Clause.Whole : Clause → Prop
  | .mk _ body _ => WholeStmts body

def WholeClauses : List Clause → Prop
  | [] => True
  | c :: cs => c.Whole ∧ WholeClauses cs

end

lemma wholeExprs_iff {es : List Expr} : WholeExprs es ↔ ∀ e ∈ es, e.Whole := by
  induction es with
  | nil => simp [WholeExprs]
  | cons e es ih => rw [WholeExprs, ih, List.forall_mem_cons]

lemma wholeStmts_iff {ss : List Stmt} : WholeStmts ss ↔ ∀ s ∈ ss, s.Whole := by
  induction ss with
  | nil => simp [WholeStmts]
  | cons s ss ih => rw [WholeStmts, ih, List.forall_mem_cons]

lemma wholeClauses_iff {cs : List Clause} : WholeClauses cs ↔ ∀ c ∈ cs, c.Whole := by
  induction cs with
  | nil => simp [WholeClauses]
  | cons c cs ih => rw [WholeClauses, ih, List.forall_mem_cons]

mutual

/-- Spans make no difference to what could be read. -/
lemma Expr.whole_erase : (e : Expr) → (e.erase.Whole ↔ e.Whole)
  | .unit _ | .bool .. | .int .. | .str .. | .ident .. | .error _ => by
    simp only [Expr.erase, Expr.Whole]
  | .call _ callee args => by
    simp only [Expr.erase, Expr.Whole, callee.whole_erase, wholeExprs_erase args]
  | .binary _ _ lhs rhs => by
    simp only [Expr.erase, Expr.Whole, lhs.whole_erase, rhs.whole_erase]
  | .ifElse _ test yes no => by
    simp only [Expr.erase, Expr.Whole, test.whole_erase, yes.whole_erase, no.whole_erase]
  | .block _ stmts => by
    simp only [Expr.erase, Expr.Whole, wholeStmts_erase stmts]
  | .matchUse _ _ scrutinee clauses _ => by
    simp only [Expr.erase, Expr.Whole, scrutinee.whole_erase, wholeClauses_erase clauses]

lemma wholeExprs_erase : (es : List Expr) → (WholeExprs (eraseExprs es) ↔ WholeExprs es)
  | [] => Iff.rfl
  | e :: es => by simp only [eraseExprs, WholeExprs, e.whole_erase, wholeExprs_erase es]

lemma Stmt.whole_erase : (s : Stmt) → (s.erase.Whole ↔ s.Whole)
  | .bind _ value => by simp only [Stmt.erase, Stmt.Whole, value.whole_erase]
  | .expr value => by simp only [Stmt.erase, Stmt.Whole, value.whole_erase]

lemma wholeStmts_erase : (ss : List Stmt) → (WholeStmts (eraseStmts ss) ↔ WholeStmts ss)
  | [] => Iff.rfl
  | s :: ss => by simp only [eraseStmts, WholeStmts, s.whole_erase, wholeStmts_erase ss]

lemma Clause.whole_erase : (c : Clause) → (c.erase.Whole ↔ c.Whole)
  | .mk _ body _ => by simp only [Clause.erase, Clause.Whole, wholeStmts_erase body]

lemma wholeClauses_erase : (cs : List Clause) → (WholeClauses (eraseClauses cs) ↔ WholeClauses cs)
  | [] => Iff.rfl
  | c :: cs => by simp only [eraseClauses, WholeClauses, c.whole_erase, wholeClauses_erase cs]

end

def Item.Whole : Item → Prop
  | .variant _ => True
  | .function f => f.body.Whole

lemma Item.whole_erase (i : Item) : i.erase.Whole ↔ i.Whole := by
  cases i with
  | variant spec => exact Iff.rfl
  | function f => exact f.body.whole_erase

end Surface

namespace Grammar

open Surface

/-- What it is for a tree of a phrase to be whole. Behind operators and calls it is if what was read
before them is. -/
def Phrase.Whole : (p : Phrase) → p.Tree → Prop
  | .expr _ | .primary | .conditional | .block => Expr.Whole
  | .operations _ a | .calls a => fun e : Expr => a.Whole → e.Whole
  | .stmt => Stmt.Whole
  | .clause => Clause.Whole
  | .item => Item.Whole
  | .module => fun is : List Item => ∀ i ∈ is, i.Whole
  | .listOf _ p => fun as : List p.Tree => ∀ a ∈ as, p.Whole a
  | .ident | .attributes | .field | .case | .param | .pattern => fun _ => True

lemma clauseBody_whole {e : Expr} (h : e.Whole) : WholeStmts (clauseBody e) := by
  cases e with
  | block _ stmts => exact h
  | _ => exact ⟨h, trivial⟩

theorem Derives.whole {p : Phrase} {ts : List Token.Kind} {a : p.Tree} (h : Derives p ts a) :
    p.Whole a := by
  induction h with
  | function _ _ _ _ _ ihe => exact ihe
  | moduleNil => exact List.forall_mem_nil _
  | moduleCons _ _ ihi ih => exact List.forall_mem_cons.mpr ⟨ihi, ih⟩
  | level _ _ _ iha ih => exact ih iha
  | operationsNil => exact id
  | operationsCons _ _ _ _ ihb ih => exact fun ha => ih ⟨ha, ihb⟩
  | negation _ ih => exact ⟨trivial, ih⟩
  | applied _ _ ihf ih => exact ih ihf
  | callsNil => exact id
  | callsCons _ _ iha ih => exact fun hf => ih ⟨hf, wholeExprs_iff.mpr iha⟩
  | parens _ ih | primaryBlock _ ih | primaryIf _ ih => exact ih
  | matchUse _ _ _ ihs ihc => exact ⟨ihs, wholeClauses_iff.mpr ihc⟩
  | ifBlock _ _ _ iht ihy ihn | ifIf _ _ _ iht ihy ihn => exact ⟨iht, ihy, ihn⟩
  | block _ ih => exact wholeStmts_iff.mpr ih
  | bind _ _ _ ihe => exact ihe
  | stmt _ ih => exact ih
  | clause _ _ _ ihe => exact clauseBody_whole ihe
  | listNil => exact List.forall_mem_nil _
  | listOne _ _ ih => exact List.forall_mem_singleton.mpr ih
  | listCons _ _ iha ih => exact List.forall_mem_cons.mpr ⟨iha, ih⟩
  | _ => trivial

/-- A parse without faults leaves no gap in the tree. -/
theorem parse_whole {tokens : List Token} (h : (parse tokens).faults = []) :
    ∀ i ∈ (parse tokens).tree.items, i.Whole := by
  intro i hi
  obtain ⟨ts, us, -, -, hd⟩ := parse_sound h
  exact i.whole_erase.mp (hd.whole i.erase (List.mem_map_of_mem hi))

end Grammar

end ClosedSum
