import ClosedSum.Core.Pretty
import ClosedSum.Proofs.Names

/-!
# Calls moved inward

The text of a binding or a conditional ends with the text of its last part, and does not show where
it ends. So a call of a binding has the text of the binding of a call. `inward` moves every such
call to the last part: it changes no text, and it changes an expression only if something in it
calls a binding or a conditional.
-/

namespace ClosedSum.Core.Expr

/-- A binding or a conditional. -/
def isOpen : Expr → Bool
  | .letIn .. | .ifElse .. => true
  | _ => false

/-- What the text of an expression ends with. -/
def last : Expr → Expr
  | .letIn _ _ body => body.last
  | .ifElse _ _ no => no.last
  | e => e

/-- A call of what an expression ends with. -/
def callLast (args : List Expr) : Expr → Expr
  | .letIn x value body => .letIn x value (body.callLast args)
  | .ifElse test yes no => .ifElse test yes (no.callLast args)
  | e => .call e args

mutual

/-- All calls moved to what their callees end with. Where that is a function the call stays: the
parentheses around a function that is called show where it ends. -/
def inward : Expr → Expr
  | .lit value => .lit value
  | .var name => .var name
  | .call callee args =>
    if callee.inward.last.isLambda then .call callee.inward (inwardAll args)
    else callee.inward.callLast (inwardAll args)
  | .lambda params variadic body => .lambda params variadic body.inward
  | .letIn name value body => .letIn name value.inward body.inward
  | .seq exprs => .seq (inwardAll exprs)
  | .ifElse test yes no => .ifElse test.inward yes.inward no.inward
  | .binary op lhs rhs => .binary op lhs.inward rhs.inward
  | .dispatch branches => .dispatch (inwardBranches branches)
  | .fail variant => .fail variant
  | .error => .error

def inwardAll : List Expr → List Expr
  | [] => []
  | e :: es => e.inward :: inwardAll es

def inwardBranches : List Branch → List Branch
  | [] => []
  | .mk test action :: bs => .mk test action.inward :: inwardBranches bs

end

mutual

/-- Whether something calls a binding or a conditional. -/
def callsOpen : Expr → Bool
  | .lit _ | .var _ | .fail _ | .error => false
  | .call callee args => callee.isOpen || callee.callsOpen || anyCallsOpen args
  | .lambda _ _ body => body.callsOpen
  | .letIn _ value body => value.callsOpen || body.callsOpen
  | .seq exprs => anyCallsOpen exprs
  | .ifElse test yes no => test.callsOpen || yes.callsOpen || no.callsOpen
  | .binary _ lhs rhs => lhs.callsOpen || rhs.callsOpen
  | .dispatch branches => branchCallsOpen branches

def anyCallsOpen : List Expr → Bool
  | [] => false
  | e :: es => e.callsOpen || anyCallsOpen es

def branchCallsOpen : List Branch → Bool
  | [] => false
  | .mk _ action :: bs => action.callsOpen || branchCallsOpen bs

end

/-- The text of a list of arguments, with its parentheses. -/
def argsText (depth : Nat) (args : List Expr) : String :=
  "(" ++ ", ".intercalate (texts depth args) ++ ")"

lemma callLast_of_not_isOpen {e : Expr} (h : e.isOpen = false) (args : List Expr) :
    e.callLast args = .call e args := by
  cases e with
  | letIn | ifElse => cases h
  | _ => rfl

lemma isLambda_callLast (args : List Expr) (e : Expr) : (e.callLast args).isLambda = false := by
  cases e <;> rfl

lemma isLambda_last_of_isLambda {e : Expr} (h : e.isLambda = true) : e.last.isLambda = true := by
  cases e with
  | lambda => rfl
  | _ => cases h

lemma isLambda_inward (e : Expr) : e.inward.isLambda = e.isLambda := by
  cases e with
  | call callee args =>
    rw [inward]
    split
    · rfl
    · exact isLambda_callLast _ _
  | _ => rw [inward] <;> rfl

lemma text_call {callee : Expr} {depth : Nat} (h : callee.isLambda = false) (args : List Expr) :
    (call callee args).text depth = callee.text depth ++ argsText depth args := by
  rw [text, h, if_neg Bool.false_ne_true, argsText]
  simp only [String.append_assoc]

/-- A call of what ends with no function has the text of the call of its last part. -/
lemma text_callLast (depth : Nat) (args : List Expr) : (e : Expr) → e.last.isLambda = false →
    (e.callLast args).text depth = e.text depth ++ argsText depth args
  | .letIn x value body, h => by
    rw [callLast, text, text, text_callLast depth args body h]
    simp only [String.append_assoc]
  | .ifElse test yes no, h => by
    rw [callLast, text, text, text_callLast depth args no h]
    simp only [String.append_assoc]
  | .lambda .., h => by cases h
  | .lit _, _ | .var _, _ | .call .., _ | .seq _, _ | .binary .., _ | .dispatch _, _ | .fail _, _
  | .error, _ => text_call rfl args

mutual

/-- Calls that are moved inward keep their text. -/
theorem text_inward (depth : Nat) : (e : Expr) → e.inward.text depth = e.text depth
  | .lit _ | .var _ | .fail _ | .error => by rw [inward]
  | .call callee args => by
    have hcallee := text_inward depth callee
    have hargs := texts_inwardAll depth args
    rw [inward]
    split
    · rw [text, text, hcallee, hargs, isLambda_inward]
    · next hlast =>
      have hfunction : callee.isLambda = false := by
        rw [← isLambda_inward]
        exact Bool.eq_false_iff.mpr fun h => hlast (isLambda_last_of_isLambda h)
      rw [text_callLast depth _ _ (Bool.eq_false_iff.mpr hlast), text_call hfunction, hcallee,
        argsText, argsText, hargs]
  | .lambda params variadic body => by rw [inward, text, text, text_inward depth body]
  | .letIn name value body => by
    rw [inward, text, text, text_inward depth value, text_inward depth body]
  | .seq exprs => by rw [inward, text, text, texts_inwardAll (depth + 1) exprs]
  | .ifElse test yes no => by
    rw [inward, text, text, text_inward depth test, text_inward depth yes, text_inward depth no]
  | .binary op lhs rhs => by
    rw [inward, text, text, text_inward depth lhs, text_inward depth rhs]
  | .dispatch branches => by
    rw [inward, text, text, branchesText_inwardBranches (depth + 1) branches]

theorem texts_inwardAll (depth : Nat) : (es : List Expr) →
    texts depth (inwardAll es) = texts depth es
  | [] => by rw [inwardAll]
  | e :: es => by rw [inwardAll, texts, texts, text_inward depth e, texts_inwardAll depth es]

theorem branchesText_inwardBranches (depth : Nat) : (bs : List Branch) →
    branchesText depth (inwardBranches bs) = branchesText depth bs
  | [] => by rw [inwardBranches]
  | .mk test action :: bs => by
    rw [inwardBranches, branchesText, branchesText, text_inward depth action,
      branchesText_inwardBranches depth bs]

end

mutual

/-- Where nothing calls a binding or a conditional, there is nothing to move. -/
theorem inward_eq_self : (e : Expr) → e.callsOpen = false → e.inward = e
  | .lit _, _ | .var _, _ | .fail _, _ | .error, _ => by rw [inward]
  | .call callee args, h => by
    simp only [callsOpen, Bool.or_eq_false_iff] at h
    rw [inward, inward_eq_self callee h.1.2, inwardAll_eq_self args h.2]
    split
    · rfl
    · exact callLast_of_not_isOpen h.1.1 args
  | .lambda params variadic body, h => by
    rw [callsOpen] at h
    rw [inward, inward_eq_self body h]
  | .letIn name value body, h => by
    simp only [callsOpen, Bool.or_eq_false_iff] at h
    rw [inward, inward_eq_self value h.1, inward_eq_self body h.2]
  | .seq exprs, h => by
    rw [callsOpen] at h
    rw [inward, inwardAll_eq_self exprs h]
  | .ifElse test yes no, h => by
    simp only [callsOpen, Bool.or_eq_false_iff] at h
    rw [inward, inward_eq_self test h.1.1, inward_eq_self yes h.1.2, inward_eq_self no h.2]
  | .binary op lhs rhs, h => by
    simp only [callsOpen, Bool.or_eq_false_iff] at h
    rw [inward, inward_eq_self lhs h.1, inward_eq_self rhs h.2]
  | .dispatch branches, h => by
    rw [callsOpen] at h
    rw [inward, inwardBranches_eq_self branches h]

theorem inwardAll_eq_self : (es : List Expr) → anyCallsOpen es = false → inwardAll es = es
  | [], _ => by rw [inwardAll]
  | e :: es, h => by
    simp only [anyCallsOpen, Bool.or_eq_false_iff] at h
    rw [inwardAll, inward_eq_self e h.1, inwardAll_eq_self es h.2]

theorem inwardBranches_eq_self : (bs : List Branch) → branchCallsOpen bs = false →
    inwardBranches bs = bs
  | [], _ => by rw [inwardBranches]
  | .mk test action :: bs, h => by
    simp only [branchCallsOpen, Bool.or_eq_false_iff] at h
    rw [inwardBranches, inward_eq_self action h.1, inwardBranches_eq_self bs h.2]

end

end ClosedSum.Core.Expr
