import ClosedSum.Proofs.CodeReader

/-!
# Code that is read back

Compiled code is read back from its text with its calls moved inward. So two expressions of one text
have the same calls, moved inward, if the names that are drawn for them are numbered apart: a text
that binds a drawn name tells by its number which of the two it is.
-/

namespace ClosedSum.Core

open Read (Comes Reads EndsWord Ends)

/-- Holds from some number on. -/
def Enough (P : Nat → Prop) : Prop := ∃ n, ∀ bound, n ≤ bound → P bound

namespace Enough

variable {P Q : Nat → Prop}

lemma and (hP : Enough P) (hQ : Enough Q) : Enough fun n => P n ∧ Q n := by
  obtain ⟨k, hk⟩ := hP
  obtain ⟨l, hl⟩ := hQ
  refine ⟨max k l, fun n hn => ⟨hk n ?_, hl n ?_⟩⟩ <;> omega

lemma mono (hP : Enough P) (hPQ : ∀ n, P n → Q n) : Enough Q := by
  obtain ⟨k, hk⟩ := hP
  exact ⟨k, fun n hn => hPQ n (hk n hn)⟩

/-- What holds of enough holds of as much and more. -/
lemma raise (k : Nat) (hP : Enough P) : Enough fun n => P (n + k) := by
  obtain ⟨l, hl⟩ := hP
  exact ⟨l, fun n hn => hl _ (Nat.le_add_right_of_le hn)⟩

lemma lower (k : Nat) (hP : Enough fun n => P (n + k)) : Enough P := by
  obtain ⟨l, hl⟩ := hP
  refine ⟨l + k, fun n hn => ?_⟩
  obtain ⟨m, rfl⟩ := Nat.exists_eq_add_of_le' (Nat.le_of_add_left_le hn)
  exact hl m (by omega)

lemma above (k : Nat) : Enough (k ≤ ·) := ⟨k, fun _ h => h⟩

lemma forall_mem {α : Type} {R : Nat → α → Prop} {as : List α} (h : ∀ a ∈ as, Enough (R · a)) :
    Enough fun n => ∀ a ∈ as, R n a := by
  induction as with
  | nil => exact ⟨0, fun _ _ => List.forall_mem_nil _⟩
  | cons a as ih =>
    obtain ⟨ha, has⟩ := List.forall_mem_cons.mp h
    exact (ha.and (ih has)).mono fun n hn => List.forall_mem_cons.mpr hn

end Enough

namespace Expr

/-- Code that is compiled from an expression, with names that are drawn with numbers of `N`. Of what
is bound to a drawn name nothing is told. Only loose code calls a binding or a conditional. -/
inductive Written (N : Nat → Prop) (loose : Prop) : Expr → Prop
  | lit (l : Literal) : Written N loose (.lit l)
  | var {x : String} (h : Token.Spells (.ok (.ident x)) x.toList) : Written N loose (.var x)
  | call {callee : Expr} {args : List Expr} (hopen : callee.isOpen = true → loose)
    (hcallee : Written N loose callee) (hargs : ∀ e ∈ args, Written N loose e) :
    Written N loose (.call callee args)
  | letIn {x : String} {value body : Expr} (h : Token.IsWord x.toList)
    (hvalue : Written N loose value) (hbody : Written N loose body) :
    Written N loose (.letIn x value body)
  | drawn {n : Nat} {value body : Expr} (hn : N n) (hlast : body.last.isLambda = false) :
    Written N loose (.letIn (freshName "scrutinee" n) value body)
  | seq {es : List Expr} (hnil : es ≠ []) (hes : ∀ e ∈ es, Written N loose e) :
    Written N loose (.seq es)
  | ifElse {test yes no : Expr} (htest : Written N loose test) (hyes : Written N loose yes)
    (hno : Written N loose no) : Written N loose (.ifElse test yes no)
  | binary (op : BinaryOp) {lhs rhs : Expr} (hlhs : Written N loose lhs)
    (hrhs : Written N loose rhs) : Written N loose (.binary op lhs rhs)
  | error : Written N loose .error

/-- With enough room an expression is read back from its text. -/
def ReadBack (N : Nat → Prop) (e : Expr) : Prop :=
  ∀ depth, Enough fun bound => Reads N (Read.exprAt bound depth) (e.text depth) e Ends

/-- With enough room an expression is read from its text, and the argument lists behind it are left
to the loop that reads those. How many there are does not matter, so a callee is read like any other
expression. -/
def ReadCalled (N : Nat → Prop) (e : Expr) : Prop :=
  ∀ depth, ∃ k, Enough fun rounds => ∀ rest, EndsWord rest →
    Comes N (Read.exprAt (rounds + k + 1) depth ((e.text depth).toList ++ rest))
      (Read.calls (Read.exprAt (rounds + k) depth) (rounds + k) rounds e rest)

section Texts

variable {depth : Nat}

lemma text_letIn (x : String) (value body : Expr) : (letIn x value body).text depth =
    "let" ++ (" " ++ (x ++ (" = " ++ (value.text depth ++ (" in" ++
      (newline depth ++ body.text depth)))))) := by
  have hsplit : "let " = "let" ++ " " := rfl
  rw [text, hsplit]
  simp only [String.append_assoc]

lemma text_ifElse (test yes no : Expr) : (ifElse test yes no).text depth =
    "if" ++ (" " ++ (test.text depth ++ (" then " ++ (yes.text depth ++ (" else " ++
      no.text depth))))) := by
  have hsplit : "if " = "if" ++ " " := rfl
  rw [text, hsplit]
  simp only [String.append_assoc]

lemma text_seq {es : List Expr} (hnil : es ≠ []) : (seq es).text depth =
    "\x7b" ++ (newline (depth + 1) ++ ((";" ++ newline (depth + 1)).intercalate
      (texts (depth + 1) es) ++ (newline depth ++ "\x7d"))) := by
  obtain ⟨e, es, rfl⟩ := List.exists_cons_of_ne_nil hnil
  rw [text, texts]
  simp only [String.append_assoc]

end Texts

section ReadBack

variable {N : Nat → Prop} {e : Expr}

/-- Nothing begins like what closes a list. -/
lemma exprAt_rightParen (bound depth : Nat) (cs : List Char) :
    Read.exprAt bound depth (')' :: cs) = .error .unreadable := by
  cases bound with
  | zero => rfl
  | succ bound => rfl

lemma calls_end (inner : Read Expr) (bound rounds : Nat) (e : Expr) {rest : List Char}
    (h : Ends rest) :
    Read.calls inner bound rounds e rest = .ok (e, rest) := by
  cases rounds with
  | zero => rfl
  | succ rounds =>
    have hrest : rest.head? ≠ some '(' := fun hhead => (h _ hhead).2 rfl
    rw [Read.calls, Read.bind_eq_of_ok (Read.eat_of_ne hrest)]
    rfl

lemma ReadCalled.readBack (h : ReadCalled N e) : ReadBack N e := by
  intro depth
  obtain ⟨k, hk⟩ := h depth
  refine Enough.lower (k + 1) (hk.mono fun rounds hread rest hrest => ?_)
  have hcalls := calls_end (Read.exprAt (rounds + k) depth) (rounds + k) rounds e hrest
  exact (hread rest fun c hc => (hrest c hc).1).trans (.inl hcalls)

/-- What is no call, and shows where it ends, may be called. -/
lemma readCalled_of_head (hopen : e.isOpen = false)
    (h : ∀ depth, Enough fun bound =>
      Reads N (Read.head (Read.exprAt bound) depth bound) (e.text depth) e EndsWord) :
    ReadCalled N e := by
  intro depth
  refine ⟨0, (h depth).mono fun rounds hread rest hrest => (hread rest hrest).bind (.inl ?_)⟩
  rw [hopen]
  rfl

lemma readBack_of_head (hopen : e.isOpen = true)
    (h : ∀ depth, Enough fun bound =>
      Reads N (Read.head (Read.exprAt bound) depth bound) (e.text depth) e Ends) :
    ReadBack N e := by
  refine fun depth => Enough.lower 1 ((h depth).mono fun bound hread rest hrest => ?_)
  refine (hread rest hrest).bind (.inl ?_)
  rw [hopen]
  rfl

/-- A call is read like its callee, with one argument list less for the loop. -/
lemma ReadCalled.call {args : List Expr} (h : ReadCalled N e) (hlambda : e.isLambda = false)
    (hargs : ∀ a ∈ args, ReadBack N a) : ReadCalled N (.call e args) := by
  intro depth
  obtain ⟨k, hk⟩ := h depth
  have hall := (Enough.forall_mem fun a ha => hargs a ha depth).raise (k + 1)
  have hroom := ((hk.raise 1).and hall).and (Enough.above args.length)
  refine ⟨k + 1, hroom.mono fun rounds ⟨⟨hcallee, hall⟩, hlength⟩ rest hrest => ?_⟩
  have hbound : rounds + 1 + k = rounds + (k + 1) := by omega
  have htext : (Expr.call e args).text depth =
      e.text depth ++ ("(" ++ (", ".intercalate (texts depth args) ++ ")")) := by
    rw [text_call hlambda, argsText, String.append_assoc]
  have hparen :
      EndsWord (("(" ++ (", ".intercalate (texts depth args) ++ ")")).toList ++ rest) := by
    have hword : Token.isWordChar '(' = false := by decide
    simpa [EndsWord] using hword
  have harguments : Reads N
      (Read.arguments (Read.exprAt (rounds + (k + 1)) depth) (rounds + (k + 1)))
      (", ".intercalate (texts depth args) ++ ")") args EndsWord :=
    Read.arguments_reads (exprAt_rightParen _ depth) hall (by omega)
  rw [hbound] at hcallee
  -- one round of the loop takes the list, and the rounds that are left go on behind it
  rw [htext, String.toList_append, List.append_assoc]
  refine (hcallee _ hparen).trans ?_
  have hsign : "(".toList = ['('] := rfl
  rw [Read.calls, String.toList_append, hsign, List.append_assoc, List.singleton_append,
    Read.bind_eq_of_ok (Read.eat_self _ _), if_pos rfl]
  exact (harguments rest hrest).bind (.inl rfl)

lemma Written.isLambda {loose : Prop} (h : Written N loose e) : e.isLambda = false := by
  cases h <;> rfl

lemma head_of_spells {x : String} (h : Token.Spells (.ok (.ident x)) x.toList) :
    ∃ c ∈ x.toList.head?, Token.isWordChar c = true := by
  cases h with
  | ident hword =>
    obtain ⟨c, hc, hstart⟩ := hword.1
    exact ⟨c, hc, Token.isWordChar_of_isWordStart hstart⟩

/-- Code that calls no binding and no conditional is read back from its text. -/
theorem Written.readBack (h : Written N False e) :
    ReadBack N e ∧ (e.isOpen = false → ReadCalled N e) := by
  have hclosed : ∀ {e : Expr}, e.isOpen = false → (∀ depth, Enough fun bound =>
      Reads N (Read.head (Read.exprAt bound) depth bound) (e.text depth) e EndsWord) →
      ReadBack N e ∧ (e.isOpen = false → ReadCalled N e) := fun hopen hhead =>
    ⟨(readCalled_of_head hopen hhead).readBack, fun _ => readCalled_of_head hopen hhead⟩
  have hopen : ∀ {e : Expr}, e.isOpen = true → (∀ depth, Enough fun bound =>
      Reads N (Read.head (Read.exprAt bound) depth bound) (e.text depth) e Ends) →
      ReadBack N e ∧ (e.isOpen = false → ReadCalled N e) := fun hopen hhead =>
    ⟨readBack_of_head hopen hhead, fun hclosed => absurd (hopen.symm.trans hclosed) (by decide)⟩
  -- only what shows where it ends can be called, the rest is read up to what ends an expression
  induction h with
  | lit l =>
    refine hclosed rfl fun depth => ?_
    rw [text]
    have hroom : Enough fun bound => ∀ t, l = .str t → t.length < bound := by
      cases l with
      | str text => exact (Enough.above (text.length + 1)).mono fun _ h _ ht => by cases ht; exact h
      | _ => exact (Enough.above 0).mono fun _ _ _ ht => by cases ht
    exact hroom.mono fun bound => Read.head_lit l
  | var hx =>
    refine hclosed rfl fun depth => (Enough.above 0).mono fun bound _ => ?_
    rw [text]
    exact Read.head_word (Read.var_reads hx) (head_of_spells hx)
  | @call callee args hloose hcallee _ ihcallee ihargs =>
    have hcalled := ihcallee.2 (Bool.eq_false_iff.mpr hloose)
    have hcall := hcalled.call hcallee.isLambda fun a ha => (ihargs a ha).1
    exact ⟨hcall.readBack, fun _ => hcall⟩
  | letIn hx _ _ ihvalue ihbody =>
    refine hopen rfl fun depth => ((ihvalue.1 depth).and (ihbody.1 depth)).mono
      fun bound ⟨hvalue, hbody⟩ => ?_
    rw [text_letIn]
    exact Read.head_word (Read.binding_word (Read.binding_reads hx hvalue hbody))
      ⟨'l', by simp, by decide⟩
  | drawn hn =>
    refine hopen rfl fun depth => (Enough.above 0).mono fun bound _ => ?_
    rw [text_letIn]
    exact Read.head_word (Read.binding_word (Read.binding_drawn hn)) ⟨'l', by simp, by decide⟩
  | @seq es hnil _ ih =>
    refine hclosed rfl fun depth => ?_
    have hall := Enough.forall_mem fun a ha => (ih a ha).1 (depth + 1)
    refine (hall.and (Enough.above es.length)).mono fun bound ⟨hes, hlength⟩ => ?_
    rw [text_seq hnil]
    exact Read.head_block (Read.block_reads hes hnil hlength)
  | ifElse _ _ _ ihtest ihyes ihno =>
    refine hopen rfl fun depth => (((ihtest.1 depth).and (ihyes.1 depth)).and (ihno.1 depth)).mono
      fun bound ⟨⟨htest, hyes⟩, hno⟩ => ?_
    rw [text_ifElse]
    exact Read.head_word (Read.conditional_word (Read.conditional_reads htest hyes hno))
      ⟨'i', by simp, by decide⟩
  | binary op _ _ ihlhs ihrhs =>
    refine hclosed rfl fun depth => ((ihlhs.1 depth).and (ihrhs.1 depth)).mono
      fun bound ⟨hlhs, hrhs⟩ => ?_
    rw [text]
    simp only [String.append_assoc]
    exact Read.head_parens (Read.operation_reads op (exprAt_rightParen bound depth) hlhs hrhs)
  | error =>
    refine hclosed rfl fun depth => (Enough.above 0).mono fun bound _ => ?_
    rw [text]
    exact Read.head_error

end ReadBack

section Inward

variable {N M : Nat → Prop} {loose : Prop} {e f : Expr}

lemma isLambda_last_callLast (args : List Expr) : (e : Expr) →
    (e.callLast args).last.isLambda = false
  | .letIn _ _ body => isLambda_last_callLast args body
  | .ifElse _ _ no => isLambda_last_callLast args no
  | .lit _ | .var _ | .call .. | .lambda .. | .seq _ | .binary .. | .dispatch _ | .fail _
  | .error => rfl

lemma isLambda_last_inward : (e : Expr) → e.inward.last.isLambda = e.last.isLambda
  | .letIn _ _ body => by
    rw [inward, last, last]
    exact isLambda_last_inward body
  | .ifElse _ _ no => by
    rw [inward, last, last]
    exact isLambda_last_inward no
  | .call callee args => by
    rw [inward]
    split
    · rfl
    · exact isLambda_last_callLast _ _
  | .lit _ | .var _ | .fail _ | .error => by rw [inward]
  | .lambda .. | .seq _ | .binary .. | .dispatch _ => by
    rw [inward]
    rfl

lemma Written.isLambda_last (h : Written N loose e) : e.last.isLambda = false := by
  induction h with
  | letIn _ _ _ _ ihbody => exact ihbody
  | drawn _ hlast => exact hlast
  | ifElse _ _ _ _ _ ihno => exact ihno
  | _ => rfl

/-- A call that is moved to the end of what is called calls neither a binding nor a conditional. -/
lemma Written.callLast (h : Written N False e) {args : List Expr}
    (hargs : ∀ a ∈ args, Written N False a) : Written N False (e.callLast args) := by
  induction h with
  | letIn hx hvalue _ _ ihbody => exact .letIn hx hvalue ihbody
  | drawn hn _ => exact .drawn hn (isLambda_last_callLast args _)
  | ifElse htest hyes _ _ _ ihno => exact .ifElse htest hyes ihno
  | lit l => exact .call (fun h => by cases h) (.lit l) hargs
  | var hx => exact .call (fun h => by cases h) (.var hx) hargs
  | call hloose hcallee hown => exact .call (fun h => by cases h) (.call hloose hcallee hown) hargs
  | seq hnil hes => exact .call (fun h => by cases h) (.seq hnil hes) hargs
  | binary op hlhs hrhs => exact .call (fun h => by cases h) (.binary op hlhs hrhs) hargs
  | error => exact .call (fun h => by cases h) .error hargs

lemma inwardAll_eq_map (es : List Expr) : inwardAll es = es.map inward := by
  induction es with
  | nil => rw [inwardAll, List.map_nil]
  | cons e es ih => rw [inwardAll, ih, List.map_cons]

/-- Once its calls are moved inward, code is no longer loose. -/
theorem Written.inward (h : Written N loose e) : Written N False e.inward := by
  have hall : ∀ {es : List Expr}, (∀ e ∈ es, Written N False e.inward) →
      ∀ e ∈ inwardAll es, Written N False e := fun h => by
    simpa [inwardAll_eq_map] using h
  induction h with
  | lit l =>
    rw [Expr.inward]
    exact .lit l
  | var hx =>
    rw [Expr.inward]
    exact .var hx
  | call _ hcallee _ ihcallee ihargs =>
    rw [Expr.inward, ihcallee.isLambda_last, if_neg Bool.false_ne_true]
    exact ihcallee.callLast (hall ihargs)
  | letIn hx _ _ ihvalue ihbody =>
    rw [Expr.inward]
    exact .letIn hx ihvalue ihbody
  | drawn hn hlast =>
    rw [Expr.inward]
    exact .drawn hn ((isLambda_last_inward _).trans hlast)
  | seq hnil _ ih =>
    rw [Expr.inward]
    exact .seq (by simpa [inwardAll_eq_map] using hnil) (hall ih)
  | ifElse _ _ _ ihtest ihyes ihno =>
    rw [Expr.inward]
    exact .ifElse ihtest ihyes ihno
  | binary op _ _ ihlhs ihrhs =>
    rw [Expr.inward]
    exact .binary op ihlhs ihrhs
  | error =>
    rw [Expr.inward]
    exact .error

lemma freshName_injective (stem : String) : Function.Injective (freshName stem) := by
  intro n m h
  have hlist := congrArg String.toList h
  rw [toList_freshName, toList_freshName, List.append_cancel_left_eq, List.cons.injEq] at hlist
  have hdigits := congrArg (Nat.ofDigitChars 10 · 0) hlist.2
  simpa [Nat.ofDigitChars_toDigits] using hdigits

/-- Two expressions whose drawn names are numbered apart have one text just if they differ in no
more than where their calls stand. -/
theorem Written.text_eq_iff (he : Written N loose e) (hf : Written M loose f)
    (hapart : ∀ n, N n → ¬M n) (depth : Nat) :
    e.text depth = f.text depth ↔ e.inward = f.inward := by
  constructor
  · intro htext
    rw [← text_inward depth e, ← text_inward depth f] at htext
    obtain ⟨bound, hbound⟩ := (he.inward.readBack.1 depth).and (hf.inward.readBack.1 depth)
    obtain ⟨hreadE, hreadF⟩ := hbound bound (Nat.le_refl bound)
    have hend : Ends [] := fun c hc => by cases hc
    obtain hokE | ⟨n, hn, hstopE⟩ := hreadE [] hend <;>
      obtain hokF | ⟨m, hm, hstopF⟩ := hreadF [] hend
    · rw [htext, hokF] at hokE
      exact (Prod.mk.inj (Except.ok.inj hokE)).1.symm
    · rw [htext, hstopF] at hokE
      cases hokE
    · rw [htext, hokF] at hstopE
      cases hstopE
    · rw [htext, hstopF] at hstopE
      have hnames := Stop.drawn.inj (Except.error.inj hstopE)
      exact absurd (freshName_injective _ hnames ▸ hm) (hapart n hn)
  · intro hinward
    rw [← text_inward depth e, hinward, text_inward depth f]

end Inward

end Expr

end ClosedSum.Core
