import ClosedSum.Proofs.InwardCalls
import ClosedSum.Proofs.Renumbering
import ClosedSum.Proofs.Spelling

/-!
# Reading printed code

A reader for the text of code that dispatches on nothing. At the first binding of a drawn name it
stops and tells the name, since code that dispatches binds such a name first. Every text is read
from the left, and what stands behind an expression tells where it ends.
-/

namespace ClosedSum.Core

open Token (isWordChar)

/-- Why code is not read to its end. -/
inductive Stop where
  | drawn (name : String)
  | unreadable
  deriving DecidableEq

abbrev Read := StateT (List Char) (Except Stop)

namespace Read

variable {α β : Type}

/-- Takes a character if it stands next. -/
def eat (c : Char) : Read Bool
  | d :: cs => if d = c then .ok (true, cs) else .ok (false, d :: cs)
  | [] => .ok (false, [])

def expect (text : String) : Read Unit := fun cs =>
  if text.toList.isPrefixOf cs then .ok ((), cs.drop text.length) else .error .unreadable

/-- Takes characters as long as they are of a kind. -/
def many (p : Char → Bool) : Read (List Char) := fun cs => .ok (cs.takeWhile p, cs.dropWhile p)

def next : Read Char
  | c :: cs => .ok (c, cs)
  | [] => .error .unreadable

def hexDigit (c : Char) : Nat := if c.isDigit then c.toNat - 48 else c.toNat - 87

def character : Read Char := do
  if ← eat '\\' then
    if ← eat 'u' then
      expect "\x7b"
      let digits ← many (· ≠ '\x7d')
      expect "\x7d"
      return .ofNat (digits.foldl (fun n c => 16 * n + hexDigit c) 0)
    else return Token.unescape (← next)
  else next

/-- The characters up to a closing quote. -/
def quoted : Nat → Read (List Char)
  | 0 => throw .unreadable
  | bound + 1 => do
    if ← eat '"' then return []
    else
      let c ← character
      return c :: (← quoted bound)

def operator : Read BinaryOp := do
  let sign ← many (· ≠ ' ')
  match BinaryOp.all.find? (·.symbol.toList = sign) with
  | some op => return op
  | none => throw .unreadable

/-- What stands between parentheses, if anything does. -/
def operation (inner : Read Expr) : Read Expr := do
  if ← eat ')' then return .unit
  else
    let lhs ← inner
    expect " "
    let op ← operator
    expect " "
    let rhs ← inner
    expect ")"
    return .binary op lhs rhs

def binding (inner : Read Expr) (depth : Nat) : Read Expr := do
  expect " "
  let name ← many (· ≠ ' ')
  if name.all isWordChar then
    expect " = "
    let value ← inner
    expect " in"
    expect (newline depth)
    return .letIn (.ofList name) value (← inner)
  else throw (.drawn (.ofList name))

def conditional (inner : Read Expr) : Read Expr := do
  expect " "
  let test ← inner
  expect " then "
  let yes ← inner
  expect " else "
  return .ifElse test yes (← inner)

/-- The expressions of a list that is not empty, up to the text that closes it. -/
def items (inner : Read Expr) (separator : Char) (gap close : String) : Nat → Read (List Expr)
  | 0 => throw .unreadable
  | bound + 1 => do
    let e ← inner
    if ← eat separator then
      expect gap
      return e :: (← items inner separator gap close bound)
    else
      expect close
      return [e]

def block (inner : Read Expr) (depth bound : Nat) : Read Expr := do
  expect (newline (depth + 1))
  return .seq (← items inner ';' (newline (depth + 1)) (newline depth ++ "\x7d") bound)

def arguments (inner : Read Expr) (bound : Nat) : Read (List Expr) := do
  if ← eat ')' then return []
  else items inner ',' " " ")" bound

/-- The argument lists behind a callee. -/
def calls (inner : Read Expr) (bound : Nat) : Nat → Expr → Read Expr
  | 0, callee => return callee
  | rounds + 1, callee => do
    if ← eat '(' then calls inner bound rounds (.call callee (← arguments inner bound))
    else return callee

/-- What a word is that does not begin a binding or a conditional. -/
def atom (word : String) : Read Expr :=
  if word = "true" then return .lit (.bool true)
  else if word = "false" then return .lit (.bool false)
  else match word.toList.head? with
  | none => throw .unreadable
  | some c =>
    if c.isDigit then return .lit (.int (Integer.ofDigits word.toList)) else return .var word

def word (inner : Read Expr) (depth : Nat) : Read Expr := do
  let word := String.ofList (← many isWordChar)
  if word = "let" then binding inner depth
  else if word = "if" then conditional inner
  else atom word

/-- An expression that is no call. -/
def head (inner : Nat → Read Expr) (depth bound : Nat) : Read Expr := do
  if ← eat '(' then operation (inner depth)
  else if ← eat '"' then return .lit (.str (.ofList (← quoted bound)))
  else if ← eat '\x7b' then block (inner (depth + 1)) depth bound
  else if ← eat '<' then
    expect "error>"
    return .error
  else if ← eat '-' then return .lit (.int (-Integer.ofDigits (← many (·.isDigit))))
  else word (inner depth) depth

/-- Reads an expression that is nested at most `bound` levels deep. -/
def exprAt : (bound depth : Nat) → Read Expr
  | 0, _ => throw .unreadable
  | bound + 1, depth => do
    let e ← head (exprAt bound) depth bound
    if e.isOpen then return e else calls (exprAt bound depth) bound bound e

/-- Reading comes to what is meant, unless it stops at a name that is drawn with a number of `N`. -/
def Comes (N : Nat → Prop) (r meant : Except Stop α) : Prop :=
  r = meant ∨ ∃ n, N n ∧ r = .error (.drawn (freshName "scrutinee" n))

/-- A reader takes a text for `a`, whatever stands behind it as long as `P` holds of that. -/
def Reads (N : Nat → Prop) (m : Read α) (text : String) (a : α) (P : List Char → Prop) : Prop :=
  ∀ rest, P rest → Comes N (m (text.toList ++ rest)) (.ok (a, rest))

/-- What ends a word. -/
def EndsWord (rest : List Char) : Prop := ∀ c ∈ rest.head?, isWordChar c = false

/-- What ends an expression. -/
def Ends (rest : List Char) : Prop := ∀ c ∈ rest.head?, isWordChar c = false ∧ c ≠ '('

section Steps

variable {N : Nat → Prop} {m yes no : Read α} {f : α → Read β} {a : α} {b : β} {s t : String}
  {P Q : List Char → Prop} {cs cs' : List Char} {c : Char}

lemma Comes.trans {r r' r'' : Except Stop α} (h : Comes N r r') (h' : Comes N r' r'') :
    Comes N r r'' := by
  obtain rfl | hstop := h
  · exact h'
  · exact .inr hstop

lemma bind_eq_of_ok (h : m cs = .ok (a, cs')) : (m >>= f) cs = f a cs' := by
  simp [bind, StateT.bind, Except.bind, h]

lemma bind_eq_of_error {stop : Stop} (h : m cs = .error stop) : (m >>= f) cs = .error stop := by
  simp [bind, StateT.bind, Except.bind, h]

lemma Comes.bind {r : Except Stop (β × List Char)} (hm : Comes N (m cs) (.ok (a, cs')))
    (hf : Comes N (f a cs') r) : Comes N ((m >>= f) cs) r := by
  obtain hm | ⟨n, hn, hm⟩ := hm
  · rwa [bind_eq_of_ok hm]
  · exact .inr ⟨n, hn, bind_eq_of_error hm⟩

lemma eat_self (c : Char) (cs : List Char) : eat c (c :: cs) = .ok (true, cs) := if_pos rfl

lemma eat_of_ne (h : cs.head? ≠ some c) : eat c cs = .ok (false, cs) := by
  cases cs with
  | nil => rfl
  | cons d cs => exact if_neg (by simpa using h)

lemma expect_append (s : String) (cs : List Char) : expect s (s.toList ++ cs) = .ok ((), cs) := by
  have hprefix : s.toList.isPrefixOf (s.toList ++ cs) = true :=
    List.isPrefixOf_iff_prefix.mpr (List.prefix_append _ _)
  rw [expect, if_pos hprefix, List.drop_left' String.length_toList]

lemma many_append {p : Char → Bool} (hcs : ∀ c ∈ cs, p c = true)
    (hstop : ∀ c ∈ cs'.head?, p c = false) : many p (cs ++ cs') = .ok (cs, cs') := by
  rw [many, List.takeWhile_append_of_pos hcs, List.dropWhile_append_of_pos hcs]
  cases cs' with
  | nil => simp
  | cons c cs' => simp [hstop c rfl]

lemma Reads.bind (hm : Reads N m s a P) (hf : Reads N (f a) t b Q)
    (hP : ∀ rest, Q rest → P (t.toList ++ rest)) : Reads N (m >>= f) (s ++ t) b Q := by
  intro rest hrest
  rw [String.toList_append, List.append_assoc]
  exact (hm _ (hP rest hrest)).bind (hf rest hrest)

/-- A text does not begin with what its reader cannot read. -/
lemma Reads.head_ne (hm : Reads N m s a P) (hc : ∀ cs, m (c :: cs) = .error .unreadable)
    {rest : List Char} (h : P rest) : (s.toList ++ rest).head? ≠ some c := by
  intro hhead
  obtain ⟨tail, htail⟩ := List.head?_eq_some_iff.mp hhead
  have hread := hm rest h
  rw [htail, hc] at hread
  obtain hok | ⟨n, -, hstop⟩ := hread
  · cases hok
  · cases hstop

lemma Reads.map (hm : Reads N m s a P) (g : α → β) :
    Reads N (m >>= fun a => pure (g a)) s (g a) P :=
  fun rest hrest => (hm rest hrest).bind (.inl rfl)

lemma Reads.expect (hm : Reads N m t a P) : Reads N (expect s >>= fun _ => m) (s ++ t) a P := by
  intro rest hrest
  rw [String.toList_append, List.append_assoc, bind_eq_of_ok (expect_append s _)]
  exact hm rest hrest

lemma Reads.expect_pure (s : String) (a : α) :
    Reads N (Read.expect s >>= fun _ => Pure.pure a) s a P := fun rest _ => by
  rw [bind_eq_of_ok (expect_append s rest)]
  exact .inl rfl

lemma Reads.eaten (hm : Reads N yes t a P) (hs : s.toList = [c]) :
    Reads N (eat c >>= fun b => if b = true then yes else no) (s ++ t) a P := by
  intro rest hrest
  rw [String.toList_append, hs, List.append_assoc, List.singleton_append,
    bind_eq_of_ok (eat_self c _), if_pos rfl]
  exact hm rest hrest

lemma Reads.passed (hm : Reads N no t a P)
    (ht : ∀ rest, P rest → (t.toList ++ rest).head? ≠ some c) :
    Reads N (eat c >>= fun b => if b = true then yes else no) t a P := by
  intro rest hrest
  rw [bind_eq_of_ok (eat_of_ne (ht rest hrest)), if_neg Bool.false_ne_true]
  exact hm rest hrest

end Steps

section Words

lemma hexDigit_digitChar {n : Nat} (h : n < 16) : hexDigit n.digitChar = n := by
  have hall : ∀ n : Fin 16, hexDigit n.val.digitChar = n := by decide
  exact hall ⟨n, h⟩

lemma foldl_hexDigit_toDigits (n : Nat) :
    (Nat.toDigits 16 n).foldl (fun n c => 16 * n + hexDigit c) 0 = n := by
  induction n using Nat.strong_induction_on with
  | h n ih =>
    by_cases hn : n < 16
    · rw [Nat.toDigits_of_lt_base hn]
      simp [hexDigit_digitChar hn]
    · rw [Nat.toDigits_of_base_le (by decide) (by omega), List.foldl_append, ih (n / 16) (by omega)]
      simp only [List.foldl_cons, List.foldl_nil, hexDigit_digitChar (n.mod_lt (by decide))]
      omega

lemma exists_digitChar_of_mem_toDigits {n : Nat} :
    ∀ c ∈ Nat.toDigits 16 n, ∃ k < 16, c = k.digitChar := by
  induction n using Nat.strong_induction_on with
  | h n ih =>
    by_cases hn : n < 16
    · rw [Nat.toDigits_of_lt_base hn]
      exact List.forall_mem_singleton.mpr ⟨n, hn, rfl⟩
    · rw [Nat.toDigits_of_base_le (by decide) (by omega)]
      exact List.forall_mem_append.mpr ⟨ih (n / 16) (by omega),
        List.forall_mem_singleton.mpr ⟨n % 16, n.mod_lt (by decide), rfl⟩⟩

/-- The digits between the braces of an escape end at the closing brace. -/
lemma hexDigits_stop (n : Nat) : ∀ c ∈ Nat.toDigits 16 n, decide (c ≠ '\x7d') = true := by
  intro c hc
  obtain ⟨k, hk, rfl⟩ := exists_digitChar_of_mem_toDigits c hc
  have hall : ∀ k : Fin 16, decide (k.val.digitChar ≠ '\x7d') = true := by decide
  exact hall ⟨k, hk⟩

lemma character_code (c : Char) (rest : List Char) :
    character (['\\', 'u', '\x7b'] ++ Nat.toDigits 16 c.toNat ++ ['\x7d'] ++ rest) =
      .ok (c, rest) := by
  have hdigits : many (· ≠ '\x7d') (Nat.toDigits 16 c.toNat ++ '\x7d' :: rest) =
      .ok (Nat.toDigits 16 c.toNat, '\x7d' :: rest) :=
    many_append (hexDigits_stop c.toNat) (by simp)
  have hopen : expect "\x7b" ('\x7b' :: (Nat.toDigits 16 c.toNat ++ '\x7d' :: rest)) =
      .ok ((), Nat.toDigits 16 c.toNat ++ '\x7d' :: rest) := expect_append "\x7b" _
  have hclose : expect "\x7d" ('\x7d' :: rest) = .ok ((), rest) := expect_append "\x7d" rest
  have hvalue := foldl_hexDigit_toDigits c.toNat
  simp only [List.cons_append, List.nil_append, List.append_assoc]
  rw [character, bind_eq_of_ok (eat_self _ _), if_pos rfl, bind_eq_of_ok (eat_self _ _), if_pos rfl,
    bind_eq_of_ok hopen, bind_eq_of_ok hdigits, bind_eq_of_ok hclose, hvalue]
  exact congrArg (fun c => Except.ok (c, rest)) (Char.ofNat_toNat c)

lemma character_escape {e : Char} (h : e ≠ 'u') (rest : List Char) :
    character ('\\' :: e :: rest) = .ok (Token.unescape e, rest) := by
  have he : (e :: rest).head? ≠ some 'u' := by simpa using h
  have hnext : next (e :: rest) = .ok (e, rest) := rfl
  rw [character, bind_eq_of_ok (eat_self _ _), if_pos rfl, bind_eq_of_ok (eat_of_ne he),
    if_neg Bool.false_ne_true, bind_eq_of_ok hnext]
  rfl

lemma character_self {c : Char} (h : c ≠ '\\') (rest : List Char) :
    character (c :: rest) = .ok (c, rest) := by
  have hc : (c :: rest).head? ≠ some '\\' := by simpa using h
  rw [character, bind_eq_of_ok (eat_of_ne hc), if_neg Bool.false_ne_true]
  rfl

/-- Every character is read back from its escape. -/
lemma character_escapeChar (c : Char) (rest : List Char) :
    character (Text.escapeChar '"' c ++ rest) = .ok (c, rest) := by
  unfold Text.escapeChar
  split_ifs with hzero htab hreturn hline hself hvisible
  · rw [hzero]
    exact character_escape (by decide) rest
  · rw [htab]
    exact character_escape (by decide) rest
  · rw [hreturn]
    exact character_escape (by decide) rest
  · rw [hline]
    exact character_escape (by decide) rest
  · obtain rfl | rfl := hself <;> exact character_escape (by decide) rest
  · exact character_self (fun h => hself (.inl h)) rest
  · exact character_code c rest

/-- No escape begins like the quote that closes a text. -/
lemma escapeChar_head (c : Char) (rest : List Char) :
    (Text.escapeChar '"' c ++ rest).head? ≠ some '"' := by
  by_cases hc : c = '"'
  · simp [hc, Text.escapeChar]
  · unfold Text.escapeChar
    split_ifs <;> simp [hc]

lemma quoted_escaped (cs rest : List Char) {bound : Nat} (h : cs.length < bound) :
    quoted bound (cs.flatMap (Text.escapeChar '"') ++ '"' :: rest) = .ok (cs, rest) := by
  induction cs generalizing bound with
  | nil =>
    obtain ⟨bound, rfl⟩ := Nat.exists_eq_succ_of_ne_zero (Nat.ne_of_gt h)
    rw [quoted, List.flatMap_nil, List.nil_append, bind_eq_of_ok (eat_self _ _), if_pos rfl]
    rfl
  | cons c cs ih =>
    obtain ⟨bound, rfl⟩ := Nat.exists_eq_succ_of_ne_zero (Nat.ne_zero_of_lt h)
    have hrest := ih (Nat.lt_of_succ_lt_succ h)
    rw [quoted, List.flatMap_cons, List.append_assoc,
      bind_eq_of_ok (eat_of_ne (escapeChar_head c _)), if_neg Bool.false_ne_true,
      bind_eq_of_ok (character_escapeChar c _), bind_eq_of_ok hrest]
    rfl

lemma operator_symbol (op : BinaryOp) (rest : List Char) :
    operator (op.symbol.toList ++ ' ' :: rest) = .ok (op, ' ' :: rest) := by
  cases op <;> rfl

lemma operator_reads (N : Nat → Prop) (op : BinaryOp) :
    Reads N operator op.symbol op fun rest => rest.head? = some ' ' := by
  intro rest hrest
  obtain ⟨tail, rfl⟩ := List.head?_eq_some_iff.mp hrest
  exact .inl (operator_symbol op tail)

end Words

section Parts

variable {N : Nat → Prop} {inner : Read Expr} {depth : Nat} {s t u : String} {P : List Char → Prop}

lemma ends_append (c : Char) (h : s.toList.head? = some c) (hc : isWordChar c = false ∧ c ≠ '(')
    (rest : List Char) : Ends (s.toList ++ rest) := by
  rw [Ends, List.head?_append_of_ne_nil _ (fun hnil => by simp [hnil] at h), h]
  exact fun d hd => Option.some.inj hd ▸ hc

lemma operation_reads {lhs rhs : Expr} (op : BinaryOp)
    (hinner : ∀ cs, inner (')' :: cs) = .error .unreadable) (hlhs : Reads N inner s lhs Ends)
    (hrhs : Reads N inner t rhs Ends) :
    Reads N (operation inner) (s ++ (" " ++ (op.symbol ++ (" " ++ (t ++ ")")))))
      (.binary op lhs rhs) P := by
  have hblank : ∀ (u : String) (rest : List Char), Ends ((" " ++ u).toList ++ rest) :=
    fun u => ends_append ' ' (by simp) (by decide)
  rw [operation]
  refine Reads.passed ?_ fun rest _ => ?_
  · refine hlhs.bind (.expect ((operator_reads N op).bind (.expect (hrhs.bind (.expect_pure _ _)
      ?_)) ?_)) fun rest _ => hblank _ rest
    · exact fun rest _ => ends_append ')' (by simp) (by decide) rest
    · exact fun rest _ => by simp
  · rw [String.toList_append, List.append_assoc]
    exact hlhs.head_ne hinner (hblank _ rest)

lemma conditional_reads {test yes no : Expr} (htest : Reads N inner s test Ends)
    (hyes : Reads N inner t yes Ends) (hno : Reads N inner u no Ends) :
    Reads N (conditional inner) (" " ++ (s ++ (" then " ++ (t ++ (" else " ++ u)))))
      (.ifElse test yes no) Ends := by
  rw [conditional]
  refine .expect (htest.bind (.expect (hyes.bind (.expect (hno.map _)) ?_)) ?_)
  · exact fun rest _ => ends_append ' ' (by simp) (by decide) rest
  · exact fun rest _ => ends_append ' ' (by simp) (by decide) rest

/-- A name ends at a blank. -/
lemma name_stop {name : String} (h : Token.IsWord name.toList) :
    ∀ c ∈ name.toList, decide (c ≠ ' ') = true := by
  intro c hc
  have hspace := Token.isSpace_eq_false_of_isWordChar (h.2 c hc)
  refine decide_eq_true fun heq => ?_
  rw [heq] at hspace
  cases hspace

lemma binding_reads {name : String} {value body : Expr} (hname : Token.IsWord name.toList)
    (hvalue : Reads N inner s value Ends) (hbody : Reads N inner t body Ends) :
    Reads N (binding inner depth)
      (" " ++ (name ++ (" = " ++ (s ++ (" in" ++ (newline depth ++ t))))))
      (.letIn name value body) Ends := by
  have hword : name.toList.all isWordChar = true := List.all_eq_true.mpr hname.2
  have hmany : Reads N (many (· ≠ ' ')) name name.toList fun rest => rest.head? = some ' ' := by
    intro rest hrest
    exact .inl (many_append (name_stop hname) (by simp [hrest]))
  rw [binding]
  refine .expect (hmany.bind ?_ fun rest _ => by simp)
  rw [if_pos hword, String.ofList_toList]
  refine .expect (hvalue.bind (.expect (.expect (hbody.map _))) ?_)
  exact fun rest _ => ends_append ' ' (by simp) (by decide) rest

/-- A drawn name is told. -/
lemma binding_drawn {n : Nat} (hn : N n) {e : Expr} :
    Reads N (binding inner depth) (" " ++ (freshName "scrutinee" n ++ (" = " ++ s))) e P := by
  have hstop : ∀ c ∈ (freshName "scrutinee" n).toList, decide (c ≠ ' ') = true := by
    intro c hc
    rw [toList_freshName, List.mem_append, List.mem_cons] at hc
    refine decide_eq_true fun hblank => ?_
    rw [hblank] at hc
    obtain hstem | hsign | hdigit := hc
    · exact absurd hstem (by decide)
    · exact absurd hsign (by decide)
    · exact absurd (Nat.isDigit_of_mem_toDigits (by decide) (by decide) hdigit) (by decide)
  have hword : ((freshName "scrutinee" n).toList.all isWordChar) = false := by
    rw [Bool.eq_false_iff]
    intro hall
    exact absurd (List.all_eq_true.mp hall '%' (percent_mem_freshName _ n)) (by decide)
  intro rest _
  refine .inr ⟨n, hn, ?_⟩
  have hmany : many (· ≠ ' ') ((freshName "scrutinee" n).toList ++ ((" = " ++ s).toList ++ rest)) =
      .ok ((freshName "scrutinee" n).toList, (" = " ++ s).toList ++ rest) :=
    many_append hstop (by simp)
  rw [binding, String.toList_append, List.append_assoc, bind_eq_of_ok (expect_append _ _),
    String.toList_append, List.append_assoc, bind_eq_of_ok hmany, hword,
    if_neg Bool.false_ne_true, String.ofList_toList]
  rfl

/-- What stands between the expressions of a list, and what closes it, ends each of them. -/
lemma items_reads {separator close : Char} {first gap : String} {text : Expr → String}
    (hseparator : isWordChar separator = false ∧ separator ≠ '(')
    (hclose : isWordChar close = false ∧ close ≠ '(') (hne : close ≠ separator)
    (hfirst : first.toList = [separator]) (ht : t.toList.head? = some close) {es : List Expr}
    (hes : ∀ e ∈ es, Reads N inner (text e) e Ends) (hnil : es ≠ []) {bound : Nat}
    (hbound : es.length ≤ bound) :
    Reads N (items inner separator gap t bound) ((first ++ gap).intercalate (es.map text) ++ t)
      es P := by
  induction es generalizing bound with
  | nil => exact absurd rfl hnil
  | cons e es ih =>
    obtain ⟨bound, rfl⟩ := Nat.exists_eq_succ_of_ne_zero
      (Nat.ne_zero_of_lt (Nat.lt_of_succ_le hbound))
    obtain ⟨he, hes⟩ := List.forall_mem_cons.mp hes
    rw [items]
    cases es with
    | nil =>
      rw [List.map_singleton, String.intercalate_singleton]
      refine he.bind (Reads.passed (.expect_pure t [e]) fun rest _ => ?_)
        fun rest _ => ends_append close ht hclose rest
      obtain ⟨tail, htail⟩ := List.head?_eq_some_iff.mp ht
      simpa [htail] using hne
    | cons e' es =>
      have hrest := ih hes (List.cons_ne_nil e' es) (Nat.le_of_succ_le_succ hbound)
      rw [List.map_cons, List.map_cons, String.intercalate_cons_cons, ← List.map_cons]
      simp only [String.append_assoc] at hrest ⊢
      refine he.bind (Reads.eaten (.expect (hrest.map _)) hfirst) fun rest _ => ?_
      exact ends_append separator (by simp [hfirst]) hseparator rest

lemma texts_eq_map (depth : Nat) (es : List Expr) :
    Expr.texts depth es = es.map (·.text depth) := by
  induction es with
  | nil => rfl
  | cons e es ih => rw [Expr.texts, ih, List.map_cons]

lemma arguments_reads {args : List Expr} {bound : Nat}
    (hinner : ∀ cs, inner (')' :: cs) = .error .unreadable)
    (hargs : ∀ e ∈ args, Reads N inner (e.text depth) e Ends) (hbound : args.length ≤ bound) :
    Reads N (arguments inner bound) (", ".intercalate (Expr.texts depth args) ++ ")") args P := by
  have hsplit : ", " = "," ++ " " := rfl
  rw [arguments, texts_eq_map, hsplit]
  cases args with
  | nil =>
    have hempty : ("," ++ " ").intercalate [] ++ ")" = ")" ++ "" := rfl
    rw [List.map_nil, hempty]
    exact Reads.eaten (fun rest _ => .inl rfl) rfl
  | cons e es =>
    obtain ⟨bound, rfl⟩ := Nat.exists_eq_succ_of_ne_zero
      (Nat.ne_zero_of_lt (Nat.lt_of_succ_le hbound))
    have hes : Reads N (items inner ',' " " ")" (bound + 1))
        (("," ++ " ").intercalate ((e :: es).map (·.text depth)) ++ ")") (e :: es) P :=
      items_reads (by decide) (by decide) (by decide) rfl rfl hargs (List.cons_ne_nil e es) hbound
    refine Reads.passed hes fun rest hrest => hes.head_ne (fun cs => ?_) hrest
    exact bind_eq_of_error (hinner cs)

lemma block_reads {es : List Expr} {bound : Nat}
    (hes : ∀ e ∈ es, Reads N inner (e.text (depth + 1)) e Ends) (hnil : es ≠ [])
    (hbound : es.length ≤ bound) :
    Reads N (block inner depth bound)
      (newline (depth + 1) ++ ((";" ++ newline (depth + 1)).intercalate
        (Expr.texts (depth + 1) es) ++ (newline depth ++ "\x7d"))) (.seq es) P := by
  have hclose : (newline depth ++ "\x7d").toList.head? = some '\n' := by simp [newline]
  rw [block, texts_eq_map]
  exact .expect ((items_reads (by decide) (by decide) (by decide) rfl hclose hes hnil hbound).map _)

/-- The first word tells what is read. -/
lemma word_apply {rest : List Char} (hs : ∀ c ∈ s.toList, isWordChar c = true)
    (hrest : EndsWord rest) : word inner depth (s.toList ++ rest) =
      (if s = "let" then binding inner depth else if s = "if" then conditional inner else atom s)
        rest := by
  rw [word, bind_eq_of_ok (many_append hs hrest), String.ofList_toList]

lemma atom_reads {e : Expr} (hs : ∀ c ∈ s.toList, isWordChar c = true) (hlet : s ≠ "let")
    (hif : s ≠ "if") (hatom : atom s = Pure.pure e) :
    Reads N (word inner depth) s e EndsWord := by
  intro rest hrest
  rw [word_apply hs hrest, if_neg hlet, if_neg hif, hatom]
  exact .inl rfl

/-- A name that is scanned as such. -/
lemma var_reads {x : String} (h : Token.Spells (.ok (.ident x)) x.toList) :
    Reads N (word inner depth) x (.var x) EndsWord := by
  cases h with
  | ident hword hsymbol hkeyword =>
    refine atom_reads hword.2 (hkeyword .let).symm (hkeyword .if).symm ?_
    obtain ⟨⟨c, hhead, hstart⟩, -⟩ := hword
    have hc : x.toList.head? = some c := hhead
    have hdigit : ¬c.isDigit = true := fun hdigit => by
      rw [Token.isWordStart_eq_false_of_isDigit hdigit] at hstart
      cases hstart
    have htrue : x ≠ "true" := (hkeyword .true).symm
    have hfalse : x ≠ "false" := (hkeyword .false).symm
    rw [atom, if_neg htrue, if_neg hfalse, hc]
    exact if_neg hdigit

lemma bool_reads (b : Bool) :
    Reads N (word inner depth) (toString b) (.lit (.bool b)) EndsWord := by
  have hfalse : ∀ c ∈ "false".toList, isWordChar c = true := List.all_eq_true.mp (by decide)
  have htrue : ∀ c ∈ "true".toList, isWordChar c = true := List.all_eq_true.mp (by decide)
  cases b with
  | false => exact atom_reads hfalse (by decide) (by decide) rfl
  | true => exact atom_reads htrue (by decide) (by decide) rfl

lemma isDigit_of_mem_repr (n : Nat) : ∀ c ∈ (Nat.repr n).toList, c.isDigit = true := by
  intro c hc
  rw [Nat.repr, String.toList_ofList] at hc
  exact Nat.isDigit_of_mem_toDigits (by decide) (by decide) hc

lemma ofDigits_repr (n : Nat) : Integer.ofDigits (Nat.repr n).toList = n := by
  rw [Nat.repr, String.toList_ofList]
  exact Nat.ofDigitChars_toDigits (by decide) (by decide)

lemma nat_reads (n : Nat) :
    Reads N (word inner depth) (Nat.repr n) (.lit (.int n)) EndsWord := by
  have hdigits := isDigit_of_mem_repr n
  have hnil : (Nat.repr n).toList ≠ [] := by
    rw [Nat.repr, String.toList_ofList]
    exact Nat.toDigits_ne_nil
  obtain ⟨c, cs, hcs⟩ := List.exists_cons_of_ne_nil hnil
  have hc : c.isDigit = true := hdigits c (by rw [hcs]; exact List.mem_cons_self)
  have hnot : ∀ s : String, s.toList.any (!·.isDigit) = true → Nat.repr n ≠ s := by
    rintro s hs rfl
    obtain ⟨d, hd, hdigit⟩ := List.any_eq_true.mp hs
    rw [hdigits d hd] at hdigit
    cases hdigit
  refine atom_reads (fun c hc => ?_) (hnot _ (by decide)) (hnot _ (by decide)) ?_
  · simp [isWordChar, Char.isAlphanum, hdigits c hc]
  · rw [atom, if_neg (hnot _ (by decide)), if_neg (hnot _ (by decide)), hcs]
    simp only [List.head?_cons, if_pos hc]
    rw [← hcs, ofDigits_repr]

lemma endsWord_blank (s : String) (rest : List Char) : EndsWord ((" " ++ s).toList ++ rest) := by
  have hblank : isWordChar ' ' = false := by decide
  simpa [EndsWord] using hblank

lemma binding_word {e : Expr} (h : Reads N (binding inner depth) (" " ++ s) e P) :
    Reads N (word inner depth) ("let" ++ (" " ++ s)) e P := by
  have hlet : ∀ c ∈ "let".toList, isWordChar c = true := List.all_eq_true.mp (by decide)
  intro rest hrest
  rw [String.toList_append, List.append_assoc, word_apply hlet (endsWord_blank s rest), if_pos rfl]
  exact h rest hrest

lemma conditional_word {e : Expr} (h : Reads N (conditional inner) (" " ++ s) e P) :
    Reads N (word inner depth) ("if" ++ (" " ++ s)) e P := by
  have hif : ∀ c ∈ "if".toList, isWordChar c = true := List.all_eq_true.mp (by decide)
  have hnot : ¬"if" = "let" := by decide
  intro rest hrest
  rw [String.toList_append, List.append_assoc, word_apply hif (endsWord_blank s rest),
    if_neg hnot, if_pos rfl]
  exact h rest hrest

end Parts

section Heads

variable {N : Nat → Prop} {inner : Nat → Read Expr} {depth bound : Nat} {s : String} {e : Expr}
  {P : List Char → Prop}

/-- What begins like a word is read as one. -/
lemma head_word (h : Reads N (word (inner depth) depth) s e P)
    (hs : ∃ c ∈ s.toList.head?, isWordChar c = true) : Reads N (head inner depth bound) s e P := by
  obtain ⟨c, hhead, hc⟩ := hs
  obtain ⟨cs, hcs⟩ := List.head?_eq_some_iff.mp hhead
  have hpass : ∀ d, isWordChar d = false → ∀ rest, P rest → (s.toList ++ rest).head? ≠ some d := by
    rintro d hd rest - heq
    rw [hcs] at heq
    cases heq
    rw [hc] at hd
    cases hd
  rw [head]
  refine .passed (.passed (.passed (.passed (.passed h ?_) ?_) ?_) ?_) ?_
  all_goals exact hpass _ (by decide)

lemma head_parens (h : Reads N (operation (inner depth)) s e P) :
    Reads N (head inner depth bound) ("(" ++ s) e P := by
  rw [head]
  exact h.eaten rfl

lemma head_str (t : String) (h : t.length < bound) :
    Reads N (head inner depth bound) (Text.quoteString t) (.lit (.str t)) P := by
  have hquote : Text.quoteString t =
      "\"" ++ String.ofList (t.toList.flatMap (Text.escapeChar '"') ++ ['"']) :=
    String.toList_injective (by simp [Text.quoteString, Text.quoteWith])
  have hbody : Reads N (quoted bound)
      (String.ofList (t.toList.flatMap (Text.escapeChar '"') ++ ['"'])) t.toList P := by
    intro rest _
    rw [String.toList_ofList, List.append_assoc, List.singleton_append]
    exact .inl (quoted_escaped t.toList rest (by rwa [String.length_toList]))
  have hmap := hbody.map fun cs => Expr.lit (.str (.ofList cs))
  rw [String.ofList_toList] at hmap
  rw [head, hquote]
  refine .passed (hmap.eaten rfl) fun rest _ => by simp

lemma head_block (h : Reads N (block (inner (depth + 1)) depth bound) s e P) :
    Reads N (head inner depth bound) ("\x7b" ++ s) e P := by
  rw [head]
  refine .passed (.passed (h.eaten rfl) ?_) ?_
  all_goals exact fun rest _ => by simp

lemma head_error : Reads N (head inner depth bound) "<error>" .error P := by
  have hsplit : "<error>" = "<" ++ "error>" := rfl
  rw [head, hsplit]
  refine .passed (.passed (.passed ((Reads.expect_pure _ _).eaten rfl) ?_) ?_) ?_
  all_goals exact fun rest _ => by simp

lemma head_nat (n : Nat) :
    Reads N (head inner depth bound) (Nat.repr n) (.lit (.int n)) EndsWord := by
  have hnil : (Nat.repr n).toList ≠ [] := by
    rw [Nat.repr, String.toList_ofList]
    exact Nat.toDigits_ne_nil
  obtain ⟨c, cs, hcs⟩ := List.exists_cons_of_ne_nil hnil
  have hc : c.isDigit = true := isDigit_of_mem_repr n c (by rw [hcs]; exact List.mem_cons_self)
  refine head_word (nat_reads n) ⟨c, by rw [hcs]; rfl, ?_⟩
  simp [isWordChar, Char.isAlphanum, hc]

lemma head_negative (n : Nat) :
    Reads N (head inner depth bound) ("-" ++ Nat.repr n) (.lit (.int (-n))) EndsWord := by
  have hdigits : Reads N (many (·.isDigit)) (Nat.repr n) (Nat.repr n).toList EndsWord := by
    intro rest hrest
    refine .inl (many_append (isDigit_of_mem_repr n) fun c hc => ?_)
    have hword := hrest c hc
    simp only [isWordChar, Char.isAlphanum, Bool.or_eq_false_iff] at hword
    exact hword.1.2
  have hmap := hdigits.map fun cs => Expr.lit (.int (-Integer.ofDigits cs))
  rw [ofDigits_repr] at hmap
  rw [head]
  refine .passed (.passed (.passed (.passed (hmap.eaten rfl) ?_) ?_) ?_) ?_
  all_goals exact fun rest _ => by simp

/-- A literal is read back, with room for its characters if it is a text. -/
lemma head_lit (l : Literal) (h : ∀ t, l = .str t → t.length < bound) :
    Reads N (head inner depth bound) l.text (.lit l) EndsWord := by
  cases l with
  | unit =>
    have hsplit : Literal.unit.text = "(" ++ (")" ++ "") := rfl
    have hempty : Reads N (operation (inner depth)) (")" ++ "") .unit EndsWord := by
      rw [operation]
      exact Reads.eaten (fun rest _ => .inl rfl) rfl
    rw [hsplit]
    exact head_parens hempty
  | bool b =>
    refine head_word (bool_reads b) ?_
    cases b with
    | false => exact ⟨'f', rfl, by decide⟩
    | true => exact ⟨'t', rfl, by decide⟩
  | int n =>
    cases n with
    | ofNat n => exact head_nat n
    | negSucc n => exact head_negative (n + 1)
  | str t => exact head_str t (h t rfl)

end Heads

end Read

end ClosedSum.Core
