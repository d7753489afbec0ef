import ClosedSum.Proofs.ParserPrefixes

/-!
# Walks over tokens

A walk does what a parser does, and keeps the cursors that it comes through. It has no bound that
would end a loop with what was read so far: a loop, or a nesting, with no round left cuts the walk
off, and then it comes to nothing at all. So what a walk comes to for every number of rounds from
some on is what reading comes to without a bound.
-/

namespace ClosedSum.Grammar

open Token (Kind)

/-- Where a walk has come to, and through which cursors. -/
structure Walked (α : Type) where
  result : Except Fault α
  stop : Cursor
  path : List Cursor

def Walk (α : Type) : Type := Cursor → Option (Walked α)

namespace Walk

variable {α β : Type}

/-- No round is left. -/
def cutOff : Walk α := fun _ => none

def bind (w : Walk α) (f : α → Walk β) : Walk β := fun c =>
  match w c with
  | none => none
  | some ⟨.error e, d, path⟩ => some ⟨.error e, d, path⟩
  | some ⟨.ok a, d, path⟩ => (f a d).map fun r => { r with path := path ++ r.path }

instance : Monad Walk where
  pure a := fun c => some ⟨.ok a, c, []⟩
  bind := Walk.bind

def see (look : Cursor → α) : Walk α := fun c => some ⟨.ok (look c), c, []⟩

def failHere (cause : Kind → Cause) : Walk α := fun c =>
  some ⟨.error ⟨cause c.kind, c.span, none⟩, c, []⟩

def within (context : Context) (w : Walk α) : Walk α := fun c =>
  (w c).map fun r => { r with result := r.result.mapError (·.within context) }

/-- The only step that moves, unless it is before the end of the file. -/
def next : Walk Token := fun c =>
  some ⟨.ok c.advance.1, c.advance.2, if c.atEnd then [] else [c.advance.2]⟩

def kind : Walk Kind := see (·.kind)

def span : Walk Span := see (·.span)

def isNext (kind : Kind) : Walk Bool := see (·.check kind)

def isSecond (kind : Kind) : Walk Bool := see fun c => decide ((c.peek 1).kind = kind)

def expect (kind : Kind) : Walk Span := do
  if ← isNext kind then return (← next).span
  else failHere (.unexpected kind.describe)

def sign (sign : Token.Symbol) : Walk Span := expect (.symbol sign)

def keyword (word : Token.Keyword) : Walk Span := expect (.keyword word)

def ident : Walk Ident := do
  match ← kind with
  | .ident name => return ⟨name, (← next).span⟩
  | found => failHere fun _ => .noIdentifier found

def close (opened : Span) (closer : Token.Symbol) : Walk Span := do
  if ← see (·.atEnd) then failHere fun _ => .unclosed opened closer
  else sign closer

def separated (separator closer : Token.Symbol) (item : Walk α) : Nat → Walk (List α)
  | 0 => cutOff
  | rounds + 1 => do
    if ← see (fun c => c.check (.symbol closer) || c.atEnd) then return []
    let a ← item
    if ← isNext (.symbol separator) then
      let _ ← next
      return a :: (← separated separator closer item rounds)
    else return [a]

def closedList (separator closer : Token.Symbol) (opened : Span) (item : Walk α) (bound : Nat) :
    Walk (List α × Span) := do
  let items ← separated separator closer item bound
  return (items, ← close opened closer)

def chain (op? : Kind → Option β) (combine : β → α → α → α) (operand : Walk α) :
    Nat → α → Walk α
  | 0, _ => cutOff
  | rounds + 1, a => do
    match op? (← kind) with
    | none => return a
    | some op =>
      let _ ← next
      chain op? combine operand rounds (combine op a (← operand))

end Walk

/-- The cursors from one to another, each one token behind the one before. -/
inductive Path : Cursor → List Cursor → Cursor → Prop
  | stay (c : Cursor) : Path c [] c
  | step {c d : Cursor} {path : List Cursor} : c.atEnd = false → Path c.advance.2 path d →
      Path c (c.advance.2 :: path) d

lemma Cursor.rest_of_not_atEnd {c : Cursor} (h : c.atEnd = false) :
    c.rest = c.current :: c.advance.2.rest :=
  rest_of_kind rfl (of_decide_eq_false h)

lemma Cursor.advance_of_atEnd {c : Cursor} (h : c.atEnd = true) : c.advance.2 = c := by
  simp [advance, h]

/-- The end of the file is a token. -/
lemma Cursor.length_pos {c : Cursor} (h : .eof ∈ c.kinds) : 0 < c.rest.length := by
  have hpos := List.length_pos_of_mem h
  rwa [kinds, List.length_map] at hpos

namespace Path

variable {c d e : Cursor} {path path' : List Cursor}

lemma append (h : Path c path d) (h' : Path d path' e) : Path c (path ++ path') e := by
  induction h with
  | stay c => exact h'
  | step hc h ih => exact .step hc (ih h')

/-- A path is as long as there are tokens on it. -/
lemma length_rest (h : Path c path d) : c.rest.length = path.length + d.rest.length := by
  induction h with
  | stay c => rw [List.length_nil, Nat.zero_add]
  | step hc h ih =>
    rw [Cursor.rest_of_not_atEnd hc, List.length_cons, List.length_cons, ih]
    omega

lemma suffix (h : Path c path d) : d.rest <:+ c.rest := by
  induction h with
  | stay c => exact List.suffix_rfl
  | @step c d path hc h ih => exact ih.trans c.rest_advance

lemma unique (h : Path c path d) (h' : Path c path' d) : path = path' := by
  induction h generalizing path' with
  | stay c =>
    have := h'.length_rest
    exact (List.length_eq_zero_iff.mp (by omega)).symm
  | step hc h ih =>
    cases h' with
    | stay =>
      have := h.length_rest
      rw [Cursor.rest_of_not_atEnd hc, List.length_cons] at this
      omega
    | step _ h' => exact congrArg _ (ih h')

/-- The end of the file is never behind. -/
lemma eof_mem (h : Path c path d) (hc : .eof ∈ c.kinds) : .eof ∈ d.kinds := by
  induction h with
  | stay c => exact hc
  | @step c d path hend h ih =>
    refine ih ?_
    rw [Cursor.kinds_advance rfl (of_decide_eq_false hend)] at hc
    exact (List.mem_cons.mp hc).resolve_left (Ne.symm (of_decide_eq_false hend))

end Path

/-- The kind of the token at which something is missing. -/
def Cause.found : Cause → Kind
  | .unexpected _ found | .noExpression found | .noIdentifier found | .badPattern found => found
  | .unclosed .. => .eof

/-- A fault is reported where a token stands, and for its kind. -/
structure Fault.PointsAt (f : Fault) (t : Token) : Prop where
  span_eq : f.span = t.span
  found_eq : f.cause.found = t.kind

/-- Where the next token has a property, the end of the file is ahead and no more than `n` tokens
are left, the walk is not cut off and comes to what the parser comes to. A fault is one of the token
at which the walk stops. -/
def Traces {α : Type} (P : Kind → Prop) (n : Nat) (w : Walk α) (p : Parse α) : Prop :=
  ∀ c, P c.kind → .eof ∈ c.kinds → c.rest.length ≤ n →
    ∃ path, w c = some ⟨(p c).1, (p c).2, path⟩ ∧ Path c path (p c).2 ∧
      ∀ f, (p c).1 = .error f → f.PointsAt (p c).2.current

namespace Traces

open Parse (bind_of_ok bind_of_error)

variable {α β : Type} {P : Kind → Prop} {n m : Nat} {w : Walk α} {p : Parse α}
  {f : α → Walk β} {g : α → Parse β}

lemma mono (h : Traces P n w p) (hm : m ≤ n) {Q : Kind → Prop} (hQ : ∀ k, Q k → P k) :
    Traces Q m w p := fun c hc heof hlen => h c (hQ _ hc) heof (hlen.trans hm)

lemma weaken (h : Traces P n w p) (hm : m ≤ n) : Traces P m w p := h.mono hm fun _ hk => hk

lemma atAny (h : Traces Any n w p) : Traces P n w p := h.mono (le_refl n) fun _ _ => trivial

/-- The end of the file is ahead, so a token is left. -/
lemma zero (hn : n ≤ 0) : Traces P n w p := fun c _ heof hlen => by
  have := Cursor.length_pos heof
  omega

lemma pure (a : α) : Traces P n (Pure.pure a) (Pure.pure a) := fun c _ _ _ =>
  ⟨[], rfl, .stay c, fun _ h => by cases h⟩

lemma failHere {cause : Kind → Cause} (h : ∀ k, P k → (cause k).found = k) :
    Traces P n (Walk.failHere cause : Walk α) (Parse.failHere cause) := fun c hc _ _ => by
  refine ⟨[], rfl, .stay c, fun e he => ?_⟩
  obtain rfl : _ = e := Except.error.inj he
  exact ⟨rfl, h _ hc⟩

/-- After a look at the cursor, the next token is the one that was seen. -/
lemma see {γ : Type} {look : Cursor → γ} {f : γ → Walk β} {g : γ → Parse β}
    (h : ∀ c, P c.kind → Traces (· = c.kind) n (f (look c)) (g (look c))) :
    Traces P n (Walk.see look >>= f) (Parse.see look >>= g) := fun c hc heof hlen => by
  obtain ⟨path, hw, hpath, hfault⟩ := h c hc c rfl heof hlen
  refine ⟨path, ?_, hpath, hfault⟩
  change (f (look c) c).map _ = _
  rw [hw]
  rfl

/-- One after the other. What the second finds is what the first leaves of `n` tokens. -/
lemma bindWith (hw : Traces P n w p)
    (hread : ∀ c a c', P c.kind → p c = (.ok a, c') → c'.rest <:+ c.rest → c.rest.length ≤ n →
      c'.rest.length ≤ m)
    (hf : ∀ a, Traces Any m (f a) (g a)) : Traces P n (w >>= f) (p >>= g) := by
  intro c hc heof hlen
  obtain ⟨path, hwc, hpath, hfault⟩ := hw c hc heof hlen
  change ∃ path, Walk.bind w f c = _ ∧ _
  cases hpc : p c with
  | mk r c' =>
    rw [hpc] at hwc hpath hfault
    cases r with
    | error e =>
      rw [bind_of_error g hpc]
      refine ⟨path, by rw [Walk.bind, hwc], hpath, fun e' he' => ?_⟩
      obtain rfl : e = e' := Except.error.inj he'
      exact hfault e rfl
    | ok a =>
      rw [bind_of_ok g hpc]
      obtain ⟨path', hfc, hpath', hfault'⟩ := hf a c' trivial
        (hpath.eof_mem heof) (hread c a c' hc hpc hpath.suffix hlen)
      exact ⟨path ++ path', by simp [Walk.bind, hwc, hfc], hpath.append hpath', hfault'⟩

lemma bind (hw : Traces P n w p) (hf : ∀ a, Traces Any n (f a) (g a)) :
    Traces P n (w >>= f) (p >>= g) :=
  hw.bindWith (fun _ _ _ _ _ hsuffix hlen => hsuffix.length_le.trans hlen) hf

/-- Behind a parser that reads a token, one token less is left. -/
lemma andThen (hw : Traces P n w p)
    (hread : ∀ c a c', P c.kind → p c = (.ok a, c') → ∃ t, c.rest = t :: c'.rest)
    (hf : ∀ a, Traces Any (n - 1) (f a) (g a)) : Traces P n (w >>= f) (p >>= g) := by
  refine hw.bindWith (fun c a c' hc hpc _ hlen => ?_) hf
  obtain ⟨t, ht⟩ := hread c a c' hc hpc
  rw [ht, List.length_cons] at hlen
  omega

lemma within (h : Traces P n w p) (context : Context) :
    Traces P n (Walk.within context w) (Parse.within context p) := by
  intro c hc heof hlen
  obtain ⟨path, hw, hpath, hfault⟩ := h c hc heof hlen
  rw [Parse.within_eq]
  refine ⟨path, by rw [Walk.within, hw]; rfl, hpath, fun e he => ?_⟩
  cases hpc : (p c).1 with
  | ok a =>
    rw [hpc] at he
    cases he
  | error e' =>
    rw [hpc] at he
    obtain rfl : e'.within context = e := Except.error.inj he
    exact ⟨(hfault e' hpc).span_eq, (hfault e' hpc).found_eq⟩

variable {k : Kind}

lemma next : Traces P n Walk.next Parse.next := by
  refine fun c _ _ _ => ⟨_, rfl, ?_, fun _ h => by cases h⟩
  change Path c _ c.advance.2
  cases hend : c.atEnd with
  | true =>
    rw [Cursor.advance_of_atEnd hend]
    exact .stay c
  | false => exact .step hend (.stay _)

/-- Behind a token that is known. -/
lemma nextThen {f : Token → Walk β} {g : Token → Parse β} (hk : k ≠ .eof)
    (hf : ∀ t, Traces Any (n - 1) (f t) (g t)) :
    Traces (· = k) n (Walk.next >>= f) (Parse.next >>= g) :=
  next.andThen (fun _ _ _ hc hpc => ⟨_, next_token hpc hc hk⟩) hf

/-- Two ways to go on, by whether a given token is next. -/
lemma ifNext {f : Bool → Walk β} {g : Bool → Parse β}
    (hyes : Traces (· = k) n (f true) (g true)) (hno : Traces P n (f false) (g false)) :
    Traces P n (Walk.isNext k >>= f) (Parse.isNext k >>= g) := by
  refine see fun c hc => ?_
  by_cases hk : c.kind = k
  · have hcheck : c.check k = true := decide_eq_true hk
    rw [hcheck, hk]
    exact hyes
  · have hcheck : c.check k = false := decide_eq_false hk
    rw [hcheck]
    exact hno.mono (le_refl n) fun _ h => h ▸ hc

lemma expect (k : Kind) : Traces P n (Walk.expect k) (Parse.expect k) := by
  have heq : Parse.expect k = Parse.isNext k >>= fun b => if b = true
      then Parse.next >>= fun t => Pure.pure t.span
      else Parse.failHere (.unexpected k.describe) := by
    funext c
    change c.expect k = Parse.bind (Parse.isNext k) _ c
    simp only [Cursor.expect, Parse.bind, Parse.isNext, Parse.see]
    cases c.check k <;> rfl
  rw [heq]
  exact ifNext (next.bind fun _ => pure _) (failHere fun _ _ => rfl)

lemma sign {s : Token.Symbol} : Traces P n (Walk.sign s) (Parse.sign s) := expect _

lemma keyword {word : Token.Keyword} : Traces P n (Walk.keyword word) (Parse.keyword word) :=
  expect _

lemma signThen {s : Token.Symbol} {f : Span → Walk β} {g : Span → Parse β}
    (hf : ∀ s, Traces Any (n - 1) (f s) (g s)) :
    Traces P n (Walk.sign s >>= f) (Parse.sign s >>= g) :=
  sign.andThen (fun _ _ _ _ hpc => ⟨_, Parse.sign_token hpc⟩) hf

lemma keywordThen {word : Token.Keyword} {f : Span → Walk β} {g : Span → Parse β}
    (hf : ∀ s, Traces Any (n - 1) (f s) (g s)) :
    Traces P n (Walk.keyword word >>= f) (Parse.keyword word >>= g) :=
  keyword.andThen (fun _ _ _ _ hpc => ⟨_, Parse.keyword_token hpc⟩) hf

lemma ifEat {w w' : Walk β} {g : Bool → Parse β} (hk : k ≠ .eof)
    (hyes : Traces Any (n - 1) w (g true)) (hno : Traces P n w' (g false)) :
    Traces P n (Walk.isNext k >>= fun b => if b = true then Walk.next >>= fun _ => w else w')
      (Parse.eat k >>= g) := by
  have heq : Parse.eat k >>= g = Parse.isNext k >>= fun b => if b = true
      then Parse.next >>= fun _ => g true else g false := by
    funext c
    change Parse.bind (Parse.eat k) g c = Parse.bind (Parse.isNext k) _ c
    simp only [Parse.bind, Parse.eat, Cursor.eat, Parse.isNext, Parse.see]
    cases c.check k <;> rfl
  rw [heq]
  exact ifNext (nextThen hk fun _ => hyes) hno

lemma ident : Traces P n Walk.ident Parse.ident := by
  have heq : Parse.ident = Parse.kind >>= fun k => match k with
      | .ident name => Parse.next >>= fun t => Pure.pure ⟨name, t.span⟩
      | found => Parse.failHere fun _ => .noIdentifier found := by
    funext c
    change c.expectIdent = (match c.kind with
      | .ident name => Parse.next >>= fun t => Pure.pure (⟨name, t.span⟩ : Ident)
      | found => Parse.failHere fun _ => .noIdentifier found : Parse Ident) c
    unfold Cursor.expectIdent
    cases c.kind <;> rfl
  rw [heq]
  refine see fun c _ => ?_
  split
  · exact next.bind fun _ => pure _
  · exact failHere fun _ hk => hk.symm

lemma close (opened : Span) (closer : Token.Symbol) :
    Traces P n (Walk.close opened closer) (Parse.close opened closer) := by
  refine see fun c _ => ?_
  by_cases hend : c.kind = .eof
  · rw [show c.atEnd = true from decide_eq_true hend, if_pos rfl, if_pos rfl]
    refine failHere fun _ hk => ?_
    rw [hk, hend]
    rfl
  · rw [show c.atEnd = false from decide_eq_false hend]
    exact sign

variable {item : Walk α} {item' : Parse α}

lemma separated (separator closer : Token.Symbol) : ∀ {rounds rounds' n : Nat}, n ≤ rounds →
    n ≤ rounds' → Traces Any n item item' →
      Traces Any n (Walk.separated separator closer item rounds)
        (Parse.separated separator closer item' rounds')
  | 0, _, _, hn, _, _ => zero hn
  | _, 0, _, _, hn, _ => zero hn
  | rounds + 1, rounds' + 1, n, hn, hn', hitem => by
    refine see fun c _ => ?_
    split
    · exact pure []
    · have hmore : Traces Any (n - 1) (Walk.separated separator closer item rounds)
          (Parse.separated separator closer item' rounds') :=
        separated separator closer (by omega) (by omega) (hitem.weaken (by omega))
      -- only what stands behind a separator makes another round
      exact hitem.atAny.bind fun a => ifEat (by simp) (hmore.bind fun as => pure (a :: as))
        (pure [a])

lemma closedList (separator closer : Token.Symbol) (opened : Span) {bound bound' : Nat}
    (hn : n ≤ bound) (hn' : n ≤ bound') (hitem : Traces Any n item item') :
    Traces Any n (Walk.closedList separator closer opened item bound)
      (Parse.closedList separator closer opened item' bound') :=
  (separated separator closer hn hn' hitem).bind fun _ => (close opened closer).bind fun _ => pure _

lemma chain {γ : Type} {op? : Kind → Option γ} (hop : op? .eof = none) {combine : γ → α → α → α} :
    ∀ {rounds rounds' n : Nat} (a : α), n ≤ rounds → n ≤ rounds' → Traces Any n item item' →
      Traces Any n (Walk.chain op? combine item rounds a)
        (Parse.chain op? combine item' rounds' a)
  | 0, _, _, _, hn, _, _ => zero hn
  | _, 0, _, _, _, hn, _ => zero hn
  | rounds + 1, rounds' + 1, n, a, hn, hn', hitem => by
    refine see fun c _ => ?_
    cases hsome : op? c.kind with
    | none => exact pure a
    | some op =>
      have hne : c.kind ≠ .eof := by
        intro heof
        rw [heof, hop] at hsome
        cases hsome
      have hitem' := hitem.weaken (m := n - 1) (by omega)
      have hmore : ∀ b, Traces Any (n - 1) (Walk.chain op? combine item rounds (combine op a b))
          (Parse.chain op? combine item' rounds' (combine op a b)) := fun b =>
        chain hop (combine op a b) (by omega) (by omega) hitem'
      exact nextThen hne fun _ => hitem'.bind hmore

end Traces

end ClosedSum.Grammar
