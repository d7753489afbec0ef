import ClosedSum.Proofs.ParserPrefixes

/-!
# Every parser is steady

One lemma for each rule of the grammar: the languages of its parts, one behind the other, make up
that of the phrase, and no bound is reached by a parser that reads fewer tokens. An expression
inside another stands behind a token that was read, so its bound may be one less.
-/

namespace ClosedSum.Grammar

open Surface Parse
open Token (Kind)

instance : Nonempty Expr := ⟨.unit .none⟩

instance : Nonempty Ident := ⟨⟨"", .none⟩⟩

instance : Nonempty Match.Pattern := ⟨.default⟩

instance : Nonempty Match.Param := ⟨.wildcard .none⟩

instance : Nonempty Stmt := ⟨.expr (.unit .none)⟩

instance : Nonempty Clause := ⟨.mk .default [] .none⟩

lemma mul_le_of {L₁ L₂ L : Language Kind} (h : ∀ ts ∈ L₁, ∀ us ∈ L₂, ts ++ us ∈ L) :
    L₁ * L₂ ≤ L := by
  rintro _ ⟨ts, hts, us, hus, rfl⟩
  exact h ts hts us hus

/-- What goes on every expression with operators of a level. -/
def Level.tails (l : Level) : Language Kind := {ts | ∀ a, ts ∈ (Phrase.operations l a).language}

/-- What goes on every callee with argument lists. -/
def callTails : Language Kind := {ts | ∀ f, ts ∈ (Phrase.calls f).language}

namespace Steady

variable {α : Type} {P : Kind → Prop} {q : Phrase} {n : Nat}

section Lists

variable [Nonempty α] {item item' : Parse α}

lemma close {opened : Span} {closer : Token.Symbol} :
    Steady P {[.symbol closer]} n (close opened closer) (Parse.close opened closer) := by
  refine see (fun t => decide (t.kind = .eof)) (fun _ => rfl) fun t _ => ?_
  split
  · exact failHere ⟨_, rfl⟩
  · exact sign

lemma separated (separator closer : Token.Symbol) :
    ∀ {rounds rounds' n : Nat}, n ≤ rounds → rounds ≤ rounds' →
      Steady Any q.language n item item' →
        Steady Any (Phrase.listOf separator q).language n
          (separated separator closer item rounds) (Parse.separated separator closer item' rounds')
  | 0, _, n, hn, _, _ => by
    obtain rfl : n = 0 := Nat.le_zero.mp hn
    exact zero (pure (Derives.listNil separator q).mem)
  | rounds + 1, rounds', n, hn, hrounds, hitem => by
    obtain ⟨rounds', rfl⟩ : ∃ m, rounds' = m + 1 := ⟨rounds' - 1, by omega⟩
    refine see (fun t => decide (t.kind = .symbol closer) || decide (t.kind = .eof))
      (fun _ => rfl) fun t _ => ?_
    split
    · exact pure (Derives.listNil separator q).mem
    · have hmore : Steady Any (Phrase.listOf separator q).language (n - 1)
          (Parse.separated separator closer item rounds)
          (Parse.separated separator closer item' rounds') :=
        separated separator closer (by omega) (by omega) (hitem.weaken (by omega))
      refine widen (hitem.atAny.bind fun a => ifEat (by simp)
        (hmore.done fun as => pure rfl) (pure (L := 1) rfl)) (mul_le_of ?_)
      rintro ts ⟨a, ha⟩ us (⟨_, rfl, vs, ⟨as, has⟩, rfl⟩ | rfl)
      · exact (Derives.listCons ha has).mem
      · rw [List.append_nil]
        exact (Derives.listOne separator ha).mem

lemma closedList (separator closer : Token.Symbol) (opened : Span) {bound bound' : Nat}
    (hn : n ≤ bound) (hbound : bound ≤ bound') (hitem : Steady Any q.language n item item') :
    Steady Any ((Phrase.listOf separator q).language * {[.symbol closer]}) n
      (closedList separator closer opened item bound)
      (Parse.closedList separator closer opened item' bound') :=
  (separated separator closer hn hbound hitem).bind fun _ => close.done fun _ => pure rfl

end Lists

section Expressions

variable {l l' : Level} {operand operand' : Parse Expr}

lemma chain (hl : l.operand? = some l') :
    ∀ {rounds rounds' n : Nat} (a : Expr), n ≤ rounds → rounds ≤ rounds' →
      Steady Any (Phrase.expr l').language n operand operand' →
        Steady Any l.tails n (chain l.op? binary operand rounds a)
          (Parse.chain l.op? binary operand' rounds' a)
  | 0, _, n, a, hn, _, _ => by
    obtain rfl : n = 0 := Nat.le_zero.mp hn
    exact zero (pure fun a => (Derives.operationsNil l a).mem)
  | rounds + 1, rounds', n, a, hn, hrounds, hoperand => by
    obtain ⟨rounds', rfl⟩ : ∃ m, rounds' = m + 1 := ⟨rounds' - 1, by omega⟩
    refine see (·.kind) (fun _ => rfl) fun t _ => ?_
    cases hop : l.op? t.kind with
    | none => exact pure fun a => (Derives.operationsNil l a).mem
    | some op =>
      have ht : t.kind ≠ .eof := by
        intro heof
        rw [heof, l.op?_eof] at hop
        cases hop
      have hoperand' := hoperand.weaken (m := n - 1) (by omega)
      have hmore : ∀ b, Steady Any l.tails (n - 1)
          (Parse.chain l.op? binary operand rounds (binary op a b))
          (Parse.chain l.op? binary operand' rounds' (binary op a b)) :=
        fun b => chain hl (binary op a b) (by omega) (by omega) hoperand'
      refine widen ((next ht).andThen fun _ => hoperand'.bind hmore) (mul_le_of ?_)
      rintro _ rfl _ ⟨ts, ⟨b, hb⟩, us, hus, rfl⟩ a
      obtain ⟨e, he⟩ := hus (.binary .none op a b)
      exact (Derives.operationsCons hl hop hb he).mem

lemma level (hl : l.operand? = some l') {bound bound' : Nat} (hn : n ≤ bound)
    (hbound : bound ≤ bound') (hoperand : Steady Any (Phrase.expr l').language n operand operand') :
    Steady Any (Phrase.expr l).language n (level l.op? bound operand)
      (Grammar.level l.op? bound' operand') := by
  refine widen (hoperand.bind fun a => hoperand.chain hl a hn hbound) (mul_le_of ?_)
  rintro ts ⟨a, ha⟩ us hus
  obtain ⟨e, he⟩ := hus a
  exact (Derives.level hl ha he).mem

lemma signed : ∀ {rounds rounds' n : Nat}, n ≤ rounds → rounds ≤ rounds' →
    Steady Any (Phrase.expr .unary).language n operand operand' →
      Steady Any (Phrase.expr .unary).language n (signed operand rounds)
        (Grammar.signed operand' rounds')
  | 0, _, n, hn, _, hoperand => by
    obtain rfl : n = 0 := Nat.le_zero.mp hn
    exact hoperand.zero
  | rounds + 1, rounds', n, hn, hrounds, hoperand => by
    obtain ⟨rounds', rfl⟩ : ∃ m, rounds' = m + 1 := ⟨rounds' - 1, by omega⟩
    refine ifNext ?_ hoperand
    have hmore : Steady Any (Phrase.expr .unary).language (n - 1) (Grammar.signed operand rounds)
        (Grammar.signed operand' rounds') :=
      signed (by omega) (by omega) (hoperand.weaken (by omega))
    refine widen (sign.andThen fun _ => hmore.done fun _ => pure rfl) (mul_le_of ?_)
    rintro _ rfl ts ⟨e, he⟩
    exact (Derives.negation he).mem

variable {inner inner' : Parse Expr} {bound bound' : Nat}

lemma calls : ∀ {rounds rounds' n : Nat} (f : Expr), n ≤ rounds → rounds ≤ rounds' → n ≤ bound →
    bound ≤ bound' → Steady Any (Phrase.expr .comparison).language (n - 1) inner inner' →
      Steady Any callTails n (calls inner bound rounds f) (Grammar.calls inner' bound' rounds' f)
  | 0, _, n, f, hn, _, _, _, _ => by
    obtain rfl : n = 0 := Nat.le_zero.mp hn
    exact zero (pure fun f => (Derives.callsNil f).mem)
  | rounds + 1, rounds', n, f, hn, hrounds, hlen, hbound, hinner => by
    obtain ⟨rounds', rfl⟩ : ∃ m, rounds' = m + 1 := ⟨rounds' - 1, by omega⟩
    refine ifNext ?_ (pure fun f => (Derives.callsNil f).mem)
    have hmore : ∀ f, Steady Any callTails (n - 1) (Grammar.calls inner bound rounds f)
        (Grammar.calls inner' bound' rounds' f) := fun f =>
      calls f (by omega) (by omega) (by omega) hbound (hinner.weaken (by omega))
    refine widen (sign.andThen fun opened => ((closedList .comma .rightParen opened (by omega)
      hbound hinner).within .call).bind fun _ => hmore _) (mul_le_of ?_)
    rintro _ rfl _ ⟨_, ⟨ts, ⟨args, hargs⟩, _, rfl, rfl⟩, us, hus, rfl⟩ f
    obtain ⟨e, he⟩ := hus (.call .none f args)
    have hmem := (Derives.callsCons hargs he).mem
    simpa using hmem

lemma stmt (hinner : Steady Any (Phrase.expr .comparison).language n inner inner') :
    Steady Any Phrase.stmt.language n (stmt inner) (Grammar.stmt inner') := by
  have hinner' := hinner.weaken (m := n - 1) (by omega)
  refine widen (ifEat (by simp) (ident.bind fun i => sign.bind fun _ =>
    hinner'.done fun _ => pure rfl) (hinner.done fun _ => pure rfl)) ?_
  rintro _ (⟨_, rfl, _, ⟨ts, ⟨i, hi⟩, _, ⟨_, rfl, us, ⟨e, he⟩, rfl⟩, rfl⟩, rfl⟩ | ⟨e, he⟩)
  · exact (Derives.bind hi he).mem
  · exact (Derives.stmt he).mem

lemma block (hinner : Steady Any (Phrase.expr .comparison).language (n - 1) inner inner')
    (hn : n ≤ bound) (hbound : bound ≤ bound') :
    Steady P Phrase.block.language n (block inner bound) (Grammar.block inner' bound') := by
  refine within (widen (sign.andThen fun opened => (closedList .semicolon .rightBrace opened
    (by omega) hbound (stmt hinner)).done fun _ => pure rfl) (mul_le_of ?_)) _
  rintro _ rfl _ ⟨ts, ⟨ss, hss⟩, _, rfl, rfl⟩
  exact (Derives.block hss).mem

/-- The least conditional. -/
lemma conditional_inhabited : ∃ ts, ts ∈ Phrase.conditional.language := by
  have hblock := Derives.block (Derives.listNil .semicolon .stmt)
  have htest : Derives (.expr .comparison) _ _ := .level rfl (.level rfl (.level rfl
    (.applied (.int 0) (.callsNil _)) (.operationsNil _ _)) (.operationsNil _ _))
    (.operationsNil _ _)
  exact ⟨_, (Derives.ifBlock htest hblock hblock).mem⟩

lemma conditional : ∀ {rounds rounds' n : Nat}, n ≤ rounds → rounds ≤ rounds' → n ≤ bound →
    bound ≤ bound' → Steady Any (Phrase.expr .comparison).language (n - 1) inner inner' →
      Steady Any Phrase.conditional.language n (conditional inner bound rounds)
        (Grammar.conditional inner' bound' rounds')
  | 0, _, n, hn, _, _, _, _ => by
    obtain rfl : n = 0 := Nat.le_zero.mp hn
    exact zero (failHere conditional_inhabited)
  | rounds + 1, rounds', n, hn, hrounds, hlen, hbound, hinner => by
    obtain ⟨rounds', rfl⟩ : ∃ m, rounds' = m + 1 := ⟨rounds' - 1, by omega⟩
    have hinner' := hinner.weaken (m := n - 1 - 1) (by omega)
    have hblock : ∀ {P : Kind → Prop}, Steady P Phrase.block.language (n - 1)
      (Grammar.block inner bound) (Grammar.block inner' bound') := hinner'.block (by omega) hbound
    have hmore : Steady Any Phrase.conditional.language (n - 1)
        (Grammar.conditional inner bound rounds) (Grammar.conditional inner' bound' rounds') :=
      conditional (by omega) (by omega) (by omega) hbound hinner'
    refine within (widen (keyword.andThen fun start => hinner.bind fun test => hblock.bind
      fun yes => keyword.bind fun _ => ifNext
        (L := Phrase.conditional.language + Phrase.block.language)
        ((hmore.atAny.done fun _ => pure rfl).widen fun _ h => .inl h)
        ((hblock.done fun _ => pure rfl).widen fun _ h => .inr h)) (mul_le_of ?_)) _
    rintro _ rfl _ ⟨ts, ⟨test, ht⟩, _, ⟨us, ⟨yes, hy⟩, _, ⟨_, rfl, vs, hvs, rfl⟩, rfl⟩, rfl⟩
    obtain ⟨no, hno⟩ | ⟨no, hno⟩ := hvs
    · have hmem := (Derives.ifIf ht hy hno).mem
      simpa using hmem
    · have hmem := (Derives.ifBlock ht hy hno).mem
      simpa using hmem

lemma param : Steady P Phrase.param.language n param Grammar.param := by
  refine see (·.kind) (fun _ => rfl) fun t _ => ?_
  split
  · next ht =>
    rw [ht]
    refine widen ((next (by simp)).done fun _ => pure rfl) ?_
    rintro _ rfl
    exact Derives.paramWildcard.mem
  · next name ht =>
    rw [ht]
    refine widen ((next (by simp)).done fun _ => pure rfl) ?_
    rintro _ rfl
    exact (Derives.paramIdent (.ident name)).mem
  · exact failHere ⟨_, Derives.paramWildcard.mem⟩

lemma pattern (hn : n ≤ bound) (hbound : bound ≤ bound') :
    Steady P Phrase.pattern.language n (pattern bound) (Grammar.pattern bound') := by
  have hdefault : ∃ ts, ts ∈ Phrase.pattern.language := ⟨_, Derives.patternDefault.mem⟩
  refine see (·.kind) (fun _ => rfl) fun t _ => ?_
  split
  · next ht =>
    rw [ht]
    refine widen ((next (by simp)).done fun _ => pure rfl) ?_
    rintro _ rfl
    exact Derives.patternDefault.mem
  · next name ht =>
    rw [ht]
    refine widen (bindTo {ts | .ident name :: ts ∈ Phrase.pattern.language} (next (by simp))
      fun label => see (·.kind) (fun _ => rfl) fun u _ => ?_) (mul_le_of ?_)
    · split
      · next hu =>
        rw [hu]
        refine widen ((next (by simp)).bind fun opened => (closedList .comma .rightParen _ hn
          hbound param).done fun _ => pure rfl) (mul_le_of ?_)
        rintro _ rfl _ ⟨ts, ⟨ps, hps⟩, _, rfl, rfl⟩
        exact (Derives.patternList (.ident name) hps).mem
      · refine widen (param.done fun _ => pure rfl) ?_
        rintro ts ⟨p, hp⟩
        exact (Derives.patternRest (.ident name) hp).mem
      · refine widen (param.done fun _ => pure rfl) ?_
        rintro ts ⟨p, hp⟩
        exact (Derives.patternRest (.ident name) hp).mem
      · exact failHere ⟨_, (Derives.patternRest (.ident name) .paramWildcard).mem⟩
    · rintro _ rfl ts hts
      exact hts
  · exact failHere hdefault

lemma clause (hinner : Steady Any (Phrase.expr .comparison).language n inner inner')
    (hn : n ≤ bound) (hbound : bound ≤ bound') :
    Steady Any Phrase.clause.language n (clause inner bound) (Grammar.clause inner' bound') := by
  refine within (see (·.span) (fun _ => rfl) fun t _ => ?_) _
  refine widen ((pattern hn hbound).bind fun p => sign.bind fun _ => hinner.done
    fun _ => pure rfl) (mul_le_of ?_)
  rintro ts ⟨p, hp⟩ _ ⟨_, rfl, us, ⟨e, he⟩, rfl⟩
  exact (Derives.clause hp he).mem

/-- A match begins with the name of its operator. -/
lemma matchUse (hinner : Steady Any (Phrase.expr .comparison).language (n - 1) inner inner')
    (hn : n ≤ bound) (hbound : bound ≤ bound') :
    ∃ rest rest' : Ident → Parse Expr,
      Grammar.matchUse inner bound = Parse.within .matchUse (Parse.ident >>= rest) ∧
      Grammar.matchUse inner' bound' = Parse.within .matchUse (Parse.ident >>= rest') ∧
        ∀ i, Steady (· = .symbol .bang) {ts | ∀ name, .ident name :: ts ∈ Phrase.primary.language}
          n (rest i) (rest' i) := by
  refine ⟨_, _, rfl, rfl, fun operator => ?_⟩
  refine widen (sign.andThen fun _ => sign.bind fun paren => hinner.bind fun e => close.bind
    fun _ => sign.bind fun opened => (closedList .comma .rightBrace opened (by omega) hbound
      (clause hinner (by omega) hbound)).done fun _ => pure rfl) (mul_le_of ?_)
  rintro _ rfl _ ⟨_, rfl, _, ⟨ts, ⟨e, he⟩, _, ⟨_, rfl, _, ⟨_, rfl, _, ⟨us, ⟨cs, hcs⟩, _, rfl, rfl⟩,
    rfl⟩, rfl⟩, rfl⟩, rfl⟩ name
  have hmem := (Derives.matchUse name he hcs).mem
  simpa using hmem

lemma parenthesized (hinner : Steady Any (Phrase.expr .comparison).language n inner inner')
    (opened : Span) :
    Steady Any {ts | .symbol .leftParen :: ts ∈ Phrase.primary.language} n
      (parenthesized inner opened) (Grammar.parenthesized inner' opened) := by
  refine ifNext ?_ ?_
  · refine widen (sign.done fun _ => pure rfl) ?_
    rintro _ rfl
    exact Derives.parensNone.mem
  · refine widen (hinner.bind fun e => close.done fun _ => pure rfl) (mul_le_of ?_)
    rintro ts ⟨e, he⟩ _ rfl
    exact (Derives.parens he).mem

end Expressions

end Steady

/-- The token behind the next one is next once that is read. -/
lemma Cursor.kind_peek {c : Cursor} {k k' : Kind} (hc : c.kind = k) (hk : k ≠ k')
    (hne : k ≠ .eof) (hne' : k' ≠ .eof) : (c.peek 1).kind = k' ↔ c.advance.2.kind = k' := by
  obtain ⟨rest, previous⟩ := c
  match rest with
  | [] => exact absurd hc.symm hne
  | [t] =>
    obtain rfl : t.kind = k := hc
    simp [Cursor.peek, Cursor.advance, Cursor.atEnd, Cursor.kind, Cursor.current, hk, hne,
      Cursor.missing, hne'.symm]
  | t :: t' :: ts =>
    obtain rfl : t.kind = k := hc
    simp [Cursor.peek, Cursor.advance, Cursor.atEnd, Cursor.kind, Cursor.current, hne]

namespace Steady

variable {P : Kind → Prop} {n bound bound' : Nat} {inner inner' : Parse Expr}

/-- A name is read whatever stands behind it, and only then does it matter whether a match comes of
it. -/
lemma named {name : String}
    (hinner : Steady Any (Phrase.expr .comparison).language (n - 1) inner inner')
    (hn : n ≤ bound) (hbound : bound ≤ bound') :
    Steady (· = .ident name) Phrase.primary.language n
      (do if ← isSecond (.symbol .bang) then Grammar.matchUse inner bound
          else return .ident (← Parse.next).span name)
      (do if ← isSecond (.symbol .bang) then Grammar.matchUse inner' bound'
          else return .ident (← Parse.next).span name) := by
  obtain ⟨rest, rest', hrest, hrest', hsteady⟩ := matchUse hinner hn hbound
  have hsame : ∀ (use : Parse Expr) (rest : Ident → Parse Expr),
      use = Parse.within .matchUse (Parse.ident >>= rest) → ∀ c : Cursor, c.kind = .ident name →
        (do if ← isSecond (.symbol .bang) then use
            else return Expr.ident (← Parse.next).span name : Parse Expr) c =
          (do let i ← Parse.ident
              if ← isNext (.symbol .bang) then Parse.within .matchUse (rest i)
              else return Expr.ident i.span name : Parse Expr) c := by
    rintro use rest rfl c hc
    have hident : Parse.ident c = (.ok ⟨name, c.span⟩, c.advance.2) := by
      simp only [Parse.ident, Cursor.expectIdent, hc]
    rw [bind_of_ok _ hident]
    have hpeek : (c.peek 1).kind = .symbol .bang ↔ c.advance.2.kind = .symbol .bang :=
      Cursor.kind_peek hc (by simp) (by simp) (by simp)
    by_cases hbang : c.advance.2.kind = .symbol .bang
    · have hsecond : isSecond (.symbol .bang) c = (.ok true, c) := by
        simp [isSecond, Parse.see, hpeek.mpr hbang]
      have hnext : isNext (.symbol .bang) c.advance.2 = (.ok true, c.advance.2) := by
        simp [isNext, Parse.see, Cursor.check, hbang]
      rw [bind_of_ok _ hsecond, bind_of_ok _ hnext]
      simp only [if_true]
      rw [within_eq, within_eq, bind_of_ok _ hident]
    · have hsecond : isSecond (.symbol .bang) c = (.ok false, c) := by
        simp [isSecond, Parse.see, mt hpeek.mp hbang]
      have hnext : isNext (.symbol .bang) c.advance.2 = (.ok false, c.advance.2) := by
        simp [isNext, Parse.see, Cursor.check, hbang]
      rw [bind_of_ok _ hsecond, bind_of_ok _ hnext]
      rfl
  refine congr (widen (bindTo {ts | ∀ name, .ident name :: ts ∈ Phrase.primary.language} ident
    fun i => ifNext ?_ ?_) (mul_le_of ?_)) (hsame _ rest hrest) (hsame _ rest' hrest')
  · exact (hsteady i).within _
  · exact pure fun name => (Derives.name name).mem
  · rintro _ ⟨_, ⟨name⟩⟩ ts hts
    exact hts name

lemma primary (hinner : Steady Any (Phrase.expr .comparison).language (n - 1) inner inner')
    (hn : n ≤ bound) (hbound : bound ≤ bound') :
    Steady Any Phrase.primary.language n (primary inner bound) (Grammar.primary inner' bound') := by
  -- tokens that are trees by themselves
  have hleaf : ∀ {k : Kind} (g : Span → Expr), k ≠ .eof → [k] ∈ Phrase.primary.language →
      Steady (· = k) Phrase.primary.language n (do return g (← Parse.next).span)
        (do return g (← Parse.next).span) := fun g hk hmem =>
    widen ((next hk).done fun _ => pure rfl) fun _ h => h ▸ hmem
  refine see (·.kind) (fun _ => rfl) fun t _ => ?_
  split
  · next v ht => exact ht ▸ hleaf (.int · v) (by simp) (Derives.int v).mem
  · next text ht => exact ht ▸ hleaf (.str · text) (by simp) (Derives.str text).mem
  · next ht => exact ht ▸ hleaf (.bool · true) (by simp) Derives.boolTrue.mem
  · next ht => exact ht ▸ hleaf (.bool · false) (by simp) Derives.boolFalse.mem
  · next ht =>
    rw [ht]
    refine widen ((next (by simp)).andThen fun _ => parenthesized hinner _) (mul_le_of ?_)
    rintro _ rfl ts hts
    exact hts
  · refine widen (block hinner hn hbound) ?_
    rintro ts ⟨e, he⟩
    exact (Derives.primaryBlock he).mem
  · refine widen (conditional hn hbound hn hbound hinner).atAny ?_
    rintro ts ⟨e, he⟩
    exact (Derives.primaryIf he).mem
  · next name ht =>
    rw [ht]
    exact named hinner hn hbound
  · exact within (failHere ⟨_, (Derives.int 0).mem⟩) _

lemma operand (hinner : Steady Any (Phrase.expr .comparison).language (n - 1) inner inner')
    (hn : n ≤ bound) (hbound : bound ≤ bound') :
    Steady Any (Phrase.expr .unary).language n (operand inner bound)
      (Grammar.operand inner' bound') := by
  refine signed hn hbound (widen ((primary hinner hn hbound).bind fun f =>
    calls f hn hbound hn hbound hinner) (mul_le_of ?_))
  rintro ts ⟨f, hf⟩ us hus
  obtain ⟨e, he⟩ := hus f
  exact (Derives.applied hf he).mem

/-- Expressions of a depth, and the same expressions where more depth is allowed. -/
theorem exprAt : ∀ {depth depth' : Nat}, depth ≤ depth' →
    Steady Any (Phrase.expr .comparison).language depth (exprAt depth) (Grammar.exprAt depth')
  | 0, _, _ => by
    have hfault : Steady Any (Phrase.expr .comparison).language 0 (Grammar.exprAt 0)
        (Grammar.exprAt 0) := within (failHere (by
      obtain ⟨ts, c, hc⟩ := conditional_inhabited
      exact ⟨_, (Derives.level rfl (.level rfl (.level rfl (.applied (.primaryIf hc) (.callsNil _))
        (.operationsNil _ _)) (.operationsNil _ _)) (.operationsNil _ _)).mem⟩)) _
    exact hfault.zero
  | depth + 1, depth', hdepth => by
    obtain ⟨depth', rfl⟩ : ∃ m, depth' = m + 1 := ⟨depth' - 1, by omega⟩
    have hoperand : Steady Any (Phrase.expr .unary).language (depth + 1)
        (Grammar.operand (Grammar.exprAt depth) (depth + 1))
        (Grammar.operand (Grammar.exprAt depth') (depth' + 1)) :=
      operand (exprAt (Nat.le_of_succ_le_succ hdepth)) (le_refl _) hdepth
    exact level (l := .comparison) rfl (le_refl _) hdepth <| level (l := .sum) rfl (le_refl _)
      hdepth <| level (l := .product) rfl (le_refl _) hdepth hoperand

theorem expr : Steady Any (Phrase.expr .comparison).language n expr Grammar.expr := by
  refine ⟨fun k => (exprAt (le_refl 0)).inhabited k, fun c hc => ?_,
    fun ts t us us' s s' hk _ hlen => ?_⟩
  · exact (exprAt (le_refl c.rest.length)).speaks c hc
  · have hdepth : (ts ++ t :: us).length ≤ (ts ++ t :: us').length := by
      simp only [List.length_append, List.length_cons]
      omega
    refine (exprAt hdepth).looks ts t us us' s s' hk ?_ hlen
    simp only [List.length_append, List.length_cons]
    omega

end Steady

section Modules

instance : Nonempty Variant.FieldSpec := ⟨⟨⟨"", .none⟩, []⟩⟩

instance : Nonempty Variant.CaseSpec := ⟨⟨⟨"", .none⟩, [], [], .none⟩⟩

instance : Nonempty Variant.Spec := ⟨⟨⟨"", .none⟩, [], [], .none⟩⟩

instance : Nonempty Function := ⟨⟨⟨"", .none⟩, [], .unit .none, .none⟩⟩

lemma takeAttributes_append (previous : Span) (ts : List Token) :
    ∃ us, ts = us ++ (takeAttributes previous ts).2.rest ∧
      us.map (·.kind) ∈ Phrase.attributes.language := by
  induction ts generalizing previous with
  | nil => exact ⟨[], rfl, Derives.attributesNil.mem⟩
  | cons t ts ih =>
    obtain ⟨kind, span⟩ := t
    cases kind with
    | attr text =>
      obtain ⟨us, hus, as, has⟩ := ih span
      exact ⟨⟨.attr text, span⟩ :: us, congrArg _ hus, (Derives.attributesCons text has).mem⟩
    | _ => exact ⟨[], rfl, Derives.attributesNil.mem⟩

/-- What the attributes are does not depend on the tokens behind the one that ends them. -/
lemma takeAttributes_looks {ts us : List Token} {t : Token} (s s' : Span) (us' : List Token)
    (h : (takeAttributes s (ts ++ t :: us)).2.rest = t :: us) :
    (takeAttributes s' (ts ++ t :: us')).1 = (takeAttributes s (ts ++ t :: us)).1 ∧
      (takeAttributes s' (ts ++ t :: us')).2.rest = t :: us' := by
  induction ts generalizing s s' with
  | nil =>
    obtain ⟨kind, span⟩ := t
    cases kind with
    | attr text =>
      have hsuffix := (rest_takeAttributes span us).length_le
      have hlen : ((takeAttributes span us).2.rest).length = us.length + 1 := congrArg List.length h
      omega
    | _ => exact ⟨rfl, rfl⟩
  | cons x ts ih =>
    obtain ⟨kind, span⟩ := x
    cases kind with
    | attr text =>
      obtain ⟨hsame, hrest⟩ := ih span span h
      exact ⟨congrArg (List.cons (⟨text, span⟩ : Attribute)) hsame, hrest⟩
    | _ =>
      have hlen := congrArg List.length h
      simp [takeAttributes] at hlen
      omega

namespace Steady

variable {P : Kind → Prop} {n bound bound' : Nat}

lemma attributes : Steady P Phrase.attributes.language n attributes Grammar.attributes := by
  refine ⟨fun _ _ => ⟨_, Derives.attributesNil.mem⟩,
    fun c _ => takeAttributes_append c.previous c.rest, fun ts t us us' s s' _ _ _ hrest => ?_⟩
  obtain ⟨hsame, hrest'⟩ := takeAttributes_looks s s' us' hrest
  exact ⟨congrArg Except.ok hsame, hrest'⟩

lemma field : Steady P Phrase.field.language n field Grammar.field := by
  refine widen (attributes.bind fun as => (ident.within .case).done fun _ => pure rfl)
    (mul_le_of ?_)
  rintro ts ⟨as, has⟩ us ⟨i, hi⟩
  exact (Derives.field has hi).mem

lemma caseSpec (hn : n ≤ bound) (hbound : bound ≤ bound') :
    Steady P Phrase.case.language n (caseSpec bound) (Grammar.caseSpec bound') := by
  refine widen (attributes.bind fun as => (ident.within .case).bind fun label => ifNext
    (L := {[.symbol .leftParen]} * ((Phrase.listOf .comma .field).language *
      {[.symbol .rightParen]}) + 1) ?_ ?_) (mul_le_of ?_)
  · exact widen (sign.bind fun opened => (closedList .comma .rightParen opened hn hbound
      field).done fun _ => pure rfl) fun _ h => .inl h
  · exact (pure (.inr rfl)).done fun _ => pure rfl
  · rintro ts ⟨as, has⟩ _ ⟨us, ⟨i, hi⟩, _, ⟨_, rfl, _, ⟨vs, ⟨fs, hfs⟩, _, rfl, rfl⟩, rfl⟩ | rfl,
      rfl⟩
    · have hmem := (Derives.caseFields has hi hfs).mem
      simpa using hmem
    · have hmem := (Derives.caseBare has hi).mem
      simpa using hmem

lemma variantSpec (options : List Attribute) (hn : n ≤ bound) (hbound : bound ≤ bound') :
    Steady P Phrase.item.language n (variantSpec options bound)
      (Grammar.variantSpec options bound') := by
  refine within (see (·.span) (fun _ => rfl) fun t _ => ?_) _
  refine widen (keyword.bind fun _ => ident.bind fun i => sign.bind fun opened =>
    (closedList .comma .rightBrace opened hn hbound (caseSpec hn hbound)).done fun _ => pure rfl)
    (mul_le_of ?_)
  rintro _ rfl _ ⟨us, ⟨i, hi⟩, _, ⟨_, rfl, _, ⟨vs, ⟨cs, hcs⟩, _, rfl, rfl⟩, rfl⟩, rfl⟩
  have hmem := (Derives.variant .attributesNil hi hcs).mem
  simpa using hmem

lemma function (hn : n ≤ bound) (hbound : bound ≤ bound') :
    Steady P Phrase.item.language n (function bound) (Grammar.function bound') := by
  refine within (widen (keyword.bind fun _ => ident.bind fun i => sign.bind fun opened =>
    (closedList .comma .rightParen opened hn hbound ident).bind fun _ => sign.bind fun _ =>
      expr.done fun _ => pure rfl) (mul_le_of ?_)) _
  rintro _ rfl _ ⟨ts, ⟨i, hi⟩, _, ⟨_, rfl, _, ⟨_, ⟨us, ⟨ps, hps⟩, _, rfl, rfl⟩, _, ⟨_, rfl, vs,
    ⟨e, he⟩, rfl⟩, rfl⟩, rfl⟩, rfl⟩
  have hmem := (Derives.function hi hps he).mem
  simpa using hmem

/-- An item that has no attributes in front of it. -/
def bareItem (bound : Nat) : Parse Item := do
  match ← kind with
  | .keyword .variant => return .variant (← Grammar.variantSpec [] bound)
  | .keyword .fn => return .function (← Grammar.function bound)
  | _ => Parse.failHere (.unexpected "`variant` or `fn`")

lemma item_eq_bareItem {c : Cursor} (hc : ∀ text, c.kind ≠ .attr text) (bound : Nat) :
    Grammar.item bound c = bareItem bound c := by
  have hattributes : Grammar.attributes c = (.ok [], c) := by
    obtain ⟨rest, previous⟩ := c
    cases rest with
    | nil => rfl
    | cons t ts =>
      obtain ⟨k, span⟩ := t
      cases k with
      | attr text => exact absurd rfl (hc text)
      | _ => rfl
  exact bind_of_ok _ hattributes

/-- Items without attributes. -/
theorem item (hn : n ≤ bound) (hbound : bound ≤ bound') :
    Steady (fun k => ∀ text, k ≠ .attr text) Phrase.item.language n (item bound)
      (Grammar.item bound') := by
  refine congr ?_ (fun c hc => item_eq_bareItem hc bound) (fun c hc => item_eq_bareItem hc bound')
  have hleast : ∃ ts, ts ∈ Phrase.item.language :=
    ⟨_, (Derives.variant .attributesNil (.ident "") (.listNil .comma .case)).mem⟩
  refine see (·.kind) (fun _ => rfl) fun t _ => ?_
  split
  · exact (variantSpec [] hn hbound).done fun _ => pure rfl
  · exact (function hn hbound).done fun _ => pure rfl
  · exact failHere hleast

end Steady

end Modules

end ClosedSum.Grammar
