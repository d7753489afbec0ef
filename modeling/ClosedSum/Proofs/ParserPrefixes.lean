import ClosedSum.Proofs.ParserProgress
import Mathlib.Computability.Language
import Mathlib.Order.CompletePartialOrder

/-!
# Prefixes and lookahead

A parser that fails has read the beginning of something that derives from its phrase, and whatever
it comes to depends on the tokens that it has read and on the one behind them. Both go through the
ways in which parsers are put together, so they are proved at once: `Steady` says them of a parser,
and of the same parser with larger bounds.
-/

namespace ClosedSum.Grammar

open Surface Parse
open Token (Kind)

namespace Parse

variable {α β : Type} {p : Parse α} {c c' : Cursor} {a : α} {e : Fault}

lemma bind_of_ok (f : α → Parse β) (h : p c = (.ok a, c')) : (p >>= f) c = f a c' := by
  change Parse.bind p f c = _
  rw [Parse.bind, h]

lemma bind_of_error (f : α → Parse β) (h : p c = (.error e, c')) :
    (p >>= f) c = (.error e, c') := by
  change Parse.bind p f c = _
  rw [Parse.bind, h]

lemma within_eq (context : Context) (p : Parse α) (c : Cursor) :
    within context p c = ((p c).1.mapError (·.within context), (p c).2) := by
  unfold within
  split
  · next h => rw [h]; rfl
  · next h =>
    cases hpc : p c with
    | mk r c' =>
      cases r with
      | error e => exact absurd hpc (h e c')
      | ok a => rfl

end Parse

/-- The token lists that derive from a phrase. -/
def Phrase.language (p : Phrase) : Language Kind := {ts | ∃ a, Derives p ts a}

lemma Derives.mem {p : Phrase} {ts : List Kind} {a : p.Tree} (h : Derives p ts a) :
    ts ∈ p.language := ⟨a, h⟩

/-- What was read, seen from a result: a member of a language, or the beginning of one where there
is a fault. -/
def Spoken {α : Type} (L : Language Kind) (ks : List Kind) : Except Fault α → Prop
  | .ok _ => ks ∈ L
  | .error _ => ∃ us, ks ++ us ∈ L

lemma Spoken.mono {α : Type} {L L' : Language Kind} {ks : List Kind} {r : Except Fault α}
    (h : Spoken L ks r) (hL : L ≤ L') : Spoken L' ks r := by
  cases r with
  | ok a => exact hL h
  | error e =>
    obtain ⟨us, hus⟩ := h
    exact ⟨us, hL hus⟩

lemma Spoken.append {α : Type} {L L' : Language Kind} {ks ks' : List Kind} {r : Except Fault α}
    (h : Spoken L' ks' r) (hks : ks ∈ L) : Spoken (L * L') (ks ++ ks') r := by
  cases r with
  | ok a => exact Language.append_mem_mul hks h
  | error e =>
    obtain ⟨us, hus⟩ := h
    refine ⟨us, ?_⟩
    rw [List.append_assoc]
    exact Language.append_mem_mul hks hus

/-- The beginning of a member is that of a longer one. -/
lemma Spoken.mul {α β : Type} {L L' : Language Kind} {ks : List Kind} {e : Fault}
    (h : Spoken L ks (.error e : Except Fault α)) (hL' : ∃ vs, vs ∈ L') :
    Spoken (L * L') ks (.error e : Except Fault β) := by
  obtain ⟨us, hus⟩ := h
  obtain ⟨vs, hvs⟩ := hL'
  refine ⟨us ++ vs, ?_⟩
  rw [← List.append_assoc]
  exact Language.append_mem_mul hus hvs

/-- Where the next token has a property, `p` reads a member of a language, or the beginning of one
if it fails. If it reads fewer than `n` tokens, then `p'` does the same wherever these tokens are
followed by the same token and by no fewer others. -/
structure Steady {α : Type} (P : Kind → Prop) (L : Language Kind) (n : Nat) (p p' : Parse α) :
    Prop where
  inhabited : ∀ k, P k → ∃ us, us ∈ L
  speaks : ∀ c, P c.kind → ∃ ts, c.rest = ts ++ (p c).2.rest ∧
    Spoken L (ts.map (·.kind)) (p c).1
  looks : ∀ ts t us us' s s', P (Cursor.kind ⟨ts ++ t :: us, s⟩) → ts.length < n →
    us.length ≤ us'.length → (p ⟨ts ++ t :: us, s⟩).2.rest = t :: us →
      (p' ⟨ts ++ t :: us', s'⟩).1 = (p ⟨ts ++ t :: us, s⟩).1 ∧
        (p' ⟨ts ++ t :: us', s'⟩).2.rest = t :: us'

/-- Nothing is said of the next token. -/
def Any : Kind → Prop := fun _ => True

namespace Steady

variable {α β : Type} {P : Kind → Prop} {L L₁ L₂ : Language Kind} {n m : Nat} {p p' : Parse α}
  {f f' : α → Parse β}

/-- The tokens that are read and the one behind them tell which token is next. -/
lemma current_append (ts us us' : List Token) (t : Token) (s s' : Span) :
    Cursor.current ⟨ts ++ t :: us', s'⟩ = Cursor.current ⟨ts ++ t :: us, s⟩ := by
  cases ts <;> rfl

lemma mono (h : Steady P L n p p') (hL : L ≤ L₁) (hm : m ≤ n) {Q : Kind → Prop}
    (hQ : ∀ k, Q k → P k) : Steady Q L₁ m p p' := by
  refine ⟨fun k hk => ?_, fun c hc => ?_, fun ts t us us' s s' hk hlen => ?_⟩
  · obtain ⟨us, hus⟩ := h.inhabited k (hQ k hk)
    exact ⟨us, hL hus⟩
  · obtain ⟨ts, hts, hspoken⟩ := h.speaks c (hQ _ hc)
    exact ⟨ts, hts, hspoken.mono hL⟩
  · exact h.looks ts t us us' s s' (hQ _ hk) (by omega)

lemma weaken (h : Steady P L n p p') (hm : m ≤ n) : Steady P L m p p' :=
  h.mono (le_refl L) hm fun _ hk => hk

lemma widen (h : Steady P L n p p') (hL : L ≤ L₁) : Steady P L₁ n p p' :=
  h.mono hL (le_refl n) fun _ hk => hk

lemma atAny (h : Steady Any L n p p') : Steady P L n p p' :=
  h.mono (le_refl L) (le_refl n) fun _ _ => trivial

/-- Where no token may be read, nothing is asked of the other parser. -/
lemma zero {q : Parse α} (h : Steady P L 0 p p') : Steady P L 0 p q :=
  ⟨h.inhabited, h.speaks, fun _ _ _ _ _ _ _ hlen => absurd hlen (Nat.not_lt_zero _)⟩

/-- Only what the parsers do before such tokens counts. -/
lemma congr {q q' : Parse α} (h : Steady P L n q q') (hp : ∀ c, P c.kind → p c = q c)
    (hp' : ∀ c, P c.kind → p' c = q' c) : Steady P L n p p' := by
  refine ⟨h.inhabited, fun c hc => ?_, fun ts t us us' s s' hk hlen hlen' hrest => ?_⟩
  · rw [hp c hc]
    exact h.speaks c hc
  · have hk' : P (Cursor.kind ⟨ts ++ t :: us', s'⟩) := by
      rwa [Cursor.kind, current_append ts us us' t s s']
    rw [hp _ hk] at hrest ⊢
    rw [hp' _ hk']
    exact h.looks ts t us us' s s' hk hlen hlen' hrest

/-- A parser that stays where it is, and knows no more than the next token. -/
lemma still (result : Token → Except Fault α) (hp : ∀ c, p c = (result c.current, c))
    (h : ∀ t, Spoken L [] (result t)) : Steady P L n p p := by
  refine ⟨fun k _ => ?_, fun c _ => ⟨[], ?_, ?_⟩, fun ts t us us' s s' _ _ _ hrest => ?_⟩
  · have hspoken := h ⟨k, .none⟩
    cases hresult : result ⟨k, .none⟩ with
    | ok a =>
      rw [hresult] at hspoken
      exact ⟨[], hspoken⟩
    | error e =>
      rw [hresult] at hspoken
      exact hspoken
  · rw [hp]
    rfl
  · rw [hp]
    exact h c.current
  · rw [hp] at hrest ⊢
    have hts : ts ++ t :: us = t :: us := hrest
    obtain rfl : ts = [] := List.append_left_eq_self.mp hts
    rw [hp]
    exact ⟨rfl, rfl⟩

lemma pure {a : α} (h : [] ∈ L) : Steady P L n (Pure.pure a) (Pure.pure a) :=
  still (fun _ => .ok a) (fun _ => rfl) fun _ => h

lemma failHere {cause : Kind → Cause} (h : ∃ us, us ∈ L) :
    Steady P L n (failHere cause : Parse α) (Parse.failHere cause) :=
  still (fun t => .error ⟨cause t.kind, t.span, none⟩) (fun _ => rfl) fun _ => h

/-- A parser that reads the next token or stays before it, by what this token is. -/
lemma token (result : Token → Except Fault α)
    (hp : ∀ c, p c = (result c.current, if (result c.current).isOk then c.advance.2 else c))
    (hne : ∀ k, P k → ∃ us, us ∈ L)
    (hL : ∀ t, P t.kind → (result t).isOk = true → t.kind ≠ .eof ∧ [t.kind] ∈ L) :
    Steady P L n p p := by
  have hstep : ∀ t us s, t.kind ≠ .eof → (Cursor.advance ⟨t :: us, s⟩).2.rest = us := by
    intro t us s ht
    have hend : Cursor.atEnd ⟨t :: us, s⟩ = false := by
      simpa [Cursor.atEnd, Cursor.kind, Cursor.current] using ht
    simp [Cursor.advance, hend]
  refine ⟨hne, fun c hc => ?_, fun ts t us us' s s' hk _ _ hrest => ?_⟩
  · rw [hp]
    by_cases hok : (result c.current).isOk = true
    · obtain ⟨heof, hmem⟩ := hL c.current hc hok
      obtain ⟨rest, previous⟩ := c
      cases rest with
      | nil => exact absurd rfl heof
      | cons t us =>
        refine ⟨[t], ?_, ?_⟩
        · rw [if_pos hok, hstep t us previous heof]
          rfl
        · change Spoken L [t.kind] (result t)
          change (result t).isOk = true at hok
          generalize result t = r at hok
          cases r with
          | error e => cases hok
          | ok a => exact hmem
    · refine ⟨[], by rw [if_neg hok]; rfl, ?_⟩
      generalize result c.current = r at hok
      cases r with
      | ok a => exact absurd rfl hok
      | error e => exact hne _ hc
  · rw [hp] at hrest
    rw [hp, hp, current_append ts us us' t s s']
    refine ⟨rfl, ?_⟩
    by_cases hok : (result (Cursor.current ⟨ts ++ t :: us, s⟩)).isOk = true
    · obtain ⟨heof, -⟩ := hL _ hk hok
      rw [if_pos hok] at hrest ⊢
      cases ts with
      | nil =>
        rw [List.nil_append, hstep t us s heof] at hrest
        have hlen := congrArg List.length hrest
        simp at hlen
      | cons x ts =>
        rw [List.cons_append, hstep x (ts ++ t :: us) s heof] at hrest
        obtain rfl : ts = [] := List.append_left_eq_self.mp hrest
        exact hstep x _ s' heof
    · rw [if_neg hok] at hrest ⊢
      have hts : ts ++ t :: us = t :: us := hrest
      obtain rfl : ts = [] := List.append_left_eq_self.mp hts
      rfl

lemma expect {k : Kind} (hk : k ≠ .eof) : Steady P {[k]} n (expect k) (Parse.expect k) := by
  refine token (fun t => if t.kind = k then .ok t.span
    else .error ⟨.unexpected k.describe t.kind, t.span, none⟩) (fun c => ?_)
    (fun _ _ => ⟨[k], rfl⟩) fun t _ hok => ?_
  · by_cases h : c.current.kind = k
    · have hcheck : c.check k = true := decide_eq_true h
      simp only [Parse.expect, Cursor.expect, hcheck, if_true, h]
      rfl
    · have hcheck : c.check k = false := decide_eq_false h
      simp only [Parse.expect, Cursor.expect, hcheck, h, if_false]
      rfl
  · by_cases h : t.kind = k
    · exact ⟨h ▸ hk, congrArg ([·]) h⟩
    · rw [if_neg h] at hok
      cases hok

lemma sign {s : Token.Symbol} : Steady P {[.symbol s]} n (sign s) (Parse.sign s) :=
  expect (by simp)

lemma keyword {w : Token.Keyword} : Steady P {[.keyword w]} n (keyword w) (Parse.keyword w) :=
  expect (by simp)

lemma next {k : Kind} (hk : k ≠ .eof) : Steady (· = k) {[k]} n next Parse.next := by
  refine token (fun t => .ok t) (fun _ => rfl) (fun _ _ => ⟨[k], rfl⟩) fun t ht _ => ?_
  exact ⟨ht ▸ hk, congrArg ([·]) ht⟩

/-- What a token comes to where a name is expected. -/
def name? (t : Token) : Except Fault Ident :=
  match t.kind with
  | .ident name => .ok ⟨name, t.span⟩
  | found => .error ⟨.noIdentifier found, t.span, none⟩

lemma ident : Steady P Phrase.ident.language n ident Parse.ident := by
  refine token name? (fun c => ?_) (fun _ _ => ⟨[.ident ""], (Derives.ident "").mem⟩)
    fun t _ hok => ?_
  · unfold Parse.ident Cursor.expectIdent Cursor.kind Cursor.span name?
    cases c.current.kind <;> rfl
  · unfold name? at hok
    split at hok
    · next name hkind =>
      rw [hkind]
      exact ⟨by simp, (Derives.ident name).mem⟩
    · cases hok

/-- After a look at the next token, its kind is known. -/
lemma see {γ : Type} {look : Cursor → γ} (g : Token → γ) (hlook : ∀ c, look c = g c.current)
    {f f' : γ → Parse β}
    (h : ∀ t : Token, P t.kind → Steady (· = t.kind) L n (f (g t)) (f' (g t))) :
    Steady P L n (see look >>= f) (Parse.see look >>= f') := by
  have hrun : ∀ (f : γ → Parse β) c, (Parse.see look >>= f) c = f (g c.current) c := fun f c => by
    rw [← hlook]
    rfl
  refine ⟨fun k hk => (h ⟨k, .none⟩ hk).inhabited k rfl, fun c hc => ?_,
    fun ts t us us' s s' hk hlen hlen' hrest => ?_⟩
  · rw [hrun]
    exact (h c.current hc).speaks c rfl
  · rw [hrun] at hrest
    rw [hrun, hrun, current_append ts us us' t s s']
    exact (h _ hk).looks ts t us us' s s' rfl hlen hlen' hrest

section Bind

variable {ts ws us us' : List Token} {t : Token} {s s' : Span}

lemma inhabited_bind (hp : Steady P L₁ n p p') (hL₂ : ∃ vs, vs ∈ L₂) (k : Kind) (hk : P k) :
    ∃ us, us ∈ L₁ * L₂ := by
  obtain ⟨us, hus⟩ := hp.inhabited k hk
  obtain ⟨vs, hvs⟩ := hL₂
  exact ⟨us ++ vs, Language.append_mem_mul hus hvs⟩

lemma speaks_bind (hp : Steady P L₁ n p p') (hL₂ : ∃ vs, vs ∈ L₂)
    (hf : ∀ a, Steady Any L₂ m (f a) (f' a)) (c : Cursor) (hc : P c.kind) :
    ∃ ts, c.rest = ts ++ ((p >>= f) c).2.rest ∧
      Spoken (L₁ * L₂) (ts.map (·.kind)) ((p >>= f) c).1 := by
  obtain ⟨ts, hts, hspoken⟩ := hp.speaks c hc
  cases hpc : p c with
  | mk r c' =>
    rw [hpc] at hts hspoken
    cases r with
    | error e =>
      rw [bind_of_error f hpc]
      exact ⟨ts, hts, hspoken.mul hL₂⟩
    | ok a =>
      rw [bind_of_ok f hpc]
      obtain ⟨vs, hvs, hspoken'⟩ := (hf a).speaks c' trivial
      refine ⟨ts ++ vs, by rw [hts, List.append_assoc, ← hvs], ?_⟩
      rw [List.map_append]
      exact hspoken'.append hspoken

/-- Besides the tokens that it has read, a parser sees no more than the next, also where it leaves
several before the ones that may differ. -/
lemma looks_append (h : Steady P L n p p') (s' : Span)
    (hk : P (Cursor.kind ⟨ts ++ (ws ++ t :: us), s⟩)) (hlen : ts.length < n)
    (hlen' : us.length ≤ us'.length)
    (hrest : (p ⟨ts ++ (ws ++ t :: us), s⟩).2.rest = ws ++ t :: us) :
    (p' ⟨ts ++ (ws ++ t :: us'), s'⟩).1 = (p ⟨ts ++ (ws ++ t :: us), s⟩).1 ∧
      (p' ⟨ts ++ (ws ++ t :: us'), s'⟩).2.rest = ws ++ t :: us' := by
  cases ws with
  | nil => exact h.looks ts t us us' s s' hk hlen hlen' hrest
  | cons w ws =>
    refine h.looks ts w (ws ++ t :: us) (ws ++ t :: us') s s' hk hlen ?_ hrest
    simpa using hlen'

/-- A fault of the first parser is one of both, whatever the second is. -/
lemma looks_bind_of_error (hp : Steady P L₁ n p p')
    (hk : P (Cursor.kind ⟨ts ++ t :: us, s⟩)) (hlen : ts.length < n)
    (hlen' : us.length ≤ us'.length) {e : Fault} {c : Cursor}
    (hpc : p ⟨ts ++ t :: us, s⟩ = (.error e, c)) (hrest : c.rest = t :: us) :
    ((p' >>= f') ⟨ts ++ t :: us', s'⟩).1 = .error e ∧
      ((p' >>= f') ⟨ts ++ t :: us', s'⟩).2.rest = t :: us' := by
  have hlooks := hp.looks ts t us us' s s' hk hlen hlen'
  rw [hpc] at hlooks
  obtain ⟨hsame, hrest'⟩ := hlooks hrest
  cases hpc' : p' ⟨ts ++ t :: us', s'⟩ with
  | mk r c' =>
    rw [hpc'] at hsame hrest'
    obtain rfl : r = .error e := hsame
    rw [bind_of_error f' hpc']
    exact ⟨rfl, hrest'⟩

/-- Where the first parser has read `ts`, the second goes on from the same tokens on both sides. -/
lemma looks_bind_of_ok (hp : Steady P L₁ n p p') (hf : ∀ a, Steady Any L₂ m (f a) (f' a))
    (hk : P (Cursor.kind ⟨ts ++ (ws ++ t :: us), s⟩)) (hlen : ts.length < n)
    (hws : ws.length < m) (hlen' : us.length ≤ us'.length) {a : α} {c : Cursor}
    (hpc : p ⟨ts ++ (ws ++ t :: us), s⟩ = (.ok a, c)) (hc : c.rest = ws ++ t :: us)
    (hrest : (f a c).2.rest = t :: us) :
    ((p' >>= f') ⟨ts ++ (ws ++ t :: us'), s'⟩).1 = (f a c).1 ∧
      ((p' >>= f') ⟨ts ++ (ws ++ t :: us'), s'⟩).2.rest = t :: us' := by
  have hlooks := hp.looks_append s' hk hlen hlen'
  rw [hpc] at hlooks
  obtain ⟨hsame, hrest'⟩ := hlooks hc
  cases hpc' : p' ⟨ts ++ (ws ++ t :: us'), s'⟩ with
  | mk r c' =>
    rw [hpc'] at hsame hrest'
    obtain rfl : r = .ok a := hsame
    rw [bind_of_ok f' hpc']
    obtain ⟨rest, previous⟩ := c
    obtain ⟨rest', previous'⟩ := c'
    obtain rfl : rest = ws ++ t :: us := hc
    obtain rfl : rest' = ws ++ t :: us' := hrest'
    exact (hf a).looks ws t us us' previous previous' trivial hws hlen' hrest

lemma looks_bind (hp : Steady P L₁ n p p') (hn : ∀ ks ∈ L₁, n ≤ ks.length + m)
    (hf : ∀ a, Steady Any L₂ m (f a) (f' a)) (hk : P (Cursor.kind ⟨ts ++ t :: us, s⟩))
    (hlen : ts.length < n) (hlen' : us.length ≤ us'.length)
    (hrest : ((p >>= f) ⟨ts ++ t :: us, s⟩).2.rest = t :: us) :
    ((p' >>= f') ⟨ts ++ t :: us', s'⟩).1 = ((p >>= f) ⟨ts ++ t :: us, s⟩).1 ∧
      ((p' >>= f') ⟨ts ++ t :: us', s'⟩).2.rest = t :: us' := by
  obtain ⟨vs, hvs, hspoken⟩ := hp.speaks _ hk
  cases hpc : p ⟨ts ++ t :: us, s⟩ with
  | mk r c =>
    rw [hpc] at hvs hspoken
    cases r with
    | error e =>
      rw [bind_of_error f hpc] at hrest ⊢
      exact hp.looks_bind_of_error hk hlen hlen' hpc hrest
    | ok a =>
      rw [bind_of_ok f hpc] at hrest ⊢
      obtain ⟨ws, hws, -⟩ := (hf a).speaks c trivial
      rw [hrest] at hws
      have hts : ts = vs ++ ws := by
        refine List.append_cancel_right (?_ : ts ++ t :: us = vs ++ ws ++ t :: us)
        rw [List.append_assoc, ← hws]
        exact hvs
      have hread := hn _ hspoken
      rw [List.length_map] at hread
      rw [hts, List.append_assoc] at hk hpc ⊢
      rw [hts, List.length_append] at hlen
      exact hp.looks_bind_of_ok hf hk (by omega) (by omega) hlen' hpc hws hrest

end Bind

/-- One after the other. What the second may read is what the first leaves of `n` tokens. -/
lemma bindWith [Nonempty α] (hp : Steady P L₁ n p p') (hn : ∀ ks ∈ L₁, n ≤ ks.length + m)
    (hf : ∀ a, Steady Any L₂ m (f a) (f' a)) :
    Steady P (L₁ * L₂) n (p >>= f) (p' >>= f') := by
  have hL₂ : ∃ vs, vs ∈ L₂ := (hf (Classical.arbitrary α)).inhabited .eof trivial
  exact ⟨hp.inhabited_bind hL₂, hp.speaks_bind hL₂ hf,
    fun _ _ _ _ _ _ hk hlen hlen' hrest => hp.looks_bind hn hf hk hlen hlen' hrest⟩

lemma bind [Nonempty α] (hp : Steady P L₁ n p p') (hf : ∀ a, Steady Any L₂ n (f a) (f' a)) :
    Steady P (L₁ * L₂) n (p >>= f) (p' >>= f') :=
  hp.bindWith (fun _ _ => Nat.le_add_left _ _) hf

/-- The same, where the language of the second is not told by how it is built. -/
lemma bindTo [Nonempty α] (L₂ : Language Kind) (hp : Steady P L₁ n p p')
    (hf : ∀ a, Steady Any L₂ n (f a) (f' a)) : Steady P (L₁ * L₂) n (p >>= f) (p' >>= f') :=
  hp.bind hf

/-- Behind a parser that reads a token, the other may read one token less. -/
lemma andThen [Nonempty α] {k : Kind} (hp : Steady P {[k]} n p p')
    (hf : ∀ a, Steady Any L₂ (n - 1) (f a) (f' a)) :
    Steady P ({[k]} * L₂) n (p >>= f) (p' >>= f') := by
  refine hp.bindWith (fun ks hks => ?_) hf
  obtain rfl : ks = [k] := hks
  simp only [List.length_singleton]
  omega

/-- A parser behind which nothing more is read. -/
lemma done [Nonempty α] (hp : Steady P L n p p') (hf : ∀ a, Steady Any 1 n (f a) (f' a)) :
    Steady P L n (p >>= f) (p' >>= f') := by
  have hbind := hp.bind hf
  rwa [mul_one] at hbind

lemma within (hp : Steady P L n p p') (context : Context) :
    Steady P L n (within context p) (Parse.within context p') := by
  refine ⟨hp.inhabited, fun c hc => ?_, fun ts t us us' s s' hk hlen hlen' hrest => ?_⟩
  · obtain ⟨ts, hts, hspoken⟩ := hp.speaks c hc
    rw [within_eq]
    refine ⟨ts, hts, ?_⟩
    generalize (p c).1 = r at hspoken ⊢
    cases r <;> exact hspoken
  · rw [within_eq] at hrest ⊢
    rw [within_eq]
    obtain ⟨hsame, hrest'⟩ := hp.looks ts t us us' s s' hk hlen hlen' hrest
    exact ⟨congrArg (Except.mapError (·.within context)) hsame, hrest'⟩

/-- Two ways to go on, by whether a given token is next. -/
lemma ifNext {k : Kind} {f f' : Bool → Parse β} (hyes : Steady (· = k) L n (f true) (f' true))
    (hno : Steady Any L n (f false) (f' false)) :
    Steady P L n (isNext k >>= f) (isNext k >>= f') := by
  refine see (fun t => decide (t.kind = k)) (fun _ => rfl) fun t _ => ?_
  by_cases ht : t.kind = k
  · rw [decide_eq_true ht, ht]
    exact hyes
  · rw [decide_eq_false ht]
    exact hno.atAny

lemma ifEat {k : Kind} (hk : k ≠ .eof) {f f' : Bool → Parse β}
    (hyes : Steady Any L₁ (n - 1) (f true) (f' true))
    (hno : Steady Any L₂ n (f false) (f' false)) :
    Steady P ({[k]} * L₁ + L₂) n (eat k >>= f) (eat k >>= f') := by
  have heat : ∀ f : Bool → Parse β, eat k >>= f = isNext k >>= fun b =>
      if b then Parse.next >>= fun _ => f true else f false := by
    intro f
    funext c
    change Parse.bind (eat k) f c = Parse.bind (isNext k) _ c
    simp only [Parse.bind, eat, Cursor.eat, isNext, Parse.see]
    cases c.check k <;> rfl
  rw [heat, heat]
  refine ifNext ?_ ?_
  · exact ((next hk).andThen fun _ => hyes).widen fun _ h => .inl h
  · exact hno.widen fun _ h => .inr h

end Steady

end ClosedSum.Grammar
