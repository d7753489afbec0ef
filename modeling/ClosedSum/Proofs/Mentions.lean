import ClosedSum.Match.Pattern
import ClosedSum.Proofs.Names
import Mathlib.Order.Basic

/-!
# Names that are mentioned

Whether two expressions are alike depends only on what the names that they mention stand for, and
alike expressions mention names that stand for each other. The parameters of two clauses may differ
in which of them are named, which leaves names that stand for nothing.
-/

namespace ClosedSum

/-- The name that a parameter binds. -/
def Match.Param.name? : Match.Param → Option String
  | .named ident => some ident.name
  | .wildcard _ => none

@[simp] lemma Match.Param.name?_named (ident : Ident) : (named ident).name? = some ident.name := rfl

@[simp] lemma Match.Param.name?_wildcard (span : Span) : (wildcard span).name? = none := rfl

namespace Core

open Core.Expr

variable {N M : Names} {a b : String}

namespace Names

/-- Each name that has a property stands for itself. -/
def on (K : String → Prop) : Names := fun a b => a = b ∧ K a

/-- The names under a binder on each side that may name nothing. -/
def bind? (N : Names) (x? y? : Option String) : Names :=
  fun a b => x? = some a ∧ y? = some b ∨ x? ≠ some a ∧ y? ≠ some b ∧ N a b

/-- The names under the parameters of two clauses, the last innermost. -/
def bindParams (N : Names) : List Match.Param → List Match.Param → Names
  | p :: ps, q :: qs => (N.bind? p.name? q.name?).bindParams ps qs
  | _, _ => N

lemma bind_mono {x y : String} (h : a ≠ x → N a b → M a b) : N.bind x y a b → M.bind x y a b := by
  rintro (hab | ⟨ha, hb, hab⟩)
  · exact .inl hab
  · exact .inr ⟨ha, hb, h ha hab⟩

lemma bindAll_mono {xs ys : List String} (hlen : xs.length = ys.length)
    (h : a ∉ xs → N a b → M a b) : N.bindAll xs ys a b → M.bindAll xs ys a b := by
  induction xs generalizing ys N M with
  | nil => simpa [bindAll] using h
  | cons x xs ih =>
    cases ys with
    | nil => cases hlen
    | cons y ys =>
      refine ih (Nat.succ.inj hlen) fun hxs => bind_mono fun hx => h ?_
      simp [hx, hxs]

lemma bind?_mono {x? y? : Option String} (h : x? ≠ some a → N a b → M a b) :
    N.bind? x? y? a b → M.bind? x? y? a b := by
  rintro (hab | ⟨ha, hb, hab⟩)
  · exact .inl hab
  · exact .inr ⟨ha, hb, h ha hab⟩

lemma bindParams_mono {ps qs : List Match.Param} (h : N a b → M a b) :
    N.bindParams ps qs a b → M.bindParams ps qs a b := by
  induction ps generalizing qs N M with
  | nil => simpa [bindParams] using h
  | cons p ps ih =>
    cases qs with
    | nil => exact h
    | cons q qs => exact ih (bind?_mono fun _ => h)

lemma bindParams_append {ps qs : List Match.Param} (hlen : ps.length = qs.length)
    (ps' qs' : List Match.Param) :
    N.bindParams (ps ++ ps') (qs ++ qs') = (N.bindParams ps qs).bindParams ps' qs' := by
  induction ps generalizing qs N with
  | nil =>
    obtain rfl : qs = [] := List.length_eq_zero_iff.mp hlen.symm
    rfl
  | cons p ps ih =>
    cases qs with
    | nil => cases hlen
    | cons q qs => exact ih (Nat.succ.inj hlen)

/-- A name that no binder on the one side binds stands for one that none on the other binds. -/
lemma of_bindAll {xs ys : List String} (hlen : xs.length = ys.length) (ha : a ∉ xs)
    (h : N.bindAll xs ys a b) : b ∉ ys ∧ N a b := by
  induction xs generalizing ys N with
  | nil =>
    obtain rfl : ys = [] := List.length_eq_zero_iff.mp hlen.symm
    exact ⟨List.not_mem_nil, h⟩
  | cons x xs ih =>
    cases ys with
    | nil => cases hlen
    | cons y ys =>
      obtain ⟨hax, haxs⟩ := not_or.mp (List.mem_cons.not.mp ha)
      obtain ⟨hys, ⟨rfl, -⟩ | ⟨-, hby, hab⟩⟩ := ih (Nat.succ.inj hlen) haxs h
      · exact absurd rfl hax
      · exact ⟨by simp [hby, hys], hab⟩

end Names

lemma Test.Alike.mono {t u : Test} (h : t.Alike N u)
    (hNM : ∀ a b, t.mentions a = true → N a b → M a b) : t.Alike M u := by
  cases h with
  | always => exact .always
  | case h => exact .case (hNM _ _ (by simp [Test.mentions]) h)

mutual

/-- Code stays alike for names that agree with the old ones on what it mentions. -/
theorem Expr.Alike.mono : ∀ {N M : Names} {e e' : Expr}, e.Alike N e' →
    (∀ a b, e.mentions a = true → N a b → M a b) → e.Alike M e'
  | _, _, _, _, .lit l, _ => .lit l
  | _, _, _, _, .var h, hNM => .var (hNM _ _ (by simp [mentions]) h)
  | _, _, _, _, .call hf has, hNM =>
    .call (hf.mono fun a b ha => hNM a b (by simp [mentions, ha]))
      (has.mono fun a b ha => hNM a b (by simp [mentions, ha]))
  | _, _, _, _, .lambda hlen he, hNM =>
    .lambda hlen (he.mono fun a b ha => Names.bindAll_mono (by simpa using hlen) fun hps =>
      hNM a b (by simpa [mentions, ha] using hps))
  | _, _, _, _, .letIn hv he, hNM =>
    .letIn (hv.mono fun a b ha => hNM a b (by simp [mentions, ha]))
      (he.mono fun a b ha => Names.bind_mono fun hx => hNM a b (by simp [mentions, ha, hx.symm]))
  | _, _, _, _, .seq h, hNM => .seq (h.mono fun a b ha => hNM a b (by simpa [mentions] using ha))
  | _, _, _, _, .ifElse he hyes hno, hNM =>
    .ifElse (he.mono fun a b ha => hNM a b (by simp [mentions, ha]))
      (hyes.mono fun a b ha => hNM a b (by simp [mentions, ha]))
      (hno.mono fun a b ha => hNM a b (by simp [mentions, ha]))
  | _, _, _, _, .binary op ha hb, hNM =>
    .binary op (ha.mono fun a b ha => hNM a b (by simp [mentions, ha]))
      (hb.mono fun a b ha => hNM a b (by simp [mentions, ha]))
  | _, _, _, _, .dispatch h, hNM =>
    .dispatch (h.mono fun a b ha => hNM a b (by simpa [mentions] using ha))
  | _, _, _, _, .fail variant, _ => .fail variant
  | _, _, _, _, .error, _ => .error

theorem Expr.AlikeAll.mono : ∀ {N M : Names} {es fs : List Expr}, Expr.AlikeAll N es fs →
    (∀ a b, mentionsAny a es = true → N a b → M a b) → Expr.AlikeAll M es fs
  | _, _, _, _, .nil, _ => .nil
  | _, _, _, _, .cons h hs, hNM =>
    .cons (h.mono fun a b ha => hNM a b (by simp [mentionsAny, ha]))
      (hs.mono fun a b ha => hNM a b (by simp [mentionsAny, ha]))

theorem Expr.AlikeBranches.mono : ∀ {N M : Names} {bs cs : List Branch},
    Expr.AlikeBranches N bs cs → (∀ a b, mentionsBranch a bs = true → N a b → M a b) →
      Expr.AlikeBranches M bs cs
  | _, _, _, _, .nil, _ => .nil
  | _, _, _, _, .cons ht h hs, hNM =>
    .cons (ht.mono fun a b ha => hNM a b (by simp [mentionsBranch, ha]))
      (h.mono fun a b ha => hNM a b (by simp [mentionsBranch, ha]))
      (hs.mono fun a b ha => hNM a b (by simp [mentionsBranch, ha]))

end

lemma Test.Alike.mentions_eq_false {t u : Test} (h : t.Alike N u)
    (hN : ∀ b, N a b → u.mentions b = false) : t.mentions a = false := by
  cases h with
  | always => rfl
  | @case x y variant tag p q h =>
    by_contra ha
    obtain rfl : x = a := by simpa [Test.mentions] using ha
    simpa [Test.mentions] using hN y h

mutual

/-- A name is not mentioned if none is that it stands for in code that is alike. -/
theorem Expr.Alike.mentions_eq_false : ∀ {N : Names} {e e' : Expr}, e.Alike N e' →
    ∀ {a : String}, (∀ b, N a b → e'.mentions b = false) → e.mentions a = false
  | _, _, _, .lit l, a, _ => by simp only [mentions]
  | _, _, _, @Expr.Alike.var _ x y h, a, hN => by
    by_contra ha
    obtain rfl : x = a := by simpa [mentions] using ha
    simpa [mentions] using hN y h
  | _, _, _, .call hf has, a, hN => by
    simp only [mentions, Bool.or_eq_false_iff] at hN ⊢
    exact ⟨hf.mentions_eq_false fun b hb => (hN b hb).1,
      has.mentions_eq_false fun b hb => (hN b hb).2⟩
  | _, _, _, @Expr.Alike.lambda _ ps qs _ _ _ hlen he, a, hN => by
    by_cases ha : a ∈ ps.map (·.name)
    · have hany : ps.any (·.name = a) = true := by simpa using ha
      simp [mentions, hany]
    · rw [mentions, he.mentions_eq_false, Bool.and_false]
      intro b hb
      obtain ⟨hqs, hab⟩ := Names.of_bindAll (by simpa using hlen) ha hb
      have hany : qs.any (·.name = b) = false := by simpa using hqs
      simpa [mentions, hany] using hN b hab
  | _, _, _, @Expr.Alike.letIn _ x y _ _ _ _ hv he, a, hN => by
    simp only [mentions, Bool.or_eq_false_iff] at hN ⊢
    refine ⟨hv.mentions_eq_false fun b hb => (hN b hb).1, ?_⟩
    by_cases hx : x = a
    · simp [hx]
    · rw [he.mentions_eq_false, Bool.and_false]
      rintro b (⟨rfl, -⟩ | ⟨-, hy, hab⟩)
      · exact absurd rfl hx
      · simpa [hy.symm] using (hN b hab).2
  | _, _, _, .seq h, a, hN => by
    simp only [mentions] at hN ⊢
    exact h.mentions_eq_false hN
  | _, _, _, .ifElse he hyes hno, a, hN => by
    simp only [mentions, Bool.or_eq_false_iff] at hN ⊢
    exact ⟨⟨he.mentions_eq_false fun b hb => (hN b hb).1.1,
      hyes.mentions_eq_false fun b hb => (hN b hb).1.2⟩,
      hno.mentions_eq_false fun b hb => (hN b hb).2⟩
  | _, _, _, .binary op hl hr, a, hN => by
    simp only [mentions, Bool.or_eq_false_iff] at hN ⊢
    exact ⟨hl.mentions_eq_false fun b hb => (hN b hb).1,
      hr.mentions_eq_false fun b hb => (hN b hb).2⟩
  | _, _, _, .dispatch h, a, hN => by
    simp only [mentions] at hN ⊢
    exact h.mentions_eq_false hN
  | _, _, _, .fail variant, a, _ => by simp only [mentions]
  | _, _, _, .error, a, _ => by simp only [mentions]

theorem Expr.AlikeAll.mentions_eq_false : ∀ {N : Names} {es fs : List Expr},
    Expr.AlikeAll N es fs → ∀ {a : String}, (∀ b, N a b → mentionsAny b fs = false) →
      mentionsAny a es = false
  | _, _, _, .nil, a, _ => by simp only [mentionsAny]
  | _, _, _, .cons h hs, a, hN => by
    simp only [mentionsAny, Bool.or_eq_false_iff] at hN ⊢
    exact ⟨h.mentions_eq_false fun b hb => (hN b hb).1,
      hs.mentions_eq_false fun b hb => (hN b hb).2⟩

theorem Expr.AlikeBranches.mentions_eq_false : ∀ {N : Names} {bs cs : List Branch},
    Expr.AlikeBranches N bs cs → ∀ {a : String}, (∀ b, N a b → mentionsBranch b cs = false) →
      mentionsBranch a bs = false
  | _, _, _, .nil, a, _ => by simp only [mentionsBranch]
  | _, _, _, .cons ht h hs, a, hN => by
    simp only [mentionsBranch, Bool.or_eq_false_iff] at hN ⊢
    exact ⟨⟨ht.mentions_eq_false fun b hb => (hN b hb).1.1,
      h.mentions_eq_false fun b hb => (hN b hb).1.2⟩,
      hs.mentions_eq_false fun b hb => (hN b hb).2⟩

end

end Core

end ClosedSum
