import ClosedSum.Proofs.Run

/-!
# Chains of scopes

A look-up asks a scope, then its parent, and so on. In a store where every scope but that of the
globals has an older one as its parent, this ends at the globals, and what is found is what the
nearest scope of the chain binds. A new scope leaves chains as they are, and so does a new binding,
which is seen on the chains through its scope only.
-/

namespace ClosedSum.Eval.Store

/-- The scope that a scope is inside. -/
def parent? (s : Store) (scope : Nat) : Option Nat := s.scopes[scope]?.bind (·.parent?)

/-- What a scope itself binds a name to. -/
def bound? (s : Store) (scope : Nat) (name : String) : Option Value :=
  s.scopes[scope]?.bind (·.bindings.lookup name)

/-- A scope with its parent, the parent of that and so on, wherever this leads. -/
inductive Chain (s : Store) : Nat → List Nat → Prop
  | last {i : Nat} (hi : i < s.size) (h : s.parent? i = none) : Chain s i [i]
  | inside {i p : Nat} {is : List Nat} (h : s.parent? i = some p) (hrest : Chain s p is) :
    Chain s i (i :: is)

/-- Every scope but that of the globals has a parent that is older. -/
structure Rooted (s : Store) : Prop where
  global_lt : global < s.size
  parent?_global : s.parent? global = none
  parent_lt : ∀ i < s.size, i ≠ global → ∃ p < i, s.parent? i = some p

/-- Scopes each of which is inside the next one, and the last of them inside a base, if any. -/
inductive Stacked (s : Store) (base? : Option Nat) : List Nat → Prop
  | bottom {i : Nat} (hi : i < s.size) (h : s.parent? i = base?) : Stacked s base? [i]
  | above {i j : Nat} {is : List Nat} (h : s.parent? i = some j)
    (hrest : Stacked s base? (j :: is)) : Stacked s base? (i :: j :: is)

/-- A store that has the scopes of another with the same parents. -/
structure KeepsParents (s s' : Store) : Prop where
  size_le : s.size ≤ s'.size
  parent? : ∀ i < s.size, s'.parent? i = s.parent? i

variable {s s' : Store} {i p : Nat} {is : List Nat}

lemma lt_size_of_parent? (h : s.parent? i = some p) : i < s.size := by
  by_contra hi
  have hnone : s.scopes[i]? = none := Array.getElem?_eq_none (Nat.le_of_not_lt hi)
  rw [Store.parent?, hnone] at h
  cases h

/-- A look-up goes on to the parent. -/
lemma lookup?_eq (s : Store) (i : Nat) (x : String) :
    s.lookup? i x = (s.bound? i x).or ((s.parent? i).bind fun p =>
      if p < i then s.lookup? p x else none) := by
  rw [lookup?, bound?, Store.parent?]
  cases s.scopes[i]? with
  | none => rfl
  | some sc =>
    simp only [Option.bind_some]
    cases sc.bindings.lookup x with
    | some v => rfl
    | none => cases sc.parent? <;> rfl

section Chains

lemma Chain.lt_size (h : s.Chain i is) : i < s.size := by
  cases h with
  | last hi _ => exact hi
  | inside h _ => exact lt_size_of_parent? h

lemma Chain.mono (h : s.Chain i is) (hkeeps : s.KeepsParents s') : s'.Chain i is := by
  induction h with
  | last hi h => exact .last (Nat.lt_of_lt_of_le hi hkeeps.size_le) ((hkeeps.parent? _ hi).trans h)
  | inside h _ ih => exact .inside ((hkeeps.parent? _ (lt_size_of_parent? h)).trans h) ih

/-- Parents lead to older scopes, up to that of the globals. -/
lemma Rooted.parent?_cases (hs : s.Rooted) (hi : i < s.size) :
    i = global ∧ s.parent? i = none ∨ ∃ p < i, s.parent? i = some p := by
  by_cases hglobal : i = global
  · exact .inl ⟨hglobal, hglobal ▸ hs.parent?_global⟩
  · exact .inr (hs.parent_lt i hi hglobal)

lemma Rooted.lt_of_parent? (hs : s.Rooted) (h : s.parent? i = some p) : p < i := by
  rcases hs.parent?_cases (lt_size_of_parent? h) with ⟨-, hnone⟩ | ⟨q, hlt, hq⟩
  · rw [hnone] at h
    cases h
  · rwa [Option.some.inj (hq.symm.trans h)] at hlt

/-- From each scope a chain leads to the globals. -/
theorem Rooted.exists_chain (hs : s.Rooted) (hi : i < s.size) : ∃ is, s.Chain i is := by
  induction i using Nat.strongRecOn with
  | ind i ih =>
    rcases hs.parent?_cases hi with ⟨-, hnone⟩ | ⟨p, hlt, hp⟩
    · exact ⟨[i], .last hi hnone⟩
    · obtain ⟨is, his⟩ := ih p hlt (Nat.lt_trans hlt hi)
      exact ⟨i :: is, .inside hp his⟩

lemma Chain.le (hs : s.Rooted) (h : s.Chain i is) : ∀ j ∈ is, j ≤ i := by
  induction h with
  | last => exact List.forall_mem_singleton.mpr (Nat.le_refl _)
  | @inside i p is hp hrest ih =>
    have hlt := hs.lt_of_parent? hp
    exact List.forall_mem_cons.mpr
      ⟨Nat.le_refl _, fun j hj => Nat.le_trans (ih j hj) (Nat.le_of_lt hlt)⟩

/-- Along a chain scopes get older. -/
theorem Chain.pairwise (hs : s.Rooted) (h : s.Chain i is) : is.Pairwise (· > ·) := by
  induction h with
  | last => exact List.pairwise_singleton _ _
  | @inside i p is hp hrest ih =>
    have hlt := hs.lt_of_parent? hp
    exact .cons (fun j hj => Nat.lt_of_le_of_lt (hrest.le hs j hj) hlt) ih

/-- Every chain ends with the globals. -/
theorem Chain.getLast?_eq (hs : s.Rooted) (h : s.Chain i is) : is.getLast? = some global := by
  induction h with
  | @last i hi hnone =>
    rcases hs.parent?_cases hi with ⟨rfl, -⟩ | ⟨p, -, hp⟩
    · rfl
    · rw [hnone] at hp
      cases hp
  | inside _ hrest ih => rw [List.getLast?_cons, ih, Option.getD_some]

/-- The nearest scope of a chain that binds a name gives its value. -/
theorem Chain.lookup?_eq (hs : s.Rooted) (h : s.Chain i is) (x : String) :
    s.lookup? i x = is.findSome? (s.bound? · x) := by
  induction h with
  | last hi h =>
    rw [Store.lookup?_eq, h]
    simp
  | @inside i p is hp hrest ih =>
    rw [Store.lookup?_eq, hp, Option.bind_some, if_pos (hs.lt_of_parent? hp), ih,
      List.findSome?_cons]
    cases s.bound? i x <;> rfl

/-- What is bound in the scopes of a chain decides what is found. -/
lemma Chain.lookup?_congr (hs : s.Rooted) (hs' : s'.Rooted) (h : s.Chain i is)
    (hkeeps : s.KeepsParents s') {x : String} (hbound : ∀ j ∈ is, s'.bound? j x = s.bound? j x) :
    s'.lookup? i x = s.lookup? i x := by
  rw [h.lookup?_eq hs, (h.mono hkeeps).lookup?_eq hs']
  clear h
  induction is with
  | nil => rfl
  | cons j is ih =>
    have ⟨hj, hrest⟩ := List.forall_mem_cons.mp hbound
    rw [List.findSome?_cons, List.findSome?_cons, hj, ih hrest]

end Chains

section Stacks

lemma Stacked.mono {base? : Option Nat} (h : s.Stacked base? is) (hkeeps : s.KeepsParents s') :
    s'.Stacked base? is := by
  induction h with
  | bottom hi h =>
    exact .bottom (Nat.lt_of_lt_of_le hi hkeeps.size_le) ((hkeeps.parent? _ hi).trans h)
  | above h _ ih => exact .above ((hkeeps.parent? _ (lt_size_of_parent? h)).trans h) ih

lemma Stacked.lt_size {base? : Option Nat} (h : s.Stacked base? is) : ∀ j ∈ is, j < s.size := by
  induction h with
  | bottom hi _ => exact List.forall_mem_singleton.mpr hi
  | above h _ ih => exact List.forall_mem_cons.mpr ⟨lt_size_of_parent? h, ih⟩

lemma Stacked.headD_mem {base? : Option Nat} (h : s.Stacked base? is) : is.headD global ∈ is := by
  cases h <;> exact List.mem_cons_self

/-- A stack on a base goes on with the chain of the base. -/
lemma Stacked.chain {b : Nat} {bs : List Nat} (h : s.Stacked (some b) is) (hbase : s.Chain b bs) :
    s.Chain (is.headD global) (is ++ bs) := by
  induction h with
  | bottom hi h => exact .inside h hbase
  | above h _ ih => exact .inside h ih

/-- A stack without a base is a chain of its own. -/
lemma Stacked.chain_of_none (h : s.Stacked none is) : s.Chain (is.headD global) is := by
  induction h with
  | bottom hi h => exact .last hi h
  | above h _ ih => exact .inside h ih

/-- A base is there, since it is older than what is stacked on it. -/
lemma Stacked.base_lt {b : Nat} (h : s.Stacked (some b) is) (hs : s.Rooted) : b < s.size := by
  induction h with
  | bottom hi h => exact Nat.lt_trans (hs.lt_of_parent? h) hi
  | above _ _ ih => exact ih

end Stacks

section Changes

lemma KeepsParents.refl (s : Store) : s.KeepsParents s := ⟨Nat.le_refl _, fun _ _ => rfl⟩

lemma KeepsParents.trans {s₁ s₂ s₃ : Store} (h : s₁.KeepsParents s₂) (h' : s₂.KeepsParents s₃) :
    s₁.KeepsParents s₃ :=
  ⟨Nat.le_trans h.size_le h'.size_le, fun i hi =>
    (h'.parent? i (Nat.lt_of_lt_of_le hi h.size_le)).trans (h.parent? i hi)⟩

lemma parent?_push_self (s : Store) (p : Nat) : (s.push p []).2.parent? s.size = some p := by
  simp [push, Store.parent?, size]

lemma KeepsParents.push (s : Store) (p : Nat) : s.KeepsParents (s.push p []).2 := by
  refine ⟨by simp, fun i hi => ?_⟩
  rw [Store.parent?, scopes_push_of_lt s p [] hi, Store.parent?]

lemma bound?_push (s : Store) (p i : Nat) (x : String) :
    (s.push p []).2.bound? i x = s.bound? i x := by
  rcases Nat.lt_trichotomy i s.size with hlt | rfl | hgt
  · rw [bound?, scopes_push_of_lt s p [] hlt, bound?]
  · simp [push, bound?, size]
  · have hlarge : s.scopes.size < i := hgt
    have hnew : (s.push p []).2.scopes[i]? = none := Array.getElem?_eq_none (by simp [push]; omega)
    have hold : s.scopes[i]? = none := Array.getElem?_eq_none (by omega)
    rw [bound?, hnew, bound?, hold]

lemma Rooted.push (hs : s.Rooted) (hp : p < s.size) : (s.push p []).2.Rooted := by
  have hkeeps := KeepsParents.push s p
  refine ⟨Nat.lt_of_lt_of_le hs.global_lt hkeeps.size_le,
    (hkeeps.parent? _ hs.global_lt).trans hs.parent?_global, fun i hi hglobal => ?_⟩
  rw [size_push] at hi
  rcases Nat.lt_or_eq_of_le (Nat.le_of_lt_succ hi) with hlt | rfl
  · rw [hkeeps.parent? i hlt]
    exact hs.parent_lt i hlt hglobal
  · exact ⟨p, hp, parent?_push_self s p⟩

variable (s) (j : Nat) (y : String) (v : Value)

lemma size_define : (s.define j y v).size = s.size := by
  simp [define, size]

lemma parent?_define (i : Nat) : (s.define j y v).parent? i = s.parent? i := by
  simp only [define, Store.parent?, Array.getElem?_modify]
  split <;> cases s.scopes[i]? <;> rfl

/-- A new binding is the one that counts. -/
lemma bound?_define (hj : j < s.size) (i : Nat) (x : String) :
    (s.define j y v).bound? i x = if j = i ∧ y = x then some v else s.bound? i x := by
  have hsc : s.scopes[j]? = some s.scopes[j] := Array.getElem?_eq_getElem hj
  simp only [define, bound?, Array.getElem?_modify]
  by_cases hi : j = i
  · subst hi
    rw [if_pos rfl, hsc]
    by_cases hx : y = x
    · subst hx
      simp
    · have hne : (x == y) = false := beq_false_of_ne (Ne.symm hx)
      simp [List.lookup_cons, hne, hx]
  · rw [if_neg hi, if_neg fun h => hi h.1]

lemma KeepsParents.define : s.KeepsParents (s.define j y v) :=
  ⟨Nat.le_of_eq (size_define s j y v).symm, fun i _ => parent?_define s j y v i⟩

variable {s}

lemma Rooted.define (hs : s.Rooted) : (s.define j y v).Rooted := by
  refine ⟨by rw [size_define]; exact hs.global_lt, ?_, fun i hi hglobal => ?_⟩
  · rw [parent?_define]
    exact hs.parent?_global
  · rw [parent?_define]
    exact hs.parent_lt i (size_define s j y v ▸ hi) hglobal

end Changes

end ClosedSum.Eval.Store
