import ClosedSum.Eval.Interpreter
import Mathlib.Data.List.Forall2
import Mathlib.Tactic.Common

/-!
# Running computations

A computation takes a machine to a result and another machine. The lemmas here open the pieces of
evaluation one at a time, and say what a store holds after a scope is added to it.
-/

namespace ClosedSum.Eval

variable {α β : Type}

namespace Run

@[simp] lemma pure_apply (a : α) (m : Machine) : (pure a : Run α) m = (.ok a, m) := rfl

lemma bind_apply (r : Run α) (f : α → Run β) (m : Machine) :
    (r >>= f) m = match r m with
      | (.ok a, m') => f a m'
      | (.error e, m') => (.error e, m') := by
  simp only [bind, ExceptT.bind, ExceptT.mk, StateT.bind, ExceptT.bindCont]
  rcases r m with ⟨_ | _, _⟩ <;> rfl

lemma bind_of_ok {r : Run α} {m m' : Machine} {a : α} (h : r m = (.ok a, m')) (f : α → Run β) :
    (r >>= f) m = f a m' := by
  rw [bind_apply, h]

lemma bind_of_error {r : Run α} {m m' : Machine} {e : Fault} (h : r m = (.error e, m'))
    (f : α → Run β) : (r >>= f) m = (.error e, m') := by
  rw [bind_apply, h]

@[simp] lemma fail_apply (cause : Cause) (m : Machine) :
    (fail cause : Run α) m = (.error { cause }, m) := rfl

lemma lookup_apply (env : Env) (name : String) (m : Machine) :
    lookup env name m = match env.lookup? m.store name with
      | some v => (.ok v, m)
      | none => (.error { cause := .undefined name }, m) := by
  change (match env.lookup? m.store name with | some v => _ | none => _ : Run Value) m = _
  cases env.lookup? m.store name <;> rfl

@[simp] lemma printLine_apply (line : String) (m : Machine) :
    printLine line m = (.ok (), { m with output := m.output ++ line ++ "\n" }) := rfl

lemma ofExcept_apply (r : Except Cause α) (m : Machine) :
    ofExcept r m = (r.mapError fun cause => ⟨cause, []⟩, m) := by
  cases r <;> rfl

lemma within_apply (name? : Option String) (r : Run α) (m : Machine) :
    within name? r m = ((r m).1.mapError fun f => name?.elim f f.leaving, (r m).2) := by
  simp only [within]
  rcases r m with ⟨_ | _, _⟩ <;> cases name? <;> rfl

end Run

namespace Store

@[simp] lemma push_fst (s : Store) (parent : Nat) (bindings : List (String × Value)) :
    (s.push parent bindings).1 = s.size := rfl

@[simp] lemma size_push (s : Store) (parent : Nat) (bindings : List (String × Value)) :
    (s.push parent bindings).2.size = s.size + 1 := by
  simp [push, size]

lemma scopes_push_of_lt (s : Store) (parent : Nat) (bindings : List (String × Value))
    {scope : Nat} (h : scope < s.size) :
    (s.push parent bindings).2.scopes[scope]? = s.scopes[scope]? := by
  simp only [push, Array.getElem?_push]
  rw [if_neg]
  exact Nat.ne_of_lt h

/-- A store that has the scopes of another, as they were, and perhaps more. -/
structure Keeps (s s' : Store) : Prop where
  size_le : s.size ≤ s'.size
  scopes : ∀ i < s.size, s'.scopes[i]? = s.scopes[i]?

namespace Keeps

lemma refl (s : Store) : s.Keeps s := ⟨Nat.le_refl _, fun _ _ => rfl⟩

lemma trans {s₁ s₂ s₃ : Store} (h : s₁.Keeps s₂) (h' : s₂.Keeps s₃) : s₁.Keeps s₃ := by
  refine ⟨Nat.le_trans h.size_le h'.size_le, ?_⟩
  intro i hi
  rw [h'.scopes i (Nat.lt_of_lt_of_le hi h.size_le), h.scopes i hi]

lemma push (s : Store) (parent : Nat) (bindings : List (String × Value)) :
    s.Keeps (s.push parent bindings).2 := by
  refine ⟨by simp, ?_⟩
  intro i hi
  exact scopes_push_of_lt s parent bindings hi

/-- A chain of scopes that were there gives what it gave. -/
lemma lookup? {s s' : Store} (h : s.Keeps s') (name : String) {scope : Nat}
    (hscope : scope < s.size) : s'.lookup? scope name = s.lookup? scope name := by
  induction scope using Nat.strongRecOn with
  | ind scope ih =>
    rw [Store.lookup?, Store.lookup?.eq_def s scope, h.scopes scope hscope]
    cases s.scopes[scope]? with
    | none => rfl
    | some sc =>
      dsimp only
      cases sc.bindings.lookup name with
      | some v => rfl
      | none =>
        cases sc.parent? with
        | none => rfl
        | some p =>
          dsimp only
          split
          · next hp => exact ih p hp (Nat.lt_trans hp hscope)
          · rfl

end Keeps

/-- A new scope changes no chain of scopes that was there. -/
lemma lookup?_push_of_lt (s : Store) (parent : Nat) (bindings : List (String × Value))
    (name : String) {scope : Nat} (h : scope < s.size) :
    (s.push parent bindings).2.lookup? scope name = s.lookup? scope name :=
  (Keeps.push s parent bindings).lookup? name h

lemma lookup?_of_size_le (s : Store) (name : String) {scope : Nat} (h : s.size ≤ scope) :
    s.lookup? scope name = none := by
  have hget : s.scopes[scope]? = none := Array.getElem?_eq_none h
  rw [lookup?, hget]

/-- The new scope is asked first, and then the scope it is inside. -/
lemma lookup?_push_self (s : Store) {parent : Nat} (bindings : List (String × Value))
    (name : String) (h : parent < s.size) :
    (s.push parent bindings).2.lookup? s.size name =
      (bindings.lookup name).or (s.lookup? parent name) := by
  rw [lookup?]
  have hget : (s.push parent bindings).2.scopes[s.size]? = some ⟨bindings, some parent⟩ := by
    simp [push, size]
  rw [hget]
  dsimp only
  cases bindings.lookup name with
  | some v => rfl
  | none => simp only [if_pos h, lookup?_push_of_lt s parent bindings name h, Option.none_or]

/-- What a name stands for after a scope was added is bound in it or was bound before. -/
lemma of_lookup?_push {s : Store} {parent : Nat} {bindings : List (String × Value)}
    (hparent : parent < s.size) {scope : Nat} {name : String} {v : Value}
    (h : (s.push parent bindings).2.lookup? scope name = some v) :
    (name, v) ∈ bindings ∨ ∃ scope', s.lookup? scope' name = some v := by
  rcases Nat.lt_trichotomy scope s.size with hold | rfl | hnone
  · rw [lookup?_push_of_lt _ _ _ _ hold] at h
    exact .inr ⟨scope, h⟩
  · rw [lookup?_push_self _ _ _ hparent] at h
    rcases Option.or_eq_some_iff.mp h with hb | ⟨-, hp⟩
    · obtain ⟨l, r, hl, -⟩ := List.lookup_eq_some_iff.mp hb
      exact .inl (by simp [hl])
    · exact .inr ⟨parent, hp⟩
  · rw [lookup?_of_size_le _ _ (by rw [size_push]; exact hnone)] at h
    cases h

lemma lookup?_ofGlobals (bindings : List (String × Value)) (name : String) :
    (ofGlobals bindings).lookup? global name = bindings.lookup name := by
  have hget : (ofGlobals bindings).scopes[global]? = some ⟨bindings, none⟩ := rfl
  rw [lookup?, hget]
  dsimp only
  cases bindings.lookup name <;> rfl

/-- A store of globals knows them in its only scope. -/
lemma mem_of_lookup?_ofGlobals {bindings : List (String × Value)} {scope : Nat} {name : String}
    {v : Value} (h : (ofGlobals bindings).lookup? scope name = some v) : (name, v) ∈ bindings := by
  cases scope with
  | zero =>
    have hlookup : bindings.lookup name = some v := (lookup?_ofGlobals bindings name).symm.trans h
    obtain ⟨l, r, hl, -⟩ := List.lookup_eq_some_iff.mp hlookup
    simp [hl]
  | succ scope =>
    rw [lookup?_of_size_le _ _ (by simp [ofGlobals, size])] at h
    cases h

end Store

/-- A value of the first order that is no variant's. -/
def Value.IsPlain : Value → Prop
  | .unit | .bool _ | .int _ | .str _ => True
  | .variant .. | .callable _ => False

/-- What an operator gives is plain. -/
lemma operate_isPlain {op : BinaryOp} {a b v : Value} (h : operate op a b = .ok v) : v.IsPlain := by
  have hbool : ∀ c : Bool, (.ok (.bool c) : Except Cause Value) = .ok v → v.IsPlain := by
    rintro c ⟨⟩
    trivial
  have hchecked : ∀ n, checked op n = .ok v → v.IsPlain := by
    intro n hn
    unfold checked at hn
    split at hn <;> cases hn
    trivial
  unfold operate at h
  split at h
  · unfold operateInts at h
    split at h
    · exact hchecked _ h
    · exact hchecked _ h
    · exact hchecked _ h
    · exact hbool _ h
  · unfold operateStrings at h
    split at h
    · cases h
      trivial
    · cases h
    · cases h
    · exact hbool _ h
  · dsimp only at h
    split at h
    · split at h
      · exact hbool _ h
      · exact hbool _ h
      · cases h
    · cases h

/-- An operator fails by overflow, or on operands that it does not take. -/
lemma operate_cause {op : BinaryOp} {a b : Value} {cause : Cause}
    (h : operate op a b = .error cause) :
    (∃ o, cause = .overflow o) ∨ ∃ o s t, cause = .badOperands o s t := by
  unfold operate operateInts operateStrings checked at h
  dsimp only at h
  repeat' split at h
  all_goals cases h
  all_goals simp

/-- A machine that another has become has lost no scope, sees the same names in each of the old ones
and has given no closure number back. -/
structure Machine.Grows (m m' : Machine) : Prop where
  scopes : m.store.size ≤ m'.store.size
  closures : m.closures ≤ m'.closures
  lookups : ∀ s x, s < m.store.size → m'.store.lookup? s x = m.store.lookup? s x

namespace Machine.Grows

lemma refl (m : Machine) : m.Grows m := ⟨Nat.le_refl _, Nat.le_refl _, fun _ _ _ => rfl⟩

lemma trans {m₁ m₂ m₃ : Machine} (h : m₁.Grows m₂) (h' : m₂.Grows m₃) : m₁.Grows m₃ := by
  refine ⟨Nat.le_trans h.scopes h'.scopes, Nat.le_trans h.closures h'.closures, ?_⟩
  intro s x hs
  rw [h'.lookups s x (Nat.lt_of_lt_of_le hs h.scopes), h.lookups s x hs]

lemma push (m : Machine) (p : Nat) (bs : List (String × Value)) :
    m.Grows { m with store := (m.store.push p bs).2 } := by
  refine ⟨by simp, Nat.le_refl _, ?_⟩
  intro s x hs
  exact Store.lookup?_push_of_lt _ _ _ _ hs

lemma newClosure (m : Machine) : m.Grows { m with closures := m.closures + 1 } :=
  ⟨Nat.le_refl _, Nat.le_succ _, fun _ _ _ => rfl⟩

end Machine.Grows

end ClosedSum.Eval
