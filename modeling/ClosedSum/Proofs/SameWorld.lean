import ClosedSum.Proofs.AlikeRuns
import ClosedSum.Proofs.Clauses
import ClosedSum.Proofs.Discipline

/-!
# A machine and itself

In the world of a machine each of its scopes and closures stands for itself. A well-scoped machine
is related to itself in it, and still is when one side gets a scope or makes a closure that the
other knows nothing of.
-/

namespace ClosedSum.Eval

open ClosedSum.Core (Names)

variable {w : World} {m m' : Machine}

/-- The world in which the scopes and closures of a machine stand for themselves, for all names. -/
def World.same (m : Machine) : World where
  scopes s t N := s = t ∧ s < m.store.size ∧ N = Eq
  closures a b := a = b ∧ a < m.closures

lemma World.same_le (h : m.Grows m') : same m ≤ same m' := by
  refine ⟨?_, ?_⟩
  · rintro s t N ⟨hst, hs, hN⟩
    exact ⟨hst, Nat.lt_of_lt_of_le hs h.scopes, hN⟩
  · rintro a b ⟨hab, ha⟩
    exact ⟨hab, Nat.lt_of_lt_of_le ha h.closures⟩

lemma Callable.Within.alike {f : Callable} (h : f.Within m.store.size m.closures)
    (hglobal : Store.global < m.store.size) : f.Alike (World.same m) f := by
  cases f with
  | closure n g s => exact .closure ⟨rfl, h.1⟩ ⟨rfl, h.2, rfl⟩ g.alike_self
  | function g =>
    exact .function rfl rfl ⟨rfl, hglobal, rfl⟩
      (Core.Expr.alike_self fun _ _ => Core.Names.bindAll_self fun _ => rfl)
  | constructor c => exact .constructor c
  | accessor c i name => exact .accessor c i name
  | predicate c => exact .predicate c
  | builtin b => exact .builtin b

lemma Value.AlikeAll.of_forall {vs : List Value} (h : ∀ v ∈ vs, v.Alike w v) :
    Value.AlikeAll w vs vs := by
  induction vs with
  | nil => exact .nil
  | cons v vs ih => exact .cons (h v (by simp)) (ih fun v' hv' => h v' (by simp [hv']))

lemma Value.Within.alike {v : Value} (h : v.Within m) (hglobal : Store.global < m.store.size) :
    v.Alike (World.same m) v := by
  induction h with
  | unit => exact .unit
  | bool b => exact .bool b
  | int n => exact .int n
  | str s => exact .str s
  | variant _ _ ih => exact .variant (.of_forall ih)
  | callable h => exact .callable (h.alike hglobal)

namespace World.Relates

theorem same (h : m.WellScoped) : (World.same m).Relates m m := by
  refine ⟨rfl, ?_, ?_, ?_, ?_, ?_⟩
  · rintro a b ⟨rfl, ha⟩
    exact ⟨ha, ha⟩
  · rintro a b b' ⟨rfl, -⟩ ⟨rfl, -⟩
    rfl
  · rintro a a' b ⟨rfl, -⟩ ⟨rfl, -⟩
    rfl
  · rintro s t N ⟨rfl, hs, -⟩
    exact ⟨hs, hs⟩
  · rintro s t N ⟨rfl, hs, rfl⟩ x y rfl
    cases hv : m.store.lookup? s x with
    | none => rfl
    | some v => exact (h.within s x v hv).alike h.global_lt

/-- One side gets a scope that the other lacks. -/
lemma push_left (h : w.Relates m m') (p : Nat) (bs : List (String × Value)) :
    w.Relates { m with store := (m.store.push p bs).2 } m' := by
  refine ⟨h.output, h.closures_lt, h.closures_left, h.closures_right, ?_, ?_⟩
  · intro s t N hs
    have hlt := h.scopes_lt s t N hs
    rw [Store.size_push]
    omega
  · intro s t N hs x y hxy
    have hlt := h.scopes_lt s t N hs
    rw [Store.lookup?_push_of_lt _ _ _ _ hlt.1]
    exact h.scopes_agree s t N hs x y hxy

/-- One side makes a closure that the other lacks. -/
lemma newClosure_left (h : w.Relates m m') :
    w.Relates { m with closures := m.closures + 1 } m' := by
  refine ⟨h.output, ?_, h.closures_left, h.closures_right, h.scopes_lt, h.scopes_agree⟩
  intro a b hab
  have hlt := h.closures_lt a b hab
  exact ⟨Nat.lt_succ_of_lt hlt.1, hlt.2⟩

end World.Relates

/-- Bodies are entered alike, however many calls may still be nested. -/
theorem enterAt_alike (limit left : Nat) :
    EntersAlike (enterAt limit left) (enterAt limit left) := by
  intro w m m' N name? env env' e e' h hs he
  cases left with
  | zero => exact h.error _
  | succ left => exact (evalWith_alike (callAt_alike limit left) he h hs).within name?

end ClosedSum.Eval
