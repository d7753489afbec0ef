import ClosedSum.Proofs.Renumbering
import Mathlib.Logic.Function.Basic

/-!
# Functions in another order

The numbers of generated names are drawn while one function after the other is compiled. In another
order the functions are the same but for these numbers: each function draws as many as before, and
the numbers that it draws have only moved as a block. The moves of all blocks are one renumbering,
which takes no two numbers to the same one.
-/

namespace ClosedSum

namespace Core

section Rename

variable (σ ρ : String → String)

mutual

lemma Expr.rename_rename : (e : Expr) → (e.rename ρ).rename σ = e.rename (σ ∘ ρ)
  | .lit _ | .var _ | .fail _ | .error => rfl
  | .call callee args => by
    simp only [Expr.rename, callee.rename_rename, renameAll_renameAll args]
  | .lambda params _ body => by
    simp only [Expr.rename, List.map_map, body.rename_rename]
    rfl
  | .letIn _ value body => by
    simp only [Expr.rename, value.rename_rename, body.rename_rename, Function.comp_apply]
  | .seq exprs => by simp only [Expr.rename, renameAll_renameAll exprs]
  | .ifElse test yes no => by
    simp only [Expr.rename, test.rename_rename, yes.rename_rename, no.rename_rename]
  | .binary _ lhs rhs => by simp only [Expr.rename, lhs.rename_rename, rhs.rename_rename]
  | .dispatch branches => by simp only [Expr.rename, renameBranches_renameBranches branches]

lemma renameAll_renameAll : (es : List Expr) →
    renameAll σ (renameAll ρ es) = renameAll (σ ∘ ρ) es
  | [] => rfl
  | e :: es => by simp only [renameAll, e.rename_rename, renameAll_renameAll es]

lemma renameBranches_renameBranches : (bs : List Branch) →
    renameBranches σ (renameBranches ρ bs) = renameBranches (σ ∘ ρ) bs
  | [] => rfl
  | .mk test action :: bs => by
    have htest : (test.rename ρ).rename σ = test.rename (σ ∘ ρ) := by cases test <;> rfl
    simp only [renameBranches, htest, action.rename_rename, renameBranches_renameBranches bs]

end

lemma Function.rename_rename (f : Function) : (f.rename ρ).rename σ = f.rename (σ ∘ ρ) := by
  simp only [Function.rename, f.body.rename_rename]

end Rename

end Core

lemma renumber_comp (f g : Nat → Nat) : renumber f ∘ renumber g = renumber (f ∘ g) := by
  funext x
  by_cases hx : NoPercent x
  · rw [Function.comp_apply, (renumber_renames g).plain x hx, (renumber_renames f).plain x hx,
      (renumber_renames _).plain x hx]
  · cases hdigits : x.toList.dropWhile (· ≠ '%') with
    | nil =>
      rw [List.dropWhile_eq_nil_iff] at hdigits
      exact absurd (fun hmem => by simpa using hdigits '%' hmem) hx
    | cons c digits =>
      have hstem : NoPercent (String.ofList (x.toList.takeWhile (· ≠ '%'))) := by
        intro hmem
        rw [String.toList_ofList] at hmem
        simpa using List.mem_takeWhile_imp hmem
      have hform : ∀ h : Nat → Nat, renumber h x =
          freshName (String.ofList (x.toList.takeWhile (· ≠ '%')))
            (h (Nat.ofDigitChars 10 digits 0)) := fun h => by
        simp only [renumber, hdigits]
      rw [Function.comp_apply, hform, hform, renumber_freshName f hstem, Function.comp_apply]

/-- A renumbering that takes the `k` numbers from `n` on to those from `n'` on, no two to the same
one. -/
structure Rearranges (e : Nat → Nat) (n n' k : Nat) : Prop where
  range : ∀ i, n ≤ i → i < n + k → n' ≤ e i ∧ e i < n' + k
  inj : ∀ i j, n ≤ i → i < n + k → n ≤ j → j < n + k → e i = e j → i = j

namespace Rearranges

variable {e : Nat → Nat} {n n' k : Nat}

/-- The other numbers go where there is room. -/
lemma exists_injective (h : Rearranges e n n' k) :
    ∃ f : Nat → Nat, Function.Injective f ∧ ∀ i, n ≤ i → i < n + k → f i = e i := by
  refine ⟨fun i => if n ≤ i ∧ i < n + k then e i else n' + k + i, ?_, ?_⟩
  · intro i j hij
    by_cases hi : n ≤ i ∧ i < n + k <;> by_cases hj : n ≤ j ∧ j < n + k
    · simp only [if_pos hi, if_pos hj] at hij
      exact h.inj i j hi.1 hi.2 hj.1 hj.2 hij
    · have hrange := h.range i hi.1 hi.2
      simp only [if_pos hi, if_neg hj] at hij
      omega
    · have hrange := h.range j hj.1 hj.2
      simp only [if_neg hi, if_pos hj] at hij
      omega
    · simp only [if_neg hi, if_neg hj] at hij
      omega
  · intro i hlow hhigh
    exact if_pos ⟨hlow, hhigh⟩

lemma cons (h : Rearranges e (n + k) (n' + k) l) :
    Rearranges (fun i => if i < n + k then n' + (i - n) else e i) n n' (k + l) := by
  constructor
  · intro i hlow hhigh
    split
    · omega
    · have hi := h.range i (by omega) (by omega)
      omega
  · intro i j hi hi' hj hj' hij
    split at hij <;> split at hij
    · omega
    · have hrange := h.range j (by omega) (by omega)
      omega
    · have hrange := h.range i (by omega) (by omega)
      omega
    · exact h.inj i j (by omega) (by omega) (by omega) (by omega) hij

/-- Two blocks take each the place of the other, and those behind them stay. -/
lemma swap (n n' k l j : Nat) : Rearranges (fun i => if i < n + k then n' + l + (i - n) else
    if i < n + k + l then n' + (i - (n + k)) else n' + (i - n)) n n' (k + (l + j)) := by
  constructor
  · intro i hlow hhigh
    split
    · omega
    · split <;> omega
  · intro i j hi hi' hj hj' hij
    split at hij <;> split at hij <;> (try split at hij) <;> (try split at hij) <;> omega

lemma exists_comp {d f : Nat → Nat} {m : Nat} (h : Rearranges e n m k)
    (hf : ∀ i, n ≤ i → i < n + k → f i = d (e i)) : ∃ f₁ f₂ : Nat → Nat, f = f₂ ∘ f₁ ∧
      (∀ i, n ≤ i → i < n + k → f₁ i = e i) ∧ ∀ j, m ≤ j → j < m + k → f₂ j = d j := by
  refine ⟨fun i => if n ≤ i ∧ i < n + k then e i else m + k + i,
    fun j => if m ≤ j ∧ j < m + k then d j else f (j - (m + k)), ?_, ?_, ?_⟩
  · funext i
    rw [Function.comp_apply]
    by_cases hi : n ≤ i ∧ i < n + k
    · rw [if_pos hi, if_pos (h.range i hi.1 hi.2), hf i hi.1 hi.2]
    · have hout : ¬ (m ≤ m + k + i ∧ m + k + i < m + k) := by omega
      rw [if_neg hi, if_neg hout, Nat.add_sub_cancel_left]
  · intro i hlow hhigh
    exact if_pos ⟨hlow, hhigh⟩
  · intro j hlow hhigh
    exact if_pos ⟨hlow, hhigh⟩

lemma trans {d : Nat → Nat} {m : Nat} (h : Rearranges e n m k) (h' : Rearranges d m n' k) :
    Rearranges (d ∘ e) n n' k := by
  constructor
  · intro i hlow hhigh
    obtain ⟨hlow', hhigh'⟩ := h.range i hlow hhigh
    exact h'.range (e i) hlow' hhigh'
  · intro i j hi hi' hj hj' hij
    obtain ⟨hlow, hhigh⟩ := h.range i hi hi'
    obtain ⟨hlow', hhigh'⟩ := h.range j hj hj'
    exact h.inj i j hi hi' hj hj' (h'.inj _ _ hlow hhigh hlow' hhigh' hij)

end Rearranges

namespace Compile

open Surface (Function)

variable {α : Type} {registry : Match.Registry}

/-- Wherever a step begins, it draws as many names and reports the same, and its results differ in
the numbers that have moved. -/
lemma Follows.moves {s : Step α} {act : (String → String) → α → α}
    (h : ∀ {ρ}, Renames ρ → Follows ρ (fun a a' => a' = act ρ a) s s) :
    ∃ (k : Nat) (ds : List Diagnostic) (result : Nat → α), (∀ n, Does s n (result n) k ds) ∧
      ∀ n n' (e : Nat → Nat), (∀ i < k, e (n + i) = n' + i) →
        result n' = act (renumber e) (result n) := by
  obtain ⟨a, k, ds, hdoes, -, -⟩ := (h (renumber_renames id)).logs 0
  have hmove : ∀ {n n' : Nat} {b : α} (e : Nat → Nat), Does s n b k ds →
      (∀ i < k, e (n + i) = n' + i) → Does s n' (act (renumber e) b) k ds := by
    intro n n' b e hb he
    have haligned : Aligned (renumber e) n n' k := fun stem hstem i hi => by
      rw [renumber_freshName _ hstem, he i hi]
    obtain ⟨b', hb', rfl⟩ := (h (renumber_renames e)).follows hb haligned
    exact hb'
  have hall : ∀ n, Does s n (act (renumber (n + ·)) a) k ds := fun n =>
    hmove (n + ·) hdoes fun i _ => by simp only [Nat.zero_add]
  exact ⟨k, ds, _, hall, fun n n' e he => ((hall n').unique (hmove e (hall n) he)).1⟩

/-- The second step comes to the functions of the first in another order, and so do the reports. The
numbers of generated names are exchanged. -/
def Rearranged (s s' : Step (List Core.Function)) : Prop :=
  ∀ n n', ∃ gs gs' k ds ds' e, Does s n gs k ds ∧ Does s' n' gs' k ds' ∧ ds.Perm ds' ∧
    Rearranges e n n' k ∧ ∀ f : Nat → Nat, (∀ i, n ≤ i → i < n + k → f i = e i) →
      gs'.Perm (gs.map (·.rename (renumber f)))

lemma Does.functions_cons {f : Function} {fs : List Function} {g : Core.Function}
    {gs : List Core.Function} {n k l : Nat} {ds es : List Diagnostic}
    (h : Does (function registry f) n g k ds)
    (hs : Does (fs.mapM (function registry)) (n + k) gs l es) :
    Does ((f :: fs).mapM (function registry)) n (g :: gs) (k + l) (ds ++ es) := by
  have hboth : Does (function registry f >>= fun g => fs.mapM (function registry) >>= fun gs =>
      Pure.pure (g :: gs)) n (g :: gs) (k + (l + 0)) (ds ++ (es ++ [])) :=
    h.bind (hs.bind (.pure (g :: gs) _))
  rw [Nat.add_zero, List.append_nil] at hboth
  rwa [List.mapM_cons]

/-- Compiled in another order, functions and reports are the same in another order. -/
theorem functions_rearranged (hr : ∀ f ∈ registry.accessors, NoPercent f) {fs fs' : List Function}
    (hperm : fs.Perm fs') (hfs : ∀ f ∈ fs, ∀ a ∈ f.body.names, NoPercent a) :
    Rearranged (fs.mapM (function registry)) (fs'.mapM (function registry)) := by
  induction hperm with
  | nil =>
    intro n n'
    exact ⟨[], [], 0, [], [], id, .pure [] n, .pure [] n', .nil, ⟨by omega, by omega⟩,
      fun _ _ => .nil⟩
  | @cons x xs _ _ ih =>
    intro n n'
    obtain ⟨hx, hxs⟩ := List.forall_mem_cons.mp hfs
    obtain ⟨k, ds, g, hg, hmove⟩ := Follows.moves fun hρ => function_follows hρ hr hx
    obtain ⟨gs, gs', l, es, es', e, hgs, hgs', hes, he, hrest⟩ := ih hxs (n + k) (n' + k)
    refine ⟨g n :: gs, g n' :: gs', k + l, ds ++ es, ds ++ es', _, (hg n).functions_cons hgs,
      (hg n').functions_cons hgs', hes.append_left ds, he.cons, fun f hf => ?_⟩
    have hfirst : g n' = (g n).rename (renumber f) := hmove n n' f fun i hi => by
      rw [hf (n + i) (by omega) (by omega), if_pos (by omega)]
      omega
    have hothers := hrest f fun i hlow hhigh => by
      rw [hf i (by omega) (by omega), if_neg (by omega)]
    rw [List.map_cons, ← hfirst]
    exact hothers.cons (g n')
  | swap x y xs =>
    intro n n'
    obtain ⟨hy, hxxs⟩ := List.forall_mem_cons.mp hfs
    obtain ⟨hx, hxs⟩ := List.forall_mem_cons.mp hxxs
    obtain ⟨k, ds, a, ha, ha_move⟩ := Follows.moves fun hρ => function_follows hρ hr hy
    obtain ⟨l, es, b, hb, hb_move⟩ := Follows.moves fun hρ => function_follows hρ hr hx
    obtain ⟨j, fs, cs, hcs, hcs_move⟩ := Follows.moves fun hρ => functions_follow hρ hr hxs
    have hbehind : n' + l + k = n' + k + l := by omega
    refine ⟨a n :: b (n + k) :: cs (n + k + l), b n' :: a (n' + l) :: cs (n' + l + k),
      k + (l + j), ds ++ (es ++ fs), es ++ (ds ++ fs), _,
      (ha n).functions_cons ((hb (n + k)).functions_cons (hcs _)), ?_, ?_,
      .swap n n' k l j, fun f hf => ?_⟩
    · have hother := (hb n').functions_cons ((ha (n' + l)).functions_cons (hcs (n' + l + k)))
      rwa [Nat.add_left_comm l k j] at hother
    · rw [← List.append_assoc, ← List.append_assoc]
      exact List.perm_append_comm.append_right fs
    · have hfirst : a (n' + l) = (a n).rename (renumber f) := ha_move _ _ f fun i hi => by
        rw [hf (n + i) (by omega) (by omega), if_pos (by omega)]
        omega
      have hsecond : b n' = (b (n + k)).rename (renumber f) := hb_move _ _ f fun i hi => by
        rw [hf (n + k + i) (by omega) (by omega), if_neg (by omega), if_pos (by omega)]
        omega
      have hothers : cs (n' + l + k) = (cs (n + k + l)).map (·.rename (renumber f)) :=
        hcs_move _ _ f fun i hi => by
          rw [hf (n + k + l + i) (by omega) (by omega), if_neg (by omega), if_neg (by omega)]
          omega
      rw [List.map_cons, List.map_cons, ← hfirst, ← hsecond, ← hothers]
      exact .swap _ _ _
  | @trans fs₁ fs₂ fs₃ hperm _ ih ih' =>
    intro n n'
    obtain ⟨gs, gs₁, k, ds, ds₁, e, hgs, hgs₁, hds, he, hfirst⟩ := ih hfs n n
    obtain ⟨gs₁', gs', k', ds₁', ds', d, hgs₁', hgs', hds', hd, hsecond⟩ :=
      ih' (fun f hf => hfs f (hperm.mem_iff.mpr hf)) n n'
    obtain ⟨rfl, rfl, rfl⟩ := hgs₁.unique hgs₁'
    refine ⟨gs, gs', k, ds, ds', d ∘ e, hgs, hgs', hds.trans hds', he.trans hd, fun f hf => ?_⟩
    obtain ⟨f₁, f₂, rfl, hf₁, hf₂⟩ := he.exists_comp hf
    have hboth := (hsecond f₂ hf₂).trans ((hfirst f₁ hf₁).map (·.rename (renumber f₂)))
    rw [List.map_map] at hboth
    have hcomp : (fun g : Core.Function => g.rename (renumber f₂)) ∘
        (fun g : Core.Function => g.rename (renumber f₁)) =
          fun g : Core.Function => g.rename (renumber (f₂ ∘ f₁)) := by
      funext g
      rw [Function.comp_apply, Core.Function.rename_rename, renumber_comp]
    rwa [hcomp] at hboth

end Compile

end ClosedSum
