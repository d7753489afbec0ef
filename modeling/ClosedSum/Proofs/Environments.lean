import ClosedSum.Proofs.ScopeChains
import ClosedSum.Proofs.StepCases

/-!
# Environments in one store

Any number of environments share the scopes of one store. They push and pop scopes, bind names in
their innermost scope or among the globals, remember scopes, and make new environments inside the
globals or inside a scope that was remembered. Beside the store stands a record of all bindings in
their order, and whatever was done, a look-up gives what the record says of the chain of its scope.
-/

namespace ClosedSum.Eval

/-- A binding that was made: by which environment, in which scope, and of what. -/
structure Write where
  env : Nat
  scope : Nat
  name : String
  value : Value

/-- Environments with the store that they share, the scopes that were remembered, and all bindings
that were made, the latest first. -/
structure Family where
  store : Store := .ofGlobals []
  envs : List Env := [{}]
  captured : List Nat := []
  writes : List Write := []

/-- What an environment can do. -/
inductive Action where
  | push
  | pop
  | define (name : String) (value : Value)
  | defineGlobal (name : String) (value : Value)
  | capture
  | child
  | extend (captured : Nat)

namespace Family

def write (w : Family) (b : Write) : Family :=
  { w with store := w.store.define b.scope b.name b.value, writes := b :: w.writes }

def remember (w : Family) (scope : Nat) : Family :=
  { w with captured := w.captured ++ [scope] }

def replace (w : Family) (n : Nat) (made : Env × Store) : Family :=
  { w with store := made.2, envs := w.envs.set n made.1 }

def add (w : Family) (made : Env × Store) : Family :=
  { w with store := made.2, envs := w.envs ++ [made.1] }

def act (w : Family) (n : Nat) (a : Action) : Option Family := do
  let e ← w.envs[n]?
  match a with
  | .push => return w.replace n (e.push [] w.store)
  | .pop => return w.replace n (e.pop, w.store)
  | .define name value => return w.write ⟨n, e.current, name, value⟩
  | .defineGlobal name value => return w.write ⟨n, Store.global, name, value⟩
  | .capture => return w.remember e.current
  | .child => return w.add (Env.child [] w.store)
  | .extend k =>
    let scope ← w.captured[k]?
    return w.add (Env.extending scope [] w.store)

/-- Lets environments do one thing after the other. -/
def run (w : Family) (as : List (Nat × Action)) : Option Family :=
  as.foldlM (fun w (n, a) => w.act n a) w

/-- What was bound to a name in a scope most recently. -/
def latest? (w : Family) (scope : Nat) (name : String) : Option Value :=
  w.writes.findSome? fun b => if b.scope = scope ∧ b.name = name then some b.value else none

/-- The ways in which an environment changes the family. -/
inductive Changes (w : Family) (n : Nat) (e : Env) : Family → Prop
  | writes {b : Write} (henv : b.env = n) (hscope : b.scope = e.current ∨ b.scope = Store.global) :
    Changes w n e (w.write b)
  | remembers : Changes w n e (w.remember e.current)
  | pushes : Changes w n e (w.replace n (e.push [] w.store))
  | pops : Changes w n e (w.replace n (e.pop, w.store))
  | adds {base : Nat} (hbase : base = Store.global ∨ base ∈ w.captured) :
    Changes w n e (w.add (Env.extending base [] w.store))

/-- What holds of environments whatever was done with them. -/
structure Sound (w : Family) : Prop where
  rooted : w.store.Rooted
  bound : ∀ i x, w.store.bound? i x = w.latest? i x
  stacked : ∀ (n : Nat) (e : Env), w.envs[n]? = some e → ∃ base?, w.store.Stacked base? e.scopes
  captured : ∀ i ∈ w.captured, i < w.store.size
  written : ∀ b ∈ w.writes, b.scope < w.store.size
  /-- No two environments have a scope in common. -/
  apart : ∀ (n m : Nat) (e f : Env), w.envs[n]? = some e → w.envs[m]? = some f →
    ∀ i ∈ e.scopes, i ∈ f.scopes → n = m
  /-- Nobody else binds names in a scope of an environment, unless it is that of the globals. -/
  owned : ∀ (n : Nat) (e : Env), w.envs[n]? = some e → ∀ b ∈ w.writes, b.scope ∈ e.scopes →
    b.env = n ∨ b.scope = Store.global

/-- What stays when environments go on: parents, what each environment stands on, and the scopes
that were remembered. -/
structure Later (w w' : Family) : Prop where
  keeps : w.store.KeepsParents w'.store
  stands : ∀ (n : Nat) (e : Env) (base? : Option Nat), w.envs[n]? = some e →
    w.store.Stacked base? e.scopes →
      ∃ e', w'.envs[n]? = some e' ∧ w'.store.Stacked base? e'.scopes
  captured : w.captured <+: w'.captured

variable {w w' : Family} {n : Nat} {e : Env} {a : Action}

/-- All that an action can do. -/
theorem act_changes (h : w.act n a = some w') :
    ∃ e, w.envs[n]? = some e ∧ w.Changes n e w' := by
  obtain ⟨e, he, h⟩ := Option.bind_eq_some_iff.mp h
  refine ⟨e, he, ?_⟩
  cases a with
  | push =>
    cases h
    exact .pushes
  | pop =>
    cases h
    exact .pops
  | define name value =>
    cases h
    exact .writes rfl (.inl rfl)
  | defineGlobal name value =>
    cases h
    exact .writes rfl (.inr rfl)
  | capture =>
    cases h
    exact .remembers
  | child =>
    cases h
    exact .adds (.inl rfl)
  | extend k =>
    obtain ⟨scope, hscope, h⟩ := Option.bind_eq_some_iff.mp h
    cases h
    exact .adds (.inr (List.mem_of_getElem? hscope))

section Invariant

lemma latest?_write (b : Write) (i : Nat) (x : String) :
    (w.write b).latest? i x =
      if b.scope = i ∧ b.name = x then some b.value else w.latest? i x := by
  rw [latest?, write, List.findSome?_cons, latest?]
  split <;> simp_all

lemma sound_default : Sound {} := by
  have hroot : (Store.ofGlobals []).parent? Store.global = none := rfl
  have honly {n : Nat} {e : Env} (he : [({} : Env)][n]? = some e) : n = 0 ∧ e = {} := by
    cases n <;> simp_all
  refine ⟨⟨by decide, hroot, fun i hi hne => ?_⟩, fun i x => ?_, fun n e he => ?_, ?_, ?_,
    fun n m e f he hf i _ _ => ?_, ?_⟩
  · exact absurd (Nat.lt_one_iff.mp hi) hne
  · cases i <;> rfl
  · obtain ⟨-, rfl⟩ := honly he
    exact ⟨none, .bottom (by decide) hroot⟩
  · exact fun _ h => absurd h List.not_mem_nil
  · exact fun _ h => absurd h List.not_mem_nil
  · rw [(honly he).1, (honly hf).1]
  · exact fun _ _ _ _ h => absurd h List.not_mem_nil

lemma Sound.lt_size (h : w.Sound) (he : w.envs[n]? = some e) : ∀ i ∈ e.scopes, i < w.store.size :=
  let ⟨_, hstack⟩ := h.stacked n e he
  hstack.lt_size

lemma Sound.current_mem (h : w.Sound) (he : w.envs[n]? = some e) : e.current ∈ e.scopes :=
  let ⟨_, hstack⟩ := h.stacked n e he
  hstack.headD_mem

/-- New environments may stand in a store that binds nothing new, if what is new in them belongs to
one of them. -/
lemma Sound.restore (h : w.Sound) {store : Store} {envs : List Env}
    (hkeeps : w.store.KeepsParents store) (hrooted : store.Rooted)
    (hbound : ∀ i x, store.bound? i x = w.store.bound? i x)
    (hstacked : ∀ (m : Nat) (f : Env), envs[m]? = some f → ∃ base?, store.Stacked base? f.scopes)
    (hfrom : ∀ (m : Nat) (f : Env), envs[m]? = some f → ∀ i ∈ f.scopes,
      (∃ e, w.envs[m]? = some e ∧ i ∈ e.scopes) ∨ m = n ∧ i = w.store.size) :
    Sound { w with store, envs } := by
  refine ⟨hrooted, fun i x => (hbound i x).trans (h.bound i x), hstacked,
    fun i hi => Nat.lt_of_lt_of_le (h.captured i hi) hkeeps.size_le,
    fun b hb => Nat.lt_of_lt_of_le (h.written b hb) hkeeps.size_le,
    fun m k f g hf hg i hif hig => ?_, fun m f hf b hb hbf => ?_⟩
  · rcases hfrom m f hf i hif with ⟨e, he, hie⟩ | ⟨rfl, hi⟩ <;>
      rcases hfrom k g hg i hig with ⟨e', he', hie'⟩ | ⟨rfl, hi'⟩
    · exact h.apart m k e e' he he' i hie hie'
    · exact absurd hi' (Nat.ne_of_lt (h.lt_size he i hie))
    · exact absurd hi (Nat.ne_of_lt (h.lt_size he' i hie'))
    · rfl
  · rcases hfrom m f hf b.scope hbf with ⟨e, he, hbe⟩ | ⟨-, hi⟩
    · exact h.owned m e he b hb hbe
    · exact absurd hi (Nat.ne_of_lt (h.written b hb))

lemma Sound.write (h : w.Sound) (b : Write) (he : w.envs[b.env]? = some e)
    (hscope : b.scope = e.current ∨ b.scope = Store.global) : (w.write b).Sound := by
  have hsize : (w.store.define b.scope b.name b.value).size = w.store.size := Store.size_define ..
  have hlt : b.scope < w.store.size := by
    rcases hscope with hb | hb
    · exact hb ▸ h.lt_size he _ (h.current_mem he)
    · exact hb ▸ h.rooted.global_lt
  refine ⟨h.rooted.define .., fun i x => ?_, fun m f hf => ?_, fun i hi => ?_, fun b' hb' => ?_,
    h.apart, fun m f hf b' hb' hbf => ?_⟩
  · rw [latest?_write, ← h.bound]
    exact Store.bound?_define _ _ _ _ hlt i x
  · obtain ⟨base?, hstack⟩ := h.stacked m f hf
    exact ⟨base?, hstack.mono (.define ..)⟩
  · exact Nat.lt_of_lt_of_eq (h.captured i hi) hsize.symm
  · rcases List.mem_cons.mp hb' with rfl | hold
    · exact Nat.lt_of_lt_of_eq hlt hsize.symm
    · exact Nat.lt_of_lt_of_eq (h.written b' hold) hsize.symm
  · rcases List.mem_cons.mp hb' with rfl | hold
    · rcases hscope with hb | hb
      · exact .inl (h.apart _ m e f he hf _ (hb ▸ h.current_mem he) hbf)
      · exact .inr hb
    · exact h.owned m f hf b' hold hbf

lemma Sound.remember (h : w.Sound) {i : Nat} (hi : i < w.store.size) : (w.remember i).Sound := by
  refine ⟨h.rooted, h.bound, h.stacked, fun j hj => ?_, h.written, h.apart, h.owned⟩
  rcases List.mem_append.mp hj with hold | hnew
  · exact h.captured j hold
  · exact List.mem_singleton.mp hnew ▸ hi

lemma Sound.add (h : w.Sound) {base : Nat} (hbase : base < w.store.size) :
    (w.add (Env.extending base [] w.store)).Sound := by
  have hkeeps := Store.KeepsParents.push w.store base
  have hmem {m : Nat} {f : Env} (hf : (w.envs ++ [⟨[w.store.size]⟩])[m]? = some f) :
      w.envs[m]? = some f ∨ m = w.envs.length ∧ f = ⟨[w.store.size]⟩ := by
    rw [List.getElem?_append] at hf
    split at hf
    · exact .inl hf
    · rw [List.getElem?_singleton] at hf
      split at hf
      · exact .inr ⟨by omega, (Option.some.inj hf).symm⟩
      · cases hf
  refine h.restore (n := w.envs.length) hkeeps (h.rooted.push hbase) (Store.bound?_push _ _)
    (fun m f hf => ?_) fun m f hf i hi => ?_
  · rcases hmem hf with hold | ⟨-, rfl⟩
    · obtain ⟨base?, hstack⟩ := h.stacked m f hold
      exact ⟨base?, hstack.mono hkeeps⟩
    · exact ⟨some base, .bottom (by simp [Env.extending]) (Store.parent?_push_self w.store base)⟩
  · rcases hmem hf with hold | ⟨hm, rfl⟩
    · exact .inl ⟨f, hold, hi⟩
    · exact .inr ⟨hm, List.mem_singleton.mp hi⟩

lemma Sound.replace (h : w.Sound) (he : w.envs[n]? = some e) {made : Env × Store}
    (hkeeps : w.store.KeepsParents made.2) (hrooted : made.2.Rooted)
    (hbound : ∀ i x, made.2.bound? i x = w.store.bound? i x)
    (hstacked : ∃ base?, made.2.Stacked base? made.1.scopes)
    (hscopes : ∀ i ∈ made.1.scopes, i ∈ e.scopes ∨ i = w.store.size) :
    (w.replace n made).Sound := by
  have hmem {m : Nat} {f : Env} (hf : (w.envs.set n made.1)[m]? = some f) :
      w.envs[m]? = some f ∨ m = n ∧ f = made.1 := by
    rw [List.getElem?_set] at hf
    split at hf
    · split at hf
      · exact .inr ⟨‹n = m›.symm, (Option.some.inj hf).symm⟩
      · cases hf
    · exact .inl hf
  refine h.restore (n := n) hkeeps hrooted hbound (fun m f hf => ?_) fun m f hf i hi => ?_
  · rcases hmem hf with hold | ⟨-, rfl⟩
    · obtain ⟨base?, hstack⟩ := h.stacked m f hold
      exact ⟨base?, hstack.mono hkeeps⟩
    · exact hstacked
  · rcases hmem hf with hold | ⟨rfl, rfl⟩
    · exact .inl ⟨f, hold, hi⟩
    · exact (hscopes i hi).imp (fun hold => ⟨e, he, hold⟩) fun hnew => ⟨rfl, hnew⟩

lemma stacked_push {s : Store} {base? : Option Nat} (hstack : s.Stacked base? e.scopes) :
    (e.push [] s).2.Stacked base? (e.push [] s).1.scopes := by
  obtain ⟨scopes⟩ := e
  have hold := hstack.mono (.push s (scopes.headD Store.global))
  have hparent := Store.parent?_push_self s (scopes.headD Store.global)
  cases scopes with
  | nil => cases hstack
  | cons i is => exact .above hparent hold

lemma stacked_pop {s : Store} {base? : Option Nat} (hstack : s.Stacked base? e.scopes) :
    s.Stacked base? e.pop.scopes := by
  obtain ⟨scopes⟩ := e
  cases hstack with
  | bottom hi h => exact .bottom hi h
  | above _ hrest => exact hrest

theorem Sound.changes (h : w.Sound) (he : w.envs[n]? = some e) (hc : w.Changes n e w') :
    w'.Sound := by
  obtain ⟨base?, hstack⟩ := h.stacked n e he
  have hcurrent : e.current < w.store.size := h.lt_size he _ (h.current_mem he)
  cases hc with
  | writes henv hscope => exact h.write _ (henv ▸ he) hscope
  | remembers => exact h.remember hcurrent
  | pushes =>
    exact h.replace he (.push w.store e.current) (h.rooted.push hcurrent)
      (Store.bound?_push w.store e.current) ⟨base?, stacked_push hstack⟩
      fun i hi => (List.mem_cons.mp hi).symm
  | pops =>
    exact h.replace he (.refl w.store) h.rooted (fun _ _ => rfl) ⟨base?, stacked_pop hstack⟩
      fun i hi => .inl (Env.mem_of_mem_pop hi)
  | adds hbase =>
    refine h.add ?_
    rcases hbase with rfl | hmem
    · exact h.rooted.global_lt
    · exact h.captured _ hmem

end Invariant

section Runs

lemma Later.refl (w : Family) : w.Later w :=
  ⟨.refl w.store, fun _ e _ he hstack => ⟨e, he, hstack⟩, List.prefix_rfl⟩

lemma Later.trans {w₁ w₂ w₃ : Family} (h : w₁.Later w₂) (h' : w₂.Later w₃) : w₁.Later w₃ := by
  refine ⟨h.keeps.trans h'.keeps, fun n e base? he hstack => ?_, h.captured.trans h'.captured⟩
  obtain ⟨e', he', hstack'⟩ := h.stands n e base? he hstack
  exact h'.stands n e' base? he' hstack'

lemma Later.of_replace (he : w.envs[n]? = some e) {made : Env × Store}
    (hkeeps : w.store.KeepsParents made.2)
    (hstacked : ∀ base?, w.store.Stacked base? e.scopes → made.2.Stacked base? made.1.scopes) :
    w.Later (w.replace n made) := by
  refine ⟨hkeeps, fun m f base? hf hstack => ?_, List.prefix_rfl⟩
  by_cases hm : m = n
  · subst hm
    obtain rfl : e = f := Option.some.inj (he.symm.trans hf)
    have hlt : m < w.envs.length := (List.getElem?_eq_some_iff.mp he).1
    exact ⟨made.1, List.getElem?_set_self hlt, hstacked base? hstack⟩
  · exact ⟨f, (List.getElem?_set_ne (Ne.symm hm)).trans hf, hstack.mono hkeeps⟩

theorem Changes.later (he : w.envs[n]? = some e) (hc : w.Changes n e w') : w.Later w' := by
  cases hc with
  | writes henv hscope =>
    exact ⟨.define .., fun m f _ hf hstack => ⟨f, hf, hstack.mono (.define ..)⟩, List.prefix_rfl⟩
  | remembers =>
    exact ⟨.refl _, fun m f _ hf hstack => ⟨f, hf, hstack⟩, List.prefix_append ..⟩
  | pushes => exact .of_replace he (.push w.store e.current) fun _ => stacked_push
  | pops => exact .of_replace he (.refl w.store) fun _ => stacked_pop
  | @adds base hbase =>
    have hkeeps := Store.KeepsParents.push w.store base
    refine ⟨hkeeps, fun m f _ hf hstack => ⟨f, ?_, hstack.mono hkeeps⟩, List.prefix_rfl⟩
    exact (List.getElem?_append_left (List.getElem?_eq_some_iff.mp hf).1).trans hf

/-- A run keeps what holds, and what stays, stays. -/
theorem Sound.run (h : w.Sound) {as : List (Nat × Action)} (hrun : w.run as = some w') :
    w'.Sound ∧ w.Later w' := by
  induction as generalizing w with
  | nil =>
    obtain rfl : w = w' := Option.some.inj hrun
    exact ⟨h, .refl w⟩
  | cons a as ih =>
    obtain ⟨w₁, hact, hrest⟩ := Option.bind_eq_some_iff.mp hrun
    obtain ⟨e, he, hc⟩ := act_changes hact
    obtain ⟨hsound, hlater⟩ := ih (h.changes he hc) hrest
    exact ⟨hsound, (hc.later he).trans hlater⟩

end Runs

section Scoping

/-- An environment whose look-ups go through its own scopes, in which nobody else binds names, and
then through a chain. -/
def SeesOnly (w : Family) (n : Nat) (is : List Nat) : Prop :=
  ∃ e, w.envs[n]? = some e ∧ w.store.Chain e.current (e.scopes ++ is) ∧
    (∀ x, e.lookup? w.store x = (e.scopes ++ is).findSome? (w.latest? · x)) ∧
    ∀ b ∈ w.writes, b.scope ∈ e.scopes → b.env = n

/-- Lexical scoping, now and whatever environments do next. -/
structure Lexical (w : Family) : Prop where
  /-- From each scope parents lead somewhere and end. -/
  ends : ∀ i < w.store.size, ∃ is, w.store.Chain i is
  /-- Parents are ever older up to the globals, and the nearest scope that binds a name gives what
  was bound to it there most recently. -/
  nearest : ∀ (i : Nat) (is : List Nat), w.store.Chain i is → is.Pairwise (· > ·) ∧
    is.getLast? = some Store.global ∧ ∀ x, w.store.lookup? i x = is.findSome? (w.latest? · x)
  captured_lt : ∀ i ∈ w.captured, i < w.store.size
  one_le_depth : ∀ (n : Nat) (e : Env), w.envs[n]? = some e → 1 ≤ e.depth
  /-- A look-up of an environment goes through its own scopes, and for the first environment no
  further. -/
  own : ∀ (n : Nat) (e : Env), w.envs[n]? = some e →
    ∃ is, w.store.Chain e.current (e.scopes ++ is) ∧ (n = 0 → is = [])
  /-- A scope that is entered is new and inside the one before. -/
  push : ∀ (n : Nat) (e : Env) (w' : Family), w.envs[n]? = some e → w.act n .push = some w' →
    ∃ e', w'.envs[n]? = some e' ∧ e'.depth = e.depth + 1 ∧ w'.writes = w.writes ∧
      w'.store.parent? e'.current = some e.current ∧ ∀ b ∈ w.writes, b.scope ≠ e'.current
  /-- A scope that is left is left for its parent. -/
  pop : ∀ (n : Nat) (e : Env) (w' : Family), w.envs[n]? = some e → w.act n .pop = some w' →
    2 ≤ e.depth → ∃ e', w'.envs[n]? = some e' ∧ e'.depth + 1 = e.depth ∧ w'.store = w.store ∧
      w.store.parent? e.current = some e'.current
  /-- What is found changes only when the name is bound anew on the chain of the look-up. -/
  frame : ∀ (n : Nat) (a : Action) (w' : Family), w.act n a = some w' →
    ∀ (i : Nat) (is : List Nat) (x : String), w.store.Chain i is →
      w'.store.lookup? i x ≠ w.store.lookup? i x →
        ∃ b, w'.writes = b :: w.writes ∧ b.scope ∈ is ∧ b.name = x
  child : ∀ (n : Nat) (as : List (Nat × Action)) (w₁ w₂ : Family), w.act n .child = some w₁ →
    w₁.run as = some w₂ → w₂.SeesOnly w.envs.length [Store.global]
  extend : ∀ (n k i : Nat) (is : List Nat) (as : List (Nat × Action)) (w₁ w₂ : Family),
    w.captured[k]? = some i → w.store.Chain i is → w.act n (.extend k) = some w₁ →
      w₁.run as = some w₂ → w₂.SeesOnly w.envs.length is
  /-- A scope that was remembered keeps its chain. -/
  capture : ∀ (n : Nat) (e : Env) (is : List Nat) (as : List (Nat × Action)) (w₁ w₂ : Family),
    w.envs[n]? = some e → w.store.Chain e.current is → w.act n .capture = some w₁ →
      w₁.run as = some w₂ → w₂.captured[w.captured.length]? = some e.current ∧
        w₂.store.Chain e.current is ∧
        ∀ x, w₂.store.lookup? e.current x = is.findSome? (w₂.latest? · x)

lemma Sound.lookup?_eq (h : w.Sound) {i : Nat} {is : List Nat} (hchain : w.store.Chain i is)
    (x : String) : w.store.lookup? i x = is.findSome? (w.latest? · x) := by
  rw [hchain.lookup?_eq h.rooted]
  simp only [h.bound]

lemma Sound.frame (h : w.Sound) (he : w.envs[n]? = some e) (hc : w.Changes n e w') {i : Nat}
    {is : List Nat} {x : String} (hchain : w.store.Chain i is)
    (hne : w'.store.lookup? i x ≠ w.store.lookup? i x) :
    ∃ b, w'.writes = b :: w.writes ∧ b.scope ∈ is ∧ b.name = x := by
  have hsame := hchain.lookup?_congr (x := x) h.rooted (h.changes he hc).rooted (hc.later he).keeps
  have hlt : e.current < w.store.size := h.lt_size he _ (h.current_mem he)
  cases hc with
  | @writes b henv hscope =>
    refine ⟨b, rfl, ?_⟩
    by_contra hnot
    refine hne (hsame fun j hj => ?_)
    have hb : b.scope < w.store.size := by
      rcases hscope with hb | hb
      · exact hb ▸ hlt
      · exact hb ▸ h.rooted.global_lt
    refine (Store.bound?_define w.store _ _ _ hb j x).trans (if_neg ?_)
    rintro ⟨rfl, hname⟩
    exact hnot ⟨hj, hname⟩
  | remembers => exact absurd rfl hne
  | pushes => exact absurd (hsame fun j _ => Store.bound?_push w.store e.current j x) hne
  | pops => exact absurd rfl hne
  | @adds base _ => exact absurd (hsame fun j _ => Store.bound?_push w.store base j x) hne

lemma Sound.own (h : w.Sound) (he : w.envs[n]? = some e) :
    ∃ is, w.store.Chain e.current (e.scopes ++ is) := by
  obtain ⟨base?, hstack⟩ := h.stacked n e he
  cases base? with
  | none => exact ⟨[], (List.append_nil e.scopes).symm ▸ hstack.chain_of_none⟩
  | some b =>
    obtain ⟨is, hbase⟩ := h.rooted.exists_chain (hstack.base_lt h.rooted)
    exact ⟨is, hstack.chain hbase⟩

lemma getElem?_replace (he : w.envs[n]? = some e) (made : Env × Store) :
    (w.replace n made).envs[n]? = some made.1 :=
  List.getElem?_set_self (List.getElem?_eq_some_iff.mp he).1

lemma Sound.push (h : w.Sound) (he : w.envs[n]? = some e) (hact : w.act n .push = some w') :
    ∃ e', w'.envs[n]? = some e' ∧ e'.depth = e.depth + 1 ∧ w'.writes = w.writes ∧
      w'.store.parent? e'.current = some e.current ∧ ∀ b ∈ w.writes, b.scope ≠ e'.current := by
  simp only [act, he] at hact
  cases hact
  exact ⟨_, getElem?_replace he _, rfl, rfl, Store.parent?_push_self w.store e.current,
    fun b hb => Nat.ne_of_lt (h.written b hb)⟩

lemma Sound.pop (h : w.Sound) (he : w.envs[n]? = some e) (hact : w.act n .pop = some w')
    (hdepth : 2 ≤ e.depth) :
    ∃ e', w'.envs[n]? = some e' ∧ e'.depth + 1 = e.depth ∧ w'.store = w.store ∧
      w.store.parent? e.current = some e'.current := by
  obtain ⟨base?, hstack⟩ := h.stacked n e he
  simp only [act, he] at hact
  cases hact
  refine ⟨_, getElem?_replace he _, ?_⟩
  obtain ⟨scopes⟩ := e
  cases hstack with
  | bottom => exact absurd hdepth (Nat.not_succ_le_self 1)
  | above hparent _ => exact ⟨rfl, rfl, hparent⟩

/-- A new environment inside a scope never sees more than its own scopes and that one's chain. -/
lemma Sound.seesOnly_of_add (h : w.Sound) {base : Nat} {is : List Nat}
    (hchain : w.store.Chain base is) {as : List (Nat × Action)} {w₂ : Family}
    (hrun : (w.add (Env.extending base [] w.store)).run as = some w₂) :
    w₂.SeesOnly w.envs.length is := by
  obtain ⟨h₂, hlater⟩ := (h.add hchain.lt_size).run hrun
  obtain ⟨e, he, hstack⟩ := hlater.stands w.envs.length ⟨[w.store.size]⟩ (some base)
    List.getElem?_concat_length
    (.bottom (Nat.lt_of_lt_of_eq (Nat.lt_succ_self _) (Store.size_push ..).symm)
      (Store.parent?_push_self w.store base))
  have hkeeps := (Store.KeepsParents.push w.store base).trans hlater.keeps
  have hbase := hchain.mono hkeeps
  have hwhole : w₂.store.Chain e.current (e.scopes ++ is) := hstack.chain hbase
  refine ⟨e, he, hwhole, h₂.lookup?_eq hwhole, fun b hb hbe => ?_⟩
  refine (h₂.owned _ e he b hb hbe).resolve_right fun hglobal => ?_
  -- The globals end the chain, so no scope of the environment's own is that of the globals.
  have hends : Store.global ∈ is := List.mem_of_getLast? (hbase.getLast?_eq h₂.rooted)
  have hold := (List.pairwise_append.mp (hwhole.pairwise h₂.rooted)).2.2 b.scope hbe _ hends
  exact Nat.lt_irrefl _ (hglobal ▸ hold)

/-- Environments, starting with one alone, scope names lexically whatever they do. -/
theorem lexical_of_run {as : List (Nat × Action)} (hrun : run {} as = some w) : w.Lexical := by
  obtain ⟨h, hlater⟩ := sound_default.run hrun
  refine ⟨fun i hi => h.rooted.exists_chain hi, fun i is hchain => ⟨hchain.pairwise h.rooted,
    hchain.getLast?_eq h.rooted, h.lookup?_eq hchain⟩, h.captured,
    fun n e he => List.length_pos_of_mem (h.current_mem he), fun n e he => ?_,
    fun n e w' he => h.push he, fun n e w' he => h.pop he,
    fun n a w' hact i is x hchain hne => ?_, fun n as w₁ w₂ hact hrun => ?_,
    fun n k i is as w₁ w₂ hk hchain hact hrun => ?_,
    fun n e is as w₁ w₂ he hchain hact hrun => ?_⟩
  · by_cases hn : n = 0
    · subst hn
      obtain ⟨e', he', hstack⟩ := hlater.stands 0 {} none rfl (.bottom (by decide) rfl)
      obtain rfl : e = e' := Option.some.inj (he.symm.trans he')
      exact ⟨[], (List.append_nil e.scopes).symm ▸ hstack.chain_of_none, fun _ => rfl⟩
    · obtain ⟨is, hchain⟩ := h.own he
      exact ⟨is, hchain, fun hzero => absurd hzero hn⟩
  · obtain ⟨e, he, hc⟩ := act_changes hact
    exact h.frame he hc hchain hne
  · obtain ⟨e, -, hact⟩ := Option.bind_eq_some_iff.mp hact
    cases hact
    exact h.seesOnly_of_add (.last h.rooted.global_lt h.rooted.parent?_global) hrun
  · obtain ⟨e, -, hact⟩ := Option.bind_eq_some_iff.mp hact
    simp only [hk] at hact
    cases hact
    exact h.seesOnly_of_add hchain hrun
  · simp only [act, he] at hact
    cases hact
    have hcurrent : e.current < w.store.size := h.lt_size he _ (h.current_mem he)
    obtain ⟨h₂, hlater⟩ := (h.remember hcurrent).run hrun
    have hkept := hchain.mono hlater.keeps
    refine ⟨?_, hkept, h₂.lookup?_eq hkept⟩
    obtain ⟨more, hmore⟩ := hlater.captured
    rw [← hmore, List.getElem?_append_left (by simp [remember])]
    exact List.getElem?_concat_length

def leavingActions : List (Nat × Action) :=
  [(0, .defineGlobal "g" .unit), (0, .push), (0, .define "x" (.bool true)), (0, .capture),
    (0, .pop), (0, .extend 0), (1, .define "y" (.int 2)), (0, .child)]

/-- What was bound in a scope that was left is found by the environment that extends it only. -/
theorem lexical_of_run_leaving : ∃ w, run {} leavingActions = some w ∧ w.Lexical ∧
    w.envs.map (fun e => ["g", "x", "y"].map fun x => (e.lookup? w.store x).map Value.type) =
      [[some .unit, none, none], [some .unit, some .bool, some .int], [some .unit, none, none]] :=
  have hrun : run {} leavingActions = some _ := rfl
  ⟨_, hrun, lexical_of_run hrun, by decide +kernel⟩

end Scoping

end Family

end ClosedSum.Eval
