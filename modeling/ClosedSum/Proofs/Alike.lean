import ClosedSum.Proofs.Names
import ClosedSum.Proofs.Run

/-!
# Machines that are alike

Two machines may run code that differs in the names it binds, and may number their scopes and
closures differently. A world says which scopes and closures of the one stand for which of the
other, and which names have to agree in two scopes. Evaluation keeps machines alike in a world that
only grows: the results are alike, the same text is printed and the same faults are raised.
-/

namespace ClosedSum.Eval

open ClosedSum.Core (Names)

structure World where
  /-- Two scopes stand for each other as far as these names go. -/
  scopes : Nat → Nat → Names → Prop
  closures : Nat → Nat → Prop

namespace World

instance : LE World where
  le w w' := (∀ s t N, w.scopes s t N → w'.scopes s t N) ∧ ∀ a b, w.closures a b → w'.closures a b

lemma refl (w : World) : w ≤ w := ⟨fun _ _ _ h => h, fun _ _ h => h⟩

lemma trans {w₁ w₂ w₃ : World} (h : w₁ ≤ w₂) (h' : w₂ ≤ w₃) : w₁ ≤ w₃ :=
  ⟨fun _ _ _ hs => h'.1 _ _ _ (h.1 _ _ _ hs), fun _ _ hc => h'.2 _ _ (h.2 _ _ hc)⟩

/-- The world in which two more scopes stand for each other. -/
def addScopes (w : World) (s t : Nat) (N : Names) : World :=
  { w with scopes := fun a b M => w.scopes a b M ∨ a = s ∧ b = t ∧ M = N }

def addClosures (w : World) (a b : Nat) : World :=
  { w with closures := fun c d => w.closures c d ∨ c = a ∧ d = b }

lemma le_addScopes (w : World) (s t : Nat) (N : Names) : w ≤ w.addScopes s t N :=
  ⟨fun _ _ _ h => .inl h, fun _ _ h => h⟩

lemma le_addClosures (w : World) (a b : Nat) : w ≤ w.addClosures a b :=
  ⟨fun _ _ _ h => h, fun _ _ h => .inl h⟩

end World

inductive Callable.Alike (w : World) : Callable → Callable → Prop
  | closure {n k s t : Nat} {f g : Core.Lambda} {N : Names} (hn : w.closures n k)
    (hs : w.scopes s t N) (hf : f.Alike N g) : Alike w (.closure n f s) (.closure k g t)
  | function {f g : Core.Function} {N : Names} (hname : f.name = g.name)
    (hlen : f.params.length = g.params.length) (hs : w.scopes Store.global Store.global N)
    (hf : f.body.Alike (N.bindAll f.params g.params) g.body) : Alike w (.function f) (.function g)
  | constructor (c : Case) : Alike w (.constructor c) (.constructor c)
  | accessor (c : Case) (index : Nat) (name : String) :
    Alike w (.accessor c index name) (.accessor c index name)
  | predicate (c : Case) : Alike w (.predicate c) (.predicate c)
  | builtin (b : Builtin) : Alike w (.builtin b) (.builtin b)

mutual

inductive Value.Alike (w : World) : Value → Value → Prop
  | unit : Alike w .unit .unit
  | bool (b : Bool) : Alike w (.bool b) (.bool b)
  | int (n : Int) : Alike w (.int n) (.int n)
  | str (s : String) : Alike w (.str s) (.str s)
  | variant {v n : String} {t : Nat} {fs gs : List Value} (h : Value.AlikeAll w fs gs) :
    Alike w (.variant v n t fs) (.variant v n t gs)
  | callable {f g : Callable} (h : f.Alike w g) : Alike w (.callable f) (.callable g)

inductive Value.AlikeAll (w : World) : List Value → List Value → Prop
  | nil : AlikeAll w [] []
  | cons {v v' : Value} {vs vs' : List Value} (h : Value.Alike w v v')
    (hs : AlikeAll w vs vs') : AlikeAll w (v :: vs) (v' :: vs')

end

variable {w w' : World} {m m' : Machine}

lemma Callable.Alike.mono (hw : w ≤ w') {f g : Callable} (h : f.Alike w g) : f.Alike w' g := by
  cases h with
  | closure hn hs hf => exact .closure (hw.2 _ _ hn) (hw.1 _ _ _ hs) hf
  | function hname hlen hs hf => exact .function hname hlen (hw.1 _ _ _ hs) hf
  | constructor c => exact .constructor c
  | accessor c index name => exact .accessor c index name
  | predicate c => exact .predicate c
  | builtin b => exact .builtin b

mutual

lemma Value.Alike.mono (hw : w ≤ w') : ∀ {v v' : Value}, v.Alike w v' → v.Alike w' v'
  | _, _, .unit => .unit
  | _, _, .bool b => .bool b
  | _, _, .int n => .int n
  | _, _, .str s => .str s
  | _, _, .variant h => .variant (Value.AlikeAll.mono hw h)
  | _, _, .callable h => .callable (h.mono hw)

lemma Value.AlikeAll.mono (hw : w ≤ w') :
    ∀ {vs vs' : List Value}, Value.AlikeAll w vs vs' → Value.AlikeAll w' vs vs'
  | _, _, .nil => .nil
  | _, _, .cons h hs => .cons (Value.Alike.mono hw h) (Value.AlikeAll.mono hw hs)

end

/-- Both are missing under one name, or both are there and alike. -/
def LookupsAlike (w : World) (x y : String) : Option Value → Option Value → Prop
  | some v, some v' => v.Alike w v'
  | none, none => x = y
  | _, _ => False

/-- Two ways to look names up that agree on names that stand for each other. -/
def Agree (w : World) (N : Names) (f g : String → Option Value) : Prop :=
  ∀ x y, N x y → LookupsAlike w x y (f x) (g y)

lemma LookupsAlike.mono (hw : w ≤ w') {x y : String} {a b : Option Value}
    (h : LookupsAlike w x y a b) : LookupsAlike w' x y a b := by
  cases a <;> cases b <;> first | exact h | exact Value.Alike.mono hw h

lemma Agree.mono (hw : w ≤ w') {N : Names} {f g : String → Option Value} (h : Agree w N f g) :
    Agree w' N f g := fun x y hxy => (h x y hxy).mono hw

/-- Two machines that a world relates. -/
structure World.Relates (w : World) (m m' : Machine) : Prop where
  output : m.output = m'.output
  closures_lt : ∀ a b, w.closures a b → a < m.closures ∧ b < m'.closures
  closures_left : ∀ a b b', w.closures a b → w.closures a b' → b = b'
  closures_right : ∀ a a' b, w.closures a b → w.closures a' b → a = a'
  scopes_lt : ∀ s t N, w.scopes s t N → s < m.store.size ∧ t < m'.store.size
  scopes_agree : ∀ s t N, w.scopes s t N → Agree w N (m.store.lookup? s) (m'.store.lookup? t)

namespace World.Relates

/-- Machines stay related when each gets a new scope and the two agree on some names. -/
lemma push (h : w.Relates m m') {p q : Nat} {N : Names} {bs bs' : List (String × Value)}
    (hp : p < m.store.size) (hq : q < m'.store.size)
    (hN : Agree w N (fun x => (bs.lookup x).or (m.store.lookup? p x))
      (fun y => (bs'.lookup y).or (m'.store.lookup? q y))) :
    (w.addScopes m.store.size m'.store.size N).Relates
      { m with store := (m.store.push p bs).2 } { m' with store := (m'.store.push q bs').2 } := by
  have hle := w.le_addScopes m.store.size m'.store.size N
  refine ⟨h.output, h.closures_lt, h.closures_left, h.closures_right, ?_, ?_⟩
  · rintro s t M (hs | ⟨rfl, rfl, rfl⟩)
    · have hlt := h.scopes_lt s t M hs
      simp only [Store.size_push]
      omega
    · simp
  · rintro s t M (hs | ⟨rfl, rfl, rfl⟩) x y hxy
    · have hlt := h.scopes_lt s t M hs
      rw [Store.lookup?_push_of_lt _ _ _ _ hlt.1, Store.lookup?_push_of_lt _ _ _ _ hlt.2]
      exact (h.scopes_agree s t M hs x y hxy).mono hle
    · rw [Store.lookup?_push_self _ _ _ hp, Store.lookup?_push_self _ _ _ hq]
      exact (hN x y hxy).mono hle

/-- Machines stay related when each makes a closure. -/
lemma newClosure (h : w.Relates m m') : (w.addClosures m.closures m'.closures).Relates
    { m with closures := m.closures + 1 } { m' with closures := m'.closures + 1 } := by
  have hle := w.le_addClosures m.closures m'.closures
  refine ⟨h.output, ?_, ?_, ?_, h.scopes_lt, ?_⟩
  · rintro a b (hab | ⟨rfl, rfl⟩)
    · have hlt := h.closures_lt a b hab
      exact ⟨Nat.lt_succ_of_lt hlt.1, Nat.lt_succ_of_lt hlt.2⟩
    · exact ⟨Nat.lt_succ_self _, Nat.lt_succ_self _⟩
  · rintro a b b' (hb | ⟨rfl, rfl⟩) (hb' | ⟨ha, rfl⟩)
    · exact h.closures_left a b b' hb hb'
    · have hlt := h.closures_lt a b hb
      omega
    · have hlt := h.closures_lt _ _ hb'
      omega
    · rfl
  · rintro a a' b (ha | ⟨rfl, rfl⟩) (ha' | ⟨rfl, hb⟩)
    · exact h.closures_right a a' b ha ha'
    · have hlt := h.closures_lt a b ha
      omega
    · have hlt := h.closures_lt _ _ ha'
      omega
    · rfl
  · intro s t N hs x y hxy
    exact (h.scopes_agree s t N hs x y hxy).mono hle

lemma printLine (h : w.Relates m m') (line : String) : w.Relates
    { m with output := m.output ++ line ++ "\n" } { m' with output := m'.output ++ line ++ "\n" } :=
  ⟨by simp [h.output], h.closures_lt, h.closures_left, h.closures_right, h.scopes_lt,
    h.scopes_agree⟩

end World.Relates

/-- A binding on each side makes the names it binds agree. -/
lemma Agree.cons {N : Names} {f g : String → Option Value} {bs bs' : List (String × Value)}
    (h : Agree w N (fun a => (bs.lookup a).or (f a)) (fun b => (bs'.lookup b).or (g b)))
    {v v' : Value} (hv : v.Alike w v') (x y : String) :
    Agree w (N.bind x y) (fun a => (((x, v) :: bs).lookup a).or (f a))
      (fun b => (((y, v') :: bs').lookup b).or (g b)) := by
  rintro a b (⟨rfl, rfl⟩ | ⟨ha, hb, hab⟩)
  · simpa [LookupsAlike] using hv
  · have hax : (a == x) = false := by simpa using ha
    have hby : (b == y) = false := by simpa using hb
    simpa only [List.lookup_cons, hax, hby] using h a b hab

/-- Parameters that take alike arguments agree, each in the place of the other. -/
lemma Agree.bindParams {N : Names} {f g : String → Option Value} {xs ys : List String}
    {vs vs' : List Value} (hlen : xs.length = ys.length) (hargs : xs.length ≤ vs.length)
    (hv : Value.AlikeAll w vs vs') {bs bs' : List (String × Value)}
    (h : Agree w N (fun a => (bs.lookup a).or (f a)) (fun b => (bs'.lookup b).or (g b))) :
    Agree w (N.bindAll xs ys) (fun a => ((Eval.bindParams xs vs ++ bs).lookup a).or (f a))
      (fun b => ((Eval.bindParams ys vs' ++ bs').lookup b).or (g b)) := by
  induction xs generalizing ys vs vs' N bs bs' with
  | nil =>
    obtain rfl : ys = [] := List.length_eq_zero_iff.mp hlen.symm
    simpa [Eval.bindParams, Names.bindAll] using h
  | cons x xs ih =>
    cases ys with
    | nil => simp at hlen
    | cons y ys =>
      cases hv with
      | nil => simp at hargs
      | cons hv hvs =>
        have hrest := ih (by simpa using hlen) (by simpa using hargs) hvs (h.cons hv x y)
        simpa [Eval.bindParams, Names.bindAll] using hrest

lemma Value.AlikeAll.length_eq {vs vs' : List Value} (h : Value.AlikeAll w vs vs') :
    vs.length = vs'.length := by
  induction vs generalizing vs' with
  | nil => cases h; rfl
  | cons v vs ih =>
    cases h with
    | cons _ hs => simp [ih hs]

lemma Value.AlikeAll.getElem? {vs vs' : List Value} (h : Value.AlikeAll w vs vs') (i : Nat) :
    (∃ v v', vs[i]? = some v ∧ vs'[i]? = some v' ∧ v.Alike w v') ∨
      vs[i]? = none ∧ vs'[i]? = none := by
  induction vs generalizing vs' i with
  | nil => cases h; exact .inr ⟨rfl, rfl⟩
  | cons v vs ih =>
    cases h with
    | cons hv hs =>
      cases i with
      | zero => exact .inl ⟨_, _, rfl, rfl, hv⟩
      | succ i => simpa using ih hs i

lemma Case.holds_eq_of_alike (c : Case) {v v' : Value} (h : v.Alike w v') :
    c.holds v = c.holds v' := by
  cases h <;> rfl

lemma Callable.Alike.describe_eq {f g : Callable} (h : f.Alike w g) :
    f.describe = g.describe := by
  cases h with
  | function hname => simp [Callable.describe, hname]
  | _ => rfl

mutual

lemma Value.Alike.innerText_eq : ∀ {v v' : Value}, v.Alike w v' → v.innerText = v'.innerText
  | _, _, .unit => rfl
  | _, _, .bool _ => rfl
  | _, _, .int _ => rfl
  | _, _, .str _ => rfl
  | _, _, .variant h => by simp only [Value.innerText, Value.AlikeAll.innerTexts_eq h]
  | _, _, .callable h => by simp only [Value.innerText, h.describe_eq]

lemma Value.AlikeAll.innerTexts_eq :
    ∀ {vs vs' : List Value}, Value.AlikeAll w vs vs' → Value.innerTexts vs = Value.innerTexts vs'
  | _, _, .nil => rfl
  | _, _, .cons h hs => by
    simp only [Value.innerTexts, Value.Alike.innerText_eq h, Value.AlikeAll.innerTexts_eq hs]

end

/-- Alike values are printed the same. -/
lemma Value.Alike.text_eq {v v' : Value} (h : v.Alike w v') : v.text = v'.text := by
  have hinner := h.innerText_eq
  cases h <;> first | rfl | exact hinner

lemma Value.AlikeAll.map_text_eq {vs vs' : List Value} (h : Value.AlikeAll w vs vs') :
    vs.map Value.text = vs'.map Value.text := by
  induction vs generalizing vs' with
  | nil => cases h; rfl
  | cons v vs ih =>
    cases h with
    | cons hv hs => simp [hv.text_eq, ih hs]

lemma Callable.Alike.same_eq (hw : w.Relates m m') {f f' g g' : Callable} (hf : f.Alike w f')
    (hg : g.Alike w g') : f.same g = f'.same g' := by
  cases hf with
  | @closure n k _ _ _ _ _ hn =>
    cases hg with
    | @closure n' k' _ _ _ _ _ hn' =>
      have hiff : n = n' ↔ k = k' := by
        constructor
        · rintro rfl
          exact hw.closures_left n k k' hn hn'
        · rintro rfl
          exact hw.closures_right n n' k hn hn'
      simp only [Callable.same, hiff]
    | _ => rfl
  | function hname =>
    cases hg with
    | function hname' => simp only [Callable.same, hname, hname']
    | _ => rfl
  | _ => cases hg <;> rfl

mutual

lemma Value.Alike.same_eq (hw : w.Relates m m') : ∀ {u u' v v' : Value}, u.Alike w u' →
    v.Alike w v' → u.same v = u'.same v'
  | _, _, _, _, .variant h, .variant h' => by
    simp only [Value.same, Value.AlikeAll.sameAll_eq hw h h']
  | _, _, _, _, .callable h, .callable h' => by simp only [Value.same, h.same_eq hw h']
  | _, _, _, _, .unit, h' => by cases h' <;> rfl
  | _, _, _, _, .bool _, h' => by cases h' <;> rfl
  | _, _, _, _, .int _, h' => by cases h' <;> rfl
  | _, _, _, _, .str _, h' => by cases h' <;> rfl
  | _, _, _, _, .variant _, .unit | _, _, _, _, .variant _, .bool _ | _, _, _, _, .variant _, .int _
  | _, _, _, _, .variant _, .str _ | _, _, _, _, .variant _, .callable _
  | _, _, _, _, .callable _, .unit | _, _, _, _, .callable _, .bool _
  | _, _, _, _, .callable _, .int _ | _, _, _, _, .callable _, .str _
  | _, _, _, _, .callable _, .variant _ => rfl

lemma Value.AlikeAll.sameAll_eq (hw : w.Relates m m') : ∀ {us us' vs vs' : List Value},
    Value.AlikeAll w us us' → Value.AlikeAll w vs vs' →
      Value.sameAll us vs = Value.sameAll us' vs'
  | _, _, _, _, .nil, .nil | _, _, _, _, .nil, .cons _ _ | _, _, _, _, .cons _ _, .nil => rfl
  | _, _, _, _, .cons h hs, .cons h' hs' => by
    simp only [Value.sameAll, Value.Alike.same_eq hw h h', Value.AlikeAll.sameAll_eq hw hs hs']

end

/-- Operators do not tell alike values apart. -/
lemma operate_eq_of_alike (hw : w.Relates m m') (op : BinaryOp) {a a' b b' : Value}
    (ha : a.Alike w a') (hb : b.Alike w b') : operate op a b = operate op a' b' := by
  have hsame := ha.same_eq hw hb
  cases ha <;> cases hb <;>
    first | rfl | simp only [operate, Value.type, hsame]

end ClosedSum.Eval
