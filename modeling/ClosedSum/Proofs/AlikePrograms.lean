import ClosedSum.Proofs.AlikeModules
import ClosedSum.Proofs.SameWorld

/-!
# Alike programs

Nothing that can be asked of an interpreter tells alike programs apart: each run and each call shows
the same result or the same fault, and prints the same.
-/

namespace ClosedSum

open ClosedSum.Core (Names)

/-- Functions of one name with as many parameters, and bodies that are alike under them. -/
structure Core.Function.Alike (f g : Core.Function) : Prop where
  name : f.name = g.name
  params : f.params.length = g.params.length
  body : f.body.Alike (Names.bindAll Eq f.params g.params) g.body

/-- Programs with the same declarations and alike functions. -/
structure Core.Program.Alike (p p' : Core.Program) : Prop where
  decls : p.decls.flatMap (fun d => d.cases.flatMap Eval.caseGlobals) =
    p'.decls.flatMap fun d => d.cases.flatMap Eval.caseGlobals
  functions : List.Forall₂ Core.Function.Alike p.functions p'.functions

namespace Compile

structure FunctionAlike (registry : Match.Registry) (f g : Surface.Function) : Prop where
  name : f.name.name = g.name.name
  params : f.params.length = g.params.length
  body : Parallel (Core.Expr.Alike
    (Names.bindAll Eq (f.params.map (·.name)) (g.params.map (·.name))))
    (expr registry f.body) (expr registry g.body)

/-- Modules whose items are alike become alike programs, wherever the counters of generated names
start. -/
theorem program_alike {m m' : Surface.Module}
    (h : List.Forall₂ (ItemAlike (FunctionAlike (Collected.ofModule m).registry)) m.items m'.items)
    (n n' : Nat) : (Compiled.ofModule m n).program.Alike (Compiled.ofModule m' n').program := by
  have hcollected := Collected.alike_ofModule h
  refine ⟨hcollected.decls, ?_⟩
  have hmapM : Parallel (List.Forall₂ Core.Function.Alike)
      ((Collected.ofModule m).functions.mapM (function (Collected.ofModule m).registry))
      ((Collected.ofModule m').functions.mapM (function (Collected.ofModule m).registry)) := by
    refine .mapM hcollected.functions fun f g hfg => hfg.body.bind fun e e' he => .pure ?_
    exact ⟨hfg.name, by simpa using hfg.params, he⟩
  have hregistry := hcollected.registry
  unfold Compiled.ofModule
  dsimp only
  rw [← hregistry]
  exact hmapM _ _

end Compile

namespace Eval

/-- What a result shows of itself, and what was printed. -/
def observed (r : Except Fault Value × Interpreter) : Except Fault String × String :=
  (r.1.map Value.text, r.2.output)

/-- Interpreters whose machines are related and see alike globals, with the same limit. -/
def Interpreter.Alike (i i' : Interpreter) : Prop :=
  i.limit = i'.limit ∧ ∃ w : World, w.scopes Store.global Store.global Eq ∧
    w.Relates i.machine i'.machine

/-- The world of two programs that have not run: all that stands for each other are the scopes of
their globals. -/
def World.start : World where
  scopes s t N := s = Store.global ∧ t = Store.global ∧ N = Eq
  closures _ _ := False

lemma lookup_alike_of_forall₂ {w : World} {bs bs' : List (String × Value)}
    (h : List.Forall₂ (fun b b' => b.1 = b'.1 ∧ b.2.Alike w b'.2) bs bs') (name : String) :
    LookupsAlike w name name (bs.lookup name) (bs'.lookup name) := by
  induction h with
  | nil => rfl
  | @cons b b' bs bs' hb hbs ih =>
    obtain ⟨x, v⟩ := b
    obtain ⟨y, v'⟩ := b'
    obtain ⟨rfl, hv⟩ : x = y ∧ v.Alike w v' := hb
    rw [List.lookup_cons, List.lookup_cons]
    cases name == x with
    | true => exact hv
    | false => exact ih

variable {p p' : Core.Program}

lemma programGlobals_alike (h : p.Alike p') :
    List.Forall₂ (fun b b' => b.1 = b'.1 ∧ b.2.Alike World.start b'.2)
      (programGlobals p) (programGlobals p') := by
  unfold programGlobals
  rw [h.decls]
  refine List.rel_append (List.rel_append ?_ ?_) ?_
  · refine List.forall₂_same.mpr fun b hb => ?_
    obtain ⟨builtin, -, rfl⟩ := List.mem_map.mp hb
    exact ⟨rfl, .callable (.builtin builtin)⟩
  · refine List.forall₂_same.mpr fun b hb => ?_
    simp only [List.mem_flatMap, caseGlobals, List.mem_cons, List.mem_map] at hb
    obtain ⟨d, -, c, -, rfl | rfl | ⟨⟨f, index⟩, -, rfl⟩⟩ := hb
    · exact ⟨rfl, .callable (.constructor _)⟩
    · exact ⟨rfl, .callable (.predicate _)⟩
    · exact ⟨rfl, .callable (.accessor _ _ _)⟩
  · rw [List.forall₂_map_left_iff, List.forall₂_map_right_iff]
    refine h.functions.imp fun f g hfg => ⟨hfg.name, .callable ?_⟩
    exact .function hfg.name hfg.params ⟨rfl, rfl, rfl⟩ hfg.body

lemma ofProgram_alike_of_lookups (h : ∀ x, LookupsAlike World.start x x
    ((programGlobals p).reverse.lookup x) ((programGlobals p').reverse.lookup x)) (limit : Nat) :
    (Interpreter.ofProgram p limit).Alike (Interpreter.ofProgram p' limit) := by
  refine ⟨rfl, World.start, ⟨rfl, rfl, rfl⟩, rfl, ?_, ?_, ?_, ?_, ?_⟩
  · exact fun _ _ h => h.elim
  · exact fun _ _ _ h => h.elim
  · exact fun _ _ _ h => h.elim
  · rintro s t N ⟨rfl, rfl, -⟩
    exact ⟨Nat.zero_lt_one, Nat.zero_lt_one⟩
  · rintro s t N ⟨rfl, rfl, rfl⟩ x y rfl
    have hlookup := h x
    rwa [← Store.lookup?_ofGlobals, ← Store.lookup?_ofGlobals] at hlookup

theorem ofProgram_alike (h : p.Alike p') (limit : Nat) :
    (Interpreter.ofProgram p limit).Alike (Interpreter.ofProgram p' limit) := by
  have hglobals := List.forall₂_reverse_iff.mpr (programGlobals_alike h)
  exact ofProgram_alike_of_lookups (lookup_alike_of_forall₂ hglobals) limit

variable {i i' : Interpreter} {vs vs' : List Value}

lemma Interpreter.Alike.error (h : i.Alike i') (f : Fault) :
    observed (.error f, i) = observed (.error f, i') ∧ i.Alike i' := by
  obtain ⟨-, w, -, hrel⟩ := id h
  exact ⟨Prod.ext rfl hrel.output, h⟩

lemma call_alike (hlimit : i.limit = i'.limit) {w : World}
    (hw : w.scopes Store.global Store.global Eq) (hrel : w.Relates i.machine i'.machine)
    {f f' : Value} (hf : f.Alike w f') (hvs : Value.AlikeAll w vs vs') :
    observed (i.call f vs) = observed (i'.call f' vs') ∧
      (i.call f vs).2.Alike (i'.call f' vs').2 := by
  have hleads := callAt_alike i.limit i.limit w _ _ f f' vs vs' hrel hf hvs
  obtain ⟨houtput, hresult⟩ := hleads.observed
  obtain ⟨w', hle, hrel', -⟩ := hleads
  unfold Interpreter.call
  rw [← hlimit]
  exact ⟨Prod.ext hresult houtput, hlimit, w', hle.1 _ _ _ hw, hrel'⟩

lemma runMain_alike (h : i.Alike i') :
    observed i.runMain = observed i'.runMain ∧ i.runMain.2.Alike i'.runMain.2 := by
  obtain ⟨hlimit, w, hw, hrel⟩ := id h
  have hmain : LookupsAlike w "main" "main" (i.global? "main") (i'.global? "main") :=
    hrel.scopes_agree _ _ _ hw "main" "main" rfl
  unfold Interpreter.runMain
  generalize i.global? "main" = a at hmain
  generalize i'.global? "main" = b at hmain
  cases a with
  | none =>
    cases b with
    | none => exact h.error _
    | some v' => exact hmain.elim
  | some v =>
    cases b with
    | none => exact hmain.elim
    | some v' =>
      have hv : v.Alike w v' := hmain
      cases hv with
      | callable hf =>
        cases hf with
        | function hname hlen hs hbody =>
          exact call_alike hlimit hw hrel (.callable (.function hname hlen hs hbody)) .nil
        | _ => exact h.error _
      | variant _ => exact h.error _
      | _ => exact h.error _

lemma callGlobal_alike (h : i.Alike i') (name : String) (hvs : ∀ w, Value.AlikeAll w vs vs) :
    observed (i.callGlobal name vs) = observed (i'.callGlobal name vs) ∧
      (i.callGlobal name vs).2.Alike (i'.callGlobal name vs).2 := by
  obtain ⟨hlimit, w, hw, hrel⟩ := id h
  have hname : LookupsAlike w name name (i.global? name) (i'.global? name) :=
    hrel.scopes_agree _ _ _ hw name name rfl
  unfold Interpreter.callGlobal
  generalize i.global? name = a at hname
  generalize i'.global? name = b at hname
  cases a with
  | none =>
    cases b with
    | none => exact h.error _
    | some v' => exact hname.elim
  | some v =>
    cases b with
    | none => exact hname.elim
    | some v' => exact call_alike hlimit hw hrel hname (hvs w)

/-- A value without functions in it. -/
def Value.IsFirstOrder (v : Value) : Prop := v.Every (fun _ => False) fun _ _ _ _ => True

lemma Value.IsFirstOrder.alike {v : Value} (h : v.IsFirstOrder) (w : World) : v.Alike w v := by
  induction h with
  | unit => exact .unit
  | bool b => exact .bool b
  | int n => exact .int n
  | str s => exact .str s
  | variant _ _ ih => exact .variant (.of_forall ih)
  | callable h => exact h.elim

/-- What can be asked of an interpreter: a run of `main`, or a call of a global. -/
inductive Request where
  | main
  | call (name : String) (args : List Value)

def Request.IsFirstOrder : Request → Prop
  | .main => True
  | .call _ args => ∀ v ∈ args, v.IsFirstOrder

def Interpreter.answer (i : Interpreter) : Request → Except Fault Value × Interpreter
  | .main => i.runMain
  | .call name args => i.callGlobal name args

/-- What is observed of one request after the other, also after some that failed. -/
def Interpreter.observe (i : Interpreter) : List Request → List (Except Fault String × String)
  | [] => []
  | r :: rs => observed (i.answer r) :: (i.answer r).2.observe rs

lemma answer_alike (h : i.Alike i') {r : Request} (hr : r.IsFirstOrder) :
    observed (i.answer r) = observed (i'.answer r) ∧ (i.answer r).2.Alike (i'.answer r).2 := by
  cases r with
  | main => exact runMain_alike h
  | call name args =>
    exact callGlobal_alike h name fun w => .of_forall fun v hv => (hr v hv).alike w

/-- No requests tell alike programs apart. -/
theorem observe_alike (h : i.Alike i') {rs : List Request} (hrs : ∀ r ∈ rs, r.IsFirstOrder) :
    i.observe rs = i'.observe rs := by
  induction rs generalizing i i' with
  | nil => rfl
  | cons r rs ih =>
    obtain ⟨hr, hrs⟩ := List.forall_mem_cons.mp hrs
    obtain ⟨hobserved, halike⟩ := answer_alike h hr
    rw [Interpreter.observe, Interpreter.observe, hobserved, ih halike hrs]

end Eval

end ClosedSum
