import ClosedSum.Eval.Value

/-!
# Scopes

Scopes are kept in a store and known by their numbers. Scope zero holds the globals; every other
scope has a parent that is older than itself, so each chain of parents ends. An environment is the
stack of scopes of the code that runs.
-/

namespace ClosedSum.Eval

structure Scope where
  /-- The newest binding stands first and hides those of the same name. -/
  bindings : List (String × Value)
  parent? : Option Nat

structure Store where
  scopes : Array Scope

namespace Store

/-- The scope of the globals. -/
def global : Nat := 0

/-- A store with nothing but its globals. -/
def ofGlobals (bindings : List (String × Value)) : Store := ⟨#[⟨bindings, none⟩]⟩

def size (s : Store) : Nat := s.scopes.size

/-- Adds a scope inside `parent`. -/
def push (s : Store) (parent : Nat) (bindings : List (String × Value)) : Nat × Store :=
  (s.size, ⟨s.scopes.push ⟨bindings, some parent⟩⟩)

/-- Binds a name in a scope. -/
def define (s : Store) (scope : Nat) (name : String) (value : Value) : Store :=
  ⟨s.scopes.modify scope fun sc => { sc with bindings := (name, value) :: sc.bindings }⟩

/-- The value of a name in the nearest scope of a chain that binds it. -/
def lookup? (s : Store) (scope : Nat) (name : String) : Option Value :=
  match s.scopes[scope]? with
  | none => none
  | some sc =>
    match sc.bindings.lookup name with
    | some v => some v
    | none =>
      match sc.parent? with
      | some parent => if parent < scope then s.lookup? parent name else none
      | none => none

end Store

/-- The scopes of the code that runs, the innermost first. -/
structure Env where
  scopes : List Nat := [Store.global]
  deriving DecidableEq, Repr, Inhabited

namespace Env

def depth (e : Env) : Nat := e.scopes.length

def current (e : Env) : Nat := e.scopes.headD Store.global

/-- Enters a new scope inside the current one. -/
def push (e : Env) (bindings : List (String × Value)) (s : Store) : Env × Store :=
  let (scope, s) := s.push e.current bindings
  (⟨scope :: e.scopes⟩, s)

/-- Leaves the current scope. The last one is never left. -/
def pop (e : Env) : Env :=
  match e.scopes with
  | _ :: scope :: scopes => ⟨scope :: scopes⟩
  | _ => e

/-- An environment of its own, with one new scope inside `scope`. -/
def extending (scope : Nat) (bindings : List (String × Value)) (s : Store) : Env × Store :=
  let (inner, s) := s.push scope bindings
  (⟨[inner]⟩, s)

/-- An environment of its own that sees the globals only. -/
def child (bindings : List (String × Value)) (s : Store) : Env × Store :=
  extending Store.global bindings s

def lookup? (e : Env) (s : Store) (name : String) : Option Value := s.lookup? e.current name

@[simp] theorem current_push (e : Env) (bindings : List (String × Value)) (s : Store) :
    (e.push bindings s).1.current = s.size := rfl

@[simp] theorem depth_push (e : Env) (bindings : List (String × Value)) (s : Store) :
    (e.push bindings s).1.depth = e.depth + 1 := rfl

theorem pop_push (e : Env) (bindings : List (String × Value)) (s : Store) (h : e.scopes ≠ []) :
    (e.push bindings s).1.pop = e := by
  obtain ⟨scopes⟩ := e
  cases scopes with
  | nil => contradiction
  | cons scope scopes => rfl

end Env

end ClosedSum.Eval
