import Nominal.Error
import Nominal.Value

/-!
# Scopes

A scope has three tables, of variables, types and functions, and stands inside other scopes. A
look-up goes outwards from a scope to the scopes around it; a declaration goes into one scope and is
seen by everything that looks through it later, closures included.

* `Scope`, `Scopes`: a scope, and all scopes in the order they were opened.
* `Scopes.path`: a scope and the scopes around it.
* `Scopes.lookupVariable`, `Scopes.declareVariable` and their like: access to the tables.
* **`Scopes.get_modify`**, **`Scopes.get_openScope`**: what becomes of a scope when one is changed
  or opened.
-/

namespace Nominal

/-- A scope. -/
structure Scope where
  vars : Table String Binding
  types : Table String TypeId
  functions : Table Signature Overload
  /-- The scopes around this one, the innermost first. -/
  enclosing : List ScopeId

/-- A scope without declarations. -/
def Scope.empty (enclosing : List ScopeId) : Scope := ⟨[], [], [], enclosing⟩

/-- All scopes, in the order they were opened. -/
structure Scopes where
  nodes : Array Scope

namespace Scopes

/-- A scope by its identity. -/
def get (s : Scopes) (n : ScopeId) : Scope := s.nodes.getD n (.empty [])

/-- A scope and the scopes around it, from the inside to the outside. -/
def path (s : Scopes) (n : ScopeId) : List ScopeId := n :: (s.get n).enclosing

/-- The identity of the next scope that is opened. -/
def next (s : Scopes) : ScopeId := s.nodes.size

/-- The scopes with one more, without declarations. -/
def openScope (s : Scopes) (enclosing : List ScopeId) : Scopes :=
  ⟨s.nodes.push (.empty enclosing)⟩

/-- The scopes with a new root. -/
def root (s : Scopes) : Scopes := s.openScope []

/-- The scopes with a new scope directly inside `n`. -/
def child (s : Scopes) (n : ScopeId) : Scopes := s.openScope (s.path n)

/-- The scopes with one of them changed. -/
def modify (s : Scopes) (n : ScopeId) (f : Scope → Scope) : Scopes := ⟨s.nodes.modify n f⟩

/-! ### What becomes of a scope -/

theorem get_eq (s : Scopes) (n : ScopeId) : s.get n = (s.nodes[n]?).getD (.empty []) := by
  simp [get]

theorem next_openScope (s : Scopes) (enclosing : List ScopeId) :
    (s.openScope enclosing).next = s.next + 1 := by
  simp [openScope, next]

theorem get_openScope (s : Scopes) (enclosing : List ScopeId) (m : ScopeId) :
    (s.openScope enclosing).get m = if m = s.next then .empty enclosing else s.get m := by
  simp only [get_eq, openScope, next, Array.getElem?_push]
  split <;> simp

@[simp] theorem next_modify (s : Scopes) (n : ScopeId) (f : Scope → Scope) :
    (s.modify n f).next = s.next := by
  simp [modify, next]

theorem get_modify (s : Scopes) (n : ScopeId) (f : Scope → Scope) (m : ScopeId) :
    (s.modify n f).get m = if n = m ∧ n < s.next then f (s.get m) else s.get m := by
  simp only [get_eq, modify, next, Array.getElem?_modify]
  by_cases hm : n = m
  · subst hm
    by_cases hn : n < s.nodes.size
    · simp [hn]
    · simp [hn]
  · simp [hm]

theorem path_modify (s : Scopes) (n : ScopeId) {f : Scope → Scope}
    (hf : ∀ c, (f c).enclosing = c.enclosing) (m : ScopeId) :
    (s.modify n f).path m = s.path m := by
  rw [path, path, get_modify]
  split
  · rw [hf]
  · rfl

/-! ### Look-up -/

/-- The entry of a key in the first scope on the way outwards whose table has one. -/
def lookup {κ α : Type} [DecidableEq κ] (table : Scope → Table κ α) (s : Scopes) (n : ScopeId)
    (key : κ) : Option α :=
  (s.path n).findSome? fun m => (table (s.get m)).find? key

/-- The variable of a name that is visible from a scope. -/
def lookupVariable : Scopes → ScopeId → String → Option Binding := lookup Scope.vars

/-- The type of a name that is visible from a scope. -/
def lookupType : Scopes → ScopeId → String → Option TypeId := lookup Scope.types

/-- The function of a signature that is visible from a scope. -/
def lookupFunction : Scopes → ScopeId → Signature → Option Overload := lookup Scope.functions

/-- The visible variable of a name, or an error. -/
def findVariable (s : Scopes) (n : ScopeId) (name : String) : Except Cause Binding :=
  match s.lookupVariable n name with
  | some b => .ok b
  | none => .error (.undefinedVariable name)

/-- The visible type of a name, or an error. -/
def findType (s : Scopes) (n : ScopeId) (name : String) : Except Cause TypeId :=
  match s.lookupType n name with
  | some t => .ok t
  | none => .error (.undefinedType name)

/-- The visible function of a signature, or an error. -/
def findFunction (s : Scopes) (n : ScopeId) (signature : Signature) : Except Cause Overload :=
  match s.lookupFunction n signature with
  | some o => .ok o
  | none => .error (.undefinedFunction signature)

/-! ### Declaration -/

/-- The scopes with a variable declared in scope `n`, replacing one of the same name there. -/
def declareVariable (s : Scopes) (n : ScopeId) (name : String) (b : Binding) : Scopes :=
  s.modify n fun c => { c with vars := c.vars.insert name b }

/-- The scopes with a type declared in scope `n`, replacing one of the same name there. -/
def declareType (s : Scopes) (n : ScopeId) (name : String) (t : TypeId) : Scopes :=
  s.modify n fun c => { c with types := c.types.insert name t }

/-- The scopes with a function declared in scope `n`, replacing one of the same signature there. -/
def declareFunction (s : Scopes) (n : ScopeId) (signature : Signature) (o : Overload) : Scopes :=
  s.modify n fun c => { c with functions := c.functions.insert signature o }

end Scopes

end Nominal
