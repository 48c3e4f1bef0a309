import Nominal.Check
import Nominal.Execution
import Nominal.Proofs.Inheritance

/-!
# Trees and worlds without positions

Positions are dropped, from trees and from everything that a world holds: the bodies of functions
and methods are the only trees in it. A bare world has the same scopes and types under the same
numbers, so that a look-up finds in it what it finds in the world, without positions.

* `Expr.bare`, `Stmt.bare`, `bareBlock`: trees without positions.
* `World.bare`: a world without positions.
* `World.bare_openChild`, `World.bare_addType` and their like: what becomes of a bare world.
* **`Types.findMethod_bare`**, **`World.resolveOperator_bare`**, **`World.resolveCall_bare`**: what
  is found in a bare world.
-/

namespace Nominal

/-! ## Trees -/

mutual

/-- An expression without positions. -/
def Expr.bare (e : Expr) : Expr :=
  match e with
  | .literal _ value => .literal none value
  | .var _ name => .var none name
  | .binary _ op left right => .binary none op left.bare right.bare
  | .unary _ op operand => .unary none op operand.bare
  | .call _ callee args => .call none callee (bareArgs args)
  | .methodCall _ receiver method args => .methodCall none receiver.bare method (bareArgs args)
  | .attr _ object name => .attr none object.bare name

/-- Expressions without positions. -/
def bareArgs (es : List Expr) : List Expr :=
  match es with
  | [] => []
  | e :: es => e.bare :: bareArgs es

end

/-- An attribute definition without positions. -/
def AttributeDef.bare (a : AttributeDef) : AttributeDef := ⟨a.name, a.type, a.init.map Expr.bare⟩

mutual

/-- A statement without positions. -/
def Stmt.bare (s : Stmt) : Stmt :=
  match s with
  | .expr _ e => .expr none e.bare
  | .declareVar _ name type init => .declareVar none name type (init.map Expr.bare)
  | .defineFunc _ d => .defineFunc none d.bare
  | .defineType _ d => .defineType none d.bare
  | .ifElse _ branches none => .ifElse none (bareBranches branches) none
  | .ifElse _ branches (some body) => .ifElse none (bareBranches branches) (some (bareBlock body))
  | .whileLoop _ condition body => .whileLoop none condition.bare (bareBlock body)
  | .returns _ value => .returns none (value.map Expr.bare)
  | .breakLoop _ => .breakLoop none
  | .continueLoop _ => .continueLoop none

/-- A block without positions. -/
def bareBlock (body : List Stmt) : List Stmt :=
  match body with
  | [] => []
  | s :: rest => s.bare :: bareBlock rest

/-- Branches without positions. -/
def bareBranches (branches : List Branch) : List Branch :=
  match branches with
  | [] => []
  | .mk condition body :: rest => .mk condition.bare (bareBlock body) :: bareBranches rest

/-- A function or method definition without positions. -/
def FuncDef.bare (d : FuncDef) : FuncDef :=
  match d with
  | .mk _ name params ret body => .mk none name params ret (bareBlock body)

/-- Method definitions without positions. -/
def bareMethods (methods : List FuncDef) : List FuncDef :=
  match methods with
  | [] => []
  | m :: rest => m.bare :: bareMethods rest

/-- A type definition without positions. -/
def TypeDef.bare (d : TypeDef) : TypeDef :=
  match d with
  | .mk name parents attributes methods =>
    .mk name parents (attributes.map AttributeDef.bare) (bareMethods methods)

end

theorem bareArgs_eq_map (es : List Expr) : bareArgs es = es.map Expr.bare := by
  induction es with
  | nil => rfl
  | cons e es ih => rw [bareArgs, ih, List.map_cons]

@[simp] theorem Expr.position_bare (e : Expr) : e.bare.position = none := by
  cases e <;> rfl

@[simp] theorem Stmt.position_bare (s : Stmt) : s.bare.position = none := by
  cases s with
  | ifElse p branches default => cases default <;> rfl
  | expr | declareVar | defineFunc | defineType | whileLoop | returns | breakLoop | continueLoop =>
    rfl

namespace FuncDef

variable (d : FuncDef)

@[simp] theorem position_bare : d.bare.position = none := by
  cases d
  rfl

@[simp] theorem name_bare : d.bare.name = d.name := by
  cases d
  rfl

@[simp] theorem params_bare : d.bare.params = d.params := by
  cases d
  rfl

@[simp] theorem ret_bare : d.bare.ret = d.ret := by
  cases d
  rfl

@[simp] theorem returnType_bare : d.bare.returnType = d.returnType := by
  cases d
  rfl

end FuncDef

namespace TypeDef

variable (d : TypeDef)

@[simp] theorem name_bare : d.bare.name = d.name := by
  cases d
  rfl

@[simp] theorem parents_bare : d.bare.parents = d.parents := by
  cases d
  rfl

@[simp] theorem attributes_bare : d.bare.attributes = d.attributes.map AttributeDef.bare := by
  cases d
  rfl

@[simp] theorem methods_bare : d.bare.methods = bareMethods d.methods := by
  cases d
  rfl

end TypeDef

/-! ## Parts of a world -/

/-- A callable whose body has no positions. -/
def Callable.bare : Callable → Callable
  | .closure params body n => .closure params (bareBlock body) n
  | c => c

/-- An entry of a function or method table without positions. -/
def Overload.bare (o : Overload) : Overload := ⟨o.ret, o.callable.bare⟩

/-- A function or method table without positions. -/
def bareTable (table : Table Signature Overload) : Table Signature Overload :=
  table.map fun (s, o) => (s, o.bare)

/-- A scope without positions. -/
def Scope.bare (c : Scope) : Scope := { c with functions := bareTable c.functions }

/-- Scopes without positions. -/
def Scopes.bare (s : Scopes) : Scopes := ⟨s.nodes.map Scope.bare⟩

/-- A type without positions. -/
def Descriptor.bare (d : Descriptor) : Descriptor := { d with methods := bareTable d.methods }

/-- Types without positions. -/
def Types.bare (ts : Types) : Types := ⟨ts.entries.map Descriptor.bare⟩

/-- A world without positions. -/
def World.bare (w : World) : World := { w with scopes := w.scopes.bare, types := w.types.bare }

/-- A method that was found, without positions. -/
def MethodEntry.bare (m : MethodEntry) : MethodEntry := ⟨m.inheritedFrom, m.overload.bare⟩

/-- A callable that was found, without positions. -/
def Resolved.bare (r : Resolved) : Resolved := ⟨r.overload.bare, r.receiver⟩

/-- What a plain call stands for, without positions. -/
def Target.bare : Target → Target
  | .function o => .function o.bare
  | .construct t => .construct t
  | .constructWith t o => .constructWith t o.bare

theorem find?_bareTable (table : Table Signature Overload) (s : Signature) :
    (bareTable table).find? s = (table.find? s).map Overload.bare :=
  Table.find?_map table Overload.bare s

theorem bareTable_insert (table : Table Signature Overload) (s : Signature) (o : Overload) :
    bareTable (table.insert s o) = (bareTable table).insert s o.bare :=
  Table.map_insert table Overload.bare s o

theorem Overload.bare_ofFunction (d : FuncDef) (n : ScopeId) (ret : String) :
    (Overload.ofFunction d n ret).bare = .ofFunction d.bare n ret := by
  cases d
  rfl

theorem Overload.bare_ofMethod (d : FuncDef) (n : ScopeId) (ret : String) :
    (Overload.ofMethod d n ret).bare = .ofMethod d.bare n ret := by
  cases d
  rfl

theorem methodTable_bare (n : ScopeId) (methods : List FuncDef) :
    methodTable n (bareMethods methods) = bareTable (methodTable n methods) := by
  let insert (table : Table Signature Overload) (m : FuncDef) : Table Signature Overload :=
    table.insert (.method m.name (m.params.map Param.type)) (.ofMethod m n m.returnType)
  have hfold (table : Table Signature Overload) :
      (bareMethods methods).foldl insert (bareTable table) =
        bareTable (methods.foldl insert table) := by
    induction methods generalizing table with
    | nil => rfl
    | cons m rest ih =>
      rw [bareMethods, List.foldl_cons, List.foldl_cons, ← ih]
      simp only [insert, bareTable_insert, Overload.bare_ofMethod, FuncDef.name_bare,
        FuncDef.params_bare, FuncDef.returnType_bare]
  exact hfold []

/-! ## Scopes -/

namespace Scopes

variable (s : Scopes) (n : ScopeId)

theorem get_bare : s.bare.get n = (s.get n).bare := by
  rw [get_eq, get_eq, bare, Array.getElem?_map]
  cases s.nodes[n]? <;> rfl

theorem path_bare : s.bare.path n = s.path n := by
  rw [path, path, get_bare]
  rfl

theorem next_bare : s.bare.next = s.next := Array.size_map

theorem bare_openScope (enclosing : List ScopeId) :
    (s.openScope enclosing).bare = s.bare.openScope enclosing := by
  rw [openScope, openScope, bare, bare, Array.map_push]
  rfl

theorem bare_modify {f g : Scope → Scope} (h : ∀ c, (f c).bare = g c.bare) :
    (s.modify n f).bare = s.bare.modify n g := by
  rw [modify, modify, bare, bare, mk.injEq]
  refine Array.ext (by simp) fun i hi hi' => ?_
  simp only [Array.getElem_map, Array.getElem_modify]
  split
  · exact h _
  · rfl

theorem lookup_bare {κ α : Type} [DecidableEq κ] {table : Scope → Table κ α} {f : α → α}
    (h : ∀ (c : Scope) (key : κ), (table c.bare).find? key = ((table c).find? key).map f)
    (key : κ) : lookup table s.bare n key = (lookup table s n key).map f := by
  rw [lookup, lookup, path_bare]
  induction s.path n with
  | nil => rfl
  | cons m rest ih =>
    rw [List.findSome?_cons, List.findSome?_cons, get_bare, h, ih]
    cases (table (s.get m)).find? key <;> rfl

theorem findVariable_bare (name : String) : s.bare.findVariable n name = s.findVariable n name := by
  rw [findVariable, findVariable, lookupVariable,
    lookup_bare s n (f := id) (fun _ _ => Option.map_id_apply.symm), Option.map_id_apply]

theorem lookupType_bare (name : String) : s.bare.lookupType n name = s.lookupType n name := by
  rw [lookupType, lookup_bare s n (f := id) (fun _ _ => Option.map_id_apply.symm),
    Option.map_id_apply]

theorem findType_bare (name : String) : s.bare.findType n name = s.findType n name := by
  rw [findType, findType, lookupType_bare]

theorem findFunction_bare (signature : Signature) :
    s.bare.findFunction n signature = (s.findFunction n signature).map Overload.bare := by
  rw [findFunction, findFunction, lookupFunction,
    lookup_bare s n (fun c => find?_bareTable c.functions)]
  cases lookup Scope.functions s n signature <;> rfl

end Scopes

/-! ## Types -/

namespace Types

variable (ts : Types) (t : TypeId)

theorem get_bare : ts.bare.get t = (ts.get t).bare := by
  rw [get_eq, get_eq, bare, Array.getElem?_map]
  cases ts.entries[t]? <;> rfl

theorem name_bare : ts.bare.name t = ts.name t := by
  rw [name, get_bare]
  rfl

theorem next_bare : ts.bare.next = ts.next := Array.size_map

theorem bare_add (d : Descriptor) : (ts.add d).bare = ts.bare.add d.bare := by
  rw [add, add, bare, bare, Array.map_push]

theorem ownMethod?_bare (s : Signature) :
    ts.bare.ownMethod? t s = (ts.ownMethod? t s).map Overload.bare := by
  rw [ownMethod?, get_bare]
  exact find?_bareTable _ s

theorem attrTypeWithin_bare (attr : String) (depth : Nat) :
    ts.bare.attrTypeWithin attr depth t = ts.attrTypeWithin attr depth t := by
  induction depth generalizing t with
  | zero => rfl
  | succ depth ih =>
    rw [attrTypeWithin, attrTypeWithin, get_bare, funext ih]
    rfl

theorem attrType?_bare (attr : String) : ts.bare.attrType? t attr = ts.attrType? t attr := by
  rw [attrType?, attrTypeWithin_bare]
  exact congrArg (ts.attrTypeWithin attr · t) ts.next_bare

theorem defaultsWithin_bare (depth : Nat) :
    ts.bare.defaultsWithin depth t = ts.defaultsWithin depth t := by
  induction depth generalizing t with
  | zero => rfl
  | succ depth ih =>
    rw [defaultsWithin, defaultsWithin, get_bare, funext ih]
    rfl

theorem blank_bare : ts.bare.blank t = ts.blank t := by
  rw [blank, blank, defaults, defaultsWithin_bare]
  exact congrArg (fun depth => Value.object t (ts.defaultsWithin depth t)) ts.next_bare

theorem resemble_bare (s : Signature) :
    ts.Resemble ts.bare s (Prod.map id Overload.bare) id Eq where
  owner hit hit' h := by
    rw [name_bare]
    have howner := congrArg Prod.fst h
    exact congrArg ts.name howner
  name t t' h := by rw [h, name_bare]
  parents t t' h := by
    rw [h, get_bare]
    exact List.forall₂_eq_eq_eq ▸ rfl
  own t t' h := by
    rw [h, ownMethod?_bare, Option.map_map]
    rfl

/-- **A method of a type without positions.** -/
theorem findMethod_bare (s : Signature) :
    ts.bare.findMethod t s = (ts.findMethod t s).map (Option.map MethodEntry.bare) := by
  rw [findMethod, findMethod, ownMethod?_bare, name_bare]
  cases ts.ownMethod? t s with
  | some o => rfl
  | none =>
    have hsize : ts.bare.entries.size = ts.entries.size := ts.next_bare
    have h := (ts.resemble_bare s).inheritedWithin ts.entries.size (rfl : t = t) [ts.name t]
    rw [Option.map_id, Prod.map_id, Except.map_id] at h
    rw [hsize]
    change Except.map _ (ts.bare.inheritedWithin s _ t _) = _
    rw [← show _ = ts.bare.inheritedWithin s ts.entries.size t [ts.name t] from h]
    rcases ts.inheritedWithin s ts.entries.size t [ts.name t] with c | ⟨_ | _, visited⟩ <;> rfl

end Types

/-! ## Worlds -/

namespace World

variable (w : World) (n : ScopeId)

theorem scopes_bare : w.bare.scopes = w.scopes.bare := rfl

theorem types_bare : w.bare.types = w.types.bare := rfl

theorem bare_openChild : (w.openChild n).bare = w.bare.openChild n := by
  rw [openChild, openChild, bare, Scopes.child, Scopes.child, Scopes.bare_openScope]
  exact congrArg (fun p => { w.bare with scopes := w.scopes.bare.openScope p })
    (w.scopes.path_bare n).symm

theorem bare_declareVariable (name : String) (b : Binding) :
    (w.declareVariable n name b).bare = w.bare.declareVariable n name b :=
  congrArg (fun scopes => { w.bare with scopes }) <|
    w.scopes.bare_modify n (g := fun c => { c with vars := c.vars.insert name b }) fun _ => rfl

theorem bare_declareType (name : String) (t : TypeId) :
    (w.declareType n name t).bare = w.bare.declareType n name t :=
  congrArg (fun scopes => { w.bare with scopes }) <|
    w.scopes.bare_modify n (g := fun c => { c with types := c.types.insert name t }) fun _ => rfl

theorem bare_declareFunction (s : Signature) (o : Overload) :
    (w.declareFunction n s o).bare = w.bare.declareFunction n s o.bare :=
  congrArg (fun scopes => { w.bare with scopes }) (w.scopes.bare_modify n fun c =>
    congrArg (fun functions => { c with functions }) (bareTable_insert c.functions s o))

theorem bare_addType (d : Descriptor) : (w.addType d).bare = w.bare.addType d.bare :=
  congrArg (fun types => { w.bare with types }) (w.types.bare_add d)

theorem typeName_bare (v : Value) : w.bare.typeName v = w.typeName v := w.types.name_bare v.type

theorem datumOf_bare (p : Primitive) (v : Value) : w.bare.datumOf p v = w.datumOf p v := by
  rw [datumOf, datumOf, typeName_bare]

theorem textOf_bare (v : Value) : w.bare.textOf v = w.textOf v := by
  cases v with
  | plain => rfl
  | object t attributes => exact congrArg (fun name => s!"<{name} object>") (w.types.name_bare t)

theorem resolveName_bare (name : String) : w.bare.resolveName n name = w.resolveName n name := by
  rw [resolveName, resolveName, types_bare, scopes_bare, Scopes.findType_bare,
    funext w.types.name_bare]

theorem typeNamed_bare (defining : Option String) (name : String) :
    w.bare.typeNamed n defining name = w.typeNamed n defining name := by
  rw [typeNamed, typeNamed, resolveName_bare]

theorem bindingType_bare (b : Binding) : w.bare.bindingType b = w.bindingType b := by
  cases b with
  | static => rfl
  | value v => exact w.typeName_bare v

/-- **An operator stands for the same in a bare world.** -/
theorem resolveOperator_bare (t : TypeId) (method function : Signature) :
    w.bare.resolveOperator n t method function =
      (w.resolveOperator n t method function).map Resolved.bare := by
  rw [resolveOperator, resolveOperator, types_bare, scopes_bare, Types.findMethod_bare,
    Scopes.findFunction_bare]
  rcases w.types.findMethod t method with c | _ | m
  · rfl
  · cases w.scopes.findFunction n function <;> rfl
  · rfl

theorem resolveBinary_bare (op : BinaryOp) (left : TypeId) (right : String) :
    w.bare.resolveBinary n op left right = (w.resolveBinary n op left right).map Resolved.bare := by
  rw [resolveBinary, resolveBinary, resolveOperator_bare]
  exact congrArg (fun name => (w.resolveOperator n left _ (.binaryFunction op name right)).map _)
    (w.types.name_bare left)

theorem resolveUnary_bare (op : UnaryOp) (operand : TypeId) :
    w.bare.resolveUnary n op operand = (w.resolveUnary n op operand).map Resolved.bare := by
  rw [resolveUnary, resolveUnary, resolveOperator_bare]
  exact congrArg (fun name => (w.resolveOperator n operand _ (.unaryFunction op name)).map _)
    (w.types.name_bare operand)

theorem resolveMethod_bare (receiver : TypeId) (method : String) (args : List String) :
    w.bare.resolveMethod receiver method args =
      (w.resolveMethod receiver method args).map Resolved.bare := by
  rw [resolveMethod, resolveMethod, types_bare, Types.findMethod_bare, Types.name_bare]
  rcases w.types.findMethod receiver (.method method args) with c | _ | m <;> rfl

/-- **A plain call stands for the same in a bare world.** -/
theorem resolveCall_bare (callee : String) (args : List String) :
    w.bare.resolveCall n callee args = (w.resolveCall n callee args).map Target.bare := by
  rw [resolveCall, resolveCall, types_bare, scopes_bare, Scopes.lookupType_bare,
    Scopes.findFunction_bare]
  cases w.scopes.lookupType n callee with
  | none => cases w.scopes.findFunction n (.function callee args) <;> rfl
  | some t =>
    dsimp only
    rw [Types.ownMethod?_bare, Types.name_bare]
    split
    · rfl
    · cases w.types.ownMethod? t (.constructor args) <;> rfl

theorem returnType_bare (target : Target) :
    w.bare.returnType target.bare = w.returnType target := by
  cases target with
  | function | constructWith => rfl
  | construct t => exact w.types.name_bare t

end World

end Nominal
