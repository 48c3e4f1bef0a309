import Nominal.World

/-!
# Dispatch

Operators, calls and methods are looked up by signature, in the same way by the check and by the
execution. An operator is first a method of its left operand, then a free function. The name of a
visible type makes a call a construction.

* `Resolved`: a callable that was found, and the ancestor its receiver is viewed as.
* `Target`: what a plain call stands for.
* `World.resolveBinary`, `World.resolveUnary`, `World.resolveMethod`, `World.resolveCall`.
-/

namespace Nominal

/-- A callable that was found. -/
structure Resolved where
  overload : Overload
  /-- The ancestor that declares the method, when it is inherited. -/
  receiver : Option TypeId

namespace Resolved

/-- A method that was found. -/
def ofMethod (m : MethodEntry) : Resolved := ⟨m.overload, m.inheritedFrom⟩

/-- A free function that was found. -/
def ofFunction (o : Overload) : Resolved := ⟨o, none⟩

/-- The arguments as the callable gets them: an inherited method sees its receiver as a value of
the type that declares it. -/
def arguments (r : Resolved) : List Value → List Value
  | [] => []
  | v :: vs =>
    match r.receiver with
    | some t => v.viewAs t :: vs
    | none => v :: vs

end Resolved

/-- What a plain call stands for. -/
inductive Target where
  | function (o : Overload)
  | construct (t : TypeId)
  /-- A constructor of a type, applied to a blank instance and the arguments. -/
  | constructWith (t : TypeId) (init : Overload)

namespace World

/-- The method of a type, or else the free function, that an operator stands for. -/
def resolveOperator (w : World) (n : ScopeId) (t : TypeId) (method function : Signature) :
    Except Cause Resolved :=
  match w.types.findMethod t method with
  | .error c => .error c
  | .ok (some m) => .ok (.ofMethod m)
  | .ok none => (w.scopes.findFunction n function).map .ofFunction

/-- What a binary operator stands for. -/
def resolveBinary (w : World) (n : ScopeId) (op : BinaryOp) (left : TypeId) (right : String) :
    Except Cause Resolved :=
  w.resolveOperator n left (.binaryMethod op right) (.binaryFunction op (w.types.name left) right)

/-- What a unary operator stands for. -/
def resolveUnary (w : World) (n : ScopeId) (op : UnaryOp) (operand : TypeId) :
    Except Cause Resolved :=
  w.resolveOperator n operand (.unaryMethod op) (.unaryFunction op (w.types.name operand))

/-- What a method call stands for. -/
def resolveMethod (w : World) (receiver : TypeId) (method : String) (args : List String) :
    Except Cause Resolved :=
  let s := Signature.method method args
  match w.types.findMethod receiver s with
  | .error c => .error c
  | .ok (some m) => .ok (.ofMethod m)
  | .ok none => .error (.undefinedMethod (w.types.name receiver) s)

/-- What a plain call stands for. Constructors are not inherited. -/
def resolveCall (w : World) (n : ScopeId) (callee : String) (args : List String) :
    Except Cause Target :=
  match w.scopes.lookupType n callee with
  | some t =>
    if args.isEmpty then .ok (.construct t)
    else
      let s := Signature.constructor args
      match w.types.ownMethod? t s with
      | some o => .ok (.constructWith t o)
      | none => .error (.undefinedMethod (w.types.name t) s)
  | none => (w.scopes.findFunction n (.function callee args)).map .function

/-- The declared return type of what a plain call stands for. -/
def returnType (w : World) : Target → String
  | .function o => o.ret
  | .construct t => w.types.name t
  | .constructWith _ o => o.ret

end World

end Nominal
