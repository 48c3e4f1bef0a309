import Nominal.Effect
import Nominal.Arithmetic.Operators

/-!
# Natives

Functions that are not written in the language: the operations of the prelude and the functions of
the host. Their results are of the types that the caller's scope knows under the builtin names.

* `Builtin.run`: an operation of the prelude applied to arguments.
* `hostCall`: a function of the host applied to arguments.
-/

namespace Nominal

open Effect (ask query update fail plain)

/-- The only argument of an operation. -/
def operand : List Value → Except Cause Value
  | [v] => .ok v
  | args => .error (.arityMismatch 1 args.length)

/-- The two arguments of an operation. -/
def operands : List Value → Except Cause (Value × Value)
  | [v, u] => .ok (v, u)
  | args => .error (.arityMismatch 2 args.length)

namespace Builtin

/-- An operation of the prelude applied to arguments, called from scope `n`. -/
def run (b : Builtin) (n : ScopeId) (args : List Value) : Effect Value :=
  match b with
  | fresh value => plain n value
  | convert source target => do
    let (_, v) ← query fun _ => operands args
    let l ← query (·.datumOf source v)
    let r ← query fun _ => l.convert target
    plain n r
  | render => do
    let (_, v) ← query fun _ => operands args
    let text ← ask (·.textOf v)
    plain n (.string text)
  | binary type op => do
    let (v, u) ← query fun _ => operands args
    let l ← query (·.datumOf type v)
    let r ← query (·.datumOf type u)
    let result ← query fun _ => l.binary op r
    plain n result
  | unary type op => do
    let v ← query fun _ => operand args
    let l ← query (·.datumOf type v)
    let result ← query fun _ => l.unary op
    plain n result
  | print => do
    let v ← query fun _ => operand args
    let text ← ask (·.textOf v)
    update (·.writeLine text)
    plain n .none

end Builtin

/-- The state of a host function after a call. -/
def Host.advance : Host → Host
  | .counter next => .counter (next + 1)
  | .countdown left => .countdown (left - 1)
  | h => h

/-- A function of the host applied to arguments, called from scope `n`. -/
def hostCall (index : Nat) (n : ScopeId) (args : List Value) : Effect Value := do
  let h ← ask fun w => w.hosts.getD index .argumentCount
  update fun w => { w with hosts := w.hosts.modify index Host.advance }
  match h with
  | .constant v => return v
  | .argument i =>
    match args[i]? with
    | some v => return v
    | none => fail (.arityMismatch (i + 1) args.length)
  | .argumentCount => plain n (.int (Int64.ofNat args.length))
  | .counter next => plain n (.int next)
  | .countdown left => plain n (.bool (0 < left))
  | .failure c => fail c

end Nominal
