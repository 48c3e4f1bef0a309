import Nominal.Check
import Nominal.Execution
import Nominal.Prelude

/-!
# The interpreter

* `Interpreter.start`: a world with a root scope and, if wanted, the prelude.
* `Interpreter.check`, `Interpreter.execute`, `Interpreter.run`: the two passes over a program, and
  one after the other.
-/

namespace Nominal.Interpreter

/-- The scope that programs run in. -/
def root : ScopeId := 0

/-- A world before any program has run. -/
def start (prelude : Bool) (output : Output) : World :=
  if prelude then (World.empty output).install root else World.empty output

/-- The check of a program; its result is the type that a `return` of the program gives. -/
def check (program : Block) : Effect (Option String) := checkBlock program root none

/-- The execution of a program, whether it was checked or not. -/
def execute (fuel : Nat) (program : Block) : Run Flow :=
  runBlock (Nominal.execute fuel · root) program

/-- The check of a program and, when it passes, its execution. -/
def run (fuel : Nat) (program : Block) : Run Flow := do
  let _ ← check program
  execute fuel program

end Nominal.Interpreter
