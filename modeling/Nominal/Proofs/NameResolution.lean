import Nominal.Proofs.TypeSoundness

/-!
# Names that resolve in the check and again in the execution

The declarations that the check leaves behind, and those that are made again in a captured scope,
can give a name another meaning than it had in the check. This does not happen to consistent
programs, and each of the conditions on them is needed.

* **`consistent_names_resolve`**: in a consistent program every name resolves again.
* `Inconsistent.breaking`: for each condition a program that breaks just this one.
* **`Condition.needed`**: these programs pass the check, and then a name does not resolve.
-/

namespace Nominal

/-- **In consistent programs names that resolved in the check resolve again.** The execution of a
consistent program that has passed the check does not fail for its names or types. -/
theorem consistent_names_resolve {program : Block} (h : Consistent program) {out : Output}
    {type : Option String} {w w' : World}
    (hcheck : Interpreter.check program (Interpreter.start true out) = (.ok type, w)) (fuel : Nat)
    {e : EvalError} (hrun : Interpreter.execute fuel program w = some (.error e, w')) :
    e.cause.category ≠ .nameResolution ∧ e.cause.category ≠ .typeConflict := by
  obtain ⟨M', -, -, hruntime, -⟩ := Interpreter.execute_gives h hcheck fuel _ w' hrun
  rw [hruntime]
  exact ⟨nofun, nofun⟩

/-- The error that a run ends with. -/
def Run.error? {α : Type} (m : Run α) (w : World) : Option EvalError :=
  match m w with
  | some (.error e, _) => some e
  | _ => none

theorem Run.exists_of_error? {α : Type} {m : Run α} {w : World} {e : EvalError}
    (h : m.error? w = some e) : ∃ w', m w = some (.error e, w') := by
  unfold error? at h
  split at h
  · next w' heq =>
    cases h
    exact ⟨w', heq⟩
  · cases h

/-- A variable gets another type before a function captures it, and the function divides by zero. -/
theorem consistent_names_resolve_redeclared :
    ∃ program type w e w', Consistent program ∧
      Interpreter.check program (Interpreter.start true (.captured "")) = (.ok type, w) ∧
      Interpreter.execute 20 program w = some (.error e, w') ∧
      e.cause.category ≠ .nameResolution ∧ e.cause.category ≠ .typeConflict := by
  let program : Block :=
    [.declareVar none "x" "String" (some (.literal none (.string "a"))),
    .declareVar none "x" "Int" (some (.literal none (.int 0))),
    .defineFunc none (.mk none "f" [] (some "Int")
      [.returns none (some (.binary none .div (.literal none (.int 1)) (.var none "x")))]),
    .expr none (.call none "f" [])]
  let start : World := Interpreter.start true (.captured "")
  have hok : (Interpreter.check program start).1.toOption.isSome := by decide +kernel
  have hfails : Run.error? (Interpreter.execute 20 program) (Interpreter.check program start).2 =
      some (.ofCause .divisionByZero) := by decide +kernel
  obtain ⟨type, w, hcheck⟩ := Effect.exists_ok_of_isSome hok
  rw [hcheck] at hfails
  obtain ⟨w', hrun⟩ := Run.exists_of_error? hfails
  have hsteady : Condition.steady.Holds program := by
    simp [Condition.Holds, program, blockSteady, Stmt.Steady, Stmt.Respects, FuncDef.Steady,
      Stmt.defines, Stmt.parts, Stmt.isDefinition, Vars.none]
  have hevident : ∀ c ∈ Condition.all, c ≠ .steady → c.Evident program := by decide +kernel
  have hconsistent : Consistent program := by
    intro c
    by_cases hc : c = .steady
    · rw [hc]
      exact hsteady
    · exact (hevident c c.mem_all hc).holds
  exact ⟨program, type, w, _, w', hconsistent, hcheck, hrun,
    consistent_names_resolve hconsistent hcheck 20 hrun⟩

/-! ## Inconsistent programs -/

namespace Inconsistent

/-- A function without parameters. -/
def function (name ret : String) (body : Block) : Stmt :=
  .defineFunc none (.mk none name [] (some ret) body)

/-- A sum with one as the second summand. -/
def plusOne (e : Expr) : Expr := .binary none .add e (.literal none (.int 1))

/-- The statement that calls a function without parameters. -/
def run (name : String) : Stmt := .expr none (.call none name [])

/-- A captured variable gets another type. -/
def unsteady : Block :=
  [.declareVar none "x" "Int" (some (.literal none (.int 1))),
  function "f" "Int" [.returns none (some (plusOne (.var none "x")))],
  .declareVar none "x" "String" none,
  run "f"]

/-- A type is defined again without its attribute. -/
def redefinedType : Block :=
  [.defineType none (.mk "T" [] [⟨"a", "Int", none⟩] []),
  function "f" "Int"
    [.declareVar none "t" "T" none, .returns none (some (.attr none (.var none "t") "a"))],
  .defineType none (.mk "T" [] [] []),
  run "f"]

/-- A type gets the name of a builtin type. -/
def builtinName : Block :=
  [function "f" "Int" [.returns none (some (plusOne (.literal none (.int 1))))],
  .defineType none (.mk "Int" [] [] []),
  run "f"]

/-- A type gets the name of a function. Its definition comes last, but the check leaves it there,
and so the call of the function constructs an object. -/
def functionName : Block :=
  [function "f" "Int" [.returns none (some (.literal none (.int 1)))],
  .expr none (plusOne (.call none "f" [])),
  .defineType none (.mk "f" [] [] [])]

/-- An attribute has another type in a child than in its parent, whose method reads it. -/
def attributeOfTwoTypes : Block :=
  [.defineType none (.mk "A" [] [⟨"a", "Int", none⟩] [.mk none "m" [] (some "Int")
    [.returns none (some (plusOne (.attr none (.var none "this") "a")))]]),
  .defineType none (.mk "B" ["A"] [⟨"a", "String", none⟩] []),
  .declareVar none "b" "B" none,
  .expr none (.methodCall none (.var none "b") "m" [])]

/-- A function is defined again with another return type. -/
def redefinedFunction : Block :=
  [function "f" "Int" [.returns none (some (.literal none (.int 1)))],
  function "g" "Int" [.returns none (some (plusOne (.call none "f" [])))],
  function "f" "String" [.returns none (some (.literal none (.string "a")))],
  run "g"]

/-- A function of the prelude is defined again. Its definition comes last, but the check leaves it
there, with the type that the check has built and that has no default attributes. -/
def redefinedPrint : Block :=
  [.expr none (.call none "print" [.literal none (.int 1)]),
  .defineType none (.mk "T" [] [⟨"a", "Int", none⟩] []),
  .defineFunc none (.mk none "print" [⟨"x", "Int"⟩] none
    [.declareVar none "t" "T" none, .expr none (.attr none (.var none "t") "a")])]

/-- A program passes the check of a fresh interpreter, and its execution fails there for a name. -/
def Fails (program : Block) : Prop :=
  ∃ type w e w', Interpreter.check program (Interpreter.start true (.captured "")) = (.ok type, w) ∧
    Interpreter.execute 20 program w = some (.error e, w') ∧ e.cause.category = .nameResolution

theorem Fails.of_error? {program : Block} {w : World}
    (hw : Interpreter.start true (.captured "") = w)
    (hok : (Interpreter.check program w).1.toOption.isSome)
    (he : (Run.error? (Interpreter.execute 20 program) (Interpreter.check program w).2).any
      fun e => e.cause.category = .nameResolution) : Fails program := by
  subst hw
  obtain ⟨type, w, hcheck⟩ := Effect.exists_ok_of_isSome hok
  rw [hcheck] at he
  obtain ⟨e, he, hc⟩ := (Option.any_eq_true ..).1 he
  obtain ⟨w', hrun⟩ := Run.exists_of_error? he
  exact ⟨type, w, e, w', hcheck, hrun, of_decide_eq_true hc⟩

/-- A program that breaks just one condition. -/
def breaking : Condition → Block
  | .steady => unsteady
  | .types => redefinedType
  | .notBuiltin => builtinName
  | .apart => functionName
  | .attributes => attributeOfTwoTypes
  | .functions => redefinedFunction
  | .prelude => redefinedPrint

end Inconsistent

open Inconsistent

/-- **No condition on consistent programs can be left out.** For each of them there is a program
that satisfies all the others, passes the check and then fails for a name. -/
theorem Condition.needed (c : Condition) :
    (∀ c' ≠ c, c'.Holds (breaking c)) ∧ Fails (breaking c) := by
  constructor
  · have hevident : ∀ c ∈ all, ∀ c' ∈ all, c' ≠ c → c'.Evident (breaking c) := by decide +kernel
    intro c' hc
    exact (hevident c c.mem_all c' c'.mem_all hc).holds
  · let start : World := Interpreter.start true (.captured "")
    have hok : ∀ c ∈ all, (Interpreter.check (breaking c) start).1.toOption.isSome := by
      decide +kernel
    have he : ∀ c ∈ all, (Run.error? (Interpreter.execute 20 (breaking c))
        (Interpreter.check (breaking c) start).2).any
          fun e => e.cause.category = .nameResolution := by
      decide +kernel
    exact .of_error? rfl (hok c c.mem_all) (he c c.mem_all)

/-- The type whose definition comes last hides the function of its name from the start. -/
theorem functionName_fails :
    ∃ type w e w',
      Interpreter.check functionName (Interpreter.start true (.captured "")) = (.ok type, w) ∧
      Interpreter.execute 20 functionName w = some (.error e, w') ∧
      e.cause.category = .nameResolution :=
  (Condition.needed .apart).2

end Nominal
