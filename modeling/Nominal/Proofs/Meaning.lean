import Nominal.Proofs.Aftermath
import Nominal.Proofs.Forgetting
import Nominal.Proofs.NameResolution
import Nominal.Proofs.Native

/-!
# Meaning without positions

Positions serve messages only. Two programs that differ in nothing but positions pass the check with
the same type, end in the same way and print the same, and an error of one is an error of the other
at another position.

* `Effect.meaning`, `Run.meaning`: what can be seen of a step, but for the position of its error.
* `check_meaning`, `execute_meaning`: the meaning of a program in worlds that differ in positions.
* **`meaning_of_bare_eq`**: programs that differ in positions only, on fresh interpreters.
-/

namespace Nominal

open Interpreter (root start)

variable {α ν : Type}

/-! ## Meaning -/

/-- What can be seen of a step: its result, or else the cause of its error, and the output. -/
def Effect.meaning (m : Effect α) (w : World) : Except Cause α × Output :=
  ((m w).1.mapError EvalError.cause, (m w).2.output)

/-- What can be seen of a run: the view of its result, or else the cause of its error, and the
output. There is nothing to see of a run that does not end. -/
def Run.meaning (view : Types → α → ν) (m : Run α) (w : World) :
    Option (Except Cause ν × Output) :=
  (m.seen view w).map (Prod.map (Except.mapError EvalError.cause) id)

mutual

theorem Value.view_bare (ts : Types) (v : Value) : v.view ts.bare = v.view ts := by
  match v with
  | .plain t l => rw [Value.view, Value.view, ts.name_bare]
  | .object t attributes =>
    rw [Value.view, Value.view, ts.name_bare, viewAttributes_bare ts attributes]

theorem viewAttributes_bare (ts : Types) (attributes : List (String × Value)) :
    viewAttributes ts.bare attributes = viewAttributes ts attributes := by
  match attributes with
  | [] => rfl
  | (name, v) :: rest =>
    rw [viewAttributes, viewAttributes, v.view_bare ts, viewAttributes_bare ts rest]

end

theorem Flow.view_bare (ts : Types) (f : Flow) : f.view ts.bare = f.view ts := by
  cases f with
  | returns value =>
    rw [Flow.view, Flow.view, funext (Value.view_bare ts)]
  | normal | breakLoop | continueLoop => rfl

theorem Effect.Forgets.meaning {m m' : Effect α} (h : m.Forgets id m') (w : World) :
    m'.meaning w.bare = m.meaning w := by
  rw [Effect.meaning, Effect.meaning, h w]
  rcases m w with ⟨e | a, w'⟩ <;> rfl

theorem Run.Forgets.meaning {view : Types → α → ν} (hview : ∀ ts a, view ts.bare a = view ts a)
    {m m' : Run α} (h : m.Forgets id m') (w : World) :
    m'.meaning view w.bare = m.meaning view w := by
  rw [Run.meaning, Run.meaning, Run.seen, Run.seen, h w]
  rcases m w with _ | ⟨e | a, w'⟩
  · rfl
  · rfl
  · exact congrArg (fun v => some ((.ok v : Except Cause ν), w'.output)) (hview w'.types a)

/-! ## Programs that differ in positions -/

section Programs

variable {p q : Block} (h : bareBlock p = bareBlock q)

include h

theorem check_meaning {w w' : World} (hw : w.bare = w'.bare) :
    (Interpreter.check p).meaning w = (Interpreter.check q).meaning w' := by
  have hforgets (p : Block) :
      (Interpreter.check p).Forgets id (Interpreter.check (bareBlock p)) :=
    checkBlock_forgets p root none
  rw [← (hforgets p).meaning, ← (hforgets q).meaning, h, hw]

theorem execute_meaning {w w' : World} (hw : w.bare = w'.bare) (fuel : Nat) :
    (Interpreter.execute fuel p).meaning Flow.view w =
      (Interpreter.execute fuel q).meaning Flow.view w' := by
  have hforgets (p : Block) :
      (Interpreter.execute fuel p).Forgets id (Interpreter.execute fuel (bareBlock p)) :=
    runBlock_forgets ((runsForget fuel).execute · root) p
  rw [← (hforgets p).meaning Flow.view_bare, ← (hforgets q).meaning Flow.view_bare, h, hw]

theorem run_meaning {w w' : World} (hw : w.bare = w'.bare) (fuel : Nat) :
    (Interpreter.run fuel p).meaning Flow.view w =
      (Interpreter.run fuel q).meaning Flow.view w' := by
  have hforgets (p : Block) :
      (Interpreter.run fuel p).Forgets id (Interpreter.run fuel (bareBlock p)) :=
    .bind (.lift (checkBlock_forgets p root none)) fun _ =>
      runBlock_forgets ((runsForget fuel).execute · root) p
  rw [← (hforgets p).meaning Flow.view_bare, ← (hforgets q).meaning Flow.view_bare, h, hw]

/-- **Positions have no influence on the meaning of a program.** On fresh interpreters, programs
that differ in nothing but positions have the same check, and with every bound the execution of both
ends, with the same flow and the same output or with errors of the same cause, or that of neither
does. -/
theorem meaning_of_bare_eq (prelude : Bool) (out : Output) :
    (Interpreter.check p).meaning (start prelude out) =
        (Interpreter.check q).meaning (start prelude out) ∧
      ∀ fuel,
        (Interpreter.execute fuel p).meaning Flow.view (start prelude out) =
            (Interpreter.execute fuel q).meaning Flow.view (start prelude out) ∧
          (Interpreter.run fuel p).meaning Flow.view (start prelude out) =
            (Interpreter.run fuel q).meaning Flow.view (start prelude out) :=
  ⟨check_meaning h rfl, fun fuel => ⟨execute_meaning h rfl fuel, run_meaning h rfl fuel⟩⟩

end Programs

/-- A function that prints and then divides by zero, without positions and with different ones. The
errors have the same cause and different positions. -/
theorem meaning_of_bare_eq_division :
    ∃ p q : Block, bareBlock p = bareBlock q ∧
      (Interpreter.run 20 p).error? (start true (.captured "")) = some ⟨.divisionByZero, none⟩ ∧
      (Interpreter.run 20 q).error? (start true (.captured "")) =
        some ⟨.divisionByZero, some ⟨3, 7⟩⟩ ∧
      (Interpreter.run 20 q).meaning Flow.view (start true (.captured "")) =
        some (.error .divisionByZero, .captured "1\n") := by
  let number (n : Int64) : Expr := .literal none (.int n)
  let program (place : Nat → Option Position) : Block :=
    [.defineFunc (place 1) (.mk (place 1) "f" [] (some "Int")
      [.expr (place 2) (.call (place 2) "print" [number 1]),
      .returns (place 3) (some (.binary (place 3) .div (number 1) (number 0)))]),
    .expr (place 4) (.call (place 4) "f" [])]
  let w : World := start true (.captured "")
  let p : Block := program fun _ => none
  let q : Block := program fun line => some ⟨line, 7⟩
  have hbare : bareBlock p = bareBlock q := by rfl
  have hp : (Interpreter.run 20 p).error? w = some ⟨.divisionByZero, none⟩ := by decide +kernel
  have hq : (Interpreter.run 20 q).error? w = some ⟨.divisionByZero, some ⟨3, 7⟩⟩ := by
    decide +kernel
  have hprints : ((Interpreter.run 20 p w).map fun r => r.2.output) = some (.captured "1\n") := by
    decide +kernel
  obtain ⟨w', hrun⟩ := Run.exists_of_error? hp
  have hout : w'.output = .captured "1\n" := by
    rw [hrun] at hprints
    exact Option.some.inj hprints
  have hmeaning : (Interpreter.run 20 p).meaning Flow.view w =
      some (.error .divisionByZero, .captured "1\n") := by
    rw [Run.meaning, Run.seen_of_eq hrun, hout]
    rfl
  refine ⟨p, q, hbare, hp, hq, ?_⟩
  rw [← ((meaning_of_bare_eq hbare true (.captured "")).2 20).2]
  exact hmeaning

end Nominal
