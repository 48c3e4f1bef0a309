import Nominal.World

/-!
# Effects and runs

An effect may change the world and may fail; what it changed before it failed stays changed. A run
is an effect with a bound on its depth: it has no result at all when the bound is too small.

* `Effect`, `Run`: the two kinds of steps, each a lawful monad.
* `Effect.orAt`, `Run.orAt`: a step whose error gets a position unless it has one.
* `Effect.each`, `Run.each`: a step for every member of a list, in order.
-/

namespace Nominal

/-- A step that may change the world and may fail. -/
def Effect (α : Type) : Type := World → Except EvalError α × World

/-- A step of bounded depth; there is no result when the bound is too small. -/
def Run (α : Type) : Type := World → Option (Except EvalError α × World)

variable {α β : Type}

/-! ## Effects -/

namespace Effect

/-- A step that does nothing. -/
@[inline] protected def pure (a : α) : Effect α := fun w => (.ok a, w)

/-- One step after another; an error ends them. -/
@[inline] protected def bind (m : Effect α) (f : α → Effect β) : Effect β := fun w =>
  match m w with
  | (.ok a, w) => f a w
  | (.error e, w) => (.error e, w)

instance : Monad Effect where
  pure := Effect.pure
  bind := Effect.bind

/-- A step that fails with an error. -/
def throw (e : EvalError) : Effect α := fun w => (.error e, w)

/-- A step that fails for a cause, without a position. -/
def fail (c : Cause) : Effect α := throw (.ofCause c)

/-- The answer to a question about the world. -/
@[inline] def ask (f : World → α) : Effect α := fun w => (.ok (f w), w)

/-- The answer to a question about the world, or the cause why there is none. -/
@[inline] def query (f : World → Except Cause α) : Effect α := fun w =>
  match f w with
  | .ok a => (.ok a, w)
  | .error c => (.error (.ofCause c), w)

/-- A change of the world. -/
@[inline] def update (f : World → World) : Effect Unit := fun w => (.ok (), f w)

/-- The same step, its error at the position it has or else at the given one. -/
@[inline] def orAt (p : Option Position) (m : Effect α) : Effect α := fun w =>
  match m w with
  | (.ok a, w) => (.ok a, w)
  | (.error e, w) => (.error (e.orAt p), w)

/-- A step for every member of a list, in order, and their results. -/
def each (f : α → Effect β) : List α → Effect (List β)
  | [] => pure []
  | a :: as => do
    let b ← f a
    let bs ← each f as
    return b :: bs

/-- A new scope directly inside `n`. -/
def openChild (n : ScopeId) : Effect ScopeId := fun w => (.ok w.scopes.next, w.openChild n)

/-- The visible type of a name. -/
def findType (n : ScopeId) (name : String) : Effect TypeId := query (·.scopes.findType n name)

/-- A constant as a value, of the visible type that has the builtin type's name. -/
def plain (n : ScopeId) (l : Literal) : Effect Value := do
  let t ← findType n l.primitive.name
  return .plain t l

/-- The declaration of variables in a scope, one after the other. -/
def bindAll (n : ScopeId) : List (String × Binding) → Effect Unit
  | [] => pure ()
  | (name, b) :: rest => do
    update (·.declareVariable n name b)
    bindAll n rest

theorem pure_apply (a : α) (w : World) : (pure a : Effect α) w = (.ok a, w) := rfl

theorem bind_apply (m : Effect α) (f : α → Effect β) (w : World) :
    (m >>= f) w = match m w with
      | (.ok a, w) => f a w
      | (.error e, w) => (.error e, w) := rfl

instance : LawfulMonad Effect := LawfulMonad.mk' Effect
  (by
    intro α m
    funext w
    simp only [Functor.map, Effect.bind]
    rcases m w with ⟨_ | _, _⟩ <;> rfl)
  (fun _ _ => rfl)
  (by
    intro α β γ m f g
    funext w
    simp only [bind_apply]
    rcases m w with ⟨_ | _, _⟩ <;> rfl)

end Effect

/-! ## Runs -/

namespace Run

/-- A step that does nothing. -/
@[inline] protected def pure (a : α) : Run α := fun w => some (.ok a, w)

/-- One step after another; an error ends them. -/
@[inline] protected def bind (m : Run α) (f : α → Run β) : Run β := fun w =>
  match m w with
  | none => none
  | some (.ok a, w) => f a w
  | some (.error e, w) => some (.error e, w)

instance : Monad Run where
  pure := Run.pure
  bind := Run.bind

/-- An effect as a run that always has a result. -/
@[inline] def ofEffect (m : Effect α) : Run α := fun w => some (m w)

instance : MonadLift Effect Run where
  monadLift := ofEffect

/-- The run without a result. -/
def exhausted : Run α := fun _ => none

/-- The same step, its error at the position it has or else at the given one. -/
@[inline] def orAt (p : Option Position) (m : Run α) : Run α := fun w =>
  match m w with
  | none => none
  | some (.ok a, w) => some (.ok a, w)
  | some (.error e, w) => some (.error (e.orAt p), w)

/-- A step for every member of a list, in order, and their results. -/
def each (f : α → Run β) : List α → Run (List β)
  | [] => pure []
  | a :: as => do
    let b ← f a
    let bs ← each f as
    return b :: bs

theorem pure_apply (a : α) (w : World) : (pure a : Run α) w = some (.ok a, w) := rfl

theorem bind_apply (m : Run α) (f : α → Run β) (w : World) :
    (m >>= f) w = match m w with
      | none => none
      | some (.ok a, w) => f a w
      | some (.error e, w) => some (.error e, w) := rfl

instance : LawfulMonad Run := LawfulMonad.mk' Run
  (by
    intro α m
    funext w
    simp only [Functor.map, Run.bind]
    rcases m w with _ | ⟨_ | _, _⟩ <;> rfl)
  (fun _ _ => rfl)
  (by
    intro α β γ m f g
    funext w
    simp only [bind_apply]
    rcases m w with _ | ⟨_ | _, _⟩ <;> rfl)

end Run

end Nominal
