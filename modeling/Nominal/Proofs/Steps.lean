import Mathlib.Data.List.Forall2
import Mathlib.Order.Defs.Unbundled
import Nominal.Effect

/-!
# Reading steps backwards

What a step did is read off its result: a sequence of two steps either failed in the first one, or
the second one went on from where the first one stopped.

* `Effect.bind_eq_iff`, `Run.bind_eq_some_iff`: the outcomes of a sequence of two steps.
* `Effect.Moves`, `Run.Moves`: every outcome of a step leads to a world related to the first one.
* **`Run.Moves.bind`**, **`Run.Moves.each`**: steps that move along a preorder, one after the other.
-/

namespace Nominal

variable {α β : Type}

theorem EvalError.orAt_none (e : EvalError) : e.orAt none = e := by
  rw [orAt, Option.or_none]

/-! ## Outcomes of effects -/

namespace Effect

theorem bind_eq_iff {m : Effect α} {f : α → Effect β} {w w' : World}
    {r : Except EvalError β} :
    (m >>= f) w = (r, w') ↔
      (∃ e, m w = (.error e, w') ∧ r = .error e) ∨
        ∃ a w₁, m w = (.ok a, w₁) ∧ f a w₁ = (r, w') := by
  rw [bind_apply]
  rcases m w with ⟨_ | _, _⟩ <;> grind

theorem bind_eq_ok_iff {m : Effect α} {f : α → Effect β} {w w' : World} {b : β} :
    (m >>= f) w = (.ok b, w') ↔ ∃ a w₁, m w = (.ok a, w₁) ∧ f a w₁ = (.ok b, w') := by
  rw [bind_eq_iff]
  simp

theorem pure_eq_ok_iff {a b : α} {w w' : World} :
    (pure a : Effect α) w = (.ok b, w') ↔ a = b ∧ w = w' := by
  rw [pure_apply]
  simp

theorem ask_eq_ok_iff {f : World → α} {w w' : World} {a : α} :
    ask f w = (.ok a, w') ↔ f w = a ∧ w = w' := by
  simp [ask]

theorem query_eq_ok_iff {f : World → Except Cause α} {w w' : World} {a : α} :
    query f w = (.ok a, w') ↔ f w = .ok a ∧ w = w' := by
  unfold query
  cases f w <;> simp

theorem query_eq_error_iff {f : World → Except Cause α} {w w' : World} {e : EvalError} :
    query f w = (.error e, w') ↔ ∃ c, f w = .error c ∧ e = .ofCause c ∧ w = w' := by
  unfold query
  cases f w <;> simp [eq_comm]

theorem update_eq_iff {f : World → World} {w w' : World} {r : Except EvalError Unit} :
    update f w = (r, w') ↔ r = .ok () ∧ w' = f w := by
  simp [update, eq_comm]

theorem orAt_eq_ok_iff {p : Option Position} {m : Effect α} {w w' : World} {a : α} :
    orAt p m w = (.ok a, w') ↔ m w = (.ok a, w') := by
  unfold orAt
  rcases m w with ⟨_ | _, _⟩ <;> simp

theorem orAt_eq_error_iff {p : Option Position} {m : Effect α} {w w' : World} {e : EvalError} :
    orAt p m w = (.error e, w') ↔ ∃ e₀, m w = (.error e₀, w') ∧ e = e₀.orAt p := by
  unfold orAt
  rcases m w with ⟨e₁ | a, w₁⟩
  · simp
    grind
  · simp

theorem query_bind_eq_ok_iff {q : World → Except Cause α} {f : α → Effect β} {w w' : World}
    {b : β} : (query q >>= f) w = (.ok b, w') ↔ ∃ a, q w = .ok a ∧ f a w = (.ok b, w') := by
  rw [bind_apply]
  unfold query
  cases q w <;> simp

theorem openChild_bind_eq_iff {n : ScopeId} {f : ScopeId → Effect β} {w w' : World}
    {r : Except EvalError β} :
    (openChild n >>= f) w = (r, w') ↔ f w.scopes.next (w.openChild n) = (r, w') :=
  Iff.rfl

theorem orAt_none (m : Effect α) : m.orAt none = m := by
  funext w
  unfold orAt
  rcases m w with ⟨e | a, w'⟩
  · exact congrArg (fun e => (Except.error e, w')) e.orAt_none
  · rfl

theorem fst_eq_ok_iff {m : Effect α} {w : World} {a : α} :
    (m w).1 = .ok a ↔ ∃ w', m w = (.ok a, w') :=
  ⟨fun h => ⟨(m w).2, Prod.ext h rfl⟩, fun ⟨_, h⟩ => congrArg Prod.fst h⟩

@[simp] theorem fail_ne_ok {c : Cause} {w w' : World} {a : α} : fail c w ≠ (.ok a, w') := by
  simp [fail, throw]

theorem exists_of_toOption {m : Effect α} {w : World} {a : α} (h : (m w).1.toOption = some a) :
    ∃ w', m w = (.ok a, w') := by
  rcases hr : m w with ⟨e | b, w'⟩
  · rw [hr] at h
    cases h
  · rw [hr] at h
    obtain rfl : b = a := Option.some.inj h
    exact ⟨w', rfl⟩

theorem exists_ok_of_isSome {m : Effect α} {w : World}
    (h : (m w).1.toOption.isSome) : ∃ a w', m w = (.ok a, w') := by
  obtain ⟨a, ha⟩ := Option.isSome_iff_exists.1 h
  exact ⟨a, exists_of_toOption ha⟩

end Effect

/-! ## Outcomes of runs -/

namespace Run

theorem bind_eq_some_iff {m : Run α} {f : α → Run β} {w w' : World} {r : Except EvalError β} :
    (m >>= f) w = some (r, w') ↔
      (∃ e, m w = some (.error e, w') ∧ r = .error e) ∨
        ∃ a w₁, m w = some (.ok a, w₁) ∧ f a w₁ = some (r, w') := by
  rw [bind_apply]
  rcases m w with _ | ⟨_ | _, _⟩ <;> grind

/-- Steps of an effect are steps of a run. -/
theorem lift_bind (m : Effect α) (f : α → Effect β) :
    (liftM (m >>= f) : Run β) = (liftM m : Run α) >>= fun a => (liftM (f a) : Run β) := by
  funext w
  have hm : (liftM m : Run α) w = some (m w) := rfl
  change some ((m >>= f) w) = ((liftM m : Run α) >>= fun a => (liftM (f a) : Run β)) w
  rw [Run.bind_apply, Effect.bind_apply, hm]
  rcases m w with ⟨_ | _, _⟩ <;> rfl

theorem pure_eq_some_iff {a : α} {w w' : World} {r : Except EvalError α} :
    (pure a : Run α) w = some (r, w') ↔ r = .ok a ∧ w' = w := by
  rw [pure_apply]
  simp [eq_comm]

theorem lift_eq_some_iff {m : Effect α} {w w' : World} {r : Except EvalError α} :
    (liftM m : Run α) w = some (r, w') ↔ m w = (r, w') := by
  change some (m w) = some (r, w') ↔ _
  exact Option.some_inj

theorem orAt_eq_some_iff {p : Option Position} {m : Run α} {w w' : World}
    {r : Except EvalError α} :
    orAt p m w = some (r, w') ↔ ∃ r₀, m w = some (r₀, w') ∧ r = r₀.mapError (·.orAt p) := by
  unfold orAt
  rcases m w with _ | ⟨e | a, w₁⟩
  · simp
  · constructor
    · intro h
      cases h
      exact ⟨.error e, rfl, rfl⟩
    · rintro ⟨r₀, h, rfl⟩
      cases h
      rfl
  · constructor
    · intro h
      cases h
      exact ⟨.ok a, rfl, rfl⟩
    · rintro ⟨r₀, h, rfl⟩
      cases h
      rfl

theorem orAt_none (m : Run α) : m.orAt none = m := by
  funext w
  unfold orAt
  rcases m w with _ | ⟨e | a, w'⟩
  · rfl
  · exact congrArg (fun e => some (Except.error e, w')) e.orAt_none
  · rfl

end Run

/-! ## Steps that move along a relation -/

namespace Effect

/-- Every outcome of the step is in a world related to the first one. -/
def Moves (R : World → World → Prop) (m : Effect α) : Prop := ∀ w r w', m w = (r, w') → R w w'

namespace Moves

variable {R S : World → World → Prop}

theorem mono {m : Effect α} (hm : m.Moves R) (h : ∀ w w', R w w' → S w w') : m.Moves S :=
  fun w r w' hw => h w w' (hm w r w' hw)

theorem bind_eq_ok_iff {m : Effect α} (hm : m.Moves Eq) {f : α → Effect β} {w w' : World} {b : β} :
    (m >>= f) w = (.ok b, w') ↔ ∃ a, m w = (.ok a, w) ∧ f a w = (.ok b, w') := by
  rw [Effect.bind_eq_ok_iff]
  constructor
  · rintro ⟨a, w₁, ha, hf⟩
    obtain rfl := hm w _ w₁ ha
    exact ⟨a, ha, hf⟩
  · rintro ⟨a, ha, hf⟩
    exact ⟨a, w, ha, hf⟩

theorem update {f : World → World} (h : ∀ w, R w (f w)) : (Effect.update f).Moves R := by
  intro w r w' hw
  rw [update_eq_iff] at hw
  rw [hw.2]
  exact h w

theorem bind [IsTrans World R] {m : Effect α} {f : α → Effect β} (hm : m.Moves R)
    (hf : ∀ a, (f a).Moves R) : (m >>= f).Moves R := by
  intro w r w' h
  rw [bind_eq_iff] at h
  obtain ⟨e, h, -⟩ | ⟨a, w₁, h₁, h₂⟩ := h
  · exact hm w _ w' h
  · exact IsTrans.trans w w₁ w' (hm w _ w₁ h₁) (hf a w₁ r w' h₂)

theorem orAt {m : Effect α} (p : Option Position) (hm : m.Moves R) : (m.orAt p).Moves R := by
  intro w r w' h
  cases r with
  | ok a => exact hm w _ w' (orAt_eq_ok_iff.1 h)
  | error e =>
    obtain ⟨e₀, h₀, -⟩ := orAt_eq_error_iff.1 h
    exact hm w _ w' h₀

variable [Std.Refl R]

theorem pure (a : α) : (Pure.pure a : Effect α).Moves R := by
  intro w r w' h
  cases h
  exact Std.Refl.refl w

theorem fail (c : Cause) : (Effect.fail c : Effect α).Moves R := by
  intro w r w' h
  cases h
  exact Std.Refl.refl w

theorem ask (f : World → α) : (Effect.ask f).Moves R := by
  intro w r w' h
  cases h
  exact Std.Refl.refl w

theorem query (f : World → Except Cause α) : (Effect.query f).Moves R := by
  intro w r w' h
  cases r with
  | ok a => rw [← (query_eq_ok_iff.1 h).2]; exact Std.Refl.refl w
  | error e =>
    obtain ⟨c, -, -, rfl⟩ := query_eq_error_iff.1 h
    exact Std.Refl.refl w

theorem of_eq {m : Effect α} (hm : m.Moves Eq) : m.Moves R :=
  hm.mono fun w _ hw => hw ▸ Std.Refl.refl w

theorem each [IsTrans World R] {f : α → Effect β} (hf : ∀ a, (f a).Moves R) :
    ∀ as : List α, (Effect.each f as).Moves R
  | [] => pure _
  | a :: as => bind (hf a) fun _ => bind (each hf as) fun _ => pure _

theorem of_each {f : α → Effect β} {w w' : World} (hf : ∀ a, (f a).Moves Eq)
    {as : List α} {bs : List β} (h : Effect.each f as w = (.ok bs, w')) :
    List.Forall₂ (fun a b => f a w = (.ok b, w)) as bs := by
  induction as generalizing bs w' with
  | nil =>
    obtain ⟨rfl, -⟩ := pure_eq_ok_iff.1 h
    exact .nil
  | cons a as ih =>
    obtain ⟨b, hb, h₁⟩ := (hf a).bind_eq_ok_iff.1 h
    obtain ⟨bs', hbs, h₂⟩ := (each hf as).bind_eq_ok_iff.1 h₁
    obtain ⟨rfl, -⟩ := pure_eq_ok_iff.1 h₂
    exact .cons hb (ih hbs)

end Moves

end Effect

namespace Run

/-- Every outcome of the run is in a world related to the first one. -/
def Moves (R : World → World → Prop) (m : Run α) : Prop :=
  ∀ w r w', m w = some (r, w') → R w w'

namespace Moves

variable {R S : World → World → Prop}

theorem mono {m : Run α} (hm : m.Moves R) (h : ∀ w w', R w w' → S w w') : m.Moves S :=
  fun w r w' hw => h w w' (hm w r w' hw)

theorem exhausted : (Run.exhausted : Run α).Moves R := fun _ _ _ h => by cases h

theorem lift {m : Effect α} (hm : m.Moves R) : (liftM m : Run α).Moves R :=
  fun w r w' h => hm w r w' (lift_eq_some_iff.1 h)

theorem bind [IsTrans World R] {m : Run α} {f : α → Run β} (hm : m.Moves R)
    (hf : ∀ a, (f a).Moves R) : (m >>= f).Moves R := by
  intro w r w' h
  rw [bind_eq_some_iff] at h
  obtain ⟨e, h, -⟩ | ⟨a, w₁, h₁, h₂⟩ := h
  · exact hm w _ w' h
  · exact IsTrans.trans w w₁ w' (hm w _ w₁ h₁) (hf a w₁ r w' h₂)

theorem orAt {m : Run α} (p : Option Position) (hm : m.Moves R) : (m.orAt p).Moves R := by
  intro w r w' h
  obtain ⟨r₀, h₀, -⟩ := orAt_eq_some_iff.1 h
  exact hm w r₀ w' h₀

variable [Std.Refl R]

theorem pure (a : α) : (Pure.pure a : Run α).Moves R := by
  intro w r w' h
  rw [(pure_eq_some_iff.1 h).2]
  exact Std.Refl.refl w

theorem each [IsTrans World R] {f : α → Run β} (hf : ∀ a, (f a).Moves R) :
    ∀ as : List α, (Run.each f as).Moves R
  | [] => pure _
  | a :: as => bind (hf a) fun _ => bind (each hf as) fun _ => pure _

end Moves

end Run

end Nominal
