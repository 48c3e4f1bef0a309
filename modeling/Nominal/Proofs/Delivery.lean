import Nominal.Proofs.Objects

/-!
# Runs that keep all promises

A run that starts in a world in which all promises are kept ends in such a world. It may fail, but
not for the lack of a name, a type or a payload. The rules below follow the ways in which runs are
built.

* `Cause.IsFailure`: the failures that a typed program may end with.
* `Run.Gives`: every outcome of a run is a result of a certain kind or such a failure.
* **`Run.Gives.bind`**, **`Run.Gives.openChild_bind`**: one step after another, and steps in a new
  scope.
-/

namespace Nominal

/-- The failures that a typed program may end with: those of operations, but for wrong payloads and
wrong numbers of arguments. -/
def Cause.IsFailure (c : Cause) : Prop :=
  c.category = .runtime ∧ (∀ expected found, c ≠ .payloadMismatch expected found) ∧
    ∀ expected got, c ≠ .arityMismatch expected got

theorem Cause.IsArithmetic.isFailure {c : Cause} (h : c.IsArithmetic) : c.IsFailure := by
  cases h <;> exact ⟨rfl, fun _ _ => nofun, fun _ _ => nofun⟩

theorem Cause.isFailure_missingReturn (type : String) : (missingReturn type).IsFailure :=
  ⟨rfl, fun _ _ => nofun, fun _ _ => nofun⟩

variable {α β : Type}

namespace Run

/-- Every outcome of the run in `w` is in a world in which all promises are kept, old scopes outside
`D` are as before, and the result is as `Q` says unless the run has failed. -/
def Gives (G : Glossary) (D : Set ScopeId) (M : Promise) (w : World)
    (Q : Promise → World → α → Prop) (m : Run α) : Prop :=
  ∀ r w', m w = some (r, w') → ∃ M', w.Grows M D M' w' ∧ w'.Honours G M' ∧
    match r with
    | .ok a => Q M' w' a
    | .error e => e.cause.IsFailure

namespace Gives

variable {G : Glossary} {D E : Set ScopeId} {M M₁ : Promise} {w w₁ : World} {n : ScopeId}
  {Q S : Promise → World → α → Prop} {R : Promise → World → β → Prop}

theorem exhausted : (Run.exhausted : Run α).Gives G D M w Q := fun _ _ h => by cases h

theorem mono {m : Run α} (hm : m.Gives G D M w Q) (hDE : D ⊆ E)
    (hQ : ∀ M' w' a, w.Grows M D M' w' → w'.Honours G M' → Q M' w' a → S M' w' a) :
    m.Gives G E M w S := by
  intro r w' h
  obtain ⟨M', hg, hw', hr⟩ := hm r w' h
  refine ⟨M', hg.mono hDE, hw', ?_⟩
  cases r with
  | ok a => exact hQ M' w' a hg hw' hr
  | error e => exact hr

theorem pure {a : α} (h : w.Honours G M) (ha : Q M w a) :
    (Pure.pure a : Run α).Gives G D M w Q := by
  intro r w' hr
  obtain ⟨rfl, rfl⟩ := pure_eq_some_iff.1 hr
  exact ⟨M, .refl M w', h, ha⟩

theorem of_effect {m : Effect α} {a : α} (hm : m w = (.ok a, w₁)) (hg : w.Grows M D M₁ w₁)
    (h : w₁.Honours G M₁) (ha : Q M₁ w₁ a) : (liftM m : Run α).Gives G D M w Q := by
  intro r w' hr
  obtain ⟨rfl, rfl⟩ := Prod.mk.inj (hm.symm.trans (lift_eq_some_iff.1 hr))
  exact ⟨M₁, hg, h, ha⟩

theorem fail {c : Cause} (h : w.Honours G M) (hc : c.IsFailure) :
    (liftM (Effect.fail c : Effect α) : Run α).Gives G D M w Q := by
  intro r w' hr
  obtain ⟨rfl, rfl⟩ := Prod.mk.inj (lift_eq_some_iff.1 hr)
  exact ⟨M, .refl M w, h, hc⟩

theorem orAt {m : Run α} (hm : m.Gives G D M w Q) (p : Option Position) :
    (m.orAt p).Gives G D M w Q := by
  intro r w' h
  obtain ⟨r₀, h₀, rfl⟩ := orAt_eq_some_iff.1 h
  obtain ⟨M', hg, hw', hr⟩ := hm r₀ w' h₀
  refine ⟨M', hg, hw', ?_⟩
  cases r₀ with
  | ok a => exact hr
  | error e => exact hr

/-- **One step after another.** -/
theorem bind {m : Run α} {f : α → Run β} (hm : m.Gives G D M w Q)
    (hf : ∀ a M₁ w₁, w.Grows M D M₁ w₁ → w₁.Honours G M₁ → Q M₁ w₁ a → (f a).Gives G D M₁ w₁ R) :
    (m >>= f).Gives G D M w R := by
  intro r w' h
  obtain ⟨e, h₁, rfl⟩ | ⟨a, w₁, h₁, h₂⟩ := bind_eq_some_iff.1 h
  · exact hm _ w' h₁
  · obtain ⟨M₁, hg, hw₁, ha⟩ := hm _ w₁ h₁
    obtain ⟨M', hg', hw', hr⟩ := hf a M₁ w₁ hg hw₁ ha r w' h₂
    exact ⟨M', hg.trans hg', hw', hr⟩

theorem effect_bind {m : Effect α} {f : α → Run β} {a : α} (hm : m w = (.ok a, w₁))
    (hg : w.Grows M D M₁ w₁) (hf : (f a).Gives G D M₁ w₁ R) :
    ((liftM m : Run α) >>= f).Gives G D M w R := by
  intro r w' h
  obtain ⟨e, h₁, -⟩ | ⟨b, w₂, h₁, h₂⟩ := bind_eq_some_iff.1 h
  · have h₁' := hm.symm.trans (lift_eq_some_iff.1 h₁)
    cases h₁'
  · have h₁' := hm.symm.trans (lift_eq_some_iff.1 h₁)
    cases h₁'
    obtain ⟨M', hg', hw', hr⟩ := hf r w' h₂
    exact ⟨M', hg.trans hg', hw', hr⟩

theorem ask_bind {q : World → α} {f : α → Run β} (hf : (f (q w)).Gives G D M w R) :
    ((liftM (Effect.ask q) : Run α) >>= f).Gives G D M w R :=
  effect_bind rfl (.refl M w) hf

theorem query_bind {q : World → Except Cause α} {f : α → Run β} {a : α} (hq : q w = .ok a)
    (hf : (f a).Gives G D M w R) : ((liftM (Effect.query q) : Run α) >>= f).Gives G D M w R :=
  effect_bind (Effect.query_eq_ok_iff.2 ⟨hq, rfl⟩) (.refl M w) hf

/-- **Steps in a new scope leave all old scopes as they are.** -/
theorem openChild_bind {f : ScopeId → Run β} (h : w.Honours G M)
    (hf : (f w.scopes.next).Gives G {w.scopes.next} M.openChild (w.openChild n) R) :
    ((liftM (Effect.openChild n) : Run ScopeId) >>= f).Gives G ∅ M w R := by
  intro r w' hr
  obtain ⟨e, h₁, -⟩ | ⟨inner, w₁, h₁, h₂⟩ := bind_eq_some_iff.1 hr
  · cases h₁
  · cases h₁
    obtain ⟨M', hg, hw', hr⟩ := hf r w' h₂
    refine ⟨M', ⟨.of_fresh hg.toKeeps, ?_⟩, hw', hr⟩
    constructor
    · exact le_trans (Nat.le_succ _) hg.next_le
    · intro m hm _
      have hne : m ≠ w.scopes.next := ne_of_lt (h.next_eq ▸ hm)
      rw [hg.promise_eq m (lt_trans hm (Nat.lt_succ_self _)) hne,
        Promise.openChild_scopes_of_lt hm]
    · intro m hm
      have hle := hg.promise_le m (lt_trans hm (Nat.lt_succ_self _))
      rw [Promise.openChild_scopes_of_lt hm] at hle
      exact hle
    · exact hg.built

end Gives

end Run

end Nominal
