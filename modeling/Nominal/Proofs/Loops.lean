import Nominal.Proofs.Agreement
import Nominal.Proofs.Repetition

/-!
# Loops

A round of a loop changes nothing that there was before: the condition declares nothing, and the
body declares in a scope of its own. So a round that leads to another one leads to it again, and
again, and only the first round of a loop can leave it.

* `testCondition`, `runInside`, `loopRound`: the parts of a round.
* `loop_succ_eq`: a loop is a round and what follows it.
* `loopRound_repeats`: a round can be made again.
* **`loop_endless`**: a loop whose first round leads to another one does not end.
* `LoopOutcome`: the ways in which the first round leaves a loop.
* **`loop_leaves_at_once`**: a loop that ends does so in its first round.
-/

namespace Nominal

open Effect (openChild)

/-- The test of a condition. -/
def testCondition (fuel : Nat) (condition : Expr) (n : ScopeId) : Run Bool := do
  let v ← evaluate fuel condition n
  truth condition v

/-- A block in a new scope. -/
def runInside (fuel : Nat) (body : Block) (n : ScopeId) : Run Flow := do
  let inner ← openChild n
  runBlock (execute fuel · inner) body

/-- One round of a loop: a test of the condition and, if it holds, the body. -/
def loopRound (fuel : Nat) (condition : Expr) (body : Block) (n : ScopeId) : Run (Option Flow) := do
  if ← testCondition fuel condition n then
    let flow ← runInside fuel body n
    return some flow
  else return none

/-- What follows a round. -/
def afterRound (repeating : Run Flow) : Option Flow → Run Flow
  | none | some .breakLoop => pure .normal
  | some (.returns v) => pure (.returns v)
  | some .normal | some .continueLoop => repeating

/-- **A loop is a round and what follows it.** -/
theorem loop_succ_eq (fuel : Nat) (condition : Expr) (body : Block) (n : ScopeId) :
    loop (fuel + 1) condition body n =
      loopRound fuel condition body n >>= afterRound (loop fuel condition body n) := by
  rw [loop_succ, loopWith, loopRound, testCondition]
  simp only [bind_assoc]
  congr 1
  funext v
  congr 1
  funext holds
  cases holds with
  | false => rfl
  | true =>
    simp only [if_true, runInside, bind_assoc, pure_bind]
    congr 1
    funext inner
    congr 1
    funext flow
    cases flow <;> rfl

/-! ## What a round does -/

section Rounds

variable {S : Stmt → Prop} {strict : Prop} {w w₁ w' : World} {condition : Expr} {body : Block}
  {n : ScopeId}

theorem truth_eq_ok_iff {v : Value} {b : Bool} :
    truth condition v w = (.ok b, w') ↔ (∃ t, v = .plain t (.bool b)) ∧ w = w' := by
  unfold truth
  split
  · rw [Effect.pure_eq_ok_iff]
    simp
  · next v hv =>
    rw [Effect.orAt_eq_ok_iff]
    refine iff_of_false (fun h => ?_) fun ⟨⟨t, ht⟩, _⟩ => hv t b ht
    obtain ⟨_, _, -, h⟩ := Effect.bind_eq_ok_iff.1 h
    exact Effect.fail_ne_ok h

theorem truth_eq_error_iff {v : Value} {e : EvalError} :
    truth condition v w = (.error e, w') ↔ (∀ t b, v ≠ .plain t (.bool b)) ∧
      e = (EvalError.ofCause (.conditionNotBool (w.typeName v))).orAt condition.position ∧
        w = w' := by
  unfold truth
  split
  · next t b =>
    exact iff_of_false (fun h => by cases h) fun ⟨hv, _⟩ => hv t b rfl
  · next v hv =>
    constructor
    · intro h
      cases h
      exact ⟨hv, rfl, rfl⟩
    · rintro ⟨-, rfl, rfl⟩
      rfl

theorem testCondition_eq_ok_iff {k : Nat} {b : Bool} :
    testCondition k condition n w = some (.ok b, w') ↔
      ∃ t, evaluate k condition n w = some (.ok (.plain t (.bool b)), w') := by
  rw [testCondition, Run.bind_eq_some_iff]
  constructor
  · rintro (⟨e, -, he⟩ | ⟨v, w₁, hv, htruth⟩)
    · cases he
    · obtain ⟨⟨t, rfl⟩, rfl⟩ := truth_eq_ok_iff.1 (Run.lift_eq_some_iff.1 htruth)
      exact ⟨t, hv⟩
  · rintro ⟨t, hv⟩
    exact .inr ⟨_, w', hv, rfl⟩

/-- A test fails if the condition fails or has a value that is not a boolean. -/
theorem testCondition_eq_error_iff {k : Nat} {e : EvalError} :
    testCondition k condition n w = some (.error e, w') ↔
      evaluate k condition n w = some (.error e, w') ∨
        ∃ v, evaluate k condition n w = some (.ok v, w') ∧ (∀ t b, v ≠ .plain t (.bool b)) ∧
          e = (EvalError.ofCause (.conditionNotBool (w'.typeName v))).orAt condition.position := by
  rw [testCondition, Run.bind_eq_some_iff]
  constructor
  · rintro (⟨e, he, heq⟩ | ⟨v, w₁, hv, htruth⟩)
    · cases heq
      exact .inl he
    · obtain ⟨hbool, rfl, rfl⟩ := truth_eq_error_iff.1 (Run.lift_eq_some_iff.1 htruth)
      exact .inr ⟨v, hv, hbool, rfl⟩
  · rintro (he | ⟨v, hv, hbool, rfl⟩)
    · exact .inl ⟨e, he, rfl⟩
    · exact .inr ⟨v, w', hv, Run.lift_eq_some_iff.2 (truth_eq_error_iff.2 ⟨hbool, rfl, rfl⟩)⟩

theorem testCondition_within {k l : Nat} (hkl : k ≤ l) (condition : Expr) (n : ScopeId) :
    (testCondition k condition n).Within (testCondition l condition n) :=
  .bind (evaluate_within hkl condition n) fun _ => .refl _

theorem runInside_within {k l : Nat} (hkl : k ≤ l) (body : Block) (n : ScopeId) :
    (runInside k body n).Within (runInside l body n) :=
  .bind_right fun inner => runBlock_within (fun s => execute_within hkl s inner) body

theorem loopRound_within {k l : Nat} (hkl : k ≤ l) (condition : Expr) (body : Block) (n : ScopeId) :
    (loopRound k condition body n).Within (loopRound l condition body n) :=
  .bind (testCondition_within hkl condition n) fun holds => by
    cases holds with
    | false => exact .refl _
    | true => exact .bind (runInside_within hkl body n) fun _ => .refl _

theorem loopRound_keeps (fuel : Nat) (condition : Expr) (body : Block) (n : ScopeId) :
    (loopRound fuel condition body n).Moves (World.Keeps ∅) := by
  have htest : (testCondition fuel condition n).Moves (World.Keeps ∅) :=
    .bind (evaluate_keeps fuel condition n) fun v => .lift (truth_moves condition v)
  have hinside : (runInside fuel body n).Moves (World.Keeps ∅) :=
    World.Keeps.framing.openChild fun inner =>
      runBlock_moves (fun s => execute_keeps fuel s inner) body
  refine .bind htest fun holds => ?_
  cases holds with
  | false => exact .pure _
  | true => exact .bind hinside fun _ => .pure _

theorem testCondition_safe (hS : SparesBuiltins S strict) (h : w.Orderly S strict)
    (hn : n < w.scopes.next) (condition : Expr) (fuel : Nat) :
    (testCondition fuel condition n).Safe S strict w fun _ _ => True :=
  .bind ((runsSafe hS fuel).evaluate condition n h hn) fun v _ h₁ _ _ => truth_safe h₁ condition v

theorem loopRound_safe (hS : SparesBuiltins S strict) (h : w.Orderly S strict)
    (hn : n < w.scopes.next) (hbody : blockWithin S body) (fuel : Nat) :
    (loopRound fuel condition body n).Safe S strict w fun _ _ => True := by
  refine .bind (testCondition_safe hS h hn condition fuel) fun holds w₁ h₁ hg _ => ?_
  cases holds with
  | false => exact .pure h₁ trivial
  | true =>
    refine .bind (.openChild_bind h₁ (hg.scope_lt hn) fun inner w₂ h₂ hinner _ =>
      runBlock_safe (runsSafe hS fuel).execute h₂ hinner hbody) fun flow w₂ h₂ _ _ =>
        .pure h₂ trivial

theorem loopRound_follows (κ : Copying) (fuel : Nat) (condition : Expr) (n : ScopeId)
    (hbody : blockWithin (Stmt.Avoids κ.extra.types) body) :
    (loopRound fuel condition body n).Follows κ (Option.map κ.flow)
      (loopRound fuel condition body (κ.scope n)) := by
  have ih := runsFollow κ fuel
  refine .bind (.bind (ih.evaluate condition n) fun v => truth_follows condition v) fun holds => ?_
  cases holds with
  | false => exact .pure none
  | true => exact .bind (innerBlock_follows ih.execute hbody) fun flow => .pure (some flow)

/-- **A round can be made again.** -/
theorem loopRound_repeats (h : w.Orderly (Stmt.Avoids Names.none.types) strict)
    (hn : n < w.scopes.next) (fuel : Nat) :
    (loopRound fuel condition body n).Repeats (fun ts => Option.map (Flow.view ts)) w := by
  refine h.repeats (loopRound_keeps fuel condition body n) (f := fun ρ => Option.map ρ.flow)
    (fun _ _ _ hc flow => ?_) fun w₁ => ?_
  · cases flow with
    | none => rfl
    | some flow => exact congrArg some (hc.view_flow flow)
  · have hbody : blockWithin (Stmt.Avoids Names.none.types) body := fun s _ => s.avoids_none
    have hfollows := loopRound_follows (.between .none w w₁) fuel condition n hbody
    rwa [show (Copying.between .none w w₁).scope n = n from Renaming.scope_of_lt hn] at hfollows

end Rounds

/-! ## Loops that do not end -/

/-- The next round of a loop follows. -/
def Flow.goesOn : Flow → Bool
  | .normal | .continueLoop => true
  | _ => false

theorem Flow.goesOn_of_view {ts ts' : Types} {f f' : Flow} (h : f.view ts = f'.view ts') :
    f.goesOn = f'.goesOn := by
  cases f <;> cases f' <;> first | rfl | cases h

section Endless

variable {α : Type} {w w₁ w' : World} {condition : Expr} {body : Block} {n : ScopeId}

theorem Ends.of_within {m : Nat → Run α} (hm : ∀ {k l}, k ≤ l → (m k).Within (m l)) {k : Nat}
    {r : Except EvalError α} (h : m k w = some (r, w')) : Ends m w r w' :=
  ⟨k, fun _ hkl => hm hkl w _ h⟩

theorem Ends.eq_of_within {m : Nat → Run α} (hm : ∀ {k l}, k ≤ l → (m k).Within (m l)) {k : Nat}
    {r r' : Except EvalError α} (h : Ends m w r w') (hk : m k w = some (r', w₁)) :
    r' = r ∧ w₁ = w' := by
  obtain ⟨bound, hbound⟩ := h
  have hend := hbound (max bound k) (le_max_left bound k)
  rw [hm (le_max_right bound k) w _ hk] at hend
  cases hend
  exact ⟨rfl, rfl⟩

/-- **A loop whose first round leads to another one does not end.** -/
theorem loop_endless (h : w.Orderly (Stmt.Avoids Names.none.types) False)
    (hn : n < w.scopes.next) {k : Nat} {flow : Flow}
    (hround : loopRound k condition body n w = some (.ok (some flow), w₁)) (hflow : flow.goesOn)
    (fuel : Nat) : loop fuel condition body n w = none := by
  induction fuel generalizing w flow w₁ with
  | zero => rfl
  | succ fuel ih =>
    have hbody : blockWithin (Stmt.Avoids Names.none.types) body := fun s _ => s.avoids_none
    obtain ⟨hw₁, hg, -⟩ := loopRound_safe False.elim h hn hbody k _ w₁ hround
    -- the second round looks like the first one
    obtain ⟨o, text, hseen, hagain⟩ := loopRound_repeats h hn k _ w₁ hround
    rw [Run.seen_of_eq hround, Option.some_inj, Prod.mk.injEq] at hseen
    rw [← hseen.1] at hagain
    obtain ⟨⟨r, w₂⟩, hround₁, hview⟩ := Option.map_eq_some_iff.1 hagain
    rcases r with e | _ | flow₁
    · cases hview
    · cases hview
    have hflow₁ : flow₁.goesOn := by
      have hviews := Option.some.inj (Except.ok.inj (Prod.mk.inj hview).1)
      rw [Flow.goesOn_of_view hviews]
      exact hflow
    have hnone := ih hw₁ (hg.scope_lt hn) hround₁ hflow₁
    rw [loop_succ_eq, Run.bind_apply]
    rcases hfuel : loopRound fuel condition body n w with _ | ⟨r, w'⟩
    · rfl
    · have hends := Ends.of_within (fun hkl => loopRound_within hkl condition body n) hround
      obtain ⟨rfl, rfl⟩ :=
        hends.eq_of_within (fun hkl => loopRound_within hkl condition body n) hfuel
      cases flow with
      | normal | continueLoop => exact hnone
      | returns | breakLoop => cases hflow

/-! ## How loops end -/

variable {r : Except EvalError Flow}

/-- The ways in which the first round leaves a loop: the condition fails or has a value that is not a
boolean, it is false, or it is true and the body breaks the loop, returns or fails. The outcome is in
the world that this leads to. -/
inductive LoopOutcome (condition : Expr) (body : Block) (n : ScopeId) (w : World) :
    Except EvalError Flow → World → Prop
  | unvalued {e : EvalError} {w' : World}
    (hvalue : Ends (evaluate · condition n) w (.error e) w') :
    LoopOutcome condition body n w (.error e) w'
  | notBool {v : Value} {w' : World} (hvalue : Ends (evaluate · condition n) w (.ok v) w')
    (hbool : ∀ t b, v ≠ .plain t (.bool b)) :
    LoopOutcome condition body n w
      (.error ((EvalError.ofCause (.conditionNotBool (w'.typeName v))).orAt condition.position)) w'
  | skipped {t : TypeId} {w' : World}
    (hvalue : Ends (evaluate · condition n) w (.ok (.plain t (.bool false))) w') :
    LoopOutcome condition body n w (.ok .normal) w'
  | left {t : TypeId} {w₁ w' : World}
    (hvalue : Ends (evaluate · condition n) w (.ok (.plain t (.bool true))) w₁)
    (hbody : Ends (runInside · body n) w₁ (.ok .breakLoop) w') :
    LoopOutcome condition body n w (.ok .normal) w'
  | returned {t : TypeId} {w₁ w' : World} {v : Option Value}
    (hvalue : Ends (evaluate · condition n) w (.ok (.plain t (.bool true))) w₁)
    (hbody : Ends (runInside · body n) w₁ (.ok (.returns v)) w') :
    LoopOutcome condition body n w (.ok (.returns v)) w'
  | failed {t : TypeId} {e : EvalError} {w₁ w' : World}
    (hvalue : Ends (evaluate · condition n) w (.ok (.plain t (.bool true))) w₁)
    (hbody : Ends (runInside · body n) w₁ (.error e) w') :
    LoopOutcome condition body n w (.error e) w'

theorem Ends.evaluate {k : Nat} {r : Except EvalError Value}
    (h : evaluate k condition n w = some (r, w')) :
    Ends (Nominal.evaluate · condition n) w r w' :=
  .of_within (fun hkl => evaluate_within hkl condition n) h

theorem Ends.runInside {k : Nat} (h : runInside k body n w = some (r, w')) :
    Ends (Nominal.runInside · body n) w r w' :=
  .of_within (fun hkl => runInside_within hkl body n) h

/-- A round whose condition holds ends as its body. -/
theorem loopRound_of_holds {k : Nat} (htest : testCondition k condition n w = some (.ok true, w₁))
    (hbody : runInside k body n w₁ = some (r, w')) :
    loopRound k condition body n w = some (r.map some, w') := by
  refine Run.bind_eq_some_iff.2 (.inr ⟨true, w₁, htest, ?_⟩)
  cases r with
  | error e => exact Run.bind_eq_some_iff.2 (.inl ⟨e, hbody, rfl⟩)
  | ok flow => exact Run.bind_eq_some_iff.2 (.inr ⟨flow, w', hbody, rfl⟩)

theorem Ends.exists_bound {β : Type} {m : Nat → Run α} {m' : Nat → Run β} {r : Except EvalError α}
    {r' : Except EvalError β} {w₀ : World} (h : Ends m w₀ r w₁) (h' : Ends m' w r' w') :
    ∃ k, m k w₀ = some (r, w₁) ∧ m' k w = some (r', w') := by
  obtain ⟨k, hk⟩ := h
  obtain ⟨l, hl⟩ := h'
  exact ⟨max k l, hk _ (le_max_left k l), hl _ (le_max_right k l)⟩

/-- **A first round that leaves a loop ends it.** -/
theorem LoopOutcome.exists_loop (h : LoopOutcome condition body n w r w') :
    ∃ fuel, loop fuel condition body n w = some (r, w') := by
  have hstops {k : Nat} {e : EvalError}
      (hround : loopRound k condition body n w = some (.error e, w')) :
      ∃ fuel, loop fuel condition body n w = some (.error e, w') :=
    ⟨k + 1, loop_succ_eq .. ▸ Run.bind_eq_some_iff.2 (.inl ⟨e, hround, rfl⟩)⟩
  cases h with
  | unvalued hvalue =>
    obtain ⟨k, hk⟩ := hvalue
    have htest := testCondition_eq_error_iff.2 (.inl (hk k (le_refl k)))
    exact hstops (Run.bind_eq_some_iff.2 (.inl ⟨_, htest, rfl⟩))
  | notBool hvalue hbool =>
    obtain ⟨k, hk⟩ := hvalue
    have htest := testCondition_eq_error_iff.2 (.inr ⟨_, hk k (le_refl k), hbool, rfl⟩)
    exact hstops (Run.bind_eq_some_iff.2 (.inl ⟨_, htest, rfl⟩))
  | skipped hvalue =>
    obtain ⟨k, hk⟩ := hvalue
    have htest := testCondition_eq_ok_iff.2 ⟨_, hk k (le_refl k)⟩
    have hround : loopRound k condition body n w = some (.ok none, w') :=
      Run.bind_eq_some_iff.2 (.inr ⟨false, w', htest, rfl⟩)
    exact ⟨k + 1, loop_succ_eq .. ▸ Run.bind_eq_some_iff.2 (.inr ⟨none, w', hround, rfl⟩)⟩
  | left hvalue hbody | returned hvalue hbody =>
    obtain ⟨k, hvalue, hbody⟩ := hvalue.exists_bound hbody
    have hround := loopRound_of_holds (testCondition_eq_ok_iff.2 ⟨_, hvalue⟩) hbody
    exact ⟨k + 1, loop_succ_eq .. ▸ Run.bind_eq_some_iff.2 (.inr ⟨_, w', hround, rfl⟩)⟩
  | failed hvalue hbody =>
    obtain ⟨k, hvalue, hbody⟩ := hvalue.exists_bound hbody
    exact hstops (loopRound_of_holds (testCondition_eq_ok_iff.2 ⟨_, hvalue⟩) hbody)

/-- **The first round of a loop that ends leaves it.** -/
theorem loopOutcome_of_loop (h : w.Orderly (Stmt.Avoids Names.none.types) False)
    (hn : n < w.scopes.next) {fuel : Nat} (hr : loop fuel condition body n w = some (r, w')) :
    LoopOutcome condition body n w r w' := by
  cases fuel with
  | zero => cases hr
  | succ fuel =>
    have hends := hr
    rw [loop_succ_eq] at hr
    obtain ⟨e, hround, rfl⟩ | ⟨x, w₂, hround, hafter⟩ := Run.bind_eq_some_iff.1 hr
    · obtain ⟨e, htest, he⟩ | ⟨holds, w₁, htest, hround⟩ := Run.bind_eq_some_iff.1 hround
      · cases he
        obtain hvalue | ⟨v, hvalue, hbool, rfl⟩ := testCondition_eq_error_iff.1 htest
        · exact .unvalued (.evaluate hvalue)
        · exact .notBool (.evaluate hvalue) hbool
      · cases holds with
        | false => cases hround
        | true =>
          obtain ⟨t, hvalue⟩ := testCondition_eq_ok_iff.1 htest
          obtain ⟨e, hbody, he⟩ | ⟨flow, w₂, -, hround⟩ := Run.bind_eq_some_iff.1 hround
          · cases he
            exact .failed (.evaluate hvalue) (.runInside hbody)
          · cases hround
    · obtain ⟨e, -, he⟩ | ⟨holds, w₁, htest, hinside⟩ := Run.bind_eq_some_iff.1 hround
      · cases he
      · obtain ⟨t, hvalue⟩ := testCondition_eq_ok_iff.1 htest
        cases holds with
        | false =>
          cases hinside
          cases hafter
          exact .skipped (.evaluate hvalue)
        | true =>
          obtain ⟨e, -, he⟩ | ⟨flow, w₃, hbody, hflow⟩ := Run.bind_eq_some_iff.1 hinside
          · cases he
          · cases hflow
            cases flow with
            | returns v =>
              cases hafter
              exact .returned (.evaluate hvalue) (.runInside hbody)
            | breakLoop =>
              cases hafter
              exact .left (.evaluate hvalue) (.runInside hbody)
            | normal | continueLoop =>
              rw [loop_endless h hn hround rfl] at hends
              cases hends

/-- A statement that is a loop ends as the loop, its errors at the position of the statement if they
have none. -/
theorem execute_whileLoop (p : Option Position) {r : Except EvalError Flow} :
    (∃ fuel, execute fuel (.whileLoop p condition body) n w = some (r, w')) ↔
      ∃ fuel r₀, loop fuel condition body n w = some (r₀, w') ∧ r = r₀.mapError (·.orAt p) := by
  constructor
  · rintro ⟨_ | fuel, h⟩
    · cases h
    · exact ⟨fuel, Run.orAt_eq_some_iff.1 h⟩
  · rintro ⟨fuel, h⟩
    exact ⟨fuel + 1, Run.orAt_eq_some_iff.2 h⟩

end Endless

/-- **A loop that ends runs its body at most once.** In a world that programs have reached, a loop
ends if and only if its first round leaves it, and it ends in the same way, in the same world. It is
never left by a `break` or a `continue` of its own, and it does not end if its first round leads to
another one. -/
theorem loop_leaves_at_once {S : Stmt → Prop} {w : World} {n : ScopeId} (h : w.Reached S)
    (hn : n < w.scopes.next) (p : Option Position) (condition : Expr) (body : Block) :
    (∀ r w', (∃ fuel, execute fuel (.whileLoop p condition body) n w = some (r, w')) ↔
      ∃ r₀, LoopOutcome condition body n w r₀ w' ∧ r = r₀.mapError (·.orAt p)) ∧
    (∀ fuel r w', execute fuel (.whileLoop p condition body) n w = some (r, w') →
      r ≠ .ok .breakLoop ∧ r ≠ .ok .continueLoop) ∧
    ∀ t w₁ w₂ flow, Ends (evaluate · condition n) w (.ok (.plain t (.bool true))) w₁ →
      Ends (runInside · body n) w₁ (.ok flow) w₂ → flow = .normal ∨ flow = .continueLoop →
      ∀ fuel, execute fuel (.whileLoop p condition body) n w = none := by
  have hspares : SparesBuiltins (Stmt.Avoids Names.none.types) False := False.elim
  have hw := (h.mono fun s _ => s.avoids_none).orderly hspares
  have hiff (r : Except EvalError Flow) (w' : World) :
      (∃ fuel, execute fuel (.whileLoop p condition body) n w = some (r, w')) ↔
        ∃ r₀, LoopOutcome condition body n w r₀ w' ∧ r = r₀.mapError (·.orAt p) := by
    rw [execute_whileLoop]
    constructor
    · rintro ⟨fuel, r₀, hr, heq⟩
      exact ⟨r₀, loopOutcome_of_loop hw hn hr, heq⟩
    · rintro ⟨r₀, hr, heq⟩
      obtain ⟨fuel, hr⟩ := hr.exists_loop
      exact ⟨fuel, r₀, hr, heq⟩
  refine ⟨hiff, fun fuel r w' hr => ?_, fun t w₁ w₂ flow hvalue hbody hflow fuel => ?_⟩
  · obtain ⟨r₀, hout, rfl⟩ := (hiff r w').1 ⟨fuel, hr⟩
    cases hout <;> exact ⟨nofun, nofun⟩
  · obtain ⟨k, hvalue, hbody⟩ := hvalue.exists_bound hbody
    have hround := loopRound_of_holds (testCondition_eq_ok_iff.2 ⟨t, hvalue⟩) hbody
    have hgoes : flow.goesOn := by
      obtain rfl | rfl := hflow <;> rfl
    cases fuel with
    | zero => rfl
    | succ fuel =>
      have hnone := loop_endless hw hn hround hgoes fuel
      change (loop fuel condition body n).orAt p w = none
      rw [Run.orAt, hnone]

/-- The condition is a function that prints. A body that declares a variable and breaks is run once,
and a body that only declares it is run forever. -/
theorem loop_leaves_at_once_break :
    ∃ (w w' : World) (condition : Expr) (declaration : Stmt), w.Reached (fun _ => True) ∧
      Interpreter.root < w.scopes.next ∧
      LoopOutcome condition [declaration, .breakLoop none] Interpreter.root w (.ok .normal) w' ∧
      w'.output = .captured "test\n" ∧
      ∀ fuel, execute fuel (.whileLoop none condition [declaration]) Interpreter.root w = none := by
  let program : Block :=
    [.defineFunc none (.mk none "f" [] (some "Bool")
      [.expr none (.call none "print" [.literal none (.string "test")]),
      .returns none (some (.literal none (.bool true)))])]
  let condition : Expr := .call none "f" []
  let declaration : Stmt := .declareVar none "x" "Int" none
  let leaving : Stmt := .whileLoop none condition [declaration, .breakLoop none]
  let start : World := Interpreter.start true (.captured "")
  have hends : (Interpreter.execute 20 program start).any (fun r =>
      (execute 20 leaving Interpreter.root r.2).any (fun l =>
        l.1.toOption.any Flow.isNormal && l.2.output == .captured "test\n") &&
      (testCondition 20 condition Interpreter.root r.2).any fun t => t.1.toOption == some true &&
        (runInside 20 [declaration] Interpreter.root t.2).any fun b =>
          b.1.toOption.any Flow.isNormal) = true := by decide +kernel
  obtain ⟨⟨r, w⟩, hrun, hw⟩ := (Option.any_eq_true _ _).1 hends
  obtain ⟨hleaving, hw⟩ := Bool.and_eq_true_iff.1 hw
  obtain ⟨⟨l, w'⟩, hloop, hl⟩ := (Option.any_eq_true _ _).1 hleaving
  obtain ⟨hnormal, hout⟩ := Bool.and_eq_true_iff.1 hl
  obtain ⟨⟨t, w₁⟩, htest, ht⟩ := (Option.any_eq_true _ _).1 hw
  obtain ⟨htrue, hbody⟩ := Bool.and_eq_true_iff.1 ht
  obtain ⟨⟨b, w₂⟩, hbody, hb⟩ := (Option.any_eq_true _ _).1 hbody
  have hroot : Interpreter.root < start.scopes.next := by decide +kernel
  have hreached : w.Reached (fun _ => True) :=
    .run (.start true _) hroot (fun _ _ => trivial) hrun
  have hroot' : Interpreter.root < w.scopes.next :=
    lt_of_lt_of_le hroot (runBlock_moves (fun s => execute_keeps 20 s Interpreter.root) program
      start r w hrun).scopes_le
  rw [beq_iff_eq] at hout htrue
  obtain ⟨hiff, -, -⟩ :=
    loop_leaves_at_once hreached hroot' none condition [declaration, .breakLoop none]
  obtain ⟨-, -, hendless⟩ := loop_leaves_at_once hreached hroot' none condition [declaration]
  obtain ⟨l₀, houtcome, rfl⟩ := (hiff l w').1 ⟨20, hloop⟩
  rcases t with e | holds
  · cases htrue
  cases htrue
  obtain ⟨type, hvalue⟩ := testCondition_eq_ok_iff.1 htest
  rcases b with e | (_ | _ | _ | _)
  · cases hb
  · rcases l₀ with e | (_ | _ | _ | _)
    · cases hnormal
    · exact ⟨w, w', condition, declaration, hreached, hroot', houtcome, hout,
        hendless type w₁ w₂ .normal (.evaluate hvalue) (.runInside hbody) (.inl rfl)⟩
    all_goals cases hnormal
  all_goals cases hb

end Nominal
