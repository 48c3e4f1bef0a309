import Nominal.Proofs.Blindness
import Nominal.Proofs.EmptyScopeChecks
import Nominal.Proofs.EmptyScopeRuns
import Nominal.Proofs.Loops

/-!
# Chains of branches

A chain of branches means what it abbreviates: a first branch whose default block holds an `if` with
the other branches. That block has a scope of its own in which nothing is declared. So two worlds
are passed on the way from the chain to the nested form: one with an empty scope that nothing looks
at, and the same one with the other branches inside the empty scope.

* `Stmt.chain`, `Stmt.nested`: the two forms.
* **`checkFurther_fst`**, **`runFurther_seen`**: the other branches in a new scope.
* **`check_nested_iff`**: both forms have the same type.
* **`execute_nested_iff`**: both forms run in the same way.
* **`chains_are_nested`**: both passes.
-/

namespace Nominal

open Effect (query openChild)

/-- An `if` with a first branch and other ones. -/
def Stmt.chain (p : Option Position) (first : Branch) (others : List Branch)
    (default : Option Block) : Stmt :=
  .ifElse p (first :: others) default

/-- An `if` with one branch. The other ones stand in an `if` in its default block. -/
def Stmt.nested (p : Option Position) (first : Branch) (others : List Branch)
    (default : Option Block) : Stmt :=
  .ifElse p [first] (some [.ifElse none others default])

variable {α ν : Type} {w w' : World} {n : ScopeId}

/-! ## What can be seen of runs -/

section Seen

variable {m m' : Run α} {view : Types → α → ν}

/-- A run that is within another one looks like it when it ends. -/
theorem Run.Within.seen {o : Except EvalError ν × Output} (h : m.Within m')
    (ho : m.seen view w = some o) : m'.seen view w = some o := by
  obtain ⟨r, hr, rfl⟩ := Option.map_eq_some_iff.1 ho
  exact Option.map_eq_some_iff.2 ⟨r, h w r hr, rfl⟩

theorem Run.seen_orAt (p : Option Position) :
    (m.orAt p).seen view w = (m.seen view w).map (Prod.map (·.mapError (·.orAt p)) id) := by
  unfold seen orAt
  rcases m w with _ | ⟨e | a, w'⟩ <;> rfl

/-- What can be seen of runs that do the same around an empty scope. -/
theorem Run.InStep.seen {k : ScopeId} (h : m.InStep n k m') (hw : w.Aside n k w') :
    m.seen view w = m'.seen view w' := by
  unfold Run.seen
  obtain ⟨hnone, hnone'⟩ | ⟨x, v, v', hx, hx', hv⟩ := h.cases_end hw
  · rw [hnone, hnone']
  · rw [hx, hx']
    change some (x.map (view v.types), v.output) = some (x.map (view v'.types), v'.output)
    rw [hv.types, hv.output]

end Seen

/-! ## The other branches in a new scope, executed -/

section Execution

variable {fuel k l : Nat} {condition : Expr} {body : Block} {others : List Branch}
  {default : Option Block}

/-- The branches other than the first one, and the default block. -/
def runFurther (fuel : Nat) (others : List Branch) (default : Option Block) (n : ScopeId) :
    Run Flow :=
  runBranches (evaluate fuel · n) (execute fuel) n default others

/-- The same in a new scope. -/
def runFurtherInside (fuel : Nat) (others : List Branch) (default : Option Block) (n : ScopeId) :
    Run Flow := do
  let inner ← openChild n
  runFurther fuel others default inner

/-- A branch, or else another run. -/
def branchOr (fuel : Nat) (condition : Expr) (body : Block) (n : ScopeId) (other : Run Flow) :
    Run Flow := do
  if ← testCondition fuel condition n then runInside fuel body n else other

theorem runFurther_cons (fuel : Nat) (condition : Expr) (body : Block) (others : List Branch)
    (default : Option Block) (n : ScopeId) :
    runFurther fuel (.mk condition body :: others) default n =
      branchOr fuel condition body n (runFurther fuel others default n) := by
  rw [runFurther, runBranches, branchOr, testCondition, bind_assoc]
  rfl

theorem execute_chain (fuel : Nat) (p : Option Position) (n : ScopeId) :
    execute (fuel + 1) (.chain p (.mk condition body) others default) n =
      (branchOr fuel condition body n (runFurther fuel others default n)).orAt p := by
  rw [← runFurther_cons]
  rfl

theorem runBlock_singleton (step : Stmt → Run Flow) (s : Stmt) : runBlock step [s] = step s := by
  calc runBlock step [s]
      = step s >>= pure := bind_congr fun flow => by cases flow <;> rfl
    _ = step s := bind_pure _

theorem execute_nested (fuel : Nat) (p : Option Position) (n : ScopeId) :
    execute (fuel + 2) (.nested p (.mk condition body) others default) n =
      (branchOr (fuel + 1) condition body n (runFurtherInside fuel others default n)).orAt p := by
  have hinner (inner : ScopeId) :
      runBlock (execute (fuel + 1) · inner) [.ifElse none others default] =
        runFurther fuel others default inner := by
    rw [runBlock_singleton]
    exact Run.orAt_none _
  have hdefault : runFurther (fuel + 1) [] (some [.ifElse none others default]) n =
      runFurtherInside fuel others default n := by
    unfold runFurtherInside
    simp only [← hinner]
    rfl
  rw [← hdefault, ← runFurther_cons]
  rfl

theorem branchOr_within {other other' : Run Flow} (hkl : k ≤ l) (h : other.Within other') :
    (branchOr k condition body n other).Within (branchOr l condition body n other') :=
  .bind (testCondition_within hkl condition n) fun holds => by
    cases holds with
    | true => exact runInside_within hkl body n
    | false => exact h

theorem runFurther_within (hkl : k ≤ l) :
    (runFurther k others default n).Within (runFurther l others default n) :=
  runBranches_within (fun e => evaluate_within hkl e n) (execute_within hkl) n default others

theorem runFurther_follows (κ : Copying) (hκ : κ.extra = .none) (fuel : Nat)
    (others : List Branch) (default : Option Block) (n : ScopeId) :
    (runFurther fuel others default n).Follows κ κ.flow
      (runFurther fuel others default (κ.scope n)) := by
  have hwithin (body : Block) : blockWithin (Stmt.Avoids κ.extra.types) body := by
    rw [hκ]
    exact fun s _ => s.avoids_none
  have ih := runsFollow κ fuel
  exact runBranches_follows ih.execute (fun e => ih.evaluate e n) (fun _ body _ => hwithin body)
    fun body _ => hwithin body

/-- **The other branches in a new scope.** A world with one more scope is a copy of the world, and
the scope is empty. -/
theorem runFurther_seen (h : w.Orderly (Stmt.Avoids Names.none.types) False)
    (hn : n < w.scopes.next) (fuel : Nat) :
    (runFurther fuel others default n).seen Flow.view w =
      (runFurtherInside fuel others default n).seen Flow.view w := by
  change _ = (runFurther fuel others default w.scopes.next).seen Flow.view (w.openChild n)
  have hinside : (runFurther fuel others default n).seen Flow.view (w.openChild n) =
      (runFurther fuel others default w.scopes.next).seen Flow.view (w.openChild n) := by
    have ih := runsInStep n w.scopes.next fuel
    exact (runBranches_inStep ih.execute (fun e => ih.evaluate e .inner) .inner default
      others).seen (.child hn)
  rw [← hinside]
  have hgains := (World.Keeps.openChild (D := ∅) w n).gains h.scopes
  have hfollows := runFurther_follows (.between .none w (w.openChild n)) rfl fuel others default n
  rw [show (Copying.between .none w (w.openChild n)).scope n = n from
    Renaming.scope_of_lt hn] at hfollows
  obtain ⟨e, -, -, hmissing⟩ | ⟨hnone, hnone'⟩ | ⟨o, text, hseen, hseen'⟩ :=
    h.seen (f := Renaming.flow) hgains (fun _ _ _ => not_false) hfollows
      fun _ _ _ h => h.view_flow
  · exact absurd hmissing (Names.not_missing_none e.cause)
  · rw [Run.seen, Run.seen, hnone, hnone']
  · rw [hseen, hseen']
    rfl

/-- Runs that look the same look the same behind a branch. -/
theorem branchOr_seen (h : w.Orderly (Stmt.Avoids Names.none.types) False)
    (hn : n < w.scopes.next) {other other' : Run Flow}
    (hother : ∀ v : World, v.Orderly (Stmt.Avoids Names.none.types) False → n < v.scopes.next →
      other.seen Flow.view v = other'.seen Flow.view v) :
    (branchOr fuel condition body n other).seen Flow.view w =
      (branchOr fuel condition body n other').seen Flow.view w := by
  unfold Run.seen branchOr
  rw [Run.bind_apply, Run.bind_apply]
  rcases htest : testCondition fuel condition n w with _ | ⟨e | holds, v⟩
  · rfl
  · rfl
  · cases holds with
    | true => rfl
    | false =>
      obtain ⟨hv, hg, -⟩ := testCondition_safe False.elim h hn condition fuel _ v htest
      exact hother v hv (hg.scope_lt hn)

/-- **Both forms run in the same way.** -/
theorem execute_nested_iff (h : w.Orderly (Stmt.Avoids Names.none.types) False)
    (hn : n < w.scopes.next) (p : Option Position) (o : Except EvalError FlowView × Output) :
    (∃ fuel, (execute fuel (.chain p (.mk condition body) others default) n).seen Flow.view w =
        some o) ↔
      ∃ fuel, (execute fuel (.nested p (.mk condition body) others default) n).seen Flow.view w =
        some o := by
  have hseen (fuel bound : Nat) :
      ((branchOr bound condition body n (runFurther fuel others default n)).orAt p).seen
          Flow.view w =
        ((branchOr bound condition body n (runFurtherInside fuel others default n)).orAt p).seen
          Flow.view w := by
    rw [Run.seen_orAt, Run.seen_orAt,
      branchOr_seen h hn fun v hv hn => runFurther_seen hv hn fuel]
  constructor
  · rintro ⟨fuel, ho⟩
    refine ⟨fuel + 2, ?_⟩
    have hchain := (execute_within (Nat.le_succ fuel) _ n).seen ho
    rw [execute_chain] at hchain
    rw [execute_nested, ← hseen]
    exact (Run.Within.orAt p (branchOr_within (Nat.le_succ fuel) (.refl _))).seen hchain
  · rintro ⟨fuel, ho⟩
    refine ⟨fuel + 2, ?_⟩
    have hnested := (execute_within (Nat.le_add_right fuel 2) _ n).seen ho
    rw [execute_nested, ← hseen] at hnested
    rw [execute_chain]
    exact (Run.Within.orAt p
      (branchOr_within (le_refl _) (runFurther_within (Nat.le_succ fuel)))).seen hnested

end Execution

/-! ## The other branches in a new scope, checked -/

section Check

variable {found type : Option String} {others : List Branch} {default : Option Block}

theorem mergeReturn_none_left (type : Option String) : mergeReturn none type = .ok type := by
  cases type <;> rfl

theorem mergeReturn_none_right (found : Option String) : mergeReturn found none = .ok found := by
  cases found <;> rfl

/-- It does not matter in which order three returns are merged. -/
theorem mergeReturn_assoc {first second third : Option String} :
    (∃ x, mergeReturn first second = .ok x ∧ mergeReturn x third = .ok type) ↔
      ∃ x, mergeReturn second third = .ok x ∧ mergeReturn first x = .ok type := by
  cases first with
  | none => simp [mergeReturn_none_left]
  | some a =>
    cases second with
    | none => simp [mergeReturn_none_left, mergeReturn_none_right]
    | some b =>
      cases third with
      | none => simp [mergeReturn_none_right]
      | some c =>
        by_cases hab : a = b
        · subst hab
          by_cases hac : a = c <;> simp [mergeReturn, hac]
        · by_cases hbc : b = c
          · subst hbc
            simp [mergeReturn, hab]
          · simp [mergeReturn, hab, hbc]

/-- What was found before the check can as well be merged behind it. -/
def Merges (check : Option String → Effect (Option String)) : Prop :=
  ∀ found type w w', check found w = (.ok type, w') ↔
    ∃ x, check none w = (.ok x, w') ∧ mergeReturn found x = .ok type

namespace Merges

theorem nil : Merges fun found => pure found := by
  intro found type w w'
  simp only [Effect.pure_eq_ok_iff]
  constructor
  · rintro ⟨rfl, rfl⟩
    exact ⟨none, ⟨rfl, rfl⟩, mergeReturn_none_right found⟩
  · rintro ⟨_, ⟨rfl, rfl⟩, h⟩
    rw [mergeReturn_none_right] at h
    exact ⟨Except.ok.inj h, rfl⟩

theorem merge (m : Effect (Option String)) :
    Merges fun found => (do let x ← m; query fun _ => mergeReturn found x) := by
  intro found type w w'
  simp only [Effect.bind_eq_ok_iff, Effect.query_eq_ok_iff, mergeReturn_none_left, Except.ok.injEq]
  constructor
  · rintro ⟨x, w₁, hx, hmerge, rfl⟩
    exact ⟨x, ⟨x, w₁, hx, rfl, rfl⟩, hmerge⟩
  · rintro ⟨_, ⟨x, w₁, hx, rfl, rfl⟩, hmerge⟩
    exact ⟨x, w₁, hx, hmerge, rfl⟩

theorem bind {first second : Option String → Effect (Option String)} (h₁ : Merges first)
    (h₂ : Merges second) : Merges fun found => first found >>= second := by
  intro found type w w'
  simp only [Effect.bind_eq_ok_iff]
  constructor
  · rintro ⟨y, w₁, hy, htype⟩
    obtain ⟨x, hx, hfound⟩ := (h₁ ..).1 hy
    obtain ⟨z, hz, hmerge⟩ := (h₂ ..).1 htype
    obtain ⟨u, hu, hall⟩ := mergeReturn_assoc.1 ⟨y, hfound, hmerge⟩
    exact ⟨u, ⟨x, w₁, hx, (h₂ ..).2 ⟨z, hz, hu⟩⟩, hall⟩
  · rintro ⟨u, ⟨x, w₁, hx, hu⟩, hall⟩
    obtain ⟨z, hz, hmerge⟩ := (h₂ ..).1 hu
    obtain ⟨y, hfound, htype⟩ := mergeReturn_assoc.2 ⟨u, hmerge, hall⟩
    exact ⟨y, w₁, (h₁ ..).2 ⟨x, hx, hfound⟩, (h₂ ..).2 ⟨z, hz, htype⟩⟩

end Merges

/-- The check of branches and of a default block, together with what was found before them. -/
def checkFurther (others : List Branch) (default : Option Block) (n : ScopeId)
    (found : Option String) : Effect (Option String) := do
  let found ← checkBranches others n found
  match default with
  | none => return found
  | some body =>
    let inner ← openChild n
    let type ← checkBlock body inner none
    query fun _ => mergeReturn found type

/-- The same in a new scope. -/
def checkFurtherInside (others : List Branch) (default : Option Block) (n : ScopeId) :
    Effect (Option String) := do
  let inner ← openChild n
  checkFurther others default inner none

theorem checkBranches_merges (n : ScopeId) (others : List Branch) :
    Merges (checkBranches others n) := by
  induction others with
  | nil => exact .nil
  | cons branch others ih =>
    obtain ⟨condition, body⟩ := branch
    have hmerges := (Merges.merge do
      checkCondition condition n
      let inner ← openChild n
      checkBlock body inner none).bind ih
    simpa only [Merges, checkBranches, bind_assoc] using hmerges

theorem checkFurther_merges (others : List Branch) (default : Option Block) (n : ScopeId) :
    Merges (checkFurther others default n) := by
  refine .bind (checkBranches_merges n others) ?_
  cases default with
  | none => exact .nil
  | some body =>
    have hmerges := Merges.merge do
      let inner ← openChild n
      checkBlock body inner none
    simpa only [bind_assoc] using hmerges

/-! ### Both forms -/

theorem check_ifElse (p : Option Position) (others : List Branch) (default : Option Block)
    (n : ScopeId) :
    (Stmt.ifElse p others default).check n = (checkFurther others default n none).orAt p := by
  rw [Stmt.check]
  rfl

theorem checkFurther_cons (first : Branch) (others : List Branch) (default : Option Block)
    (n : ScopeId) :
    checkFurther (first :: others) default n none =
      checkBranches [first] n none >>= checkFurther others default n := by
  obtain ⟨condition, body⟩ := first
  unfold checkFurther
  simp only [checkBranches, bind_assoc, pure_bind]

theorem checkBlock_singleton (s : Stmt) (n : ScopeId) : checkBlock [s] n none = s.check n := by
  have hmerge (type : Option String) :
      (query fun _ => mergeReturn none type).orAt s.position = pure type := by
    rw [mergeReturn_none_left]
    rfl
  simp only [checkBlock, hmerge, bind_pure]

theorem check_nested (p : Option Position) (first : Branch) (others : List Branch)
    (default : Option Block) (n : ScopeId) :
    (Stmt.nested p first others default).check n = Effect.orAt p (do
      let found ← checkBranches [first] n none
      let type ← checkFurtherInside others default n
      query fun _ => mergeReturn found type) := by
  rw [Stmt.nested, check_ifElse, checkFurther, checkFurtherInside]
  simp only [checkBlock_singleton, check_ifElse, Effect.orAt_none, bind_assoc]

theorem Matching.Holds.openChild_right {M : Matching} (h : M.Holds w w') (n : ScopeId) :
    M.Holds w (w'.openChild n) where
  types := h.types
  scopes m m' hm := by
    change (w.scopes.get m).Alike _ _ _ ((w'.scopes.child n).get m')
    rw [Scopes.get_child_of_lt (h.scopes_lt m m' hm).2]
    exact h.scopes m m' hm
  scopes_lt m m' hm :=
    ⟨(h.scopes_lt m m' hm).1, (h.scopes_lt m m' hm).2.trans (World.next_lt_openChild w' n)⟩
  oneToOne := h.oneToOne

theorem checkFurther_inStep (others : List Branch) (default : Option Block)
    (found : Option String) {k m m' : ScopeId} (hm : Beside n k m m') :
    (checkFurther others default m found).InStep n k (checkFurther others default m' found) := by
  refine .bind (checkBranches_inStep others found hm) fun found => ?_
  cases default with
  | none => exact .pure found
  | some body =>
    exact .openChild hm fun inner hinner => .bind (checkBlock_inStep body none hinner) fun type =>
      .const _

/-- **The other branches in a new scope.** The world matches itself with one more scope, and the
scope is empty. -/
theorem checkFurther_fst {M : Matching} (h : M.Holds w w) (hn : M.scopes n n) :
    (checkFurther others default n none w).1 = (checkFurtherInside others default n w).1 := by
  have hlt := (h.scopes_lt n n hn).1
  have haside := checkFurther_inStep others default none .inner _ _ (.child hlt)
  obtain ⟨_, -, -, halike⟩ := (Stmt.ifElse none others default).check_alike hn w _
    (h.openChild_right n)
  rw [check_ifElse, Effect.orAt_none] at halike
  exact halike.eq.trans haside.1.symm

/-- **Both forms have the same type.** -/
theorem check_nested_iff {M : Matching} (h : M.Holds w w) (hn : M.scopes n n)
    (p : Option Position) (first : Branch) :
    ((Stmt.chain p first others default).check n w).1 = .ok type ↔
      ((Stmt.nested p first others default).check n w).1 = .ok type := by
  have hothers {found : Option String} {v : World}
      (hv : checkBranches [first] n none w = (.ok found, v)) :
      (checkFurther others default n none v).1 = (checkFurtherInside others default n v).1 := by
    obtain ⟨M', hle, hholds, -⟩ := checkBranches_alike [first] none hn w w h
    rw [hv] at hholds
    exact checkFurther_fst hholds (hle.scopes n n hn)
  rw [Stmt.chain, check_ifElse, checkFurther_cons, check_nested]
  simp only [Effect.fst_eq_ok_iff, Effect.orAt_eq_ok_iff, Effect.bind_eq_ok_iff]
  constructor
  · rintro ⟨w', found, v, hv, hfurther⟩
    obtain ⟨x, hx, hmerge⟩ := (checkFurther_merges ..).1 hfurther
    obtain ⟨v', hv'⟩ := Effect.fst_eq_ok_iff.1 ((hothers hv).symm.trans (congrArg Prod.fst hx))
    exact ⟨v', found, v, hv, x, v', hv', Effect.query_eq_ok_iff.2 ⟨hmerge, rfl⟩⟩
  · rintro ⟨_, found, v, hv, x, v', hv', hmerge⟩
    obtain ⟨w', hx⟩ := Effect.fst_eq_ok_iff.1 ((hothers hv).trans (congrArg Prod.fst hv'))
    have hfurther := (checkFurther_merges ..).2 ⟨x, hx, (Effect.query_eq_ok_iff.1 hmerge).1⟩
    exact ⟨w', found, v, hv, hfurther⟩

end Check

theorem execute_ifElse_keeps (fuel : Nat) (p : Option Position) (branches : List Branch)
    (default : Option Block) (n : ScopeId) :
    (execute fuel (.ifElse p branches default) n).Moves (World.Keeps ∅) := by
  cases fuel with
  | zero => exact .exhausted
  | succ fuel =>
    exact .orAt p (World.Keeps.framing.runBranches (evaluate_keeps fuel · n) (execute_keeps fuel) n
      default branches)

/-- **A chain of branches means what it abbreviates.** In a world that programs have reached, the
check accepts an `if` with several branches and the nested form of it at the same types. One of them
ends when it is executed if and only if the other one does, with results that look the same or with
the same error at the same position, and with the same output. Neither changes a scope or a type
that there was before. -/
theorem chains_are_nested {S : Stmt → Prop} (h : w.Reached S) (hn : n < w.scopes.next)
    (p : Option Position) (first : Branch) (others : List Branch) (default : Option Block) :
    (∀ type, ((Stmt.chain p first others default).check n w).1 = .ok type ↔
      ((Stmt.nested p first others default).check n w).1 = .ok type) ∧
    (∀ o, (∃ fuel, (execute fuel (.chain p first others default) n).seen Flow.view w = some o) ↔
      ∃ fuel, (execute fuel (.nested p first others default) n).seen Flow.view w = some o) ∧
    ∀ s ∈ [Stmt.chain p first others default, .nested p first others default],
      ∀ fuel r w', execute fuel s n w = some (r, w') →
        (∀ m < w.scopes.next, w'.scopes.get m = w.scopes.get m) ∧
        ∀ t < w.types.next, w'.types.get t = w.types.get t := by
  have hspares : SparesBuiltins (Stmt.Avoids Names.none.types) False := False.elim
  have hw := (h.mono fun s _ => s.avoids_none).orderly hspares
  have hkeeps {branches : List Branch} {default : Option Block} {fuel : Nat}
      {r : Except EvalError Flow} {w' : World}
      (hr : execute fuel (.ifElse p branches default) n w = some (r, w')) :
      (∀ m < w.scopes.next, w'.scopes.get m = w.scopes.get m) ∧
        ∀ t < w.types.next, w'.types.get t = w.types.get t := by
    have hkeeps := execute_ifElse_keeps fuel p branches default n w r w' hr
    exact ⟨fun m hm => hkeeps.scope_eq m hm (Set.notMem_empty m), hkeeps.type_eq⟩
  refine ⟨fun type => check_nested_iff hw.matches_self ⟨rfl, hn⟩ p first, fun o => ?_,
    fun s hs fuel r w' hr => ?_⟩
  · obtain ⟨condition, body⟩ := first
    exact execute_nested_iff hw hn p o
  · obtain rfl | hs := List.mem_cons.1 hs
    · exact hkeeps hr
    · obtain rfl := List.mem_singleton.1 hs
      exact hkeeps hr

/-- The second branch is taken. It prints and returns. -/
theorem chains_are_nested_second :
    ∃ (w : World) (first second : Branch), w.Reached (fun _ => True) ∧
      Interpreter.root < w.scopes.next ∧
      ((Stmt.nested none first [second] none).check Interpreter.root w).1 = .ok (some "Int") ∧
      ∃ fuel flow, (execute fuel (.nested none first [second] none) Interpreter.root).seen
        Flow.view w = some (.ok flow, .captured "second\n") := by
  let print (s : String) : Stmt := .expr none (.call none "print" [.literal none (.string s)])
  let branch (b : Bool) (s : String) (i : Int64) : Branch :=
    .mk (.literal none (.bool b)) [print s, .returns none (some (.literal none (.int i)))]
  let first : Branch := branch false "first" 1
  let second : Branch := branch true "second" 2
  let w : World := Interpreter.start true (.captured "")
  let chain : Stmt := .chain none first [second] none
  have hroot : Interpreter.root < w.scopes.next := by decide +kernel
  have htype : (chain.check Interpreter.root w).1.toOption = some (some "Int") := by decide +kernel
  have hends : ((execute 20 chain Interpreter.root).seen Flow.view w).any (fun o =>
      o.1.isOk && o.2 == .captured "second\n") = true := by decide +kernel
  have hreached : w.Reached (fun _ => True) := .start true _
  obtain ⟨hcheck, hexecute, -⟩ := chains_are_nested hreached hroot none first [second] none
  obtain ⟨⟨r, out⟩, hseen, ho⟩ := (Option.any_eq_true _ _).1 hends
  obtain ⟨hok, hout⟩ := Bool.and_eq_true_iff.1 ho
  obtain rfl : out = .captured "second\n" := beq_iff_eq.1 hout
  cases r with
  | error e => cases hok
  | ok flow =>
    obtain ⟨fuel, hnested⟩ := (hexecute _).1 ⟨20, hseen⟩
    exact ⟨w, first, second, hreached, hroot,
      (hcheck _).1 (Effect.fst_eq_ok_iff.2 (Effect.exists_of_toOption htype)), fuel, flow, hnested⟩

end Nominal
