import Nominal.Proofs.Evaluation

/-!
# Blocks run as they are typed

The promise for a scope is made as late as possible: when a statement in it defines something, which
captures the scope. Up to then a variable of the scope may be declared again with another type.

* `Flow.HasType`, `Stmt.After`: what a statement leaves behind.
* `World.Honours.bindAll`: the parameters of a closure.
* **`runBlock_after`**, **`runBlock_gives`**: a typed block, from statement to statement.
* **`loopWith_gives`**, **`invokeWith_gives`**: one round of a loop, and one call.
-/

namespace Nominal

open World (Keeps)
open Effect (ask query update fail findType plain openChild bindAll)

variable {G : Glossary} {M M' : Promise} {w w' : World} {n : ScopeId} {V : Context}

/-! ## Parameters -/

theorem World.Honours.bindAll {params types : List String} {args : List Value}
    (hlength : params.length = types.length) (hargs : List.Forall₂ (Value.HasType G M) args types)
    (h : w.Honours G M) (hn : n < w.scopes.next) (hscopes : M.scopes n = .empty)
    (hV : w.Shows G M n V) (hanchors : w.Anchors G M n V) :
    ∃ w', Effect.bindAll n (params.zip (args.map .value)) w = (.ok (), w') ∧ w'.Honours G M ∧
      w.Keeps {n} w' ∧ w'.Shows G M n (V.bind (params.zip types)) ∧
      w'.Anchors G M n (V.bind (params.zip types)) := by
  induction hargs generalizing params w V with
  | nil =>
    obtain rfl := List.length_eq_zero_iff.1 hlength
    exact ⟨w, rfl, h, .refl w, hV, hanchors⟩
  | @cons v T args types hv _ ih =>
    cases params with
    | nil => cases hlength
    | cons x params =>
      have h₁ : (w.declareVariable n x (.value v)).Honours G M :=
        h.declareVariable hn fun T hT => by
          rw [hscopes] at hT
          cases hT
      have hn₁ : n < (w.declareVariable n x (.value v)).scopes.next :=
        (Scopes.next_modify ..).symm ▸ hn
      have hanchors₁ : (w.declareVariable n x (.value v)).Anchors G M n (V.declare x T) := by
        refine hanchors.declareVariable hn fun y U hy => ?_
        exact (Vars.of_declare hy).imp (fun ⟨heq, htype⟩ => ⟨heq, htype ▸ hv⟩) id
      obtain ⟨w', hw', h', hkeeps, hV', hanchors'⟩ :=
        ih (Nat.succ.inj hlength) h₁ hn₁ (hV.declareVariable h.nested hn hv) hanchors₁
      exact ⟨w', hw', h', (Keeps.declareVariable w n x _).trans hkeeps, hV', hanchors'⟩

/-! ## Blocks -/

/-- A flow returns what `ret` says. -/
def Flow.HasType (G : Glossary) (M : Promise) (ret : Option String) (flow : Flow) : Prop :=
  match flow with
  | .returns (some v) => ∃ type, ret = some type ∧ v.HasType G M type
  | .returns none => ret = some Primitive.none.name
  | _ => True

/-- What is the case after a statement has run. Only a statement that defines something makes
promises for its scope. -/
structure Stmt.After (G : Glossary) (s : Stmt) (n : ScopeId) (ret : Option String) (V : Context)
    (M : Promise) (w : World) (M' : Promise) (w' : World) (flow : Flow) : Prop where
  typed : flow.HasType G M' ret
  shows : flow.isNormal → w'.Shows G M' n (V.after s)
  promised : s.defines = true → flow.isNormal → M'.scopes n = V.after s
  unpromised : s.defines = false → M'.scopes n = M.scopes n
  anchors : s.defines = false → flow.isNormal → w.Anchors G M n V → w'.Anchors G M' n (V.after s)

/-- What is visible behind a block. -/
def Context.afterBlock (V : Context) (body : Block) : Context := body.foldl Context.after V

/-- What is the case after a block has run. -/
structure BlockAfter (G : Glossary) (body : Block) (n : ScopeId) (ret : Option String)
    (V : Context) (M' : Promise) (w' : World) (flow : Flow) : Prop where
  typed : flow.HasType G M' ret
  shows : flow.isNormal → w'.Shows G M' n (V.afterBlock body)

theorem Stmt.After.of_grows {s : Stmt} {ret : Option String} {flow : Flow} (h : w.Honours G M)
    (hn : n < w.scopes.next) (hV : w.Shows G M n V) (hs : V.after s = V)
    (hdefines : s.defines = true → M.scopes n = V) (hg : w.Grows M ∅ M' w')
    (hflow : flow.HasType G M' ret) : s.After G n ret V M w M' w' flow := by
  have hscopes : M'.scopes n = M.scopes n := hg.scopes_eq h hn
  refine ⟨hflow, fun _ => ?_, fun hd _ => ?_, fun _ => hscopes, fun _ _ hanchors => ?_⟩
  · rw [hs]
    exact hV.grows h.nested hn hg
  · rw [hs, hscopes]
    exact hdefines hd
  · rw [hs]
    exact hanchors.grows h hn hg

section Blocks

variable {ret : Option String} {step : Stmt → ScopeId → Run Flow}
  (hstep : ∀ {s n ret M w V}, w.Honours G M → n < w.scopes.next → w.Shows G M n V →
    s.Typed G ret V → s.Steady V.vars → s.Respects (M.scopes n).vars →
    (s.defines = true → M.scopes n = V) →
    (step s n).Gives G {n} M w (s.After G n ret V M w))

include hstep

/-- **A typed block runs as it is typed.** While it runs, promises are made for its scope as soon as
a statement defines something, which may capture the scope. -/
theorem runBlock_after {body : Block} {δ : Vars} (h : w.Honours G M) (hn : n < w.scopes.next)
    (hV : w.Shows G M n V) (hle : (M.scopes n).Le V) (hδ : (M.scopes n).vars.Le δ)
    (hanchors : blockDefines body = true → w.Anchors G M n V) (htyped : blockTyped G ret V body)
    (hsteady : blockSteady V.vars δ body) :
    (runBlock (step · n) body).Gives G {n} M w (BlockAfter G body n ret V) := by
  induction body generalizing M w V δ with
  | nil => exact .pure h ⟨trivial, fun _ => hV⟩
  | cons s rest ih =>
    unfold blockTyped at htyped
    unfold blockSteady at hsteady
    obtain ⟨hs, hrest⟩ := htyped
    obtain ⟨hsteady, hrespects, hsteadies⟩ := hsteady
    rw [blockDefines_cons, Bool.or_eq_true] at hanchors
    -- what follows the statement, when it has ended normally
    have hcontinue {M₀ : Promise} (hg : w.Grows M {n} M₀ w)
        (hgives : (step s n).Gives G {n} M₀ w (s.After G n ret V M₀ w))
        (hafter : ∀ M₁ w₁, w₁.Honours G M₁ → n < M₁.next → s.After G n ret V M₀ w M₁ w₁ .normal →
          (M₁.scopes n).Le (V.after s) ∧
            (M₁.scopes n).vars.Le (if s.defines = true then V.vars else δ) ∧
            (blockDefines rest = true → w₁.Anchors G M₁ n (V.after s))) :
        (runBlock (step · n) (s :: rest)).Gives G {n} M w (BlockAfter G (s :: rest) n ret V) := by
      intro r w' hr
      have hall : (runBlock (step · n) (s :: rest)).Gives G {n} M₀ w
          (BlockAfter G (s :: rest) n ret V) := by
        refine .bind hgives fun flow M₁ w₁ hg₁ h₁ hs₁ => ?_
        have hn₁ := lt_of_lt_of_le hn hg₁.scopes_le
        cases flow with
        | normal =>
          obtain ⟨hle₁, hδ₁, hanchors₁⟩ := hafter M₁ w₁ h₁ (h₁.lt_next hn₁) hs₁
          rw [← V.vars_after] at hsteadies
          refine (ih h₁ hn₁ (hs₁.shows rfl) hle₁ hδ₁ hanchors₁ hrest hsteadies).mono
            (Set.Subset.refl _) fun M' w' flow _ _ hafter => ?_
          exact ⟨hafter.typed, hafter.shows⟩
        | returns value => exact .pure h₁ ⟨hs₁.typed, fun h => by cases h⟩
        | breakLoop | continueLoop => exact .pure h₁ ⟨trivial, fun h => by cases h⟩
      obtain ⟨M', hg', hw', hr'⟩ := hall r w' hr
      exact ⟨M', hg.trans hg', hw', hr'⟩
    cases hdefines : s.defines with
    | true =>
      -- from now on the scope may be captured
      have hV' := hanchors (.inl hdefines)
      have hl := Promise.later_raise hle
      have h₀ := h.raise hV' hle (h.lt_next hn)
      refine hcontinue ⟨.refl w, hl⟩ (hstep h₀ hn ?_ hs hsteady
        (Stmt.respects_of_defines hdefines _) fun _ => Promise.raise_scopes_self M n V)
        fun M₁ w₁ h₁ hn₁ hs₁ => ?_
      · have hshows := h₀.shows (n := n) (h₀.lt_next hn)
        rw [Promise.raise_scopes_self] at hshows
        exact hshows
      · have hscopes := hs₁.promised hdefines rfl
        rw [hscopes]
        refine ⟨.refl _, ?_, fun _ => ?_⟩
        · rw [if_pos hdefines, V.vars_after, Vars.after_of_defines hdefines]
          exact fun _ _ h => h
        · exact hscopes ▸ h₁.anchors n hn₁
    | false =>
      refine hcontinue (.refl M w) (hstep h hn hV hs hsteady (hrespects.mono hδ) fun hd => ?_)
        fun M₁ w₁ h₁ hn₁ hs₁ => ?_
      · rw [hdefines] at hd
        cases hd
      · rw [hs₁.unpromised hdefines, if_neg (by rw [hdefines]; exact Bool.false_ne_true)]
        exact ⟨hle.after hdefines (hrespects.mono hδ), hδ, fun hd =>
          hs₁.anchors hdefines rfl (hanchors (.inr hd))⟩

/-- What a typed block returns has the declared type. -/
theorem runBlock_gives {body : Block} {δ : Vars} (h : w.Honours G M) (hn : n < w.scopes.next)
    (hV : w.Shows G M n V) (hle : (M.scopes n).Le V) (hδ : (M.scopes n).vars.Le δ)
    (hanchors : blockDefines body = true → w.Anchors G M n V) (htyped : blockTyped G ret V body)
    (hsteady : blockSteady V.vars δ body) :
    (runBlock (step · n) body).Gives G {n} M w fun M' _ flow => flow.HasType G M' ret :=
  (runBlock_after hstep h hn hV hle hδ hanchors htyped hsteady).mono (Set.Subset.refl _)
    fun _ _ _ _ _ hafter => hafter.typed

/-- A block in a new scope. The scope may be captured only if what is visible stays visible. -/
theorem innerBlock_gives {body : Block} (h : w.Honours G M) (hn : n < w.scopes.next)
    (hV : w.Shows G M n V) (hle : blockDefines body = true → V.Le (M.scopes n))
    (htyped : blockTyped G ret V body) (hsteady : blockSteady V.vars Vars.none body) :
    (do
      let inner ← openChild n
      runBlock (step · inner) body : Run Flow).Gives G ∅ M w
        fun M' _ flow => flow.HasType G M' ret := by
  have hscopes := h.openChild_scopes
  refine .openChild_bind h (runBlock_gives hstep (h.openChild hn) (World.next_lt_openChild w n)
    (World.Shows.openChild h hn hV) ?_ ?_ (fun hd => World.Anchors.openChild h hn (hle hd)) htyped
    hsteady)
  · rw [hscopes]
    exact V.empty_le
  · rw [hscopes]
    exact fun _ _ hx => by cases hx

theorem runBranches_gives {eval : Expr → Run Value} (h : w.Honours G M) (hn : n < w.scopes.next)
    (hV : w.Shows G M n V)
    (heval : ∀ {e type M w}, w.Honours G M → n < w.scopes.next → w.Shows G M n V →
      e.HasType G V type → (eval e).Gives G ∅ M w fun M' _ v => v.HasType G M' type)
    {branches : List Branch} {default : Option Block}
    (hle : (branchParts branches).any Stmt.isDefinition = true ∨
      (∃ body, default = some body ∧ blockDefines body = true) → V.Le (M.scopes n))
    (htyped : branchesTyped G ret V branches) (hsteady : branchesSteady V.vars branches)
    (hdefault : ∀ body, default = some body →
      blockTyped G ret V body ∧ blockSteady V.vars Vars.none body) :
    (runBranches eval step n default branches).Gives G ∅ M w
      fun M' _ flow => flow.HasType G M' ret := by
  induction branches generalizing M w with
  | nil =>
    cases default with
    | none => exact .pure h trivial
    | some body =>
      obtain ⟨htyped', hsteady'⟩ := hdefault body rfl
      exact innerBlock_gives hstep h hn hV (fun hd => hle (.inr ⟨body, rfl, hd⟩)) htyped' hsteady'
  | cons branch rest ih =>
    obtain ⟨condition, body⟩ := branch
    unfold branchesTyped at htyped
    unfold branchesSteady at hsteady
    obtain ⟨hcondition, hbody, hrest⟩ := htyped
    obtain ⟨hsteady₁, hsteady₂⟩ := hsteady
    rw [branchParts, List.any_append, Bool.or_eq_true] at hle
    refine .bind (heval h hn hV hcondition) fun v M₁ w₁ hg₁ h₁ hv => ?_
    have hn₁ := lt_of_lt_of_le hn hg₁.scopes_le
    have hV₁ := hV.grows h.nested hn hg₁
    have hscopes : M₁.scopes n = M.scopes n := hg₁.scopes_eq h hn
    obtain ⟨b, hb⟩ := truth_eq_pure h₁ condition hv
    rw [hb]
    refine .effect_bind rfl (.refl M₁ w₁) ?_
    cases b with
    | true =>
      refine innerBlock_gives hstep h₁ hn₁ hV₁ (fun hd => ?_) hbody hsteady₁
      rw [hscopes]
      exact hle (.inl (.inl hd))
    | false =>
      refine ih h₁ hn₁ hV₁ (fun hd => ?_) hrest hsteady₂
      rw [hscopes]
      exact hle (hd.imp .inr id)

theorem loopWith_gives {eval : Expr → ScopeId → Run Value}
    {repeating : Expr → Block → ScopeId → Run Flow} (h : w.Honours G M) (hn : n < w.scopes.next)
    (hV : w.Shows G M n V)
    (heval : ∀ {e n type M w V}, w.Honours G M → n < w.scopes.next → w.Shows G M n V →
      e.HasType G V type → (eval e n).Gives G ∅ M w fun M' _ v => v.HasType G M' type)
    {condition : Expr} {body : Block}
    (hrepeating : ∀ {M w}, w.Honours G M → n < w.scopes.next → w.Shows G M n V →
      (blockDefines body = true → V.Le (M.scopes n)) →
      (repeating condition body n).Gives G ∅ M w fun M' _ flow => flow.HasType G M' ret)
    (hle : blockDefines body = true → V.Le (M.scopes n))
    (hcondition : condition.HasType G V Primitive.bool.name) (htyped : blockTyped G ret V body)
    (hsteady : blockSteady V.vars Vars.none body) :
    (loopWith eval step repeating condition body n).Gives G ∅ M w
      fun M' _ flow => flow.HasType G M' ret := by
  refine .bind (heval h hn hV hcondition) fun v M₁ w₁ hg₁ h₁ hv => ?_
  have hn₁ := lt_of_lt_of_le hn hg₁.scopes_le
  have hV₁ := hV.grows h.nested hn hg₁
  have hscopes₁ : M₁.scopes n = M.scopes n := hg₁.scopes_eq h hn
  obtain ⟨b, hb⟩ := truth_eq_pure h₁ condition hv
  rw [hb]
  refine .effect_bind rfl (.refl M₁ w₁) ?_
  cases b with
  | false => exact .pure h₁ trivial
  | true =>
    have hround := innerBlock_gives hstep h₁ hn₁ hV₁ (fun hd => hscopes₁ ▸ hle hd) htyped hsteady
    rw [← bind_assoc]
    refine .bind hround fun flow M₂ w₂ hg₂ h₂ hflow => ?_
    have hn₂ := lt_of_lt_of_le hn₁ hg₂.scopes_le
    have hscopes₂ : M₂.scopes n = M₁.scopes n := hg₂.scopes_eq h₁ hn₁
    cases flow with
    | returns value => exact .pure h₂ hflow
    | breakLoop => exact .pure h₂ trivial
    | normal | continueLoop =>
      exact hrepeating h₂ hn₂ (hV₁.grows h₁.nested hn₁ hg₂)
        fun hd => hscopes₂ ▸ hscopes₁ ▸ hle hd

theorem applyClosure_gives {params : List String} {body : Block} {m : ScopeId} {types : List String}
    {args : List Value} (h : w.Honours G M) (hlength : params.length = types.length)
    (hm : m < M.next) (hV : V.Le (M.scopes m))
    (htyped : blockTyped G ret (V.bind (params.zip types)) body)
    (hsteady : blockSteady (V.bind (params.zip types)).vars Vars.none body)
    (hargs : List.Forall₂ (Value.HasType G M) args types) :
    (applyClosure step params body m args).Gives G ∅ M w fun M' _ value =>
      Flow.HasType G M' ret (.returns value) ∨ value = none := by
  have hm' : m < w.scopes.next := h.next_eq ▸ hm
  have hscopes := h.openChild_scopes
  unfold applyClosure
  rw [if_pos (hargs.length_eq.trans hlength.symm)]
  obtain ⟨w₁, hbind, h₁, hkeeps, hV₁, hanchors₁⟩ :=
    World.Honours.bindAll hlength (hargs.imp fun _ _ hv => hv.mono (M.later_openChild ∅))
      (h.openChild hm') (World.next_lt_openChild w m) hscopes
      (World.Shows.openChild h hm' ((h.shows hm).mono hV)) (World.Anchors.openChild h hm' hV)
  refine .openChild_bind h (.effect_bind hbind ⟨hkeeps, .refl _⟩ ?_)
  refine .bind (runBlock_gives hstep h₁ (lt_of_lt_of_le (World.next_lt_openChild w m)
    hkeeps.scopes_le) hV₁ ?_ ?_ (fun _ => hanchors₁) htyped hsteady) fun flow M₂ w₂ _ h₂ hflow => ?_
  · rw [hscopes]
    exact Context.empty_le _
  · rw [hscopes]
    exact fun _ _ hx => by cases hx
  · cases flow with
    | returns value => exact .pure h₂ (.inl hflow)
    | normal | breakLoop | continueLoop => exact .pure h₂ (.inr rfl)

/-- **A callable gives a value of its declared return type.** -/
theorem invokeWith_gives {o : Overload} {args : List Value} (h : w.Honours G M)
    (hn : n < w.scopes.next) (ho : o.Takes G M w args) :
    (invokeWith step o n args).Gives G ∅ M w fun M' _ v => v.HasType G M' o.ret := by
  cases ho with
  | @builtin b p haccepts =>
    obtain ⟨r, w₁, hrun, hscopes, htypes, hr⟩ := Builtin.run_of_accepts haccepts (h.builtins n hn)
    intro r' w' hr'
    obtain ⟨rfl, rfl⟩ := Prod.mk.inj (hrun.symm.trans (Run.lift_eq_some_iff.1 hr'))
    refine ⟨M, ⟨.of_eq hscopes htypes, .refl M⟩, h.of_eq hscopes htypes, ?_⟩
    cases r with
    | ok v => exact h.hasType_of_native hr
    | error e => exact hr.1.isFailure
  | closure hcloses hargs =>
    obtain ⟨hlength, hm, hV, htyped, hsteady⟩ := hcloses
    refine .bind (applyClosure_gives hstep h hlength hm hV htyped hsteady hargs)
      fun value M₁ w₁ hg₁ h₁ hvalue => ?_
    cases value with
    | some v =>
      obtain ⟨type, htype, hv⟩ := hvalue.resolve_right nofun
      exact .pure h₁ (Option.some_inj.1 htype ▸ hv)
    | none =>
      dsimp only
      split
      · next hret =>
        rw [hret]
        exact plain_gives h₁ (lt_of_lt_of_le hn hg₁.scopes_le) .none
      · exact .fail h₁ (Cause.isFailure_missingReturn _)

end Blocks

end Nominal
