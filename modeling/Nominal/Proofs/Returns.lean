import Nominal.Proofs.CheckFrame

/-!
# The returns of a block

The check of a block goes through its conditions and its simple statements in the order of the text,
at any depth of branches and loops, and it goes on as long as nothing fails. What it reports is the
type of each return that it comes to.

* `Leaf`, `blockLeaves`: the conditions and the simple statements of a block.
* `Visit`, `blockVisits`: those that the check comes to, with the scope and the world.
* `Collects`, `Stops`: what a check reports of its visits, and why it stops.
* **`Effect.Sees.andThen`**, `Effect.Sees.merge`: one part after another, and a part inside another.
* **`checkBlock_sees`**: the check of a block.
* `FuncDef.checkBody_returnsOnly`: what an accepted body returns.
* **`returns_are_seen`**: the type of a block is the type of its returns.
-/

namespace Nominal

open Effect (query openChild bindAll)

/-! ## Conditions and simple statements -/

/-- A condition, or a statement without branches and without rounds. -/
inductive Leaf where
  | condition (e : Expr)
  /-- A statement; the body of a definition belongs to the definition. -/
  | statement (s : Stmt)

namespace Leaf

/-- The check of a leaf. -/
def check (leaf : Leaf) (n : ScopeId) : Effect (Option String) :=
  match leaf with
  | condition e => do
    checkCondition e n
    return none
  | statement s => s.check n

/-- The leaf is a return statement. -/
def IsReturn : Leaf → Prop
  | statement (.returns ..) => True
  | _ => False

end Leaf

mutual

/-- The leaves of a statement, in the order of the text. -/
def Stmt.leaves (s : Stmt) : List Leaf :=
  match s with
  | .ifElse _ branches default =>
    branchLeaves branches ++
      match default with
      | none => []
      | some body => blockLeaves body
  | .whileLoop _ condition body => .condition condition :: blockLeaves body
  | s => [.statement s]

/-- The leaves of a block. -/
def blockLeaves (body : List Stmt) : List Leaf :=
  match body with
  | [] => []
  | s :: rest => s.leaves ++ blockLeaves rest

/-- The leaves of branches. -/
def branchLeaves (branches : List Branch) : List Leaf :=
  match branches with
  | [] => []
  | .mk condition body :: rest => .condition condition :: blockLeaves body ++ branchLeaves rest

end

/-! ## Visits -/

/-- A leaf that a check comes to, with the scope and the world in which it comes there. -/
structure Visit where
  leaf : Leaf
  scope : ScopeId
  world : World

/-- The visited leaf is accepted. -/
def Visit.Accepted (v : Visit) : Prop :=
  ∃ type w', v.leaf.check v.scope v.world = (.ok type, w')

/-- The visited leaf is a return statement that is checked at this type. -/
def Visit.ReturnsAt (v : Visit) (type : String) : Prop :=
  match v.leaf with
  | .statement (.returns _ (some e)) => (e.check v.scope v.world).1 = .ok type
  | .statement (.returns _ none) => type = Primitive.none.name
  | _ => False

/-- The check of a visited leaf fails; the error gets a position from around the leaf if it has
none. -/
def Visit.FailsWith (v : Visit) (e : EvalError) : Prop :=
  ∃ e₀ w' p, v.leaf.check v.scope v.world = (.error e₀, w') ∧ e = e₀.orAt p

/-- The visits after a step: there are none if the step fails. -/
def Effect.visitsAfter {α : Type} (m : Effect α) (w : World) (visits : α → World → List Visit) :
    List Visit :=
  match m w with
  | (.ok a, w) => visits a w
  | (.error _, _) => []

section VisitsAfter

variable {α : Type} {m : Effect α} {w w' : World} {visits : α → World → List Visit}

theorem Effect.visitsAfter_of_ok {a : α} (h : m w = (.ok a, w')) :
    m.visitsAfter w visits = visits a w' := by
  rw [visitsAfter, h]

theorem Effect.visitsAfter_of_error {e : EvalError} (h : m w = (.error e, w')) :
    m.visitsAfter w visits = [] := by
  rw [visitsAfter, h]

end VisitsAfter

/-- The check of one branch, together with what was found before it. -/
def checkBranch (condition : Expr) (body : Block) (n : ScopeId) (found : Option String) :
    Effect (Option String) := do
  checkCondition condition n
  let inner ← openChild n
  let type ← checkBlock body inner none
  query fun _ => mergeReturn found type

mutual

/-- The visits of the check of a statement. -/
def Stmt.visits (s : Stmt) (n : ScopeId) : World → List Visit :=
  match s with
  | .ifElse _ branches default => fun w =>
    branchVisits branches n none w ++
      (checkBranches branches n none).visitsAfter w fun _ =>
        match default with
        | none => fun _ => []
        | some body => fun w => blockVisits body w.scopes.next none (w.openChild n)
  | .whileLoop _ condition body => fun w =>
    ⟨.condition condition, n, w⟩ :: (checkCondition condition n).visitsAfter w fun _ w =>
      blockVisits body w.scopes.next none (w.openChild n)
  | s => fun w => [⟨.statement s, n, w⟩]

/-- The visits of the check of a block. -/
def blockVisits (body : List Stmt) (n : ScopeId) (found : Option String) : World → List Visit :=
  match body with
  | [] => fun _ => []
  | s :: rest => fun w =>
    s.visits n w ++ Effect.visitsAfter (do
      let type ← s.check n
      (query fun _ => mergeReturn found type).orAt s.position) w (blockVisits rest n)

/-- The visits of the check of branches. -/
def branchVisits (branches : List Branch) (n : ScopeId) (found : Option String) :
    World → List Visit :=
  match branches with
  | [] => fun _ => []
  | .mk condition body :: rest => fun w =>
    ⟨.condition condition, n, w⟩ :: (checkCondition condition n).visitsAfter w (fun _ w =>
      blockVisits body w.scopes.next none (w.openChild n)) ++
      (checkBranch condition body n found).visitsAfter w (branchVisits rest n)

end

/-! ## What a check reports -/

section Reports

variable {found found' found₁ type : Option String} {leaves leaves' : List Leaf}
  {visits visits' : List Visit} {e : EvalError} {r : Except EvalError (Option String)}

/-- A check that succeeds comes to all leaves, and it reports the type of every return, and what was
found before. -/
structure Collects (found : Option String) (leaves : List Leaf) (visits : List Visit)
    (found' : Option String) : Prop where
  all : visits.map Visit.leaf = leaves
  accepted : ∀ v ∈ visits, v.Accepted
  none_iff : found' = none ↔ found = none ∧ ∀ leaf ∈ leaves, ¬leaf.IsReturn
  before : ∀ t, found = some t → found' = some t
  returns : ∀ v ∈ visits, v.leaf.IsReturn → ∃ t, found' = some t ∧ v.ReturnsAt t

/-- A check stops at a leaf that fails, or at a return of another type than one before it. -/
inductive Stops (found : Option String) (visits : List Visit) (e : EvalError) : Prop
  | failed {v : Visit} (hv : v ∈ visits) (hfails : v.FailsWith e)
  | conflict {first second : String} (hne : first ≠ second)
    (hcause : e.cause = .conflictingReturnTypes first second)
    (hfirst : found = some first ∨ ∃ v ∈ visits, v.ReturnsAt first)
    (hsecond : ∃ v ∈ visits, v.ReturnsAt second)

/-- What the result of a check says about its leaves and its visits. -/
def Reports (found : Option String) (leaves : List Leaf) (visits : List Visit) :
    Except EvalError (Option String) → Prop
  | .ok found' => Collects found leaves visits found'
  | .error e => visits.map Visit.leaf <+: leaves ∧ Stops found visits e

namespace Stops

theorem orAt (h : Stops found visits e) (p : Option Position) : Stops found visits (e.orAt p) := by
  cases h with
  | failed hv hfails =>
    obtain ⟨e₀, w', q, hcheck, rfl⟩ := hfails
    refine .failed hv ⟨e₀, w', q.or p, hcheck, ?_⟩
    rw [EvalError.orAt, EvalError.orAt, EvalError.orAt, Option.or_assoc]
  | conflict hne hcause hfirst hsecond => exact .conflict hne hcause hfirst hsecond

theorem of_none (h : Stops none visits e) : Stops found visits e := by
  cases h with
  | failed hv hfails => exact .failed hv hfails
  | conflict hne hcause hfirst hsecond =>
    exact .conflict hne hcause (.inr (hfirst.resolve_left nofun)) hsecond

end Stops

namespace Collects

/-- A type that was found is the type of a return, unless it was found before. -/
theorem exists_returnsAt (h : Collects found leaves visits found') {t : String}
    (ht : found' = some t) : found = some t ∨ ∃ v ∈ visits, v.ReturnsAt t := by
  by_cases hnone : found = none ∧ ∀ leaf ∈ leaves, ¬leaf.IsReturn
  · rw [h.none_iff.2 hnone] at ht
    cases ht
  · rw [not_and_or] at hnone
    obtain hsome | hreturn := hnone
    · obtain ⟨t', ht'⟩ := Option.ne_none_iff_exists'.1 hsome
      have heq := h.before t' ht'
      rw [ht] at heq
      exact .inl (ht'.trans heq.symm)
    · push Not at hreturn
      obtain ⟨leaf, hleaf, hreturn⟩ := hreturn
      rw [← h.all, List.mem_map] at hleaf
      obtain ⟨v, hv, rfl⟩ := hleaf
      obtain ⟨t', ht', hat⟩ := h.returns v hv hreturn
      rw [ht] at ht'
      cases ht'
      exact .inr ⟨v, hv, hat⟩

/-- **One part after another.** -/
theorem append (h : Collects found leaves visits found₁)
    (h' : Collects found₁ leaves' visits' found') :
    Collects found (leaves ++ leaves') (visits ++ visits') found' where
  all := by rw [List.map_append, h.all, h'.all]
  accepted := List.forall_mem_append.2 ⟨h.accepted, h'.accepted⟩
  none_iff := by
    rw [h'.none_iff, h.none_iff, and_assoc]
    simp only [List.mem_append, or_imp, forall_and]
  before t ht := h'.before t (h.before t ht)
  returns v hv hreturn := by
    obtain hv | hv := List.mem_append.1 hv
    · obtain ⟨t, ht, hat⟩ := h.returns v hv hreturn
      exact ⟨t, h'.before t ht, hat⟩
    · exact h'.returns v hv hreturn

theorem append_stops (h : Collects found leaves visits found₁) (hstops : Stops found₁ visits' e) :
    Stops found (visits ++ visits') e := by
  have hsub {v : Visit} (hv : v ∈ visits') : v ∈ visits ++ visits' := List.mem_append_right _ hv
  cases hstops with
  | failed hv hfails => exact .failed (hsub hv) hfails
  | conflict hne hcause hfirst hsecond =>
    obtain ⟨v, hv, hsecond⟩ := hsecond
    refine .conflict hne hcause ?_ ⟨v, hsub hv, hsecond⟩
    obtain hfirst | ⟨v, hv, hfirst⟩ := hfirst
    · exact (h.exists_returnsAt hfirst).imp_right fun ⟨v, hv, h⟩ =>
        ⟨v, List.mem_append_left _ hv, h⟩
    · exact .inr ⟨v, hsub hv, hfirst⟩

/-- A part inside another: its type is merged with what was found before it. -/
theorem merge (h : Collects none leaves visits type)
    (hmerge : mergeReturn found type = .ok found') : Collects found leaves visits found' := by
  cases type with
  | none =>
    cases hmerge
    have hno := (h.none_iff.1 rfl).2
    refine ⟨h.all, h.accepted, ⟨fun hnone => ⟨hnone, hno⟩, And.left⟩, fun t ht => ht,
      fun v hv hreturn => ?_⟩
    exact absurd hreturn (hno _ (h.all ▸ List.mem_map_of_mem hv))
  | some t =>
    have hreturn : ¬∀ leaf ∈ leaves, ¬leaf.IsReturn := fun hno =>
      Option.some_ne_none t (h.none_iff.2 ⟨rfl, hno⟩)
    have hfound : found' = some t ∧ ∀ t', found = some t' → t' = t := by
      cases found with
      | none =>
        cases hmerge
        exact ⟨rfl, nofun⟩
      | some first =>
        rw [mergeReturn] at hmerge
        split at hmerge
        · next heq =>
          cases hmerge
          exact ⟨congrArg some heq, fun t' ht' => (Option.some.inj ht').symm.trans heq⟩
        · cases hmerge
    obtain ⟨rfl, hbefore⟩ := hfound
    exact ⟨h.all, h.accepted, iff_of_false nofun fun hnone => hreturn hnone.2,
      fun t' ht' => congrArg some (hbefore t' ht').symm, h.returns⟩

theorem merge_stops (h : Collects none leaves visits type) {c : Cause}
    (hmerge : mergeReturn found type = .error c) : Stops found visits (.ofCause c) := by
  cases type with
  | none => cases hmerge
  | some second =>
    cases found with
    | none => cases hmerge
    | some first =>
      rw [mergeReturn] at hmerge
      split at hmerge
      · cases hmerge
      · next hne =>
        cases hmerge
        exact .conflict hne rfl (.inl rfl) ((h.exists_returnsAt rfl).resolve_left nofun)

end Collects

end Reports

/-! ## Checks that report nothing -/

/-- A check that reports no type, even if it succeeds. -/
def Effect.Silent (m : Effect (Option String)) : Prop :=
  ∀ w type w', m w = (.ok type, w') → type = none

namespace Effect.Silent

theorem pure : Silent (Pure.pure none) := fun _ _ _ h => (pure_eq_ok_iff.1 h).1.symm

theorem bind {α : Type} (m : Effect α) {f : α → Effect (Option String)}
    (hf : ∀ a, (f a).Silent) : (m >>= f).Silent := by
  intro w type w' h
  obtain ⟨a, w₁, -, h⟩ := bind_eq_ok_iff.1 h
  exact hf a w₁ type w' h

theorem orAt {m : Effect (Option String)} (h : m.Silent) (p : Option Position) :
    (m.orAt p).Silent :=
  fun w type w' hr => h w type w' (orAt_eq_ok_iff.1 hr)

end Effect.Silent

/-! ## Checks that report what they see -/

/-- The check reports the types of the returns that it comes to. -/
def Effect.Sees (m : Effect (Option String)) (found : Option String) (leaves : List Leaf)
    (visits : World → List Visit) : Prop :=
  ∀ w r w', m w = (r, w') → Reports found leaves (visits w) r

namespace Effect.Sees

variable {m : Effect (Option String)} {found : Option String} {leaves leaves' : List Leaf}
  {visits : World → List Visit}

theorem nil (found : Option String) : Sees (pure found) found [] fun _ => [] := by
  intro w r w' h
  cases h
  exact ⟨rfl, nofun, ⟨fun h => ⟨h, nofun⟩, And.left⟩, fun _ h => h, nofun⟩

theorem orAt (h : m.Sees found leaves visits) (p : Option Position) :
    (m.orAt p).Sees found leaves visits := by
  intro w r w' hr
  rcases r with e | found'
  · obtain ⟨e₀, hr₀, rfl⟩ := orAt_eq_error_iff.1 hr
    obtain ⟨hstart, hstops⟩ := h w _ w' hr₀
    exact ⟨hstart, hstops.orAt p⟩
  · exact h w _ w' (orAt_eq_ok_iff.1 hr)

/-- **One part after another.** -/
theorem andThen {f : Option String → Effect (Option String)}
    {visits' : Option String → World → List Visit} (h : m.Sees found leaves visits)
    (hf : ∀ found', (f found').Sees found' leaves' (visits' found')) :
    (m >>= f).Sees found (leaves ++ leaves') fun w => visits w ++ m.visitsAfter w visits' := by
  intro w r w' hr
  dsimp only
  obtain ⟨e, hm, rfl⟩ | ⟨found₁, w₁, hm, hr⟩ := bind_eq_iff.1 hr
  · obtain ⟨hstart, hstops⟩ := h w _ w' hm
    rw [visitsAfter_of_error hm, List.append_nil]
    exact ⟨hstart.trans (List.prefix_append leaves leaves'), hstops⟩
  · have hfirst : Collects found leaves (visits w) found₁ := h w _ w₁ hm
    have hsecond := hf found₁ w₁ r w' hr
    rw [visitsAfter_of_ok hm]
    cases r with
    | error e =>
      obtain ⟨hstart, hstops⟩ := hsecond
      refine ⟨?_, hfirst.append_stops hstops⟩
      rw [List.map_append, hfirst.all]
      exact (List.prefix_append_right_inj leaves).2 hstart
    | ok found' => exact hfirst.append hsecond

/-- **A part inside another**: its type is merged with what was found before it. -/
theorem merge (h : m.Sees none leaves visits) (found : Option String) :
    Sees (do let type ← m; query fun _ => mergeReturn found type) found leaves visits := by
  intro w r w' hr
  obtain ⟨e, hm, rfl⟩ | ⟨type, w₁, hm, hr⟩ := bind_eq_iff.1 hr
  · obtain ⟨hstart, hstops⟩ := h w _ w' hm
    exact ⟨hstart, hstops.of_none⟩
  · have hcollects : Collects none leaves (visits w) type := h w _ w₁ hm
    cases r with
    | error e =>
      obtain ⟨c, hmerge, rfl, -⟩ := query_eq_error_iff.1 hr
      exact ⟨hcollects.all ▸ List.prefix_refl _, hcollects.merge_stops hmerge⟩
    | ok found' => exact hcollects.merge (query_eq_ok_iff.1 hr).1

theorem merge_orAt (h : m.Sees none leaves visits) (found : Option String) (p : Option Position) :
    Sees (do let type ← m; (query fun _ => mergeReturn found type).orAt p) found leaves visits := by
  intro w r w' hr
  obtain ⟨e, hm, rfl⟩ | ⟨type, w₁, hm, hr⟩ := bind_eq_iff.1 hr
  · exact h.merge found w _ w' (bind_eq_iff.2 (.inl ⟨e, hm, rfl⟩))
  · have hmerged (r : Except EvalError (Option String))
        (hr : (query fun _ => mergeReturn found type) w₁ = (r, w')) :
        Reports found leaves (visits w) r :=
      h.merge found w r w' (bind_eq_iff.2 (.inr ⟨type, w₁, hm, hr⟩))
    cases r with
    | error e =>
      obtain ⟨e₀, hr₀, rfl⟩ := orAt_eq_error_iff.1 hr
      obtain ⟨hstart, hstops⟩ := hmerged _ hr₀
      exact ⟨hstart, hstops.orAt p⟩
    | ok found' => exact hmerged _ (orAt_eq_ok_iff.1 hr)

theorem enter {f : ScopeId → Effect (Option String)} {visits : ScopeId → World → List Visit}
    (h : ∀ inner, (f inner).Sees found leaves (visits inner)) (n : ScopeId) :
    (openChild n >>= f).Sees found leaves fun w => visits w.scopes.next (w.openChild n) :=
  fun w r w' hr => h w.scopes.next (w.openChild n) r w' hr

theorem leaf (leaf : Leaf) {n : ScopeId}
    (h : ∀ w w' type, leaf.check n w = (.ok type, w') →
      Collects none [leaf] [⟨leaf, n, w⟩] type) :
    (leaf.check n).Sees none [leaf] fun w => [⟨leaf, n, w⟩] := by
  intro w r w' hr
  cases r with
  | error e =>
    exact ⟨List.prefix_refl _,
      .failed (List.mem_singleton_self _) ⟨e, w', none, hr, e.orAt_none.symm⟩⟩
  | ok type => exact h w w' type hr

theorem leaf_of_not_isReturn (leaf : Leaf) {n : ScopeId} (hno : ¬leaf.IsReturn)
    (h : (leaf.check n).Silent) : (leaf.check n).Sees none [leaf] fun w => [⟨leaf, n, w⟩] :=
  .leaf leaf fun w w' type hr => by
    obtain rfl := h w type w' hr
    refine ⟨rfl, List.forall_mem_singleton.2 ⟨none, w', hr⟩,
      iff_of_true rfl ⟨rfl, fun l hl => ?_⟩, nofun, fun v hv hreturn => ?_⟩
    · rwa [List.mem_singleton.1 hl]
    · rw [List.mem_singleton.1 hv] at hreturn
      exact absurd hreturn hno

theorem test (h : m.Sees none leaves visits) (condition : Expr) (n : ScopeId) :
    Sees (do checkCondition condition n; m) none (.condition condition :: leaves) fun w =>
      ⟨.condition condition, n, w⟩ ::
        (checkCondition condition n).visitsAfter w fun _ => visits := by
  have hcondition : ((Leaf.condition condition).check n).Sees none [.condition condition]
      fun w => [⟨.condition condition, n, w⟩] :=
    .leaf_of_not_isReturn (.condition condition) id (.bind _ fun _ => .pure)
  intro w r w' hr
  dsimp only
  obtain ⟨e, hc, rfl⟩ | ⟨_, w₁, hc, hr⟩ := bind_eq_iff.1 hr
  · obtain ⟨-, hstops⟩ := hcondition w (.error e) w' (bind_eq_iff.2 (.inl ⟨e, hc, rfl⟩))
    rw [visitsAfter_of_error hc]
    exact ⟨List.prefix_append [_] leaves, hstops⟩
  · have hfirst : Collects none _ _ none :=
      hcondition w (.ok none) w₁ (bind_eq_iff.2 (.inr ⟨(), w₁, hc, rfl⟩))
    have hsecond := h w₁ r w' hr
    rw [visitsAfter_of_ok hc]
    cases r with
    | error e =>
      obtain ⟨hstart, hstops⟩ := hsecond
      exact ⟨(List.prefix_append_right_inj [_]).2 hstart, hfirst.append_stops hstops⟩
    | ok found' => exact hfirst.append hsecond

end Effect.Sees

/-! ## The check of statements, blocks and branches -/

theorem Effect.Sees.statement {s : Stmt} {n : ScopeId} (hno : ¬(Leaf.statement s).IsReturn)
    (h : (s.check n).Silent) :
    (s.check n).Sees none [.statement s] fun w => [⟨.statement s, n, w⟩] :=
  .leaf_of_not_isReturn (.statement s) hno h

theorem Effect.Sees.returns {p : Option Position} {value : Option Expr} {n : ScopeId}
    (h : ∀ w w' type, (Stmt.returns p value).check n w = (.ok type, w') →
      ∃ t, type = some t ∧ Visit.ReturnsAt ⟨.statement (.returns p value), n, w⟩ t) :
    ((Stmt.returns p value).check n).Sees none [.statement (.returns p value)]
      fun w => [⟨.statement (.returns p value), n, w⟩] :=
  .leaf (.statement (.returns p value)) fun w w' type hr => by
    obtain ⟨t, rfl, hat⟩ := h w w' type hr
    refine ⟨rfl, List.forall_mem_singleton.2 ⟨some t, w', hr⟩,
      iff_of_false nofun fun hnone => ?_, nofun, fun v hv _ => ⟨t, rfl, ?_⟩⟩
    · exact hnone.2 _ (List.mem_singleton_self _) trivial
    · rwa [List.mem_singleton.1 hv]

mutual

theorem Stmt.check_sees (s : Stmt) (n : ScopeId) :
    (s.check n).Sees none s.leaves (s.visits n) := by
  unfold Stmt.leaves Stmt.visits
  cases s with
  | expr p e =>
    refine .statement id ?_
    rw [Stmt.check]
    exact .orAt (.bind _ fun _ => .pure) p
  | declareVar p name type init =>
    refine .statement id ?_
    rw [Stmt.check]
    exact .orAt (.bind _ fun _ => .bind _ fun _ => .bind _ fun _ => .pure) p
  | defineFunc p d =>
    refine .statement id ?_
    rw [Stmt.check]
    exact .orAt (.bind _ fun _ => .bind _ fun _ => .bind _ fun _ => .pure) p
  | defineType p d =>
    refine .statement id ?_
    rw [Stmt.check]
    exact .orAt (.bind _ fun _ => .pure) p
  | ifElse p branches default =>
    rw [Stmt.check]
    refine .orAt (.andThen (checkBranches_sees branches n none) fun found => ?_) p
    cases default with
    | none => exact .nil found
    | some body => exact .enter (fun inner => (checkBlock_sees body inner none).merge found) n
  | whileLoop p condition body =>
    rw [Stmt.check]
    exact .orAt (.test (.enter (fun inner => checkBlock_sees body inner none) n) condition n) p
  | returns p value =>
    refine .returns fun w w' type h => ?_
    cases value with
    | none =>
      cases h
      exact ⟨_, rfl, rfl⟩
    | some e =>
      rw [Stmt.check] at h
      obtain ⟨t, w₁, he, h⟩ := Effect.bind_eq_ok_iff.1 (Effect.orAt_eq_ok_iff.1 h)
      exact ⟨t, (Effect.pure_eq_ok_iff.1 h).1.symm, congrArg Prod.fst he⟩
  | breakLoop | continueLoop => exact .statement id .pure

/-- **The check of a block.** -/
theorem checkBlock_sees (body : List Stmt) (n : ScopeId) (found : Option String) :
    (checkBlock body n found).Sees found (blockLeaves body) (blockVisits body n found) := by
  unfold checkBlock blockLeaves blockVisits
  cases body with
  | nil => exact .nil found
  | cons s rest =>
    have hfirst := (s.check_sees n).merge_orAt found s.position
    have hrest (found : Option String) := checkBlock_sees rest n found
    have hblock := hfirst.andThen hrest
    rwa [bind_assoc] at hblock

theorem checkBranches_sees (branches : List Branch) (n : ScopeId) (found : Option String) :
    (checkBranches branches n found).Sees found (branchLeaves branches)
      (branchVisits branches n found) := by
  unfold checkBranches branchLeaves branchVisits
  match branches with
  | [] => exact .nil found
  | .mk condition body :: rest =>
    have hbody := Effect.Sees.enter (fun inner => checkBlock_sees body inner none) n
    have hfirst := (hbody.test condition n).merge found
    have hrest (found : Option String) := checkBranches_sees rest n found
    have hbranches := hfirst.andThen hrest
    simpa only [checkBranch, bind_assoc] using hbranches

end

/-! ## Accepted bodies -/

section Bodies

variable {d : FuncDef} {n : ScopeId} {params : List (String × Binding)} {declared type : String}
  {methods : List FuncDef} {headers : List Header} {p : Option Position} {result : Option String}
  {w w' : World}

/-- The visits of the check of a body, in a new scope with its parameters. -/
def FuncDef.bodyVisits (d : FuncDef) (n : ScopeId) (params : List (String × Binding)) (w : World) :
    List Visit :=
  blockVisits d.body w.scopes.next none (bindAll w.scopes.next params (w.openChild n)).2

/-- The check comes to every leaf of the body and accepts it, each return has the declared type, and
there is one unless the declared type is `None`. -/
structure FuncDef.ReturnsOnly (d : FuncDef) (n : ScopeId) (params : List (String × Binding))
    (declared : String) (w : World) : Prop where
  all : (d.bodyVisits n params w).map Visit.leaf = blockLeaves d.body
  accepted : ∀ v ∈ d.bodyVisits n params w, v.Accepted
  only : ∀ v ∈ d.bodyVisits n params w, v.leaf.IsReturn → v.ReturnsAt declared
  exists_return : declared ≠ Primitive.none.name → ∃ leaf ∈ blockLeaves d.body, leaf.IsReturn

theorem getD_of_matchReturn {inferred : Option String}
    (h : matchReturn d declared inferred w = (.ok (), w')) :
    inferred.getD Primitive.none.name = declared := by
  unfold matchReturn at h
  split at h
  · next heq => exact heq
  · rw [Effect.orAt_eq_ok_iff] at h
    exact absurd h Effect.fail_ne_ok

/-- **What an accepted body returns.** -/
theorem FuncDef.checkBody_returnsOnly (h : d.checkBody n params declared w = (.ok (), w')) :
    d.ReturnsOnly n params declared w := by
  obtain ⟨p, name, ps, ret, body⟩ := d
  rw [checkBody, Effect.openChild_bind_eq_iff] at h
  obtain ⟨_, w₁, hbind, h⟩ := Effect.bind_eq_ok_iff.1 h
  obtain ⟨inferred, w₂, hbody, h⟩ := Effect.bind_eq_ok_iff.1 h
  have hdeclared := getD_of_matchReturn h
  have hcollects : Collects none _ _ inferred := checkBlock_sees body _ none w₁ _ w₂ hbody
  obtain rfl : (bindAll w.scopes.next params (w.openChild n)).2 = w₁ := congrArg Prod.snd hbind
  refine ⟨hcollects.all, hcollects.accepted, fun v hv hreturn => ?_, fun hne => ?_⟩
  · obtain ⟨t, rfl, hat⟩ := hcollects.returns v hv hreturn
    obtain rfl : t = declared := hdeclared
    exact hat
  · by_contra hno
    push Not at hno
    rw [hcollects.none_iff.2 ⟨rfl, hno⟩] at hdeclared
    exact hne hdeclared.symm

/-! ### Functions -/

/-- The world in which the check of a function comes to its body: the function is declared. -/
def FuncDef.bodyWorld (d : FuncDef) (n : ScopeId) (header : Header) (w : World) : World :=
  w.declareFunction n (.function d.name header.params) (.ofFunction d n header.ret)

theorem exists_checkBody_of_defineFunc (h : (Stmt.defineFunc p d).check n w = (.ok result, w')) :
    ∃ header, checkHeader d n none w = (.ok header, w) ∧
      d.checkBody n (paramBindings d header) header.ret (d.bodyWorld n header w) = (.ok (), w') := by
  rw [Stmt.check] at h
  obtain ⟨header, hheader, h⟩ :=
    (checkHeader_moves d n none).bind_eq_ok_iff.1 (Effect.orAt_eq_ok_iff.1 h)
  obtain ⟨_, w₁, hdeclare, h⟩ := Effect.bind_eq_ok_iff.1 h
  obtain ⟨-, rfl⟩ := Effect.update_eq_iff.1 hdeclare
  obtain ⟨_, w₂, hbody, h⟩ := Effect.bind_eq_ok_iff.1 h
  obtain ⟨-, rfl⟩ := Effect.pure_eq_ok_iff.1 h
  exact ⟨header, hheader, hbody⟩

/-! ### Types -/

/-- What the check of a type definition has found when it comes to the bodies of the methods. -/
structure TypeDef.Heads (d : TypeDef) (n : ScopeId) (w : World) (descriptor : Descriptor)
    (headers : List Header) : Prop where
  name : descriptor.name = d.name
  primitive : descriptor.primitive = false
  parents : checkParents d n w = (.ok descriptor.parents, w)
  attributes : checkAttributes n d.attributes [] w = (.ok descriptor.attributes, w)
  methods : checkMethods d.name n d.methods [] w = (.ok (descriptor.methods, headers), w)
  headers : List.Forall₂ (fun m header => checkHeader m n (some d.name) w = (.ok header, w))
    d.methods headers

/-- The world in which the check of a type definition comes to the bodies of the methods: the type
is declared. -/
def TypeDef.bodiesWorld (d : TypeDef) (n : ScopeId) (descriptor : Descriptor) (w : World) : World :=
  (w.addType descriptor).declareType n d.name w.types.next

/-- The bodies of methods are accepted one after another, each in the world that the check of those
before it leaves, and they return nothing but what the headers declare. -/
inductive BodiesReturn (type : String) (n : ScopeId) :
    List FuncDef → List Header → World → World → Prop
  | nil {w : World} : BodiesReturn type n [] [] w w
  | cons {m : FuncDef} {header : Header} {methods : List FuncDef} {headers : List Header}
    {w w₁ w' : World}
    (hbody : m.checkBody n ((receiverName, .static type) :: paramBindings m header) header.ret w =
      (.ok (), w₁))
    (hreturns : m.ReturnsOnly n ((receiverName, .static type) :: paramBindings m header) header.ret
      w)
    (hrest : BodiesReturn type n methods headers w₁ w') :
    BodiesReturn type n (m :: methods) (header :: headers) w w'

theorem forall₂_of_checkMethods {table : Table Signature Overload}
    {result : Table Signature Overload × List Header}
    (h : checkMethods type n methods table w = (.ok result, w')) :
    List.Forall₂ (fun m header => checkHeader m n (some type) w = (.ok header, w)) methods
      result.2 := by
  induction methods generalizing table result w' with
  | nil =>
    cases h
    exact .nil
  | cons m rest ih =>
    obtain ⟨header, hheader, h⟩ := (checkHeader_moves m n _).bind_eq_ok_iff.1 h
    obtain ⟨_, -, h⟩ := (checkConstructor_moves type m header).bind_eq_ok_iff.1 h
    obtain ⟨⟨methods', headers⟩, hrest, h⟩ := (checkMethods_moves type n rest _).bind_eq_ok_iff.1 h
    cases h
    exact .cons hheader (ih hrest)

/-- A body for every header: the check skips none. -/
theorem bodiesReturn_of_checkBodies {Q : FuncDef → Header → Prop}
    (hheaders : List.Forall₂ Q methods headers)
    (h : checkBodies type methods headers n w = (.ok (), w')) :
    BodiesReturn type n methods headers w w' := by
  induction hheaders generalizing w with
  | nil =>
    unfold checkBodies at h
    obtain ⟨-, rfl⟩ := Effect.pure_eq_ok_iff.1 h
    exact .nil
  | cons _ _ ih =>
    unfold checkBodies at h
    obtain ⟨_, w₁, hbody, h⟩ := Effect.bind_eq_ok_iff.1 h
    exact .cons hbody (FuncDef.checkBody_returnsOnly hbody) (ih h)

/-- **What the methods of an accepted type definition return.** -/
theorem exists_bodiesReturn_of_defineType {d : TypeDef}
    (h : (Stmt.defineType p d).check n w = (.ok result, w')) :
    ∃ descriptor headers, d.Heads n w descriptor headers ∧
      BodiesReturn d.name n d.methods headers (d.bodiesWorld n descriptor w) w' := by
  obtain ⟨name, parents, attributes, methods⟩ := d
  rw [Stmt.check] at h
  obtain ⟨_, w₁, hd, hresult⟩ := Effect.bind_eq_ok_iff.1 (Effect.orAt_eq_ok_iff.1 h)
  obtain ⟨-, rfl⟩ := Effect.pure_eq_ok_iff.1 hresult
  clear h
  rw [TypeDef.check] at hd
  obtain ⟨parentTypes, hparents, h₁⟩ := (checkParents_moves _ n).bind_eq_ok_iff.1 hd
  obtain ⟨attrs, hattrs, h₂⟩ := (checkAttributes_moves n attributes []).bind_eq_ok_iff.1 h₁
  obtain ⟨⟨table, headers⟩, hmethods, h₃⟩ :=
    (checkMethods_moves name n methods []).bind_eq_ok_iff.1 h₂
  obtain ⟨t, w₂, ht, h₄⟩ := Effect.bind_eq_ok_iff.1 h₃
  obtain ⟨rfl, rfl⟩ := Effect.ask_eq_ok_iff.1 ht
  obtain ⟨_, w₂, hadd, h₅⟩ := Effect.bind_eq_ok_iff.1 h₄
  obtain ⟨-, rfl⟩ := Effect.update_eq_iff.1 hadd
  obtain ⟨_, w₃, hdeclare, hbodies⟩ := Effect.bind_eq_ok_iff.1 h₅
  obtain ⟨-, rfl⟩ := Effect.update_eq_iff.1 hdeclare
  have hheaders := forall₂_of_checkMethods hmethods
  exact ⟨⟨name, false, parentTypes, attrs, table⟩, headers,
    ⟨rfl, rfl, hparents, hattrs, hmethods, hheaders⟩, bodiesReturn_of_checkBodies hheaders hbodies⟩

end Bodies

/-- **The type of a block is the type of its returns.** A block that is accepted in a scope has been
gone through to its end, definitions in it included. It has no type if it has no return; else each
of its returns is checked at the type that it has. A block that is not accepted has been gone
through up to a leaf that fails, or two of its returns are checked at different types. So an accepted
body, in the world in which the check comes to it, returns nothing but the type that its definition
declares, and it returns unless that is `None`. -/
theorem returns_are_seen (n : ScopeId) (w : World) :
    (∀ (body : Block) type w', checkBlock body n none w = (.ok type, w') →
      (blockVisits body n none w).map Visit.leaf = blockLeaves body ∧
      (∀ v ∈ blockVisits body n none w, v.Accepted) ∧
      (type = none ↔ ∀ leaf ∈ blockLeaves body, ¬leaf.IsReturn) ∧
      ∀ v ∈ blockVisits body n none w, v.leaf.IsReturn → ∃ t, type = some t ∧ v.ReturnsAt t) ∧
    (∀ (body : Block) e w', checkBlock body n none w = (.error e, w') →
      (blockVisits body n none w).map Visit.leaf <+: blockLeaves body ∧
      ((∃ v ∈ blockVisits body n none w, v.FailsWith e) ∨
        ∃ first second, first ≠ second ∧ e.cause = .conflictingReturnTypes first second ∧
          (∃ v ∈ blockVisits body n none w, v.ReturnsAt first) ∧
          ∃ v ∈ blockVisits body n none w, v.ReturnsAt second)) ∧
    (∀ p (d : FuncDef) type w', (Stmt.defineFunc p d).check n w = (.ok type, w') →
      ∃ header, checkHeader d n none w = (.ok header, w) ∧
        d.checkBody n (paramBindings d header) header.ret (d.bodyWorld n header w) =
          (.ok (), w') ∧
        d.ReturnsOnly n (paramBindings d header) header.ret (d.bodyWorld n header w)) ∧
    ∀ p (d : TypeDef) type w', (Stmt.defineType p d).check n w = (.ok type, w') →
      ∃ descriptor headers, d.Heads n w descriptor headers ∧
        BodiesReturn d.name n d.methods headers (d.bodiesWorld n descriptor w) w' := by
  refine ⟨fun body type w' h => ?_, fun body e w' h => ?_, fun p d type w' h => ?_,
    fun p d type w' h => exists_bodiesReturn_of_defineType h⟩
  · have hcollects : Collects none _ _ type := checkBlock_sees body n none w _ w' h
    have hnone := hcollects.none_iff
    exact ⟨hcollects.all, hcollects.accepted, by simpa using hnone, hcollects.returns⟩
  · obtain ⟨hstart, hstops⟩ := checkBlock_sees body n none w _ w' h
    refine ⟨hstart, ?_⟩
    cases hstops with
    | failed hv hfails => exact .inl ⟨_, hv, hfails⟩
    | conflict hne hcause hfirst hsecond =>
      exact .inr ⟨_, _, hne, hcause, hfirst.resolve_left nofun, hsecond⟩
  · obtain ⟨header, hheader, hbody⟩ := exists_checkBody_of_defineFunc h
    exact ⟨header, hheader, hbody, FuncDef.checkBody_returnsOnly hbody⟩

/-- A branch and a loop in the default block return numbers, and a text behind them conflicts with
them. A function with this body and a method that is called by another one are accepted. -/
theorem returns_are_seen_in_branches :
    ∃ (w : World) (body : Block) (extra : Stmt) (f : FuncDef) (d : TypeDef),
      (∃ leaf ∈ blockLeaves body, leaf.IsReturn) ∧
      (∀ v ∈ blockVisits body Interpreter.root none w, v.leaf.IsReturn → v.ReturnsAt "Int") ∧
      (∃ v ∈ blockVisits (body ++ [extra]) Interpreter.root none w, v.ReturnsAt "Int") ∧
      (∃ v ∈ blockVisits (body ++ [extra]) Interpreter.root none w, v.ReturnsAt "String") ∧
      (∃ header, f.ReturnsOnly Interpreter.root (paramBindings f header) "Int"
        (f.bodyWorld Interpreter.root header w)) ∧
      ∃ descriptor headers w', headers.map Header.ret = ["Int", "Bool"] ∧
        BodiesReturn d.name Interpreter.root d.methods headers
          (d.bodiesWorld Interpreter.root descriptor w) w' := by
  let yes : Expr := .literal none (.bool true)
  let number : Stmt := .returns none (some (.literal none (.int 1)))
  let body : Block := [.ifElse none [.mk yes [number]] (some [.whileLoop none yes [number]])]
  let extra : Stmt := .returns none (some (.literal none (.string "text")))
  let f : FuncDef := .mk none "one" [] (some "Int") body
  let one : Expr := .methodCall none (.var none "this") "one" []
  let d : TypeDef := .mk "T" [] []
    [f, .mk none "same" [] (some "Bool") [.returns none (some (.binary none .eq one one))]]
  let w : World := Interpreter.start true (.captured "")
  have hbody : (checkBlock body Interpreter.root none w).1.toOption = some (some "Int") := by
    decide +kernel
  have hlong : (match (checkBlock (body ++ [extra]) Interpreter.root none w).1 with
      | .error e => e.cause == .conflictingReturnTypes "Int" "String"
      | .ok _ => false) = true := by decide +kernel
  have hleaves : ((blockVisits (body ++ [extra]) Interpreter.root none w).all fun v =>
      (v.leaf.check v.scope v.world).1.toOption.isSome) = true := by decide +kernel
  have hf : ((Stmt.defineFunc none f).check Interpreter.root w).1.toOption = some none := by
    decide +kernel
  have hd : ((Stmt.defineType none d).check Interpreter.root w).1.toOption = some none := by
    decide +kernel
  have hret : ((checkHeader f Interpreter.root none w).1.map Header.ret).toOption = some "Int" := by
    decide +kernel
  have hrets : ((checkMethods d.name Interpreter.root d.methods [] w).1.map
      (·.2.map Header.ret)).toOption = some ["Int", "Bool"] := by decide +kernel
  obtain ⟨hok, herror, hfunction, htype⟩ := returns_are_seen Interpreter.root w
  refine ⟨w, body, extra, f, d, ?_⟩
  obtain ⟨wb, hbody⟩ := Effect.exists_of_toOption hbody
  obtain ⟨-, -, hnone, hreturns⟩ := hok body _ wb hbody
  obtain ⟨wf, hf⟩ := Effect.exists_of_toOption hf
  obtain ⟨header, hheader, -, honly⟩ := hfunction none f _ wf hf
  obtain ⟨wd, hd⟩ := Effect.exists_of_toOption hd
  obtain ⟨descriptor, headers, hheads, hbodies⟩ := htype none d _ wd hd
  rw [hheader] at hret
  rw [Option.some.inj hret] at honly
  rw [hheads.methods] at hrets
  have hconflict : (∃ v ∈ blockVisits (body ++ [extra]) Interpreter.root none w,
      v.ReturnsAt "Int") ∧
        ∃ v ∈ blockVisits (body ++ [extra]) Interpreter.root none w, v.ReturnsAt "String" := by
    rcases hr : checkBlock (body ++ [extra]) Interpreter.root none w with ⟨e | type, we⟩
    · rw [hr] at hlong
      obtain ⟨-, ⟨v, hv, e₀, w₀, p, hfails, -⟩ | ⟨first, second, -, hcause, hfound⟩⟩ :=
        herror _ e we hr
      · have hv := List.all_eq_true.1 hleaves v hv
        rw [hfails] at hv
        cases hv
      · rw [show e.cause = .conflictingReturnTypes "Int" "String" from beq_iff_eq.1 hlong] at hcause
        cases hcause
        exact hfound
    · rw [hr] at hlong
      cases hlong
  refine ⟨?_, fun v hv hreturn => ?_, hconflict.1, hconflict.2, ⟨header, honly⟩,
    descriptor, headers, wd, Option.some.inj hrets, hbodies⟩
  · by_contra hno
    push Not at hno
    cases hnone.2 hno
  · obtain ⟨t, ht, hat⟩ := hreturns v hv hreturn
    cases ht
    exact hat

end Nominal
