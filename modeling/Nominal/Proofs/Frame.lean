import Mathlib.Data.Set.Insert
import Nominal.Interpreter
import Nominal.Proofs.Steps

/-!
# What running a program leaves as it was

Expressions, calls and loops open scopes of their own and declare only there. A statement declares
at most one name, in the scope that it runs in, and only as its last action.

* `World.Keeps`: outside some scopes, nothing that existed before has changed.
* `World.Framing`: relations that hold across each single change of a world.
* **`World.Framing.runs`**: such relations hold across runs.
* `Stmt.Declares`: what a statement that ends without an error declares in its scope.
* `evaluate_keeps`, `invoke_keeps`, `execute_keeps`: the frames of the kinds of runs.
* **`execution_frame`**: expressions change no scope, statements at most their own declaration.
-/

namespace Nominal

variable {α β : Type}

/-- Every type, and every scope outside `D`, is as it was. There may be new ones. -/
structure World.Keeps (D : Set ScopeId) (w w' : World) : Prop where
  scopes_le : w.scopes.next ≤ w'.scopes.next
  scope_eq : ∀ m < w.scopes.next, m ∉ D → w'.scopes.get m = w.scopes.get m
  types_le : w.types.next ≤ w'.types.next
  type_eq : ∀ t < w.types.next, w'.types.get t = w.types.get t

namespace World.Keeps

variable {D E : Set ScopeId}

theorem refl (w : World) : w.Keeps D w :=
  ⟨le_refl _, fun _ _ _ => rfl, le_refl _, fun _ _ => rfl⟩

theorem trans {w w₁ w' : World} (h : w.Keeps D w₁) (h' : w₁.Keeps D w') : w.Keeps D w' where
  scopes_le := le_trans h.scopes_le h'.scopes_le
  scope_eq m hm hD := by
    rw [h'.scope_eq m (lt_of_lt_of_le hm h.scopes_le) hD, h.scope_eq m hm hD]
  types_le := le_trans h.types_le h'.types_le
  type_eq t ht := by
    rw [h'.type_eq t (lt_of_lt_of_le ht h.types_le), h.type_eq t ht]

instance : Std.Refl (World.Keeps D) := ⟨refl⟩

instance : IsTrans World (World.Keeps D) := ⟨fun _ _ _ => trans⟩

theorem mono {w w' : World} (h : w.Keeps D w') (hDE : D ⊆ E) : w.Keeps E w' :=
  ⟨h.scopes_le, fun m hm hE => h.scope_eq m hm fun hD => hE (hDE hD), h.types_le, h.type_eq⟩

theorem of_empty {w w' : World} (h : w.Keeps ∅ w') : w.Keeps D w' := h.mono (Set.empty_subset D)

/-! ### The changes that steps make -/

theorem openChild (w : World) (n : ScopeId) : w.Keeps D (w.openChild n) where
  scopes_le := by
    rw [World.openChild, Scopes.child, Scopes.next_openScope]
    exact Nat.le_succ _
  scope_eq m hm _ := by
    rw [World.openChild, Scopes.child, Scopes.get_openScope, if_neg (Nat.ne_of_lt hm)]
  types_le := le_refl _
  type_eq _ _ := rfl

theorem modify (w : World) (n : ScopeId) (f : Scope → Scope) (hn : n ∈ D) :
    w.Keeps D { w with scopes := w.scopes.modify n f } where
  scopes_le := by rw [Scopes.next_modify]
  scope_eq m _ hm := by
    rw [Scopes.get_modify, if_neg]
    rintro ⟨rfl, -⟩
    exact hm hn
  types_le := le_refl _
  type_eq _ _ := rfl

theorem declareVariable (w : World) (n : ScopeId) (name : String) (b : Binding) :
    w.Keeps {n} (w.declareVariable n name b) :=
  modify w n _ (Set.mem_singleton n)

theorem declareType (w : World) (n : ScopeId) (name : String) (t : TypeId) :
    w.Keeps {n} (w.declareType n name t) :=
  modify w n _ (Set.mem_singleton n)

theorem declareFunction (w : World) (n : ScopeId) (s : Signature) (o : Overload) :
    w.Keeps {n} (w.declareFunction n s o) :=
  modify w n _ (Set.mem_singleton n)

theorem addType (w : World) (d : Descriptor) : w.Keeps D (w.addType d) where
  scopes_le := le_refl _
  scope_eq _ _ _ := rfl
  types_le := by rw [World.addType, Types.next_add]; exact Nat.le_succ _
  type_eq t ht := by rw [World.addType, Types.get_add, if_neg (Nat.ne_of_lt ht)]

/-- A change of output or host functions touches neither scopes nor types. -/
theorem of_eq {w w' : World} (hs : w'.scopes = w.scopes) (ht : w'.types = w.types) :
    w.Keeps D w' := by
  refine ⟨by rw [hs], fun m _ _ => by rw [hs], by rw [ht], fun t _ => by rw [ht]⟩

/-- What happens in a scope that has just been opened changes no older scope. -/
theorem of_fresh {w w' : World} {n : ScopeId}
    (h : (w.openChild n).Keeps {w.scopes.next} w') : w.Keeps ∅ w' where
  scopes_le := le_trans (openChild (D := ∅) w n).scopes_le h.scopes_le
  scope_eq m hm hD := by
    have h₁ := openChild (D := ∅) w n
    rw [h.scope_eq m (lt_of_lt_of_le hm h₁.scopes_le) (Nat.ne_of_lt hm), h₁.scope_eq m hm hD]
  types_le := h.types_le
  type_eq := h.type_eq

end World.Keeps

open World (Keeps)
open Effect (ask query update fail findType openChild bindAll)

/-! ## The parts of the evaluator -/

section Parts

variable {R : World → World → Prop} [Std.Refl R]

theorem Effect.moves_findType (n : ScopeId) (name : String) : (findType n name).Moves R :=
  .query _

variable [IsTrans World R]

theorem Effect.moves_plain (n : ScopeId) (l : Literal) : (Effect.plain n l).Moves R :=
  .bind (moves_findType n _) fun _ => .pure _

theorem runBlock_moves {step : Stmt → Run Flow} (h : ∀ s, (step s).Moves R) :
    ∀ body : Block, (runBlock step body).Moves R
  | [] => .pure _
  | s :: rest => .bind (h s) fun flow => by
    cases flow with
    | normal => exact runBlock_moves h rest
    | returns | breakLoop | continueLoop => exact .pure _

theorem truth_moves (condition : Expr) (v : Value) : (truth condition v).Moves R := by
  unfold truth
  split
  · exact .pure _
  · exact .orAt _ (.bind (.ask _) fun _ => .fail _)

/-- An operation of the prelude at most writes a line. -/
theorem Builtin.run_moves (haside : ∀ w w', w'.scopes = w.scopes → w'.types = w.types → R w w')
    (b : Builtin) (n : ScopeId) (args : List Value) : (b.run n args).Moves R := by
  cases b with
  | fresh value => exact Effect.moves_plain n value
  | convert =>
    exact .bind (.query _) fun _ => .bind (.query _) fun _ => .bind (.query _) fun _ =>
      Effect.moves_plain n _
  | render => exact .bind (.query _) fun _ => .bind (.ask _) fun _ => Effect.moves_plain n _
  | binary =>
    exact .bind (.query _) fun _ => .bind (.query _) fun _ => .bind (.query _) fun _ =>
      .bind (.query _) fun _ => Effect.moves_plain n _
  | unary =>
    exact .bind (.query _) fun _ => .bind (.query _) fun _ => .bind (.query _) fun _ =>
      Effect.moves_plain n _
  | print =>
    exact .bind (.query _) fun _ => .bind (.ask _) fun _ =>
      .bind (.update fun w => haside w _ rfl rfl) fun _ => Effect.moves_plain n _

theorem hostCall_moves (haside : ∀ w w', w'.scopes = w.scopes → w'.types = w.types → R w w')
    (index : Nat) (n : ScopeId) (args : List Value) : (hostCall index n args).Moves R := by
  refine .bind (.ask _) fun h => .bind (.update fun w => haside w _ rfl rfl) fun _ => ?_
  cases h with
  | constant => exact .pure _
  | argument i =>
    dsimp only
    split
    · exact .pure _
    · exact .fail _
  | argumentCount | counter | countdown => exact Effect.moves_plain n _
  | failure c => exact .fail c

variable {eval : Expr → ScopeId → Run Value} {call : Overload → ScopeId → List Value → Run Value}
  (heval : ∀ e n, (eval e n).Moves R) (hcall : ∀ o n args, (call o n args).Moves R)

include hcall in
theorem instantiate_moves (t : TypeId) (n : ScopeId) : (instantiate call t n).Moves R :=
  .bind (.lift (.ask _)) fun blank => .bind (.lift (.ask _)) fun init => by
    cases init with
    | none => exact .pure _
    | some o => exact hcall o n [blank]

include hcall in
theorem invokeTarget_moves (target : Target) (n : ScopeId) (args : List Value) :
    (invokeTarget call target n args).Moves R := by
  cases target with
  | function o => exact hcall o n args
  | construct t => exact instantiate_moves hcall t n
  | constructWith t o => exact .bind (.lift (.ask _)) fun blank => hcall o n (blank :: args)

include hcall in
theorem initialValue_moves {eval : Expr → Run Value} (heval : ∀ e, (eval e).Moves R)
    (n : ScopeId) (type : String) (init : Option Expr) :
    (initialValue eval call n type init).Moves R := by
  cases init with
  | none =>
    exact .bind (.lift (Effect.moves_findType n type)) fun t => instantiate_moves hcall t n
  | some e => exact heval e

theorem defaultAttributes_moves {init : AttributeDef → Run Value} (h : ∀ a, (init a).Moves R) :
    ∀ (attributes : List AttributeDef) (attrs : Table String Attribute),
      (defaultAttributes init attributes attrs).Moves R
  | [], _ => .pure _
  | a :: rest, _ => .bind (h a) fun _ => defaultAttributes_moves h rest _

include heval hcall in
theorem evaluateWith_moves (e : Expr) (n : ScopeId) : (evaluateWith eval call e n).Moves R := by
  refine .orAt _ ?_
  cases e with
  | literal _ l => exact .lift (Effect.moves_plain n l)
  | var => exact .lift (.query _)
  | binary _ _ left right =>
    exact .bind (heval left n) fun _ => .bind (heval right n) fun _ =>
      .bind (.lift (.query _)) fun _ => hcall _ _ _
  | unary _ _ operand =>
    exact .bind (heval operand n) fun _ => .bind (.lift (.query _)) fun _ => hcall _ _ _
  | call _ _ args =>
    exact .bind (.each (heval · n) args) fun _ => .bind (.lift (.query _)) fun _ =>
      invokeTarget_moves hcall _ _ _
  | methodCall _ receiver _ args =>
    exact .bind (heval receiver n) fun _ => .bind (.each (heval · n) args) fun _ =>
      .bind (.lift (.query _)) fun _ => hcall _ _ _
  | attr _ object => exact .bind (heval object n) fun _ => .lift (.query _)

end Parts

/-! ## Relations across single changes -/

/-- Relations, for the scopes that a step may change, that hold across each change that programs
make to a world. -/
structure World.Framing (R : Set ScopeId → World → World → Prop) : Prop where
  /-- What changes no scope is allowed wherever some may change. -/
  weaken : ∀ {D w w'}, R ∅ w w' → R D w w'
  fresh : ∀ {w w' n}, R {w.scopes.next} (w.openChild n) w' → R ∅ w w'
  declareVariable : ∀ w n name b, R {n} w (w.declareVariable n name b)
  declareType : ∀ w n name t, R {n} w (w.declareType n name t)
  declareFunction : ∀ w n s o, R {n} w (w.declareFunction n s o)
  /-- A type that is added lists each of its attributes once. -/
  addType : ∀ w d, d.attributes.keys.Nodup → R ∅ w (w.addType d)

theorem World.Keeps.framing : World.Framing Keeps where
  weaken := of_empty
  fresh := of_fresh
  declareVariable := .declareVariable
  declareType := .declareType
  declareFunction := .declareFunction
  addType w d _ := .addType w d

theorem defaultAttributes_nodup {init : AttributeDef → Run Value} {attributes : List AttributeDef}
    {attrs table : Table String Attribute} {w w' : World}
    (h : defaultAttributes init attributes attrs w = some (.ok table, w'))
    (hattrs : attrs.keys.Nodup) : table.keys.Nodup := by
  induction attributes generalizing attrs w with
  | nil =>
    obtain ⟨hr, -⟩ := Run.pure_eq_some_iff.1 h
    cases hr
    exact hattrs
  | cons a rest ih =>
    obtain ⟨_, -, hr⟩ | ⟨v, w₁, -, h⟩ := Run.bind_eq_some_iff.1 h
    · cases hr
    · exact ih h (Table.nodup_keys_insert hattrs ..)

namespace World.Framing

variable {R : Set ScopeId → World → World → Prop} (hR : Framing R)

include hR

theorem openChild {n : ScopeId} {f : ScopeId → Run α} (hf : ∀ inner, (f inner).Moves (R {inner})) :
    ((Effect.openChild n : Run ScopeId) >>= f).Moves (R ∅) := by
  intro w r w' h
  rw [Run.bind_eq_some_iff] at h
  obtain ⟨e, h, -⟩ | ⟨inner, w₁, h, h'⟩ := h
  · cases h
  · cases h
    exact hR.fresh (hf _ _ r w' h')

variable [∀ D, Std.Refl (R D)] [∀ D, IsTrans World (R D)]

theorem bindAll (n : ScopeId) : ∀ bs : List (String × Binding), (Effect.bindAll n bs).Moves (R {n})
  | [] => .pure _
  | (name, b) :: rest =>
    .bind (.update fun w => hR.declareVariable w n name b) fun _ => bindAll n rest

theorem applyClosure {step : Stmt → ScopeId → Run Flow} (h : ∀ s n, (step s n).Moves (R {n}))
    (params : List String) (body : Block) (captured : ScopeId) (args : List Value) :
    (Nominal.applyClosure step params body captured args).Moves (R ∅) := by
  unfold Nominal.applyClosure
  split
  · refine hR.openChild fun inner => .bind (.lift (hR.bindAll inner _)) fun _ =>
      .bind (runBlock_moves (h · inner) body) fun flow => ?_
    cases flow <;> exact .pure _
  · exact .lift (.fail _)

theorem runBranches {eval : Expr → Run Value} {step : Stmt → ScopeId → Run Flow}
    (heval : ∀ e, (eval e).Moves (R ∅)) (hstep : ∀ s n, (step s n).Moves (R {n}))
    (n : ScopeId) (default : Option Block) (branches : List Branch) :
    (Nominal.runBranches eval step n default branches).Moves (R ∅) := by
  induction branches with
  | nil =>
    cases default with
    | none => exact .pure _
    | some body => exact hR.openChild fun inner => runBlock_moves (hstep · inner) body
  | cons branch rest ih =>
    obtain ⟨condition, body⟩ := branch
    refine .bind (heval condition) fun v => .bind (.lift (truth_moves condition v)) fun holds => ?_
    cases holds with
    | true => exact hR.openChild fun inner => runBlock_moves (hstep · inner) body
    | false => exact ih

theorem defineType {init : AttributeDef → Run Value} (hinit : ∀ a, (init a).Moves (R ∅))
    (d : TypeDef) (n : ScopeId) : (Nominal.defineType init d n).Moves (R {n}) := by
  refine .bind (.lift (.each (fun name => Effect.moves_findType n name) _))
    fun parents w r w' h => ?_
  have hattrs := defaultAttributes_moves hinit d.attributes []
  obtain ⟨e, he, -⟩ | ⟨attrs, w₁, h₁, h⟩ := Run.bind_eq_some_iff.1 h
  · exact hR.weaken (hattrs w _ w' he)
  · cases h
    have hnodup := defaultAttributes_nodup h₁ List.nodup_nil
    have hadd := hR.addType w₁ ⟨d.name, false, parents, attrs, methodTable n d.methods⟩ hnodup
    have hkept := IsTrans.trans _ _ _ (hattrs w _ w₁ h₁) hadd
    exact IsTrans.trans _ _ _ (hR.weaken hkept) (hR.declareType _ n d.name w₁.types.next)

/-! ### One level of evaluation -/

variable {eval : Expr → ScopeId → Run Value} {step : Stmt → ScopeId → Run Flow}
  {repeating : Expr → Block → ScopeId → Run Flow}
  {call : Overload → ScopeId → List Value → Run Value}
  (heval : ∀ e n, (eval e n).Moves (R ∅))
  (hstep : ∀ s n, (step s n).Moves (R {n}))
  (hrepeating : ∀ condition body n, (repeating condition body n).Moves (R ∅))
  (hcall : ∀ o n args, (call o n args).Moves (R ∅))

include heval hstep hrepeating in
theorem loopWith (condition : Expr) (body : Block) (n : ScopeId) :
    (Nominal.loopWith eval step repeating condition body n).Moves (R ∅) := by
  refine .bind (heval condition n) fun v => .bind (.lift (truth_moves condition v)) fun holds => ?_
  cases holds with
  | false => exact .pure _
  | true =>
    refine hR.openChild fun inner => .bind (runBlock_moves (hstep · inner) body) fun flow => ?_
    cases flow with
    | returns | breakLoop => exact .pure _
    | normal | continueLoop =>
      exact (hrepeating condition body n).mono fun _ _ => hR.weaken

include hstep in
theorem invokeWith (haside : ∀ w w', w'.scopes = w.scopes → w'.types = w.types → R ∅ w w')
    (o : Overload) (n : ScopeId) (args : List Value) :
    (Nominal.invokeWith step o n args).Moves (R ∅) := by
  unfold Nominal.invokeWith
  cases o.callable with
  | builtin b => exact .lift (b.run_moves haside n args)
  | host index => exact .lift (hostCall_moves haside index n args)
  | closure params body captured =>
    refine .bind (hR.applyClosure hstep params body captured args) fun result => ?_
    cases result with
    | some v => exact .pure _
    | none =>
      dsimp only
      split
      · exact .lift (Effect.moves_plain n _)
      · exact .lift (.fail _)

include heval hstep hrepeating hcall in
theorem executeWith (s : Stmt) (n : ScopeId) :
    (Nominal.executeWith eval step repeating call s n).Moves (R {n}) := by
  refine .orAt _ ?_
  cases s with
  | declareVar p name type init =>
    have hinit := initialValue_moves hcall (heval · n) n type init
    exact .bind (hinit.mono fun _ _ => hR.weaken) fun v =>
      .bind (.lift (.update fun w => hR.declareVariable w n name _)) fun _ => .pure _
  | defineFunc p d =>
    exact .bind (.lift (.update fun w => hR.declareFunction w n _ _)) fun _ => .pure _
  | defineType p d =>
    exact .bind (hR.defineType (fun a => initialValue_moves hcall (heval · n) n a.type a.init) d n)
      fun _ => .pure _
  | expr p e => exact .bind ((heval e n).mono fun _ _ => hR.weaken) fun _ => .pure _
  | ifElse p branches default =>
    exact (hR.runBranches (heval · n) hstep n default branches).mono fun _ _ => hR.weaken
  | whileLoop p condition body =>
    exact (hrepeating condition body n).mono fun _ _ => hR.weaken
  | returns p value =>
    cases value with
    | none => exact .pure _
    | some e => exact .bind ((heval e n).mono fun _ _ => hR.weaken) fun _ => .pure _
  | breakLoop | continueLoop => exact .pure _

end World.Framing

/-! ## The evaluator -/

/-- The four kinds of runs with one bound move along relations. -/
structure RunsMove (R : Set ScopeId → World → World → Prop) (fuel : Nat) : Prop where
  evaluate : ∀ e n, (evaluate fuel e n).Moves (R ∅)
  execute : ∀ s n, (execute fuel s n).Moves (R {n})
  loop : ∀ condition body n, (loop fuel condition body n).Moves (R ∅)
  invoke : ∀ o n args, (invoke fuel o n args).Moves (R ∅)

/-- **What holds across each change holds across each run.** -/
theorem World.Framing.runs {R : Set ScopeId → World → World → Prop} [∀ D, IsTrans World (R D)]
    [∀ D, Std.Refl (R D)] (hR : Framing R)
    (haside : ∀ w w', w'.scopes = w.scopes → w'.types = w.types → R ∅ w w') :
    ∀ fuel, RunsMove R fuel
  | 0 =>
    ⟨fun _ _ => .exhausted, fun _ _ => .exhausted, fun _ _ _ => .exhausted,
      fun _ _ _ => .exhausted⟩
  | fuel + 1 =>
    have ih := runs hR haside fuel
    ⟨evaluateWith_moves ih.evaluate ih.invoke,
      hR.executeWith ih.evaluate ih.execute ih.loop ih.invoke,
      hR.loopWith ih.evaluate ih.execute ih.loop, hR.invokeWith ih.execute haside⟩

theorem runsKeep (fuel : Nat) : RunsMove Keeps fuel :=
  World.Keeps.framing.runs (fun _ _ => .of_eq) fuel

theorem evaluate_keeps (fuel : Nat) (e : Expr) (n : ScopeId) :
    (evaluate fuel e n).Moves (Keeps ∅) :=
  (runsKeep fuel).evaluate e n

theorem invoke_keeps (fuel : Nat) (o : Overload) (n : ScopeId) (args : List Value) :
    (invoke fuel o n args).Moves (Keeps ∅) :=
  (runsKeep fuel).invoke o n args

theorem execute_keeps (fuel : Nat) (s : Stmt) (n : ScopeId) :
    (execute fuel s n).Moves (Keeps {n}) :=
  (runsKeep fuel).execute s n

/-! ## What a statement declares -/

/-- What a statement that ends without an error makes of the scope `n` that it runs in: at most one
entry of one table is new or replaced. -/
def Stmt.Declares (s : Stmt) (n : ScopeId) (before after : Scope) : Prop :=
  match s with
  | .declareVar _ name _ _ =>
    ∃ v, after = { before with vars := before.vars.insert name (.value v) }
  | .defineFunc _ d =>
    after = { before with
      functions := before.functions.insert (.function d.name (d.params.map Param.type))
        (.ofFunction d n d.returnType) }
  | .defineType _ d => ∃ t, after = { before with types := before.types.insert d.name t }
  | _ => after = before

/-- The frame of a statement: all other scopes stay as they are, and its own one changes by its
declaration only, or not at all when it fails. -/
structure Stmt.Frame (s : Stmt) (n : ScopeId) (w : World) (r : Except EvalError Flow)
    (w' : World) : Prop where
  keeps : w.Keeps {n} w'
  declares : n < w.scopes.next →
    match r with
    | .ok _ => s.Declares n (w.scopes.get n) (w'.scopes.get n)
    | .error _ => w'.scopes.get n = w.scopes.get n

namespace Stmt.Frame

variable {s : Stmt} {n : ScopeId} {w w₁ w' : World} {r : Except EvalError Flow}

theorem of_error {e : EvalError} (h : w.Keeps ∅ w') : s.Frame n w (.error e) w' :=
  ⟨h.of_empty, fun hn => h.scope_eq n hn (Set.notMem_empty n)⟩

theorem of_keeps (h : w.Keeps ∅ w') (hs : ∀ c, s.Declares n c c) : s.Frame n w r w' := by
  refine ⟨h.of_empty, fun hn => ?_⟩
  rw [h.scope_eq n hn (Set.notMem_empty n)]
  cases r with
  | ok => exact hs _
  | error => rfl

/-- A statement whose last action is a change of its own scope. -/
theorem of_modify {f : Scope → Scope} {flow : Flow} (h : w.Keeps ∅ w₁)
    (hs : ∀ c, s.Declares n c (f c)) :
    s.Frame n w (.ok flow) { w₁ with scopes := w₁.scopes.modify n f } := by
  refine ⟨h.of_empty.trans (.modify w₁ n f (Set.mem_singleton n)), fun hn => ?_⟩
  rw [Scopes.get_modify, if_pos ⟨rfl, lt_of_lt_of_le hn h.scopes_le⟩,
    h.scope_eq n hn (Set.notMem_empty n)]
  exact hs _

end Stmt.Frame

section Level

variable {eval : Expr → ScopeId → Run Value} {step : Stmt → ScopeId → Run Flow}
  {repeating : Expr → Block → ScopeId → Run Flow}
  {call : Overload → ScopeId → List Value → Run Value}
  (heval : ∀ e n, (eval e n).Moves (Keeps ∅))
  (hstep : ∀ s n, (step s n).Moves (Keeps {n}))
  (hrepeating : ∀ condition body n, (repeating condition body n).Moves (Keeps ∅))
  (hcall : ∀ o n args, (call o n args).Moves (Keeps ∅))

include heval hcall in
theorem executeWith_declareVar (p : Option Position) (name type : String) (init : Option Expr)
    (n : ScopeId) {w w' : World} {r : Except EvalError Flow}
    (h : executeWith eval step repeating call (.declareVar p name type init) n w = some (r, w')) :
    (Stmt.declareVar p name type init).Frame n w r w' := by
  obtain ⟨r₀, h₀, rfl⟩ := Run.orAt_eq_some_iff.1 h
  clear h
  have hinit := initialValue_moves hcall (heval · n) n type init
  obtain ⟨e, h, rfl⟩ | ⟨v, w₁, h₁, h⟩ := Run.bind_eq_some_iff.1 h₀
  · exact .of_error (hinit w _ w' h)
  · cases h
    exact .of_modify (hinit w _ w₁ h₁) fun c => ⟨v, rfl⟩

include heval hcall in
theorem executeWith_defineType (p : Option Position) (d : TypeDef) (n : ScopeId) {w w' : World}
    {r : Except EvalError Flow}
    (h : executeWith eval step repeating call (.defineType p d) n w = some (r, w')) :
    (Stmt.defineType p d).Frame n w r w' := by
  obtain ⟨r₀, h₀, rfl⟩ := Run.orAt_eq_some_iff.1 h
  clear h
  have hparents : (Effect.each (findType n) d.parents).Moves (Keeps ∅) :=
    .each (fun name => Effect.moves_findType n name) _
  have hattrs := defaultAttributes_moves
    (fun a => initialValue_moves hcall (heval · n) n a.type a.init) d.attributes []
  -- the type is declared last, when its parents and default values are known
  obtain ⟨e, h, rfl⟩ | ⟨_, w₁, h, hr⟩ := Run.bind_eq_some_iff.1 h₀
  · obtain ⟨_, h, -⟩ | ⟨parents, w₁, h₁, h⟩ := Run.bind_eq_some_iff.1 h
    · exact .of_error (hparents w _ w' (Run.lift_eq_some_iff.1 h))
    · have hw₁ := hparents w _ w₁ (Run.lift_eq_some_iff.1 h₁)
      obtain ⟨_, h, -⟩ | ⟨attrs, w₂, h₂, h⟩ := Run.bind_eq_some_iff.1 h
      · exact .of_error (hw₁.trans (hattrs w₁ _ w' h))
      · cases h
  · cases hr
    obtain ⟨_, -, h⟩ | ⟨parents, w₂, h₁, h⟩ := Run.bind_eq_some_iff.1 h
    · cases h
    · have hw₂ := hparents w _ w₂ (Run.lift_eq_some_iff.1 h₁)
      obtain ⟨_, -, h⟩ | ⟨attrs, w₃, h₂, h⟩ := Run.bind_eq_some_iff.1 h
      · cases h
      · cases h
        exact .of_modify ((hw₂.trans (hattrs w₂ _ w₃ h₂)).trans (.addType w₃ _)) fun c =>
          ⟨_, rfl⟩

include heval hstep hrepeating hcall in
/-- **One level of execution keeps the frame of each statement.** -/
theorem executeWith_frame (s : Stmt) (n : ScopeId) {w w' : World} {r : Except EvalError Flow}
    (h : executeWith eval step repeating call s n w = some (r, w')) : s.Frame n w r w' := by
  cases s with
  | declareVar p name type init => exact executeWith_declareVar heval hcall p name type init n h
  | defineType p d => exact executeWith_defineType heval hcall p d n h
  | defineFunc p d =>
    cases h
    exact .of_modify (.refl w) fun c => rfl
  | expr p e =>
    have hm := Run.Moves.orAt p (.bind (heval e n) fun _ => .pure Flow.normal)
    exact .of_keeps (hm w r w' h) fun c => rfl
  | ifElse p branches default =>
    have hbranches := World.Keeps.framing.runBranches (heval · n) hstep n default branches
    exact .of_keeps (Run.Moves.orAt p hbranches w r w' h) fun c => rfl
  | whileLoop p condition body =>
    have hm := Run.Moves.orAt p (hrepeating condition body n)
    exact .of_keeps (hm w r w' h) fun c => rfl
  | returns p value =>
    cases value with
    | none => cases h; exact .of_keeps (.refl w) fun c => rfl
    | some e =>
      have hm := Run.Moves.orAt p (.bind (heval e n) fun v => .pure (Flow.returns (some v)))
      exact .of_keeps (hm w r w' h) fun c => rfl
  | breakLoop | continueLoop => cases h; exact .of_keeps (.refl w) fun c => rfl

end Level

theorem execute_frame {fuel : Nat} {s : Stmt} {n : ScopeId} {w w' : World}
    {r : Except EvalError Flow} (h : execute fuel s n w = some (r, w')) : s.Frame n w r w' := by
  cases fuel with
  | zero => cases h
  | succ fuel =>
    have ih := runsKeep fuel
    exact executeWith_frame ih.evaluate ih.execute ih.loop ih.invoke s n h

/-- **Executing changes at most a statement's own declaration.** An expression that is evaluated in
scope `n` leaves every scope that existed before as it was, its three tables and the scopes around
it. A statement does so too, but for the one entry that it declares in `n`; when it fails it has
declared nothing. Neither changes a type that existed before. -/
theorem execution_frame (fuel : Nat) (n : ScopeId) (w w' : World) (hn : n < w.scopes.next) :
    (∀ e r, evaluate fuel e n w = some (r, w') →
      (∀ m < w.scopes.next, w'.scopes.get m = w.scopes.get m) ∧
      ∀ t < w.types.next, w'.types.get t = w.types.get t) ∧
    ∀ s r, execute fuel s n w = some (r, w') →
      (∀ m < w.scopes.next, m ≠ n → w'.scopes.get m = w.scopes.get m) ∧
      (∀ t < w.types.next, w'.types.get t = w.types.get t) ∧
      match r with
      | .ok _ => s.Declares n (w.scopes.get n) (w'.scopes.get n)
      | .error _ => w'.scopes.get n = w.scopes.get n := by
  constructor
  · intro e r h
    have hkeeps := evaluate_keeps fuel e n w r w' h
    exact ⟨fun m hm => hkeeps.scope_eq m hm (Set.notMem_empty m), hkeeps.type_eq⟩
  · intro s r h
    have hs := execute_frame h
    exact ⟨fun m hm hmn => hs.keeps.scope_eq m hm hmn, hs.keeps.type_eq, hs.declares hn⟩

/-- The frame of `type T { a: Int = f(1); }` in a scope inside the one that declares `f`, whose body
declares a variable. -/
theorem execution_frame_defineType :
    ∃ w r w' s, 1 < w.scopes.next ∧ execute 20 s 1 w = some (r, w') ∧
      (∀ m < w.scopes.next, m ≠ 1 → w'.scopes.get m = w.scopes.get m) ∧
      (∀ t < w.types.next, w'.types.get t = w.types.get t) ∧
      match r with
      | .ok _ => s.Declares 1 (w.scopes.get 1) (w'.scopes.get 1)
      | .error _ => w'.scopes.get 1 = w.scopes.get 1 := by
  let f : Stmt := .defineFunc none (.mk none "f" [⟨"n", "Int"⟩] (some "Int")
    [.declareVar none "y" "Int" (some (.var none "n")), .returns none (some (.var none "y"))])
  let s : Stmt := .defineType none (.mk "T" []
    [⟨"a", "Int", some (.call none "f" [.literal none (.int 1)])⟩] [])
  let w : World := ((execute 20 f 0 (Interpreter.start true (.captured ""))).get
    (by decide +kernel)).2.openChild 0
  have hn : 1 < w.scopes.next := by decide +kernel
  have hs : (execute 20 s 1 w).isSome := by decide +kernel
  obtain ⟨⟨r, w'⟩, h⟩ := Option.isSome_iff_exists.1 hs
  exact ⟨w, r, w', s, hn, h, (execution_frame 20 1 w w' hn).2 s r h⟩

end Nominal
