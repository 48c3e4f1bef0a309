import Nominal.Check
import Nominal.Proofs.Frame

/-!
# What the check leaves as it was

The check of an expression changes nothing. The check of a statement declares at most one name, in
the scope of the statement, and else only in scopes of its own. It prints nothing.

* **`Expr.check_moves`**: the check of an expression changes nothing.
* **`World.Framing.check`**, `World.Framing.checkBlock`: what holds across each change holds across
  checks.
* `World.Quiet`: what is kept by a step that prints nothing.
* **`Stmt.check_quiet`**, `checkBlock_quiet`: the check of a statement, or of a block, changes no
  scope but its own and prints nothing.
-/

namespace Nominal

open Effect (openChild bindAll)

/-! ## Expressions -/

mutual

theorem Expr.check_moves (e : Expr) (n : ScopeId) : (e.check n).Moves Eq := by
  unfold Expr.check
  cases e with
  | literal p l => exact .orAt p (.query _)
  | var p name => exact .orAt p (.bind (.query _) fun _ => .ask _)
  | binary p op left right =>
    exact .orAt p (.bind (left.check_moves n) fun _ => .bind (.query _) fun _ =>
      .bind (right.check_moves n) fun _ => .bind (.query _) fun _ => .pure _)
  | unary p op operand =>
    exact .orAt p (.bind (operand.check_moves n) fun _ => .bind (.query _) fun _ =>
      .bind (.query _) fun _ => .pure _)
  | call p callee args =>
    exact .orAt p (.bind (checkArgs_moves args n) fun _ => .bind (.query _) fun _ => .ask _)
  | methodCall p receiver method args =>
    exact .orAt p (.bind (receiver.check_moves n) fun _ => .bind (.query _) fun _ =>
      .bind (checkArgs_moves args n) fun _ => .bind (.query _) fun _ => .pure _)
  | attr p object name =>
    exact .orAt p (.bind (object.check_moves n) fun _ => .bind (.query _) fun _ => .query _)

theorem checkArgs_moves (es : List Expr) (n : ScopeId) : (checkArgs es n).Moves Eq := by
  unfold checkArgs
  cases es with
  | nil => exact .pure _
  | cons e es =>
    exact .bind (e.check_moves n) fun _ => .bind (checkArgs_moves es n) fun _ => .pure _

end

theorem checkInit_moves (name declared : String) (init : Option Expr) (n : ScopeId) :
    (checkInit name declared init n).Moves Eq := by
  cases init with
  | none => exact .pure _
  | some e =>
    refine .bind (e.check_moves n) fun found => ?_
    split
    · exact .pure _
    · exact .orAt _ (.fail _)

theorem checkCondition_moves (e : Expr) (n : ScopeId) : (checkCondition e n).Moves Eq := by
  refine .bind (e.check_moves n) fun type => ?_
  split
  · exact .pure _
  · exact .orAt _ (.fail _)

/-! ## Headers, parents, attributes and methods -/

theorem checkHeader_moves (d : FuncDef) (n : ScopeId) (defining : Option String) :
    (checkHeader d n defining).Moves Eq := by
  refine .bind (.each (fun _ => .query _) _) fun params => ?_
  cases d.ret with
  | none => exact .bind (.pure _) fun _ => .pure _
  | some name => exact .bind (.query _) fun _ => .pure _

theorem checkParents_moves (d : TypeDef) (n : ScopeId) : (checkParents d n).Moves Eq :=
  .each (fun _ => .bind (.query _) fun _ => .query _) _

theorem checkAttributes_moves (n : ScopeId) :
    ∀ (attributes : List AttributeDef) (attrs : Table String Attribute),
      (checkAttributes n attributes attrs).Moves Eq
  | [], _ => .pure _
  | a :: rest, _ =>
    .bind (.query _) fun _ => .bind (checkInit_moves a.name _ a.init n) fun _ =>
      checkAttributes_moves n rest _

theorem checkConstructor_moves (type : String) (m : FuncDef) (h : Header) :
    (checkConstructor type m h).Moves Eq := by
  unfold checkConstructor
  split
  · exact .orAt _ (.fail _)
  · exact .pure _

theorem checkMethods_moves (type : String) (n : ScopeId) :
    ∀ (methods : List FuncDef) (table : Table Signature Overload),
      (checkMethods type n methods table).Moves Eq
  | [], _ => .pure _
  | m :: rest, _ =>
    .bind (checkHeader_moves m n _) fun h => .bind (checkConstructor_moves type m h) fun _ =>
      .bind (checkMethods_moves type n rest _) fun _ => .pure _

theorem matchReturn_moves (d : FuncDef) (declared : String) (inferred : Option String) :
    (matchReturn d declared inferred).Moves Eq := by
  unfold matchReturn
  dsimp only
  split
  · exact .pure _
  · exact .orAt _ (.fail _)

theorem checkAttributes_nodup {n : ScopeId} {attributes : List AttributeDef}
    {attrs table : Table String Attribute} {w w' : World}
    (h : checkAttributes n attributes attrs w = (.ok table, w')) (hattrs : attrs.keys.Nodup) :
    table.keys.Nodup := by
  induction attributes generalizing attrs w with
  | nil =>
    obtain ⟨rfl, -⟩ := Effect.pure_eq_ok_iff.1 h
    exact hattrs
  | cons a rest ih =>
    obtain ⟨type, w₁, -, h⟩ := Effect.bind_eq_ok_iff.1 h
    obtain ⟨_, w₂, -, h⟩ := Effect.bind_eq_ok_iff.1 h
    exact ih h (Table.nodup_keys_insert hattrs ..)

/-! ## Statements -/

namespace World.Framing

variable {R : Set ScopeId → World → World → Prop}

theorem enter {α : Type} (hR : Framing R) {n : ScopeId} {f : ScopeId → Effect α}
    (hf : ∀ inner, (f inner).Moves (R {inner})) : (Effect.openChild n >>= f).Moves (R ∅) :=
  fun w r w' h => hR.fresh (hf w.scopes.next _ r w' h)

variable [∀ D, Std.Refl (R D)] [∀ D, IsTrans World (R D)]

mutual

/-- **The check of a statement.** -/
theorem check (hR : Framing R) (s : Stmt) (n : ScopeId) : (s.check n).Moves (R {n}) := by
  unfold Stmt.check
  cases s with
  | expr p e => exact .orAt p (.bind (e.check_moves n).of_eq fun _ => .pure _)
  | declareVar p name type init =>
    exact .orAt p (.bind (.query _) fun declared =>
      .bind (checkInit_moves name declared init n).of_eq fun _ =>
        .bind (.update fun w => hR.declareVariable w n name _) fun _ => .pure _)
  | defineFunc p d =>
    exact .orAt p (.bind (checkHeader_moves d n none).of_eq fun h =>
      .bind (.update fun w => hR.declareFunction w n _ _) fun _ =>
        .bind ((hR.checkBody d n _ _).mono fun _ _ => hR.weaken) fun _ => .pure _)
  | defineType p d => exact .orAt p (.bind (hR.checkType d n) fun _ => .pure _)
  | ifElse p branches default =>
    refine .orAt p (.bind ((hR.checkBranches branches n none).mono fun _ _ => hR.weaken)
      fun found => ?_)
    cases default with
    | none => exact .pure _
    | some body =>
      refine .mono ?_ fun _ _ => hR.weaken
      exact hR.enter fun inner => .bind (hR.checkBlock body inner none) fun _ => .query _
  | whileLoop p condition body =>
    refine .orAt p (.bind (checkCondition_moves condition n).of_eq fun _ => ?_)
    refine .mono ?_ fun _ _ => hR.weaken
    exact hR.enter fun inner => hR.checkBlock body inner none
  | returns p value =>
    cases value with
    | none => exact .pure _
    | some e => exact .orAt p (.bind (e.check_moves n).of_eq fun _ => .pure _)
  | breakLoop | continueLoop => exact .pure _

theorem checkBlock (hR : Framing R) (body : List Stmt) (n : ScopeId) (found : Option String) :
    (Nominal.checkBlock body n found).Moves (R {n}) := by
  unfold Nominal.checkBlock
  cases body with
  | nil => exact .pure _
  | cons s rest =>
    exact .bind (hR.check s n) fun _ => .bind (.orAt _ (.query _)) fun _ =>
      hR.checkBlock rest n _

theorem checkBranches (hR : Framing R) (branches : List Branch) (n : ScopeId)
    (found : Option String) : (Nominal.checkBranches branches n found).Moves (R ∅) := by
  unfold Nominal.checkBranches
  match branches with
  | [] => exact .pure _
  | .mk condition body :: rest =>
    exact .bind (checkCondition_moves condition n).of_eq fun _ => hR.enter fun inner =>
      .bind (hR.checkBlock body inner none) fun _ => .bind (.query _) fun _ =>
        (hR.checkBranches rest n _).mono fun _ _ => hR.weaken

theorem checkBody (hR : Framing R) (d : FuncDef) (n : ScopeId)
    (params : List (String × Binding)) (declared : String) :
    (d.checkBody n params declared).Moves (R ∅) := by
  unfold FuncDef.checkBody
  match d with
  | .mk p name ps ret body =>
    exact hR.enter fun inner => .bind (hR.bindAll inner params) fun _ =>
      .bind (hR.checkBlock body inner none) fun _ => (matchReturn_moves _ _ _).of_eq

theorem checkType (hR : Framing R) (d : TypeDef) (n : ScopeId) : (d.check n).Moves (R {n}) := by
  unfold TypeDef.check
  match d with
  | .mk name parents attributes methods =>
    refine .bind (checkParents_moves _ n).of_eq fun parents w r w' h => ?_
    obtain ⟨e, he, -⟩ | ⟨attrs, w₁, hattrs, h⟩ := Effect.bind_eq_iff.1 h
    · exact (checkAttributes_moves n attributes []).of_eq w _ w' he
    obtain rfl := checkAttributes_moves n attributes [] w _ w₁ hattrs
    have hnodup := checkAttributes_nodup hattrs List.nodup_nil
    refine Effect.Moves.bind (R := R {n}) (checkMethods_moves name n methods []).of_eq
      (fun m => ?_) w r w' h
    exact .bind (.ask _) fun t =>
      .bind (.update fun w => hR.weaken (hR.addType w _ hnodup)) fun _ =>
        .bind (.update fun w => hR.declareType w n name t) fun _ =>
          (hR.checkBodies name methods m.2 n).mono fun _ _ => hR.weaken

theorem checkBodies (hR : Framing R) (type : String) (methods : List FuncDef)
    (headers : List Header) (n : ScopeId) :
    (Nominal.checkBodies type methods headers n).Moves (R ∅) := by
  unfold Nominal.checkBodies
  match methods, headers with
  | [], _ => exact .pure _
  | _ :: _, [] => exact .pure _
  | m :: methods, h :: headers =>
    exact .bind (hR.checkBody m n _ _) fun _ => hR.checkBodies type methods headers n

end

end World.Framing

/-! ## Steps that print nothing -/

/-- No scope outside `D` is changed and nothing is printed. -/
structure World.Quiet (D : Set ScopeId) (w w' : World) : Prop extends w.Keeps D w' where
  output : w'.output = w.output

namespace World.Quiet

variable {D : Set ScopeId}

theorem refl (w : World) : w.Quiet D w := ⟨.refl w, rfl⟩

theorem trans {w w₁ w' : World} (h : w.Quiet D w₁) (h' : w₁.Quiet D w') : w.Quiet D w' :=
  ⟨h.toKeeps.trans h'.toKeeps, h'.output.trans h.output⟩

instance : Std.Refl (World.Quiet D) := ⟨refl⟩

instance : IsTrans World (World.Quiet D) := ⟨fun _ _ _ => trans⟩

theorem of_empty {w w' : World} (h : w.Quiet ∅ w') : w.Quiet D w' :=
  ⟨h.toKeeps.of_empty, h.output⟩

theorem framing : World.Framing Quiet where
  weaken := of_empty
  fresh h := ⟨.of_fresh h.toKeeps, h.output⟩
  declareVariable w n name b := ⟨.declareVariable w n name b, rfl⟩
  declareType w n name t := ⟨.declareType w n name t, rfl⟩
  declareFunction w n s o := ⟨.declareFunction w n s o, rfl⟩
  addType w d _ := ⟨.addType w d, rfl⟩

end World.Quiet

open World (Quiet)

theorem Stmt.check_quiet (s : Stmt) (n : ScopeId) : (s.check n).Moves (Quiet {n}) :=
  Quiet.framing.check s n

theorem checkBlock_quiet (body : List Stmt) (n : ScopeId) (found : Option String) :
    (checkBlock body n found).Moves (Quiet {n}) :=
  Quiet.framing.checkBlock body n found

theorem checkBranches_quiet (branches : List Branch) (n : ScopeId) (found : Option String) :
    (checkBranches branches n found).Moves (Quiet ∅) :=
  Quiet.framing.checkBranches branches n found

theorem FuncDef.checkBody_quiet (d : FuncDef) (n : ScopeId) (params : List (String × Binding))
    (declared : String) : (d.checkBody n params declared).Moves (Quiet ∅) :=
  Quiet.framing.checkBody d n params declared

theorem checkBodies_quiet (type : String) (methods : List FuncDef) (headers : List Header)
    (n : ScopeId) : (checkBodies type methods headers n).Moves (Quiet ∅) :=
  Quiet.framing.checkBodies type methods headers n

end Nominal
