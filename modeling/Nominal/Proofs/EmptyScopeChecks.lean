import Nominal.Check
import Nominal.Proofs.EmptyScopes

/-!
# The check around an empty scope

A check finds the same types and makes the same changes, whether it begins in a scope or in an empty
scope inside it. Only expressions and branches begin there: the statements of branches, bodies and
rounds stand in scopes of their own, which are new, and so no statement declares anything in the
empty scope.

* **`Expr.check_inStep`**: expressions.
* **`Stmt.check_inStep`**, `checkBlock_inStep`: statements outside the empty scope.
* **`checkBranches_inStep`**: branches.
-/

namespace Nominal

open Effect (InStep)

variable {n k m m' : ScopeId}

/-! ## Expressions -/

theorem World.Aside.resolveName {w w' : World} (h : w.Aside n k w') (hm : Beside n k m m')
    (name : String) : w'.resolveName m' name = w.resolveName m name := by
  rw [World.resolveName, World.resolveName, h.findType hm, h.types]

theorem World.Aside.typeNamed {w w' : World} (h : w.Aside n k w') (hm : Beside n k m m')
    (defining : Option String) (name : String) :
    w'.typeNamed m' defining name = w.typeNamed m defining name := by
  rw [World.typeNamed, World.typeNamed, h.resolveName hm]

theorem World.Aside.returnType {w w' : World} (h : w.Aside n k w') (target : Target) :
    w'.returnType target = w.returnType target := by
  unfold World.returnType
  rw [h.types]

theorem World.Aside.bindingType {w w' : World} (h : w.Aside n k w') (b : Binding) :
    w'.bindingType b = w.bindingType b := by
  cases b with
  | static type => rfl
  | value v => exact h.typeName v

mutual

/-- **An expression has the same type in a scope and in an empty scope inside it.** -/
theorem Expr.check_inStep (e : Expr) (hm : Beside n k m m') :
    (e.check m).InStep n k (e.check m') := by
  unfold Expr.check
  cases e with
  | literal p l => exact .orAt (.query fun _ _ h => h.resolveName hm _) p
  | var p name =>
    exact .orAt (.bind (.query fun _ _ h => h.findVariable hm name) fun b =>
      .ask fun _ _ h => h.bindingType b) p
  | binary p op left right =>
    exact .orAt (.bind (left.check_inStep hm) fun l => .bind (.findType hm l) fun t =>
      .bind (right.check_inStep hm) fun r =>
        .bind (.query fun _ _ h => h.resolveBinary hm op t r) fun r => .pure _) p
  | unary p op operand =>
    exact .orAt (.bind (operand.check_inStep hm) fun o => .bind (.findType hm o) fun t =>
      .bind (.query fun _ _ h => h.resolveUnary hm op t) fun r => .pure _) p
  | call p callee args =>
    exact .orAt (.bind (checkArgs_inStep args hm) fun types =>
      .bind (.query fun _ _ h => h.resolveCall hm callee types) fun target =>
        .ask fun _ _ h => h.returnType target) p
  | methodCall p receiver method args =>
    exact .orAt (.bind (receiver.check_inStep hm) fun r => .bind (.findType hm r) fun t =>
      .bind (checkArgs_inStep args hm) fun types =>
        .bind (.query fun _ _ h => h.resolveMethod t method types) fun r => .pure _) p
  | attr p object name =>
    exact .orAt (.bind (object.check_inStep hm) fun o => .bind (.findType hm o) fun t =>
      .query fun _ _ h => by rw [h.types]) p

theorem checkArgs_inStep (es : List Expr) (hm : Beside n k m m') :
    (checkArgs es m).InStep n k (checkArgs es m') := by
  unfold checkArgs
  cases es with
  | nil => exact .pure _
  | cons e es =>
    exact .bind (e.check_inStep hm) fun type => .bind (checkArgs_inStep es hm) fun types =>
      .pure (type :: types)

end

theorem checkCondition_inStep (e : Expr) (hm : Beside n k m m') :
    (checkCondition e m).InStep n k (checkCondition e m') := by
  refine .bind (e.check_inStep hm) fun type => ?_
  split
  · exact .pure ()
  · exact .orAt (.fail _) _

theorem checkInit_inStep (name declared : String) (init : Option Expr) :
    (checkInit name declared init m).InStep n k (checkInit name declared init m) := by
  cases init with
  | none => exact .pure ()
  | some e =>
    refine .bind (e.check_inStep (.same m)) fun found => ?_
    split
    · exact .pure ()
    · exact .orAt (.fail _) _

/-! ## Definitions -/

theorem checkHeader_inStep (d : FuncDef) (defining : Option String) :
    (checkHeader d m defining).InStep n k (checkHeader d m defining) := by
  refine .bind (.each (fun p => .query fun _ _ h => h.typeNamed (.same m) defining p.type) _)
    fun params => ?_
  cases d.ret with
  | none => exact .pure _
  | some name =>
    exact .bind (.query fun _ _ h => h.typeNamed (.same m) defining name) fun ret => .pure _

theorem checkParents_inStep (d : TypeDef) :
    (checkParents d m).InStep n k (checkParents d m) :=
  .each (fun name => .bind (.findType (.same m) name) fun parent =>
    .query fun _ _ h => by rw [h.types]) d.parents

theorem checkAttributes_inStep :
    ∀ (attributes : List AttributeDef) (attrs : Table String Attribute),
      (checkAttributes m attributes attrs).InStep n k (checkAttributes m attributes attrs)
  | [], attrs => .pure attrs
  | a :: rest, _ =>
    .bind (.query fun _ _ h => h.resolveName (.same m) a.type) fun type =>
      .bind (checkInit_inStep a.name type a.init) fun _ => checkAttributes_inStep rest _

theorem checkConstructor_inStep (type : String) (f : FuncDef) (h : Header) :
    (checkConstructor type f h).InStep n k (checkConstructor type f h) := by
  unfold checkConstructor
  split
  · exact .orAt (.fail _) _
  · exact .pure ()

theorem checkMethods_inStep (type : String) (methods : List FuncDef)
    (table : Table Signature Overload) :
    (checkMethods type m methods table).InStep n k (checkMethods type m methods table) := by
  induction methods generalizing table with
  | nil => exact .pure (table, [])
  | cons f rest ih =>
    exact .bind (checkHeader_inStep f (some type)) fun h =>
      .bind (checkConstructor_inStep type f h) fun _ => .bind (ih _) fun r => .pure (r.1, h :: r.2)

theorem matchReturn_inStep (d : FuncDef) (declared : String) (inferred : Option String) :
    (matchReturn d declared inferred).InStep n k (matchReturn d declared inferred) := by
  unfold matchReturn
  dsimp only
  split
  · exact .pure ()
  · exact .orAt (.fail _) _

/-! ## Statements -/

mutual

/-- **A statement outside the empty scope.** -/
theorem Stmt.check_inStep (s : Stmt) {m : ScopeId} (hm : m ≠ k) :
    (s.check m).InStep n k (s.check m) := by
  unfold Stmt.check
  cases s with
  | expr p e => exact .orAt (.bind (e.check_inStep (.same m)) fun _ => .pure none) p
  | declareVar p name type init =>
    refine .orAt (.bind (.query fun _ _ h => h.resolveName (.same m) type) fun declared =>
      .bind (checkInit_inStep name declared init) fun _ => .bind ?_ fun _ => .pure none) p
    exact .update fun _ _ h => h.declareVariable hm name (.static declared)
  | defineFunc p d =>
    refine .orAt (.bind (checkHeader_inStep d none) fun h => .bind ?_ fun _ =>
      .bind (d.checkBody_inStep (paramBindings d h) h.ret) fun _ => .pure none) p
    exact .update fun _ _ hw => hw.declareFunction hm _ _
  | defineType p d => exact .orAt (.bind (d.check_inStep hm) fun _ => .pure none) p
  | ifElse p branches default =>
    refine .orAt (.bind (checkBranches_inStep branches none (.same m)) fun found => ?_) p
    cases default with
    | none => exact .pure found
    | some body =>
      exact .openChild (.same m) fun inner hinner =>
        .bind (checkBlock_inStep body none hinner) fun type => .const _
  | whileLoop p condition body =>
    exact .orAt (.bind (checkCondition_inStep condition (.same m)) fun _ =>
      .openChild (.same m) fun inner hinner => checkBlock_inStep body none hinner) p
  | returns p value =>
    cases value with
    | none => exact .pure _
    | some e => exact .orAt (.bind (e.check_inStep (.same m)) fun type => .pure (some type)) p
  | breakLoop | continueLoop => exact .pure none

theorem checkBlock_inStep (body : List Stmt) (found : Option String) {m : ScopeId} (hm : m ≠ k) :
    (checkBlock body m found).InStep n k (checkBlock body m found) := by
  unfold checkBlock
  cases body with
  | nil => exact .pure found
  | cons s rest =>
    exact .bind (s.check_inStep hm) fun type => .bind (.orAt (.const _) _) fun found =>
      checkBlock_inStep rest found hm

/-- **Branches in a scope and in an empty scope inside it.** -/
theorem checkBranches_inStep (branches : List Branch) (found : Option String)
    {m m' : ScopeId} (hm : Beside n k m m') :
    (checkBranches branches m found).InStep n k (checkBranches branches m' found) := by
  unfold checkBranches
  match branches with
  | [] => exact .pure found
  | .mk condition body :: rest =>
    exact .bind (checkCondition_inStep condition hm) fun _ =>
      .openChild hm fun inner hinner => .bind (checkBlock_inStep body none hinner) fun type =>
        .bind (.const _) fun found => checkBranches_inStep rest found hm

theorem FuncDef.checkBody_inStep (d : FuncDef) (params : List (String × Binding))
    (declared : String) {m : ScopeId} :
    (d.checkBody m params declared).InStep n k (d.checkBody m params declared) := by
  unfold FuncDef.checkBody
  match d with
  | .mk p name ps ret body =>
    exact .openChild (.same m) fun inner hinner => .bind (.bindAll hinner params) fun _ =>
      .bind (checkBlock_inStep body none hinner) fun inferred => matchReturn_inStep _ _ inferred

theorem TypeDef.check_inStep (d : TypeDef) {m : ScopeId} (hm : m ≠ k) :
    (d.check m).InStep n k (d.check m) := by
  unfold TypeDef.check
  match d with
  | .mk name parents attributes methods =>
    refine .bind (checkParents_inStep _) fun types =>
      .bind (checkAttributes_inStep attributes []) fun attrs =>
        .bind (checkMethods_inStep name methods []) fun checked => ?_
    obtain ⟨table, headers⟩ := checked
    refine .bind (.ask fun _ _ h => congrArg Types.next h.types) fun t => ?_
    refine .bind (.update fun _ _ h => h.addType _) fun _ => ?_
    exact .bind (.update fun _ _ h => h.declareType hm name t) fun _ =>
      checkBodies_inStep name methods headers

theorem checkBodies_inStep (type : String) (methods : List FuncDef) (headers : List Header)
    {m : ScopeId} :
    (checkBodies type methods headers m).InStep n k (checkBodies type methods headers m) := by
  unfold checkBodies
  match methods, headers with
  | [], _ => exact .pure ()
  | _ :: _, [] => exact .pure ()
  | f :: methods, h :: headers =>
    exact .bind (f.checkBody_inStep _ h.ret) fun _ => checkBodies_inStep type methods headers

end

end Nominal
