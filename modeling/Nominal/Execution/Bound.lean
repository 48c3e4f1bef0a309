import Nominal.Execution

/-!
# The bound of a run

A run that ends within a bound ends in the same way within every larger one. So whether a program
ends, and how, does not depend on the bound.

* `Run.Within`: one run ends as another one does, whenever it ends.
* **`evaluate_within`**, **`execute_within`**, **`loop_within`**, **`invoke_within`**: a run with a
  smaller bound is within the same run with a larger one.
-/

namespace Nominal

variable {α β : Type}

namespace Run

/-- The run `m` ends as `m'` does, whenever it ends. -/
def Within (m m' : Run α) : Prop := ∀ w r, m w = some r → m' w = some r

namespace Within

theorem refl (m : Run α) : m.Within m := fun _ _ h => h

theorem trans {a b c : Run α} (hab : a.Within b) (hbc : b.Within c) : a.Within c :=
  fun w r h => hbc w r (hab w r h)

theorem exhausted (m : Run α) : (Run.exhausted : Run α).Within m := fun _ _ h => by cases h

theorem bind {m m' : Run α} {f f' : α → Run β} (hm : m.Within m')
    (hf : ∀ a, (f a).Within (f' a)) : (m >>= f).Within (m' >>= f') := by
  intro w r h
  rw [bind_apply] at h ⊢
  rcases hmw : m w with _ | ⟨_ | a, w'⟩
  · rw [hmw] at h; cases h
  · rw [hmw] at h; rw [hm w _ hmw]; exact h
  · rw [hmw] at h; rw [hm w _ hmw]; exact hf a w' r h

theorem bind_right {m : Run α} {f f' : α → Run β} (hf : ∀ a, (f a).Within (f' a)) :
    (m >>= f).Within (m >>= f') :=
  bind (refl m) hf

theorem orAt {m m' : Run α} (p : Option Position) (hm : m.Within m') :
    (m.orAt p).Within (m'.orAt p) := by
  intro w r h
  unfold Run.orAt at h ⊢
  rcases hmw : m w with _ | ⟨_ | a, w'⟩
  · rw [hmw] at h; cases h
  · rw [hmw] at h; rw [hm w _ hmw]; exact h
  · rw [hmw] at h; rw [hm w _ hmw]; exact h

theorem each {f f' : α → Run β} (hf : ∀ a, (f a).Within (f' a)) :
    ∀ as : List α, (Run.each f as).Within (Run.each f' as)
  | [] => refl _
  | a :: as => bind (hf a) fun _ => bind (each hf as) fun _ => refl _

end Within

end Run

open Run (Within)

/-! ## The parts of the evaluator -/

theorem runBlock_within {step step' : Stmt → Run Flow} (h : ∀ s, (step s).Within (step' s)) :
    ∀ body : Block, (runBlock step body).Within (runBlock step' body)
  | [] => .refl _
  | s :: rest => .bind (h s) fun flow => by
    cases flow <;> first | exact runBlock_within h rest | exact .refl _

section Calls

variable {call call' : Overload → ScopeId → List Value → Run Value}
  (hcall : ∀ o n args, (call o n args).Within (call' o n args))

include hcall

theorem instantiate_within (t : TypeId) (n : ScopeId) :
    (instantiate call t n).Within (instantiate call' t n) :=
  .bind_right fun blank => .bind_right fun init => by
    cases init with
    | none => exact .refl _
    | some o => exact hcall o n [blank]

theorem invokeTarget_within (target : Target) (n : ScopeId) (args : List Value) :
    (invokeTarget call target n args).Within (invokeTarget call' target n args) := by
  cases target with
  | function o => exact hcall o n args
  | construct t => exact instantiate_within hcall t n
  | constructWith t o => exact .bind_right fun blank => hcall o n (blank :: args)

theorem initialValue_within {eval eval' : Expr → Run Value}
    (heval : ∀ e, (eval e).Within (eval' e)) (n : ScopeId) (type : String) (init : Option Expr) :
    (initialValue eval call n type init).Within (initialValue eval' call' n type init) := by
  cases init with
  | none => exact .bind_right fun t => instantiate_within hcall t n
  | some e => exact heval e

end Calls

theorem applyClosure_within {step step' : Stmt → ScopeId → Run Flow}
    (h : ∀ s n, (step s n).Within (step' s n)) (params : List String) (body : Block)
    (captured : ScopeId) (args : List Value) :
    (applyClosure step params body captured args).Within
      (applyClosure step' params body captured args) := by
  unfold applyClosure
  split
  · exact .bind_right fun inner => .bind_right fun _ =>
      .bind (runBlock_within (h · inner) body) fun _ => .refl _
  · exact .refl _

theorem runBranches_within {eval eval' : Expr → Run Value} {step step' : Stmt → ScopeId → Run Flow}
    (heval : ∀ e, (eval e).Within (eval' e)) (hstep : ∀ s n, (step s n).Within (step' s n))
    (n : ScopeId) (default : Option Block) :
    ∀ branches : List Branch, (runBranches eval step n default branches).Within
      (runBranches eval' step' n default branches)
  | [] => by
    cases default with
    | none => exact .refl _
    | some body => exact .bind_right fun inner => runBlock_within (hstep · inner) body
  | .mk condition body :: rest => .bind (heval condition) fun v => .bind_right fun holds => by
    cases holds with
    | true => exact .bind_right fun inner => runBlock_within (hstep · inner) body
    | false => exact runBranches_within heval hstep n default rest

theorem defaultAttributes_within {init init' : AttributeDef → Run Value}
    (h : ∀ a, (init a).Within (init' a)) :
    ∀ (defs : List AttributeDef) (attrs : Table String Attribute),
      (defaultAttributes init defs attrs).Within (defaultAttributes init' defs attrs)
  | [], _ => .refl _
  | a :: rest, _ => .bind (h a) fun _ => defaultAttributes_within h rest _

theorem defineType_within {init init' : AttributeDef → Run Value}
    (h : ∀ a, (init a).Within (init' a)) (d : TypeDef) (n : ScopeId) :
    (defineType init d n).Within (defineType init' d n) :=
  .bind_right fun _ => .bind (defaultAttributes_within h d.attributes []) fun _ => .refl _

/-! ## One level of evaluation -/

section Level

variable {eval eval' : Expr → ScopeId → Run Value} {step step' : Stmt → ScopeId → Run Flow}
  {repeating repeating' : Expr → Block → ScopeId → Run Flow}
  {call call' : Overload → ScopeId → List Value → Run Value}
  (heval : ∀ e n, (eval e n).Within (eval' e n)) (hstep : ∀ s n, (step s n).Within (step' s n))
  (hrepeating : ∀ c body n, (repeating c body n).Within (repeating' c body n))
  (hcall : ∀ o n args, (call o n args).Within (call' o n args))

include heval hcall in
theorem evaluateWith_within (e : Expr) (n : ScopeId) :
    (evaluateWith eval call e n).Within (evaluateWith eval' call' e n) := by
  refine .orAt _ ?_
  cases e with
  | literal | var => exact .refl _
  | binary _ _ left right =>
    exact .bind (heval left n) fun _ => .bind (heval right n) fun _ =>
      .bind_right fun _ => hcall _ _ _
  | unary _ _ operand =>
    exact .bind (heval operand n) fun _ => .bind_right fun _ => hcall _ _ _
  | call _ _ args =>
    exact .bind (.each (heval · n) args) fun _ => .bind_right fun _ =>
      invokeTarget_within hcall _ _ _
  | methodCall _ receiver _ args =>
    exact .bind (heval receiver n) fun _ => .bind (.each (heval · n) args) fun _ =>
      .bind_right fun _ => hcall _ _ _
  | attr _ object => exact .bind (heval object n) fun _ => .refl _

include heval hstep hrepeating hcall in
theorem executeWith_within (s : Stmt) (n : ScopeId) :
    (executeWith eval step repeating call s n).Within
      (executeWith eval' step' repeating' call' s n) := by
  have hinit := initialValue_within hcall (heval · n) n
  refine .orAt _ ?_
  cases s with
  | expr _ e => exact .bind (heval e n) fun _ => .refl _
  | declareVar _ _ type init => exact .bind (hinit type init) fun _ => .refl _
  | defineFunc | breakLoop | continueLoop => exact .refl _
  | defineType _ d =>
    exact .bind (defineType_within (fun a => hinit a.type a.init) d n) fun _ => .refl _
  | ifElse _ branches default => exact runBranches_within (heval · n) hstep n default branches
  | whileLoop _ condition body => exact hrepeating condition body n
  | returns _ value =>
    cases value with
    | none => exact .refl _
    | some e => exact .bind (heval e n) fun _ => .refl _

include heval hstep hrepeating in
theorem loopWith_within (condition : Expr) (body : Block) (n : ScopeId) :
    (loopWith eval step repeating condition body n).Within
      (loopWith eval' step' repeating' condition body n) := by
  refine .bind (heval condition n) fun v => .bind_right fun holds => ?_
  cases holds with
  | false => exact .refl _
  | true =>
    refine .bind_right fun inner => .bind (runBlock_within (hstep · inner) body) fun flow => ?_
    cases flow <;> first | exact hrepeating condition body n | exact .refl _

include hstep in
theorem invokeWith_within (o : Overload) (n : ScopeId) (args : List Value) :
    (invokeWith step o n args).Within (invokeWith step' o n args) := by
  unfold invokeWith
  cases o.callable with
  | builtin | host => exact .refl _
  | closure params body captured =>
    exact .bind (applyClosure_within hstep params body captured args) fun _ => .refl _

end Level

/-! ## The evaluator -/

/-- Each of the four kinds of runs with one bound is within the same run with the next larger
bound. -/
structure WithinNext (fuel : Nat) : Prop where
  evaluate : ∀ e n, (evaluate fuel e n).Within (evaluate (fuel + 1) e n)
  execute : ∀ s n, (execute fuel s n).Within (execute (fuel + 1) s n)
  loop : ∀ condition body n, (loop fuel condition body n).Within (loop (fuel + 1) condition body n)
  invoke : ∀ o n args, (invoke fuel o n args).Within (invoke (fuel + 1) o n args)

theorem withinNext : ∀ fuel, WithinNext fuel
  | 0 =>
    ⟨fun _ _ => .exhausted _, fun _ _ => .exhausted _, fun _ _ _ => .exhausted _,
      fun _ _ _ => .exhausted _⟩
  | fuel + 1 =>
    have ih := withinNext fuel
    ⟨evaluateWith_within ih.evaluate ih.invoke,
      executeWith_within ih.evaluate ih.execute ih.loop ih.invoke,
      loopWith_within ih.evaluate ih.execute ih.loop, invokeWith_within ih.execute⟩

theorem Run.Within.of_next {m : Nat → Run α} (h : ∀ k, (m k).Within (m (k + 1))) {k l : Nat}
    (hkl : k ≤ l) : (m k).Within (m l) := by
  induction hkl with
  | refl => exact .refl _
  | step _ ih => exact ih.trans (h _)

/-- **The value of an expression does not depend on the bound.** -/
theorem evaluate_within {k l : Nat} (hkl : k ≤ l) (e : Expr) (n : ScopeId) :
    (evaluate k e n).Within (evaluate l e n) :=
  .of_next (fun j => (withinNext j).evaluate e n) hkl

/-- **The effect of a statement does not depend on the bound.** -/
theorem execute_within {k l : Nat} (hkl : k ≤ l) (s : Stmt) (n : ScopeId) :
    (execute k s n).Within (execute l s n) :=
  .of_next (fun j => (withinNext j).execute s n) hkl

/-- **The effect of a loop does not depend on the bound.** -/
theorem loop_within {k l : Nat} (hkl : k ≤ l) (condition : Expr) (body : Block) (n : ScopeId) :
    (loop k condition body n).Within (loop l condition body n) :=
  .of_next (fun j => (withinNext j).loop condition body n) hkl

/-- **The value of a call does not depend on the bound.** -/
theorem invoke_within {k l : Nat} (hkl : k ≤ l) (o : Overload) (n : ScopeId) (args : List Value) :
    (invoke k o n args).Within (invoke l o n args) :=
  .of_next (fun j => (withinNext j).invoke o n args) hkl

end Nominal
