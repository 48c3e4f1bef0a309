import Nominal.Proofs.Blocks
import Nominal.Proofs.Definitions

/-!
# Typed programs run as they are typed

Expressions give values of their types, statements declare what their contexts say and return what
their bodies declare, and closures may be called at any time. All this holds together, by induction
on the bound of a run.

* `declareVariable_gives`, `declareFunction_gives`: statements that declare.
* **`executeWith_gives`**: one statement.
* **`runsGive`**: all kinds of runs.
-/

namespace Nominal

open World (Keeps)
open Effect (ask query update fail findType plain openChild bindAll)

variable {G : Glossary} {M M' : Promise} {w w' : World} {n : ScopeId} {V : Context}

/-! ## Statements -/

section Statements

variable {s : Stmt} {ret : Option String}

theorem Run.Gives.after {m : Run Flow} (h : w.Honours G M) (hn : n < w.scopes.next)
    (hV : w.Shows G M n V) (hs : V.after s = V) (hdefines : s.defines = true → M.scopes n = V)
    (hm : m.Gives G ∅ M w fun M' _ flow => flow.HasType G M' ret) :
    m.Gives G {n} M w (s.After G n ret V M w) :=
  hm.mono (Set.empty_subset _) fun _ _ _ hg _ hflow => .of_grows h hn hV hs hdefines hg hflow

theorem Stmt.After.of_promised (h : w'.Honours G M') (hn : n < w'.scopes.next)
    (hs : s.defines = true) (hscopes : M'.scopes n = V.after s) :
    s.After G n ret V M w M' w' .normal := by
  refine ⟨trivial, fun _ => ?_, fun _ _ => hscopes, fun hs' => ?_, fun hs' => ?_⟩
  · exact hscopes ▸ h.shows (h.lt_next hn)
  · rw [hs] at hs'
    cases hs'
  · rw [hs] at hs'
    cases hs'

theorem declareVariable_gives {m : Run Value} {p : Option Position} {name type : String}
    {init : Option Expr} (h : w.Honours G M) (hn : n < w.scopes.next) (hV : w.Shows G M n V)
    (hrespects : (Stmt.declareVar p name type init).Respects (M.scopes n).vars)
    (hm : m.Gives G ∅ M w fun M' _ v => v.HasType G M' type) :
    (do
      let v ← m
      update (·.declareVariable n name (.value v))
      return .normal : Run Flow).Gives G {n} M w
        ((Stmt.declareVar p name type init).After G n ret V M w) := by
  refine .bind (hm.mono (Set.empty_subset _) fun M' w' v hg _ hv => And.intro hg hv)
    fun v M₁ w₁ _ h₁ hv => ?_
  obtain ⟨hg₁, hv⟩ := hv
  have hn₁ := lt_of_lt_of_le hn hg₁.scopes_le
  have hscopes : M₁.scopes n = M.scopes n := hg₁.scopes_eq h hn
  have hdefines := Stmt.defines_declareVar (p := p) name type init
  refine .effect_bind rfl ⟨.declareVariable w₁ n name (.value v), .refl M₁⟩ (.pure ?_ ?_)
  · refine h₁.declareVariable hn₁ fun T hT => ?_
    rw [hscopes] at hT
    exact hrespects T hT ▸ hv
  · refine ⟨trivial, fun _ => ?_, fun hd => ?_, fun _ => hscopes, fun _ _ hanchors => ?_⟩
    · exact (hV.grows h.nested hn hg₁).declareVariable h₁.nested hn₁ hv
    · rw [hdefines] at hd
      cases hd
    · refine (hanchors.grows h hn hg₁).declareVariable hn₁ fun y T hy => ?_
      exact (Vars.of_declare hy).imp (fun ⟨heq, htype⟩ => ⟨heq, htype ▸ hv⟩) id

theorem declareFunction_gives {p : Option Position} {d : FuncDef} (h : w.Honours G M)
    (hn : n < w.scopes.next) (hscopes : M.scopes n = V)
    (hd : G.functions d.signature = some d.returnType)
    (htyped : d.Typed G (V.addFunction d.signature) []) (hsteady : d.Steady V.vars []) :
    (do
      update (·.declareFunction n d.signature (.ofFunction d n d.returnType))
      return .normal : Run Flow).Gives G {n} M w
        ((Stmt.defineFunc p d).After G n ret V M w) := by
  have hle : (M.scopes n).Le V := hscopes ▸ .refl _
  have hscopes' := M.raise_scopes_self n (V.addFunction d.signature)
  have hcloses : Overload.Closes G (M.raise n (V.addFunction d.signature)) d.signature.params
      (.ofFunction d n d.returnType) := by
    have hvars : d.Steady (V.addFunction d.signature).vars [] := hsteady
    have hn' : n < (M.raise n (V.addFunction d.signature)).next := h.lt_next hn
    exact FuncDef.closes hn' (hscopes'.symm ▸ .refl _) htyped hvars
  have h₁ := h.declareFunction hn (hscopes ▸ h.anchors n (h.lt_next hn)) hle
    (o := .ofFunction d n d.returnType) hd (.inl hcloses)
  refine .effect_bind rfl ⟨.declareFunction w n _ _, Promise.later_raise
    (hle.trans (V.le_addFunction d.signature))⟩ (.pure h₁ ?_)
  exact .of_promised h₁ ((Scopes.next_modify ..).symm ▸ hn) (Stmt.defines_defineFunc d) hscopes'

variable {eval : Expr → ScopeId → Run Value} {step : Stmt → ScopeId → Run Flow}
  {repeating : Expr → Block → ScopeId → Run Flow}
  {call : Overload → ScopeId → List Value → Run Value}
  (heval : ∀ {e n type M w V}, w.Honours G M → n < w.scopes.next → w.Shows G M n V →
    e.HasType G V type → (eval e n).Gives G ∅ M w fun M' _ v => v.HasType G M' type)
  (hstep : ∀ {s n ret M w V}, w.Honours G M → n < w.scopes.next → w.Shows G M n V →
    s.Typed G ret V → s.Steady V.vars → s.Respects (M.scopes n).vars →
    (s.defines = true → M.scopes n = V) →
    (step s n).Gives G {n} M w (s.After G n ret V M w))
  (hrepeating : ∀ {condition body n ret M w V}, w.Honours G M → n < w.scopes.next →
    w.Shows G M n V → (blockDefines body = true → V.Le (M.scopes n)) →
    condition.HasType G V Primitive.bool.name → blockTyped G ret V body →
    blockSteady V.vars Vars.none body →
    (repeating condition body n).Gives G ∅ M w fun M' _ flow => flow.HasType G M' ret)
  (hcall : ∀ {o n args M w}, w.Honours G M → n < w.scopes.next → o.Takes G M w args →
    (call o n args).Gives G ∅ M w fun M' _ v => v.HasType G M' o.ret)

include heval hstep hrepeating hcall

/-- **A typed statement runs as it is typed.** -/
theorem executeWith_gives (hG : G.Proper) (h : w.Honours G M) (hn : n < w.scopes.next)
    (hV : w.Shows G M n V) (htyped : s.Typed G ret V) (hsteady : s.Steady V.vars)
    (hrespects : s.Respects (M.scopes n).vars) (hdefines : s.defines = true → M.scopes n = V) :
    (executeWith eval step repeating call s n).Gives G {n} M w (s.After G n ret V M w) := by
  refine .orAt ?_ s.position
  unfold Stmt.Typed at htyped
  unfold Stmt.Steady at hsteady
  cases s with
  | expr p e =>
    obtain ⟨type, he⟩ := htyped
    exact .after h hn hV rfl hdefines
      (.bind (heval h hn hV he) fun _ M₁ w₁ _ h₁ _ => .pure h₁ trivial)
  | declareVar p name type init =>
    obtain ⟨htype, hinit⟩ := htyped
    exact declareVariable_gives h hn hV hrespects
      (initialValue_gives hcall hG h hn hV (heval h hn hV) htype hinit)
  | defineFunc p d =>
    have hd := Stmt.defines_defineFunc (p := p) d
    exact declareFunction_gives h hn (hdefines hd) htyped.1 htyped.2 hsteady
  | defineType p d =>
    have hd := Stmt.defines_defineType (p := p) d
    refine .bind (defineType_gives (fun a ha M w h hn hV => ?_) h hn hV (hdefines hd) htyped.1
      htyped.2 hsteady) fun _ M₁ w₁ _ h₁ hpost => .pure h₁ ?_
    · obtain ⟨htype, hinit⟩ := TypeDef.attributes_typed htyped.2 a ha
      exact initialValue_gives hcall hG h hn hV (heval h hn hV) htype hinit
    · exact .of_promised h₁ hpost.1 hd hpost.2
  | ifElse p branches default =>
    obtain ⟨hbranches, hdefault⟩ := htyped
    obtain ⟨hsteady₁, hsteady₂⟩ := hsteady
    refine .after h hn hV rfl hdefines (runBranches_gives hstep h hn hV heval (fun hd => ?_)
      hbranches hsteady₁ fun body hbody => ?_)
    · rw [hdefines (Stmt.defines_ifElse hd)]
      exact .refl V
    · subst hbody
      exact ⟨hdefault, hsteady₂⟩
  | whileLoop p condition body =>
    obtain ⟨hcondition, hbody⟩ := htyped
    refine .after h hn hV rfl hdefines (hrepeating h hn hV (fun hd => ?_) hcondition hbody hsteady)
    rw [hdefines (Stmt.defines_whileLoop hd)]
    exact .refl V
  | returns p value =>
    cases value with
    | none => exact .after h hn hV rfl hdefines (.pure h htyped)
    | some e =>
      obtain ⟨type, he, hret⟩ := htyped
      exact .after h hn hV rfl hdefines
        (.bind (heval h hn hV he) fun v M₁ w₁ _ h₁ hv => .pure h₁ ⟨type, hret, hv⟩)
  | breakLoop p | continueLoop p => exact .after h hn hV rfl hdefines (.pure h trivial)

end Statements

/-! ## All runs -/

/-- Typed expressions, calls, statements and loops within one bound run as they are typed. -/
structure RunsGive (G : Glossary) (fuel : Nat) : Prop where
  evaluate : ∀ {e n type M w V}, w.Honours G M → n < w.scopes.next → w.Shows G M n V →
    e.HasType G V type → (evaluate fuel e n).Gives G ∅ M w fun M' _ v => v.HasType G M' type
  execute : ∀ {s n ret M w V}, w.Honours G M → n < w.scopes.next → w.Shows G M n V →
    s.Typed G ret V → s.Steady V.vars → s.Respects (M.scopes n).vars →
    (s.defines = true → M.scopes n = V) →
    (execute fuel s n).Gives G {n} M w (s.After G n ret V M w)
  loop : ∀ {condition body n ret M w V}, w.Honours G M → n < w.scopes.next → w.Shows G M n V →
    (blockDefines body = true → V.Le (M.scopes n)) → condition.HasType G V Primitive.bool.name →
    blockTyped G ret V body → blockSteady V.vars Vars.none body →
    (loop fuel condition body n).Gives G ∅ M w fun M' _ flow => flow.HasType G M' ret
  invoke : ∀ {o n args M w}, w.Honours G M → n < w.scopes.next → o.Takes G M w args →
    (invoke fuel o n args).Gives G ∅ M w fun M' _ v => v.HasType G M' o.ret

/-- **Whatever is typed runs as it is typed, within every bound.** -/
theorem runsGive (hG : G.Proper) : ∀ fuel, RunsGive G fuel
  | 0 => ⟨fun _ _ _ _ => .exhausted, fun _ _ _ _ _ _ _ => .exhausted,
    fun _ _ _ _ _ _ _ => .exhausted, fun _ _ _ => .exhausted⟩
  | fuel + 1 => by
    obtain ⟨hevaluate, hexecute, hloop, hinvoke⟩ := runsGive hG fuel
    constructor
    · exact fun h hn hV he => evaluateWith_gives hevaluate hinvoke hG h hn hV he
    · exact executeWith_gives hevaluate hexecute hloop hinvoke hG
    · intro condition body n ret M w V h hn hV hle hcondition htyped hsteady
      exact loopWith_gives hexecute h hn hV hevaluate
        (fun h hn hV hle => hloop h hn hV hle hcondition htyped hsteady) hle hcondition htyped
        hsteady
    · exact invokeWith_gives hexecute

end Nominal
