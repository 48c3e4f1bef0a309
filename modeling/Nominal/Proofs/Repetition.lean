import Nominal.Proofs.Aftermath
import Nominal.Proofs.Reached

/-!
# Evaluation again

The evaluation of an expression changes no scope and no type that there was before, and neither does
the execution of a block in a new scope. So the same can be done once more in the world that it
leads to, a copy of the world in which it began.

* `Run.Repeats`: made again, a run ends in the same way.
* `World.Orderly.repeats`: a run that changes nothing that there was before.
* **`evaluation_repeats`**: expressions, and blocks in new scopes.
-/

namespace Nominal

open Effect (openChild)

variable {α ν : Type} {S : Stmt → Prop} {strict : Prop} {w : World} {n : ScopeId}

/-- Made again right after it has ended, a run ends with a result that looks the same or with the
same error, and appends the same text to the output. -/
def Run.Repeats (view : Types → α → ν) (m : Run α) (w : World) : Prop :=
  ∀ r w₁, m w = some (r, w₁) → ∃ o text, m.seen view w = some (o, w.output.append text) ∧
    m.seen view w₁ = some (o, w₁.output.append text)

theorem Names.not_missing_none (c : Cause) : ¬Names.none.Missing c := by
  cases c <;> simp [Names.Missing, Names.none]

theorem Stmt.avoids_none (s : Stmt) : s.Avoids Names.none.types := fun _ _ => not_false

/-- **A run that changes nothing that there was before can be made again.** -/
theorem World.Orderly.repeats (h : w.Orderly (Stmt.Avoids Names.none.types) strict) {m : Run α}
    (hm : m.Moves (World.Keeps ∅)) {f : Renaming → α → α} {view : Types → α → ν}
    (hview : ∀ ρ ts ts', ρ.CopiesTypes ts ts' → ∀ a, view ts' (f ρ a) = view ts a)
    (hfollows : ∀ w₁, m.Follows (.between .none w w₁)
      (f (Copying.between .none w w₁).toRenaming) m) : m.Repeats view w := by
  intro r w₁ hr
  have hg := (hm w r w₁ hr).gains h.scopes
  obtain ⟨e, -, -, hmissing⟩ | ⟨hnone, -⟩ | hseen :=
    h.seen hg (fun _ _ _ => not_false) (hfollows w₁) hview
  · exact absurd hmissing (Names.not_missing_none e.cause)
  · rw [hr] at hnone
    cases hnone
  · exact hseen

/-- **Evaluation is repeatable.** In a world that programs have reached, an expression that is
evaluated twice has values that look the same, or fails twice with the same error, and prints the
same text twice; so does a block that is executed twice, each time in a new scope. -/
theorem evaluation_repeats (h : w.Reached S) (hn : n < w.scopes.next) (fuel : Nat) :
    (∀ e, (evaluate fuel e n).Repeats Value.view w) ∧
    ∀ body, (do
      let inner ← openChild n
      runBlock (execute fuel · inner) body : Run Flow).Repeats Flow.view w := by
  have hspares : SparesBuiltins (Stmt.Avoids Names.none.types) False := False.elim
  have hw := (h.mono fun s _ => s.avoids_none).orderly hspares
  have hscope (w₁ : World) : (Copying.between .none w w₁).scope n = n := Renaming.scope_of_lt hn
  constructor
  · intro e
    refine hw.repeats (evaluate_keeps fuel e n) (f := Renaming.value)
      (fun _ _ _ h => h.view_value) fun w₁ => ?_
    have hfollows := (runsFollow (.between .none w w₁) fuel).evaluate e n
    rwa [hscope] at hfollows
  · intro body
    have hkeeps := World.Keeps.framing.openChild (n := n) fun inner =>
      runBlock_moves (fun s => execute_keeps fuel s inner) body
    refine hw.repeats hkeeps (f := Renaming.flow) (fun _ _ _ h => h.view_flow) fun w₁ => ?_
    have hbody : blockWithin (Stmt.Avoids Names.none.types) body := fun s _ => s.avoids_none
    have hfollows := innerBlock_follows (n := n)
      (runsFollow (.between .none w w₁) fuel).execute hbody
    rwa [hscope] at hfollows

/-- A function that defines a type, prints and gives an object of the type. -/
theorem evaluation_repeats_object :
    ∃ (w : World) (v : Value) (w₁ : World), w.Reached (fun _ => True) ∧
      evaluate 20 (.call none "f" []) Interpreter.root w = some (.ok v, w₁) ∧
      w.output = .captured "a\n" ∧
      (evaluate 20 (.call none "f" []) Interpreter.root).seen Value.view w =
        some (.ok (v.view w₁.types), .captured "a\nb\n") ∧
      (evaluate 20 (.call none "f" []) Interpreter.root).seen Value.view w₁ =
        some (.ok (v.view w₁.types), .captured "a\nb\nb\n") := by
  let print (s : String) : Stmt := .expr none (.call none "print" [.literal none (.string s)])
  let program : Block :=
    [.defineFunc none (.mk none "f" [] (some "T")
      [.defineType none (.mk "T" [] [⟨"a", "Int", some (.literal none (.int 1))⟩] []),
      print "b",
      .returns none (some (.call none "T" []))]),
    print "a"]
  let start : World := Interpreter.start true (.captured "")
  let e : Expr := .call none "f" []
  have hends : (Interpreter.execute 20 program start).any (fun r =>
      r.2.output == .captured "a\n" && (evaluate 20 e Interpreter.root r.2).any fun s =>
        s.1.isOk && s.2.output == .captured "a\nb\n") = true := by decide +kernel
  obtain ⟨⟨r, w⟩, hrun, hw⟩ := (Option.any_eq_true _ _).1 hends
  obtain ⟨hout, hevaluate⟩ := Bool.and_eq_true_iff.1 hw
  obtain ⟨⟨o, w₁⟩, hv, hw₁⟩ := (Option.any_eq_true _ _).1 hevaluate
  obtain ⟨hok, hout₁⟩ := Bool.and_eq_true_iff.1 hw₁
  rw [beq_iff_eq] at hout hout₁
  have hroot : Interpreter.root < start.scopes.next := by decide +kernel
  have hreached : w.Reached (fun _ => True) :=
    .run (.start true _) hroot (fun _ _ => trivial) hrun
  have hroot' : Interpreter.root < w.scopes.next :=
    lt_of_lt_of_le hroot (runBlock_moves (fun s => execute_keeps 20 s Interpreter.root) program
      start r w hrun).scopes_le
  cases o with
  | error c => cases hok
  | ok v =>
    obtain ⟨o, text, hseen, hseen₁⟩ := (evaluation_repeats hreached hroot' 20).1 e _ _ hv
    -- the text is what the first evaluation has printed
    obtain ⟨rfl, htext⟩ := Prod.mk.inj (Option.some.inj (hseen.symm.trans (Run.seen_of_eq hv)))
    rw [hout, hout₁] at htext
    obtain rfl : text = "b\n" := (String.append_right_inj "a\n").1 (Output.captured.inj htext)
    rw [hout] at hseen
    rw [hout₁] at hseen₁
    exact ⟨w, v, w₁, hreached, hv, hout, hseen, hseen₁⟩

end Nominal
