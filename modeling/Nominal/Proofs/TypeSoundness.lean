import Nominal.Proofs.Leftovers
import Nominal.Proofs.Soundness

/-!
# A program that passes the check runs as it was checked

The check leaves the root scope with the prelude in it and with its own declarations of the program,
which the execution does not rely on. So the execution starts with a promise of the prelude, and a
typed program keeps to its types.

* `World.Checking.honours`: before and after a check the prelude is as promised.
* `Interpreter.execute_after`: what a consistent program leaves behind when it runs after its check.
* `Interpreter.execute_gives`, `Interpreter.execute_start_gives`: what the execution of a consistent
  program gives after its check, or without it.
* **`check_execute_sound`**: coherent programs run as they were checked.
-/

namespace Nominal

/-! ## The start of the execution -/

/-- What is visible in a fresh interpreter. -/
def Context.prelude : Context := ⟨Vars.none, IsBuiltinName, (· ∈ preludeSignatures)⟩

/-- The promise at the start of the execution: the prelude stays visible from the root scope, and
only the builtin types are in use. -/
def Promise.start (w : World) : Promise where
  next := w.scopes.next
  scopes m := if m = Interpreter.root then .prelude else .empty
  types t :=
    if w.types.name t ∈ Primitive.all.map Primitive.name then some (w.types.name t) else none

namespace Interpreter

theorem start_checking {G : Glossary} (hG : G.HasPrelude) (out : Output) :
    (start true out).Checking G where
  toFits := start_fits hG out
  static m x b hb := by
    obtain h | h := start_get out m
    · rw [h] at hb
      cases hb
    · rw [h] at hb
      cases hb

theorem context_start (out : Output) : (start true out).context root = .prelude := by
  rw [start_eq]
  ext x
  · rfl
  · constructor
    · intro hx
      obtain ⟨t, ht⟩ := Option.isSome_iff_exists.1 hx
      obtain ⟨p, rfl, -⟩ :=
        startRoot_types ((Scopes.lookup_outermost Scope.types rfl x).symm.trans ht)
      exact ⟨p, rfl⟩
    · rintro ⟨p, rfl⟩
      cases p <;> rfl
  · constructor
    · intro hx
      obtain ⟨o, ho⟩ := Option.isSome_iff_exists.1 hx
      obtain ⟨p, rfl, -⟩ :=
        startRoot_functions ((Scopes.lookup_outermost Scope.functions rfl x).symm.trans ho)
      exact mem_preludeSignatures.2 ⟨p, rfl⟩
    · intro hx
      obtain ⟨p, rfl⟩ := mem_preludeSignatures.1 hx
      cases p <;> rfl

theorem startRoot_print (p : Primitive) :
    startRoot.functions.find? (.function "print" [p.name]) =
      some ⟨Primitive.none.name, .builtin .print⟩ := by
  cases p <;> rfl

end Interpreter

/-- **Before and after a check the prelude is as promised.** -/
theorem World.Checking.honours {G : Glossary} {w : World} (hw : w.Checking G)
    (hroot : Interpreter.root < w.scopes.next)
    (hprint : ∀ p : Primitive,
      (w.scopes.get Interpreter.root).functions.find? (.function "print" [p.name]) =
        some ⟨Primitive.none.name, .builtin .print⟩) : w.Honours G (.start w) where
  toFits := hw.toFits
  next_eq := rfl
  anchors m _ := by
    by_cases hm : m = Interpreter.root
    · have hscopes : (Promise.start w).scopes m = .prelude := if_pos hm
      have hroot' : (w.scopes.get Interpreter.root).enclosing = [] := by
        obtain h | ⟨k, hk, -⟩ := hw.nested Interpreter.root
        · exact h
        · exact absurd hk (Nat.not_lt_zero k)
      rw [hscopes, hm]
      refine ⟨fun x T hx => (by cases hx), ?_, ?_⟩
      · rintro name ⟨p, rfl⟩
        obtain ⟨t, ht, hd⟩ := hw.builtins Interpreter.root hroot p
        have hname : w.types.name t = p.name := congrArg Descriptor.name hd
        refine .inl ⟨t, (Scopes.lookup_outermost Scope.types hroot' p.name).symm.trans ht, ?_⟩
        exact (if_pos (hname ▸ isBuiltinName_iff.1 ⟨p, rfl⟩)).trans (congrArg some hname)
      · intro s hs
        obtain ⟨p, rfl⟩ := mem_preludeSignatures.1 hs
        exact .inl ⟨_, hprint p, .inr ⟨rfl, rfl⟩⟩
    · have hscopes : (Promise.start w).scopes m = .empty := if_neg hm
      rw [hscopes]
      exact ⟨fun _ _ h => (by cases h), fun _ h => h.elim, fun _ h => h.elim⟩
  built t T hT := by
    unfold Promise.start at hT
    dsimp only at hT
    split at hT
    · next hbuiltin =>
      cases hT
      have hbuiltin' := isBuiltinName_iff.2 hbuiltin
      refine ⟨?_, rfl, fun hnot => absurd hbuiltin' hnot⟩
      by_contra hlt
      rw [Types.name, Types.get_of_le (not_lt.1 hlt)] at hbuiltin'
      exact Interpreter.not_isBuiltinName_empty hbuiltin'
    · cases hT
  builtin t p hname := by
    refine (if_pos ?_).trans (congrArg some hname)
    rw [hname]
    exact isBuiltinName_iff.1 ⟨p, rfl⟩

/-! ## Consistent and coherent programs -/

section Programs

variable {program : Block} {out : Output} {type : Option String} {w w' : World}

/-- What a typed program leaves behind where the prelude is as promised. -/
theorem World.Honours.execute_after {G : Glossary} (hG : G.Proper)
    (h : w.Honours G (.start w)) (hroot : Interpreter.root < w.scopes.next)
    (htyped : blockTyped G type .prelude program)
    (hsteady : blockSteady Vars.none Vars.none program) (fuel : Nat) :
    (Interpreter.execute fuel program).Gives G {Interpreter.root} (.start w) w
      (BlockAfter G program Interpreter.root type .prelude) := by
  have hscopes : (Promise.start w).scopes Interpreter.root = .prelude := rfl
  have hshows := h.shows (n := Interpreter.root) hroot
  have hanchors := h.anchors Interpreter.root hroot
  rw [hscopes] at hshows hanchors
  refine runBlock_after (runsGive hG fuel).execute h hroot hshows ?_ ?_
    (fun _ => hanchors) htyped hsteady
  · rw [hscopes]
    exact .refl _
  · rw [hscopes]
    exact fun _ _ hx => hx

theorem World.Honours.execute_gives {G : Glossary} (hG : G.Proper)
    (h : w.Honours G (.start w)) (hroot : Interpreter.root < w.scopes.next)
    (htyped : blockTyped G type .prelude program)
    (hsteady : blockSteady Vars.none Vars.none program) (fuel : Nat) :
    (Interpreter.execute fuel program).Gives G {Interpreter.root} (.start w) w
      fun M' _ flow => flow.HasType G M' type :=
  (h.execute_after hG hroot htyped hsteady fuel).mono (Set.Subset.refl _)
    fun _ _ _ _ _ hafter => hafter.typed

namespace Interpreter

theorem root_lt_next_start (out : Output) : root < (start true out).scopes.next := by
  rw [next_start]
  exact Nat.zero_lt_one

theorem check_typed (h : Consistent program)
    (hcheck : check program (start true out) = (.ok type, w)) :
    w.Checking (Glossary.ofProgram program) ∧
      blockTyped (Glossary.ofProgram program) type .prelude program := by
  have hs := fun s' (hs' : s' ∈ blockParts program) => h.definedIn hs'
  obtain ⟨hw, -, htyped⟩ := checkBlock_typed h.proper program hs
    (start_checking h.proper.toHasPrelude out) (root_lt_next_start out) hcheck
  have htyped' := htyped type fun _ ht => ht
  rw [context_start] at htyped'
  exact ⟨hw, htyped'⟩

/-- **What a consistent program leaves behind when it runs after its check.** -/
theorem execute_after (h : Consistent program)
    (hcheck : check program (start true out) = (.ok type, w)) (fuel : Nat) :
    (execute fuel program).Gives (Glossary.ofProgram program) {root} (.start w) w
      (BlockAfter (Glossary.ofProgram program) program root type .prelude) := by
  obtain ⟨hw, htyped⟩ := check_typed h hcheck
  have hroot := lt_of_lt_of_le (root_lt_next_start out)
    (checkBlock_quiet program root none _ _ _ hcheck).scopes_le
  have halters : ((start true out).scopes.get root).AltersFor (.ofBlock program)
      (w.scopes.get root) := by
    refine checkBlock_alters (I := World.Checking (Glossary.ofProgram program))
      (fun _ hw => hw.namesTypes) (fun s hs _ _ _ hn hstmt hw => ?_)
      (start_checking h.proper.toHasPrelude out) (root_lt_next_start out)
      (List.Subset.refl _) hcheck
    have hparts := fun s' (hs' : s' ∈ s.parts) => h.definedIn (parts_subset_blockParts hs hs')
    exact (s.check_typed h.proper hparts hw hn hstmt).1
  refine (hw.honours hroot fun p => ?_).execute_after h.proper hroot htyped (h .steady) fuel
  rw [halters.functions, start_eq]
  · exact startRoot_print p
  · rintro ⟨d, hd, heq⟩
    exact (h .prelude).2 d hd (mem_preludeSignatures.2 ⟨p, heq⟩)

/-- **What the execution of a consistent program gives after its check.** -/
theorem execute_gives (h : Consistent program)
    (hcheck : check program (start true out) = (.ok type, w)) (fuel : Nat) :
    (execute fuel program).Gives (Glossary.ofProgram program) {root} (.start w) w
      fun M' _ flow => flow.HasType (Glossary.ofProgram program) M' type :=
  (execute_after h hcheck fuel).mono (Set.Subset.refl _) fun _ _ _ _ _ hafter => hafter.typed

/-- **What the execution of a consistent program gives without its check.** -/
theorem execute_start_gives (h : Consistent program)
    (hcheck : check program (start true out) = (.ok type, w)) (fuel : Nat) :
    (execute fuel program).Gives (Glossary.ofProgram program) {root} (.start (start true out))
      (start true out) fun M' _ flow => flow.HasType (Glossary.ofProgram program) M' type := by
  refine ((start_checking h.proper.toHasPrelude out).honours (root_lt_next_start out)
    fun p => ?_).execute_gives h.proper (root_lt_next_start out) (check_typed h hcheck).2
    (h .steady) fuel
  rw [start_eq]
  exact startRoot_print p

end Interpreter

/-- A flow agrees with the type that the check has found. A value that is returned has this type,
and carries a constant of it if the type is builtin. -/
def Flow.Agrees (w : World) (type : Option String) : Flow → Prop
  | .returns (some v) => type = some (w.typeName v) ∧
      ∀ p : Primitive, w.typeName v = p.name → w.Native p v
  | .returns none => type = some Primitive.none.name
  | _ => True

/-- An execution ends as the check has promised: with a flow that agrees with the type that the
check has found, or with a failure of an operation. -/
def Interpreter.EndsAsChecked (w : World) (type : Option String) : Except EvalError Flow → Prop
  | .ok flow => flow.Agrees w type
  | .error e => e.cause.IsFailure

theorem Flow.HasType.agrees {G : Glossary} {M : Promise} {flow : Flow} (hw : w.Honours G M)
    (h : flow.HasType G M type) : flow.Agrees w type := by
  cases flow with
  | returns value =>
    cases value with
    | none => exact h
    | some v =>
      obtain ⟨T, rfl, hv⟩ := h
      have hname := hw.typeName_eq hv
      exact ⟨congrArg some hname.symm, fun p hp => hw.native (hname.symm.trans hp ▸ hv)⟩
  | normal | breakLoop | continueLoop => trivial

/-- **Type soundness.** When a coherent program has passed the check of a fresh interpreter, its
execution there fails only with a failure of an operation, neither for a wrong payload nor for a
wrong number of arguments, or it ends with a flow that agrees with the type that the check has
found. -/
theorem check_execute_sound (h : Coherent program)
    (hcheck : Interpreter.check program (Interpreter.start true out) = (.ok type, w)) (fuel : Nat)
    {r : Except EvalError Flow} (hrun : Interpreter.execute fuel program w = some (r, w')) :
    Interpreter.EndsAsChecked w' type r := by
  obtain ⟨M', -, hw', hr⟩ := Interpreter.execute_gives h.consistent hcheck fuel r w' hrun
  cases r with
  | ok flow => exact Flow.HasType.agrees hw' hr
  | error e => exact hr

/-- A program with a diamond of types, a recursive function and a loop that returns. -/
theorem check_execute_sound_diamond :
    ∃ program type w r w', Coherent program ∧
      Interpreter.check program (Interpreter.start true (.captured "")) = (.ok type, w) ∧
      Interpreter.execute 40 program w = some (r, w') ∧
      Interpreter.EndsAsChecked w' type r := by
  let program : Block :=
    [.defineType none (.mk "A" [] [⟨"x", "Int", some (.literal none (.int 1))⟩]
      [.mk none "get" [] (some "Int") [.returns none (some (.attr none (.var none "this") "x"))]]),
    .defineType none (.mk "B" ["A"] [⟨"y", "A", none⟩] []),
    .defineType none (.mk "C" ["A"] [] []),
    .defineType none (.mk "D" ["B", "C"] [] []),
    .defineFunc none (.mk none "fact" [⟨"n", "Int"⟩] (some "Int")
      [.ifElse none [.mk (.binary none .lt (.var none "n") (.literal none (.int 2)))
        [.returns none (some (.literal none (.int 1)))]] none,
      .returns none (some (.binary none .mul (.var none "n")
        (.call none "fact" [.binary none .sub (.var none "n") (.literal none (.int 1))])))]),
    .declareVar none "d" "D" none,
    .whileLoop none (.literal none (.bool true))
      [.returns none (some (.binary none .add (.methodCall none (.var none "d") "get" [])
        (.call none "fact" [.literal none (.int 3)])))]]
  let start : World := Interpreter.start true (.captured "")
  have hok : (Interpreter.check program start).1.toOption.isSome := by decide +kernel
  have hends : (Interpreter.execute 40 program (Interpreter.check program start).2).isSome := by
    decide +kernel
  obtain ⟨type, w, hcheck⟩ := Effect.exists_ok_of_isSome hok
  rw [hcheck] at hends
  obtain ⟨⟨r, w'⟩, hrun⟩ := Option.isSome_iff_exists.1 hends
  have hcoherent : Coherent program := by decide +kernel
  exact ⟨program, type, w, r, w', hcoherent, hcheck, hrun,
    check_execute_sound hcoherent hcheck 40 hrun⟩

end Programs

end Nominal
