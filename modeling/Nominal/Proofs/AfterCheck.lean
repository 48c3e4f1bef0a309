import Nominal.Proofs.Aftermath
import Nominal.Proofs.NameResolution
import Nominal.Proofs.Reached

/-!
# Execution with and without a check

The check leaves its declarations in the root scope, and the execution begins there. A program that
does not hide what is visible there before finds what it would have found without the check, and
does the same. It could find more: a name that it has not declared yet.

* `HidesNothing`: a program does not hide the prelude, nor functions behind types.
* `Interpreter.check_gains`: the world after the check as a copy of a fresh one.
* **`execution_after_check`**: what can be seen of the execution after the check.
* **`Hiding.needed`**: no condition on programs that hide nothing can be left out.
* **`check_hides_function`**: a type that hides a function, before it is defined.
-/

namespace Nominal

open World (OrderlyTo)

/-! ## What a program may hide -/

/-- What a program declares outside all blocks has no name of the prelude, and no type has the name
of a free function, wherever this is defined. -/
structure HidesNothing (program : Block) : Prop where
  builtin : ∀ d ∈ program.filterMap Stmt.typeDef?, d.name ∉ Primitive.all.map Primitive.name
  apart : ∀ d ∈ program.filterMap Stmt.typeDef?,
    d.name ≠ "print" ∧ ∀ f ∈ functionDefs program, d.name ≠ f.name
  prelude : ∀ f ∈ program.filterMap Stmt.functionDef?, f.signature ∉ preludeSignatures

/-- The conditions on programs that hide nothing. -/
inductive Hiding where
  | builtin
  | apart
  | prelude
deriving DecidableEq

namespace Hiding

def all : List Hiding := [builtin, apart, prelude]

theorem mem_all (c : Hiding) : c ∈ all := by
  cases c <;> decide

/-- The program satisfies the condition. -/
def Holds (program : Block) : Hiding → Prop
  | builtin => ∀ d ∈ program.filterMap Stmt.typeDef?, d.name ∉ Primitive.all.map Primitive.name
  | apart => ∀ d ∈ program.filterMap Stmt.typeDef?,
    d.name ≠ "print" ∧ ∀ f ∈ functionDefs program, d.name ≠ f.name
  | prelude => ∀ f ∈ program.filterMap Stmt.functionDef?, f.signature ∉ preludeSignatures

instance (program : Block) (c : Hiding) : Decidable (c.Holds program) := by
  cases c <;> unfold Holds <;> infer_instance

end Hiding

theorem hidesNothing_iff {program : Block} :
    HidesNothing program ↔ ∀ c : Hiding, c.Holds program := by
  constructor
  · rintro ⟨hbuiltin, hapart, hprelude⟩ (_ | _ | _)
    · exact hbuiltin
    · exact hapart
    · exact hprelude
  · exact fun h => ⟨h .builtin, h .apart, h .prelude⟩

instance (program : Block) : Decidable (HidesNothing program) :=
  decidable_of_iff (∀ c ∈ Hiding.all, c.Holds program) (by
    rw [hidesNothing_iff]
    exact ⟨fun h c => h c c.mem_all, fun h c _ => h c⟩)

theorem Consistent.hidesNothing {program : Block} (h : Consistent program) :
    HidesNothing program := by
  have htypes : ∀ d ∈ program.filterMap Stmt.typeDef?, d ∈ typeDefs program := by
    intro d hd
    obtain ⟨s, hs, hd⟩ := List.mem_filterMap.1 hd
    exact List.mem_filterMap.2 ⟨s, mem_blockParts hs, hd⟩
  exact ⟨fun d hd => h .notBuiltin d (htypes d hd), fun d hd => h .apart d (htypes d hd),
    (h .prelude).2⟩

theorem HidesNothing.avoids {program : Block} (h : HidesNothing program) :
    blockWithin (Stmt.Avoids (Names.ofBlock program).types) program := by
  rintro s hs f hf ⟨d, hd, hname⟩
  exact (h.apart d hd).2 f (List.mem_filterMap.2 ⟨s, hs, hf⟩) hname

theorem Copying.EntryCopied.of_same {α : Type} {extra : Prop} {a b : Option α}
    (hsame : ¬extra → b = a) (hnone : extra → a = none) : EntryCopied extra id a b := by
  by_cases h : extra
  · exact .inr ⟨hnone h, h⟩
  · left
    rw [hsame h, Option.map_id, id]

namespace Interpreter

variable {program : Block} {out : Output} {type : Option String} {w : World}

/-- The check of a program leaves behind what the program declares outside all blocks. -/
theorem check_alters (hcheck : check program (start true out) = (.ok type, w)) :
    ((start true out).scopes.get root).AltersFor (.ofBlock program) (w.scopes.get root) := by
  have hspares : SparesBuiltins (fun _ => True) False := False.elim
  refine checkBlock_alters (I := OrderlyTo (fun _ => True) False root)
    (fun _ hw => hw.orderly.namesTypes) (fun s _ _ _ _ _ hstmt hw => ?_)
    ⟨start_orderly true out, root_lt_next_start out⟩ (root_lt_next_start out)
    (List.Subset.refl _) hcheck
  exact s.check_orderly hspares (le_refl _) (fun _ _ => trivial) _ _ _ hstmt hw

/-- **The check of a program that hides nothing leaves a copy of the fresh interpreter**, in which
only what the program declares is known besides. -/
theorem check_gains (h : HidesNothing program)
    (hcheck : check program (start true out) = (.ok type, w)) :
    (start true out).Gains (.ofBlock program) w := by
  have halters := check_alters hcheck
  have hroot : (start true out).scopes.get 0 = startRoot := by
    rw [start_eq]
    rfl
  -- a name that the program declares is not one of the prelude
  have htype (x : String) (hx : (Names.ofBlock program).types x) :
      startRoot.types.find? x = none := by
    obtain ⟨d, hd, rfl⟩ := hx
    cases hfind : startRoot.types.find? d.name with
    | none => rfl
    | some t =>
      obtain ⟨p, hname, -⟩ := startRoot_types hfind
      exact absurd (isBuiltinName_iff.1 ⟨p, hname⟩) (h.builtin d hd)
  have hfunction (s : Signature) (hs : (Names.ofBlock program).functions s) :
      startRoot.functions.find? s = none := by
    obtain ⟨f, hf, rfl⟩ := hs
    cases hfind : startRoot.functions.find? f.signature with
    | none => rfl
    | some o =>
      obtain ⟨p, hsignature, -⟩ := startRoot_functions hfind
      exact absurd (mem_preludeSignatures.2 ⟨p, hsignature⟩) (h.prelude f hf)
  refine ⟨(checkBlock_quiet program root none _ _ _ hcheck).toKeeps, halters.enclosing,
    fun x => .of_same (halters.vars x) fun _ => ?_,
    fun x => .of_same (halters.types x) fun hx => ?_,
    fun s => .of_same (halters.functions s) fun hs => ?_⟩
  · rw [hroot]
    rfl
  · rw [hroot]
    exact htype x hx
  · rw [hroot]
    exact hfunction s hs

/-- What the check leaves behind does not concern the functions of the prelude. -/
theorem apart_of_hidesNothing (h : HidesNothing program) (out : Output) (n : ScopeId) :
    ∀ e ∈ ((start true out).scopes.get n).functions, ¬(Names.ofBlock program).types e.1.name := by
  rintro e he ⟨d, hd, hname⟩
  obtain hget | hget := start_get out n
  · rw [hget] at he
    obtain ⟨p, -, rfl⟩ := List.mem_map.1 he
    exact (h.apart d hd).1 hname
  · rw [hget] at he
    cases he

theorem seen_execute (h : HidesNothing program)
    (hcheck : check program (start true out) = (.ok type, w)) (fuel : Nat) :
    (execute fuel program).seen Flow.view w =
        (execute fuel program).seen Flow.view (start true out) ∨
      ∃ e w', execute fuel program (start true out) = some (.error e, w') ∧
        (Names.ofBlock program).Missing e.cause := by
  have horderly : (start true out).Orderly (Stmt.Avoids (Names.ofBlock program).types) False :=
    start_orderly true out
  have hgains := check_gains h hcheck
  have hapart := apart_of_hidesNothing h out
  have hroot := root_lt_next_start out
  have hout : w.output = (start true out).output :=
    (checkBlock_quiet program root none _ _ _ hcheck).output
  generalize start true out = w₀ at *
  have hfollows : (execute fuel program).Follows (.between (.ofBlock program) w₀ w)
      (Copying.between (.ofBlock program) w₀ w).flow (execute fuel program) := by
    have hfollows := runBlock_follows (n := root)
      (runsFollow (.between (.ofBlock program) w₀ w) fuel).execute h.avoids
    rwa [Renaming.scope_of_lt hroot] at hfollows
  obtain ⟨e, w', he, hmissing⟩ | ⟨hnone, hnone'⟩ | ⟨o, text, hseen, hseen'⟩ :=
    horderly.seen hgains hapart (f := Renaming.flow) hfollows fun _ _ _ hts => hts.view_flow
  · exact .inr ⟨e, w', he, hmissing⟩
  · left
    rw [Run.seen, Run.seen, hnone, hnone']
  · left
    rw [hseen, hseen']
    exact congrArg (fun before => some (o, before.append text)) hout

end Interpreter

/-- Failures of operations do not come from missing names. -/
theorem Names.not_missing {names : Names} {c : Cause} (h : c.IsFailure) : ¬names.Missing c := by
  intro hmissing
  cases c with
  | undefinedVariable | undefinedType | undefinedFunction => exact absurd h.1 nofun
  | _ => exact hmissing

/-- **The check of a program does not influence its execution.** After the check a program that
hides nothing ends as it does in a fresh interpreter and prints the same, unless there it fails for
the want of a name that it declares later. Consistent programs never do. -/
theorem execution_after_check {program : Block} (h : HidesNothing program) {out : Output}
    {type : Option String} {w : World}
    (hcheck : Interpreter.check program (Interpreter.start true out) = (.ok type, w)) (fuel : Nat) :
    ((Interpreter.execute fuel program).seen Flow.view w =
        (Interpreter.execute fuel program).seen Flow.view (Interpreter.start true out) ∨
      ∃ e w', Interpreter.execute fuel program (Interpreter.start true out) = some (.error e, w') ∧
        (Names.ofBlock program).Missing e.cause) ∧
    (Consistent program →
      (Interpreter.execute fuel program).seen Flow.view w =
        (Interpreter.execute fuel program).seen Flow.view (Interpreter.start true out)) := by
  have hseen := Interpreter.seen_execute h hcheck fuel
  refine ⟨hseen, fun hconsistent => hseen.resolve_right ?_⟩
  rintro ⟨e, w', he, hmissing⟩
  obtain ⟨M', -, -, hfailure⟩ :=
    Interpreter.execute_start_gives hconsistent hcheck fuel _ w' he
  exact Names.not_missing hfailure hmissing

/-- A variable, a function and a type that the check leaves behind, each used by the next one. -/
theorem execution_after_check_object :
    ∃ program type w o, HidesNothing program ∧ Consistent program ∧
      Interpreter.check program (Interpreter.start true (.captured "")) = (.ok type, w) ∧
      (Interpreter.execute 20 program).seen Flow.view w = some (o, .captured "1\n") ∧
      (Interpreter.execute 20 program).seen Flow.view (Interpreter.start true (.captured "")) =
        some (o, .captured "1\n") := by
  let program : Block :=
    [.declareVar none "x" "Int" (some (.literal none (.int 1))),
    .defineFunc none (.mk none "f" [] (some "Int") [.returns none (some (.var none "x"))]),
    .defineType none (.mk "T" [] [⟨"a", "Int", some (.call none "f" [])⟩] []),
    .expr none (.call none "print" [.attr none (.call none "T" []) "a"]),
    .returns none (some (.call none "T" []))]
  let start : World := Interpreter.start true (.captured "")
  have hok : (Interpreter.check program start).1.toOption.isSome := by decide +kernel
  obtain ⟨type, w, hcheck⟩ := Effect.exists_ok_of_isSome hok
  have hcoherent : Coherent program := by decide +kernel
  have hhides : HidesNothing program := hcoherent.consistent.hidesNothing
  have hprints : ((Interpreter.execute 20 program start).map fun r => r.2.output) =
      some (.captured "1\n") := by decide +kernel
  obtain ⟨⟨r, w'⟩, hrun, hout⟩ := Option.map_eq_some_iff.1 hprints
  have hseen : (Interpreter.execute 20 program).seen Flow.view start =
      some (r.map (Flow.view w'.types), .captured "1\n") := by
    rw [Run.seen_of_eq hrun, hout]
  have hafter := (execution_after_check hhides hcheck 20).2 hcoherent.consistent
  exact ⟨program, type, w, _, hhides, hcoherent.consistent, hcheck, hafter.trans hseen, hseen⟩

/-! ## Executions that the check influences -/

/-- A program passes the check of a fresh interpreter, and after the check its execution does not
look like the one without it. -/
def Influenced (program : Block) : Prop :=
  ∃ type w, Interpreter.check program (Interpreter.start true (.captured "")) = (.ok type, w) ∧
    (Interpreter.execute 20 program).seen Flow.view w ≠
      (Interpreter.execute 20 program).seen Flow.view (Interpreter.start true (.captured ""))

theorem Run.error?_eq_of_seen {α ν : Type} {view : Types → α → ν} {m : Run α} {w w' : World}
    (h : m.seen view w = m.seen view w') : m.error? w = m.error? w' := by
  have herror (w : World) : m.error? w = (m.seen view w).bind fun o =>
      match o.1 with
      | .error e => some e
      | .ok _ => none := by
    unfold Run.error? Run.seen
    rcases m w with _ | ⟨_ | _, _⟩ <;> rfl
  rw [herror, h, ← herror]

theorem Influenced.of_error? {program : Block} {w : World}
    (hw : Interpreter.start true (.captured "") = w)
    (hok : (Interpreter.check program w).1.toOption.isSome)
    (he : Run.error? (Interpreter.execute 20 program) (Interpreter.check program w).2 ≠
      Run.error? (Interpreter.execute 20 program) w) : Influenced program := by
  subst hw
  obtain ⟨type, w, hcheck⟩ := Effect.exists_ok_of_isSome hok
  rw [hcheck] at he
  exact ⟨type, w, hcheck, fun hseen => he (Run.error?_eq_of_seen hseen)⟩

namespace Inconsistent

/-- A type gets the name of a builtin type, behind the only literal. -/
def lateInt : Block :=
  [.expr none (plusOne (.literal none (.int 1))), .defineType none (.mk "Int" [] [] [])]

/-- A captured variable gets another type, and a function is called that takes it, but whose
definition comes last. -/
def lateFunction : Block :=
  [.defineFunc none (.mk none "f" [⟨"x", "Int"⟩] none []),
  .declareVar none "x" "Int" none,
  .defineFunc none (.mk none "g" [] none [.expr none (.call none "f" [.var none "x"])]),
  .declareVar none "x" "String" none,
  run "g",
  .defineFunc none (.mk none "f" [⟨"x", "String"⟩] none [])]

/-- A program that breaks just one condition. -/
def influenced : Hiding → Block
  | .builtin => lateInt
  | .apart => functionName
  | .prelude => redefinedPrint

end Inconsistent

open Inconsistent

/-- **No condition on programs that hide nothing can be left out.** For each of them there is a
program that satisfies the others and whose execution its check influences. -/
theorem Hiding.needed (c : Hiding) :
    (∀ c' ≠ c, c'.Holds (influenced c)) ∧ Influenced (influenced c) := by
  let start : World := Interpreter.start true (.captured "")
  have hothers : ∀ c ∈ all, ∀ c' ∈ all, c' ≠ c → c'.Holds (influenced c) := by decide +kernel
  have hok : ∀ c ∈ all, (Interpreter.check (influenced c) start).1.toOption.isSome := by
    decide +kernel
  have he : ∀ c ∈ all, Run.error? (Interpreter.execute 20 (influenced c))
      (Interpreter.check (influenced c) start).2 ≠
        Run.error? (Interpreter.execute 20 (influenced c)) start := by decide +kernel
  exact ⟨fun c' => hothers c c.mem_all c' c'.mem_all,
    .of_error? rfl (hok c c.mem_all) (he c c.mem_all)⟩

/-- **A type whose definition comes last hides the function of its name after the check**, and not
without it. -/
theorem check_hides_function : Influenced functionName := (Hiding.needed .apart).2

/-- A program that hides nothing finds a function after the check that it has not declared yet. -/
theorem influenced_of_missing : HidesNothing lateFunction ∧ Influenced lateFunction := by
  let start : World := Interpreter.start true (.captured "")
  have hok : (Interpreter.check lateFunction start).1.toOption.isSome := by decide +kernel
  have he : Run.error? (Interpreter.execute 20 lateFunction)
      (Interpreter.check lateFunction start).2 ≠
        Run.error? (Interpreter.execute 20 lateFunction) start := by decide +kernel
  exact ⟨by decide +kernel, .of_error? rfl hok he⟩

end Nominal
