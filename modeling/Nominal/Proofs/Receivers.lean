import Nominal.Proofs.Attributes
import Nominal.Proofs.NameResolution

/-!
# Receivers of inherited methods

An inherited method sees its receiver as a value of the type that declares the method. Its body was
checked with the attributes of that type, and the receiver has them with the types declared there.
The check does not ask for it: a type may declare an attribute again with another type than its
parent does.

* `evaluate_attribute`: reading an attribute of a variable.
* `Context.types_afterBlock`: the types that are visible behind a block.
* **`receiver_attributes`**: in consistent programs, receivers have the attributes that were
  checked.
* `Misleading.program`: for each condition, definitions that break just this one.
* **`Condition.needed_by_receivers`**: no condition can be left out.
-/

namespace Nominal

open Interpreter (root)

/-! ## Reading attributes -/

theorem evaluate_attribute {u : World} {n : ScopeId} {name x : String} {v a : Value}
    (hv : u.scopes.lookupVariable n name = some (.value v)) (ha : v.attr? x = some a)
    (fuel : Nat) (p q : Option Position) :
    evaluate (fuel + 2) (.attr p (.var q name) x) n u = some (.ok a, u) := by
  have hobject : evaluate (fuel + 1) (.var q name) n u = some (.ok v, u) := by
    rw [evaluate_succ]
    refine Run.orAt_eq_some_iff.2 ⟨.ok v, Run.lift_eq_some_iff.2 ?_, rfl⟩
    refine Effect.query_eq_ok_iff.2 ⟨?_, rfl⟩
    rw [Scopes.findVariable, hv]
  rw [evaluate_succ]
  refine Run.orAt_eq_some_iff.2 ⟨.ok a, Run.bind_eq_some_iff.2 (.inr ⟨v, u, hobject, ?_⟩), rfl⟩
  refine Run.lift_eq_some_iff.2 (Effect.query_eq_ok_iff.2 ⟨?_, rfl⟩)
  rw [ha]

/-- The types that are defined in a block are visible behind it. -/
theorem Context.types_afterBlock {V : Context} {body : Block} {name : String}
    (h : V.types name ∨ ∃ p d, .defineType p d ∈ body ∧ d.name = name) :
    (V.afterBlock body).types name := by
  induction body generalizing V with
  | nil => simpa [afterBlock] using h
  | cons s rest ih =>
    refine ih ?_
    obtain h | ⟨p, d, hd, hname⟩ := h
    · left
      cases s with
      | defineType p d => exact .inr h
      | _ => exact h
    · obtain rfl | hd := List.mem_cons.1 hd
      · exact .inl (.inl hname.symm)
      · exact .inr ⟨p, d, hd, hname⟩

/-! ## Attributes of receivers -/

namespace World.Honours

variable {G : Glossary} {M : Promise} {w : World} {D A : TypeId} {T x type : String}
  (h : w.Honours G M)

include h

theorem hasAttr_of_within (hD : M.types D = some T) (hA : w.types.Within D A)
    (hx : w.types.attrType? A x = some type) :
    G.HasAttr T x type ∧ G.HasAttr (w.types.name A) x type := by
  have hlt := h.lt_of_use hD
  rw [← h.name_of_use hD]
  obtain rfl | hA := hA
  · have hattr := h.conform.hasAttr hlt hx
    exact ⟨hattr, hattr⟩
  · obtain ⟨-, P, hP, -⟩ := h.ancestor_use hD hA
    have hattr := h.conform.hasAttr (h.lt_of_use hP) hx
    exact ⟨hA.hasAttr h.conform hlt hattr, hattr⟩

/-- A blank instance of a type in use has an attribute of an ancestor with the type that is declared
for the ancestor. -/
theorem blank_attribute (hG : G.Proper) (hD : M.types D = some T) (hT : ¬IsBuiltinName T)
    (hA : w.types.Within D A) (hx : w.types.attrType? A x = some type) :
    ∃ v, (w.types.blank D).attr? x = some v ∧ w.typeName v = type := by
  obtain ⟨v, hv, htype⟩ := (h.hasType_blank hG hD hT).attr hG (h.hasAttr_of_within hD hA hx).1
  exact ⟨v, hv, h.typeName_eq htype⟩

end World.Honours

/-- **Receivers have the attributes that were checked.** Let a consistent program pass the check of
a fresh interpreter and run to its end. Then every type that it defines outside all blocks is found
under its name. An instance of this type without a constructor has all attributes of its ancestors,
each with a value of the type that the ancestor declares for it, and so it does when it is seen as a
value of the ancestor. This is what an inherited method reads, and the type that the check knew. -/
theorem receiver_attributes {program : Block} (h : Consistent program) {out : Output}
    {type : Option String} {w w' : World}
    (hcheck : Interpreter.check program (Interpreter.start true out) = (.ok type, w)) {fuel : Nat}
    (hrun : Interpreter.execute fuel program w = some (.ok .normal, w')) {p : Option Position}
    {d : TypeDef} (hd : .defineType p d ∈ program) :
    ∃ D, w'.scopes.lookupType root d.name = some D ∧ w'.types.name D = d.name ∧
      (w'.types.ownMethod? D .defaultConstructor = none → ∀ call n,
        instantiate call D n w' = some (.ok (w'.types.blank D), w')) ∧
      ∀ A, w'.types.Within D A → ∀ x T, w'.types.attrType? A x = some T →
        (∃ v, (w'.types.blank D).attr? x = some v ∧ w'.typeName v = T ∧
          ((w'.types.blank D).viewAs A).attr? x = some v ∧
          ∀ u n, u.scopes.lookupVariable n receiverName =
              some (.value ((w'.types.blank D).viewAs A)) → ∀ k p q,
            evaluate (k + 2) (.attr p (.var q receiverName) x) n u = some (.ok v, u)) ∧
        ∀ A' T', w.types.name A' = w'.types.name A → w.types.attrType? A' x = some T' →
          T' = T := by
  obtain ⟨M', -, hw', hafter⟩ := Interpreter.execute_after h hcheck fuel _ w' hrun
  obtain ⟨D, hlookup, hD⟩ := (hafter.shows rfl).types d.name
    (Context.types_afterBlock (.inr ⟨p, d, hd, rfl⟩))
  have hbuiltin : ¬IsBuiltinName d.name :=
    h.not_isBuiltinName (mem_typeDefs.2 ⟨p, mem_blockParts hd⟩)
  refine ⟨D, hlookup, hw'.name_of_use hD, fun hown call n => ?_, fun A hA x T hx =>
    ⟨?_, fun A' T' hname hx' => ?_⟩⟩
  · refine Run.bind_eq_some_iff.2 (.inr ⟨w'.types.blank D, w', rfl, ?_⟩)
    exact Run.bind_eq_some_iff.2 (.inr ⟨none, w', by rw [← hown]; rfl, rfl⟩)
  · obtain ⟨v, hv, htype⟩ := hw'.blank_attribute h.proper hD hbuiltin hA hx
    have hview : ((w'.types.blank D).viewAs A).attr? x = some v := hv
    exact ⟨v, hv, htype, hview, fun u n hthis k p q => evaluate_attribute hthis hview k p q⟩
  · -- both passes declare the attributes of the glossary
    have hattr := (hw'.hasAttr_of_within hD hA hx).2
    have hchecked := (Interpreter.check_typed h hcheck).1.conform
    have hA' : A' < w.types.next := by
      by_contra hle
      rw [Types.attrType?_of_le (not_lt.1 hle)] at hx'
      cases hx'
    have hattr' := hchecked.hasAttr hA' hx'
    rw [hname] at hattr'
    exact h.proper.attr_unique _ _ _ _ hattr' hattr

/-- A diamond in which the attribute is declared at the top, once more on one side and with the same
type. -/
theorem receiver_attributes_diamond :
    ∃ program type w w' D A v, Consistent program ∧
      Interpreter.check program (Interpreter.start true (.captured "")) = (.ok type, w) ∧
      Interpreter.execute 20 program w = some (.ok .normal, w') ∧
      w'.scopes.lookupType root "Bottom" = some D ∧ w'.types.Ancestor D A ∧
      w'.types.attrType? A "x" = some "Int" ∧
      ((w'.types.blank D).viewAs A).attr? "x" = some v ∧ w'.typeName v = "Int" := by
  let program : Block :=
    [.defineType none (.mk "Top" [] [⟨"x", "Int", some (.literal none (.int 1))⟩] []),
    .defineType none (.mk "Left" ["Top"] [⟨"x", "Int", some (.literal none (.int 2))⟩] []),
    .defineType none (.mk "Right" ["Top"] [] []),
    .defineType none (.mk "Bottom" ["Left", "Right"] [⟨"y", "String", none⟩] [])]
  let start : World := Interpreter.start true (.captured "")
  have hconsistent : Consistent program := Coherent.consistent (by decide +kernel)
  have hok : (Interpreter.check program start).1.toOption.isSome := by decide +kernel
  have hends : (Interpreter.execute 20 program).endsIn (Interpreter.check program start).2
      fun w' => (w'.scopes.lookupType root "Bottom").any fun D =>
        (w'.types.get D).parents.any fun A => w'.types.attrType? A "x" = some "Int" := by
    decide +kernel
  obtain ⟨type, w, hcheck⟩ := Effect.exists_ok_of_isSome hok
  rw [hcheck] at hends
  obtain ⟨w', hrun, hbottom⟩ := Run.exists_of_endsIn hends
  obtain ⟨D', hD', hparents⟩ := (Option.any_eq_true ..).1 hbottom
  obtain ⟨A, hA, hx⟩ := List.any_eq_true.1 hparents
  obtain ⟨D, hD, -, -, hattributes⟩ := receiver_attributes hconsistent hcheck hrun
    (p := none) (d := .mk "Bottom" ["Left", "Right"] [⟨"y", "String", none⟩] []) (by simp [program])
  obtain rfl : D' = D := Option.some_inj.1 (hD'.symm.trans hD)
  have hancestor : w'.types.Ancestor D' A := .parent hA
  obtain ⟨⟨v, -, htype, hview, -⟩, -⟩ :=
    hattributes A (.inr hancestor) "x" "Int" (of_decide_eq_true hx)
  exact ⟨program, type, w, w', D', A, v, hconsistent, hcheck, hrun, hD', hancestor,
    of_decide_eq_true hx, hview, htype⟩

/-- A method reads an attribute, and a child declares the attribute again with another type. -/
def overriding : Block :=
  [.defineType none (.mk "A" [] [⟨"x", "Int", some (.literal none (.int 1))⟩]
    [.mk none "less" [] (some "Bool") [.returns none (some (.binary none .lt
      (.attr none (.var none "this") "x") (.attr none (.var none "this") "x")))]]),
  .defineType none (.mk "B" ["A"] [⟨"x", "String", none⟩] [])]

/-- **A receiver with an attribute of another type.** The definitions pass the check and run to
their end, but the inherited method then fails for a name that the check has found. -/
theorem receiver_overriding_fails :
    ∃ type w w' A B v e w'',
      Interpreter.check overriding (Interpreter.start true (.captured "")) = (.ok type, w) ∧
      Interpreter.execute 20 overriding w = some (.ok .normal, w') ∧
      w'.scopes.lookupType root "B" = some B ∧ w'.types.Ancestor B A ∧
      w'.types.attrType? A "x" = some "Int" ∧
      ((w'.types.blank B).viewAs A).attr? "x" = some v ∧ w'.typeName v = "String" ∧
      evaluate 20 (.methodCall none (.call none "B" []) "less" []) root w' = some (.error e, w'') ∧
      e.cause.category = .nameResolution := by
  let start : World := Interpreter.start true (.captured "")
  have hok : (Interpreter.check overriding start).1.toOption.isSome := by decide +kernel
  have hends : (Interpreter.execute 20 overriding).endsIn (Interpreter.check overriding start).2
      fun w' => ((w'.scopes.lookupType root "B").any fun B =>
          (w'.types.get B).parents.any fun A => w'.types.attrType? A "x" = some "Int" ∧
            (((w'.types.blank B).viewAs A).attr? "x").any fun v => w'.typeName v = "String") ∧
        (Run.error? (evaluate 20 (.methodCall none (.call none "B" []) "less" []) root) w').any
          fun e => e.cause.category = .nameResolution := by
    decide +kernel
  obtain ⟨type, w, hcheck⟩ := Effect.exists_ok_of_isSome hok
  rw [hcheck] at hends
  obtain ⟨w', hrun, hfacts⟩ := Run.exists_of_endsIn hends
  obtain ⟨hB, he⟩ := of_decide_eq_true hfacts
  obtain ⟨B, hB, hparents⟩ := (Option.any_eq_true ..).1 hB
  obtain ⟨A, hA, hattr⟩ := List.any_eq_true.1 hparents
  obtain ⟨hx, hv⟩ := of_decide_eq_true hattr
  obtain ⟨v, hv, htype⟩ := (Option.any_eq_true ..).1 hv
  obtain ⟨e, he, hcategory⟩ := (Option.any_eq_true ..).1 he
  obtain ⟨w'', he⟩ := Run.exists_of_error? he
  exact ⟨type, w, w', A, B, v, e, w'', hcheck, hrun, hB, .parent hA, hx, hv,
    of_decide_eq_true htype, he, of_decide_eq_true hcategory⟩

/-! ## Inconsistent definitions -/

namespace Misleading

/-- A function without parameters that returns the value of an expression. -/
def returning (name ret : String) (e : Expr) : Stmt :=
  .defineFunc none (.mk none name [] (some ret) [.returns none (some e)])

/-- A constant. -/
def int : Expr := .literal none (.int 1)

/-- A constant of another type. -/
def text : Expr := .literal none (.string "a")

/-- A type whose method announces a result of some type, and one with an attribute of this type that
starts with the result. -/
def promising (ret : String) (body : Block) : List TypeDef :=
  [.mk "A" [] [] [.mk none "m" [] (some ret) body],
  .mk "B" [] [⟨"b", ret, some (.methodCall none (.call none "A" []) "m" [])⟩] []]

/-- The function `f` is called where it is visible as it was captured, and its result is
returned. -/
def callF : Stmt := .returns none (some (.call none "f" []))

/-- Type definitions that break just one condition. But for the last declaration in it, the body of
the method returns what it announces. -/
def definitions : Condition → List TypeDef
  | .steady => promising "Int" [.declareVar none "x" "Int" (some int),
      returning "f" "Int" (.var none "x"), .declareVar none "x" "String" (some text), callF]
  | .types => promising "Int" [
      .defineType none (.mk "T" [] [] [.mk none "n" [] (some "Int") [.returns none (some int)]]),
      returning "f" "Int" (.methodCall none (.call none "T" []) "n" []),
      .defineType none
        (.mk "T" [] [] [.mk none "n" [] (some "String") [.returns none (some text)]]),
      callF]
  | .notBuiltin => promising "Int" [
      .defineFunc none (.mk none "operator+" [⟨"x", "Int"⟩, ⟨"y", "Int"⟩] (some "String")
        [.returns none (some text)]),
      returning "f" "Int" (.binary none .add int int), .defineType none (.mk "Int" [] [] []), callF]
  | .apart => promising "None" [.returns none (some (.call none "print" [int]))] ++
      [.mk "print" [] [] [.mk none "init" [⟨"x", "Int"⟩] (some "print")
        [.returns none (some (.var none "this"))]]]
  | .attributes => [.mk "A" [] [⟨"b", "Int", none⟩] [], .mk "B" ["A"] [⟨"b", "String", none⟩] []]
  | .functions => promising "Int" [returning "g" "Int" int,
      returning "f" "Int" (.call none "g" []), returning "g" "String" text, callF]
  | .prelude => promising "None" [returning "f" "None" (.call none "print" [int]),
      .defineFunc none (.mk none "print" [⟨"x", "Int"⟩] (some "Int") [.returns none (some int)]),
      callF]

/-- The definitions as a program. -/
def program (c : Condition) : Block := (definitions c).map (.defineType none)

/-- An instance of the type `B` has an attribute of another type than its first parent declares, or
than the type itself declares if it has no parent. -/
def misled (w : World) : Bool :=
  (w.scopes.lookupType root "B").any fun D =>
    (w.types.attrType? ((w.types.get D).parents.headD D) "b").any fun T =>
      ((w.types.blank D).attr? "b").any fun v => w.typeName v ≠ T

end Misleading

open Misleading

/-- Definitions pass the check of a fresh interpreter and run to their end there, and then an
instance has an attribute of another type than an ancestor, or the type itself, declares. -/
def Misleads (program : Block) : Prop :=
  ∃ type w w' D A x T v,
    Interpreter.check program (Interpreter.start true (.captured "")) = (.ok type, w) ∧
      Interpreter.execute 20 program w = some (.ok .normal, w') ∧
      w'.scopes.lookupType root "B" = some D ∧ w'.types.Within D A ∧
      w'.types.attrType? A x = some T ∧ (w'.types.blank D).attr? x = some v ∧ w'.typeName v ≠ T

theorem Misleads.of_misled {program : Block} {w : World}
    (hw : Interpreter.start true (.captured "") = w)
    (hok : (Interpreter.check program w).1.toOption.isSome)
    (hends : (Interpreter.execute 20 program).endsIn (Interpreter.check program w).2 misled) :
    Misleads program := by
  subst hw
  obtain ⟨type, w, hcheck⟩ := Effect.exists_ok_of_isSome hok
  rw [hcheck] at hends
  obtain ⟨w', hrun, hmisled⟩ := Run.exists_of_endsIn hends
  obtain ⟨D, hD, hmisled⟩ := (Option.any_eq_true ..).1 hmisled
  obtain ⟨T, hT, hmisled⟩ := (Option.any_eq_true ..).1 hmisled
  obtain ⟨v, hv, hne⟩ := (Option.any_eq_true ..).1 hmisled
  have hwithin : w'.types.Within D ((w'.types.get D).parents.headD D) := by
    cases hparents : (w'.types.get D).parents with
    | nil => exact .self
    | cons q rest => exact .inr (.parent (by rw [hparents]; exact List.mem_cons_self))
  exact ⟨type, w, w', D, _, "b", T, v, hcheck, hrun, hD, hwithin, hT, hv, of_decide_eq_true hne⟩

/-- **No condition on consistent programs can be left out for sequences of type definitions.** For
each of them there are definitions of types with different names, none of them builtin, that satisfy
all the others, and still an instance has an attribute of another type than was checked. -/
theorem Condition.needed_by_receivers (c : Condition) :
    ((definitions c).map TypeDef.name).Nodup ∧
      (∀ d ∈ definitions c, d.name ∉ Primitive.all.map Primitive.name) ∧
      (∀ c' ≠ c, c'.Holds (program c)) ∧ Misleads (program c) := by
  have hnames : ∀ c ∈ all, ((definitions c).map TypeDef.name).Nodup ∧
      ∀ d ∈ definitions c, d.name ∉ Primitive.all.map Primitive.name := by decide +kernel
  have hevident : ∀ c ∈ all, ∀ c' ∈ all, c' ≠ c → c'.Evident (program c) := by decide +kernel
  let start : World := Interpreter.start true (.captured "")
  have hok : ∀ c ∈ all, (Interpreter.check (program c) start).1.toOption.isSome := by
    decide +kernel
  have hends : ∀ c ∈ all,
      (Interpreter.execute 20 (program c)).endsIn (Interpreter.check (program c) start).2
        misled := by
    decide +kernel
  refine ⟨(hnames c c.mem_all).1, (hnames c c.mem_all).2, fun c' hc => ?_, ?_⟩
  · exact (hevident c c.mem_all c' c'.mem_all hc).holds
  · exact .of_misled rfl (hok c c.mem_all) (hends c c.mem_all)

end Nominal
