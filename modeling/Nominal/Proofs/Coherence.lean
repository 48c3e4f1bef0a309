import Mathlib.Data.List.Nodup
import Nominal.Proofs.Conformity

/-!
# Programs whose names agree

The check of a program leaves its declarations behind for the execution, and closures see whatever
has been declared in their scopes since. So the two passes agree on a program only if its names
mean the same wherever they are declared.

* `Glossary.ofProgram`: the types and functions of a program by name.
* `Condition`, `Consistent`: all declarations of a name agree, and captured variables keep their
  types.
* `Coherent`: every name is declared with one meaning only.
* **`Consistent.proper`**: the glossary of a consistent program makes sense.
* **`Coherent.consistent`**: coherent programs are consistent.
-/

namespace Nominal

/-! ## The declarations of a program -/

/-- The type that a statement defines. -/
def Stmt.typeDef? : Stmt → Option TypeDef
  | .defineType _ d => some d
  | _ => none

/-- The free function that a statement defines. -/
def Stmt.functionDef? : Stmt → Option FuncDef
  | .defineFunc _ d => some d
  | _ => none

/-- The variable that a statement declares, or the parameters of what it defines, with their
types. -/
def Stmt.declared : Stmt → List (String × String)
  | .declareVar _ name type _ => [(name, type)]
  | .defineFunc _ d => d.bindings
  | .defineType _ d => d.methods.flatMap FuncDef.bindings
  | _ => []

/-- All type definitions in the text of a program. -/
def typeDefs (program : Block) : List TypeDef := (blockParts program).filterMap Stmt.typeDef?

/-- All definitions of free functions in the text of a program. -/
def functionDefs (program : Block) : List FuncDef :=
  (blockParts program).filterMap Stmt.functionDef?

/-- All variables and parameters in the text of a program. -/
def declarations (program : Block) : List (String × String) :=
  (blockParts program).flatMap Stmt.declared

/-- Names of variables and of types, and signatures of functions. -/
structure Names where
  vars : String → Prop
  types : String → Prop
  functions : Signature → Prop

/-- No names. -/
def Names.none : Names := ⟨fun _ => False, fun _ => False, fun _ => False⟩

/-- What a block declares in the scope that it is in, and not in the scopes inside. -/
def Names.ofBlock (body : Block) : Names where
  vars x := ∃ p type init, .declareVar p x type init ∈ body
  types x := ∃ d ∈ body.filterMap Stmt.typeDef?, d.name = x
  functions s := ∃ d ∈ body.filterMap Stmt.functionDef?, d.signature = s

/-- The signatures of the free functions of the prelude. -/
def preludeSignatures : List Signature := Primitive.all.map fun p => .function "print" [p.name]

/-- The types and functions of the prelude and of a program. -/
def Glossary.ofProgram (program : Block) : Glossary where
  types name :=
    match Primitive.all.find? (·.name = name) with
    | some p => some p.interface
    | none => ((typeDefs program).find? (·.name = name)).map TypeDef.interface
  functions s :=
    if s ∈ preludeSignatures then some Primitive.none.name
    else ((functionDefs program).find? (·.signature = s)).map FuncDef.returnType

/-! ## Conditions -/

/-- What may be asked of the declarations of a program, so that its names keep their meanings. -/
inductive Condition
  | steady
  | types
  | notBuiltin
  /-- No type has the name of a free function, those of the prelude included. -/
  | apart
  | attributes
  | functions
  /-- The functions of the prelude may be defined again with their return type, but not outside all
  blocks. -/
  | prelude
deriving DecidableEq

def Condition.all : List Condition :=
  [steady, types, notBuiltin, apart, attributes, functions, prelude]

theorem Condition.mem_all (c : Condition) : c ∈ all := by
  cases c <;> decide

/-- A program satisfies a condition. -/
def Condition.Holds (program : Block) : Condition → Prop
  | steady => blockSteady Vars.none Vars.none program
  | types => ∀ d ∈ typeDefs program, ∀ d' ∈ typeDefs program, d.name = d'.name →
      d.interface = d'.interface
  | notBuiltin => ∀ d ∈ typeDefs program, d.name ∉ Primitive.all.map Primitive.name
  | apart => ∀ d ∈ typeDefs program, d.name ≠ "print" ∧ ∀ f ∈ functionDefs program, d.name ≠ f.name
  | attributes => ∀ T attr type type', (Glossary.ofProgram program).HasAttr T attr type →
      (Glossary.ofProgram program).HasAttr T attr type' → type = type'
  | functions => ∀ f ∈ functionDefs program, ∀ f' ∈ functionDefs program,
      f.signature = f'.signature → f.returnType = f'.returnType
  | prelude => (∀ f ∈ functionDefs program, f.signature ∈ preludeSignatures →
      f.returnType = Primitive.none.name) ∧
      ∀ f ∈ program.filterMap Stmt.functionDef?, f.signature ∉ preludeSignatures

/-- All declarations of a name agree, and captured variables keep their types. -/
def Consistent (program : Block) : Prop := ∀ c : Condition, c.Holds program

/-- Every name is declared with one meaning only. The functions of the prelude count as free
functions. -/
structure Coherent (program : Block) : Prop where
  vars : ∀ b ∈ declarations program, ∀ b' ∈ declarations program, b.1 = b'.1 → b.2 = b'.2
  not_receiver : ∀ b ∈ declarations program, b.1 ≠ receiverName
  types : ((typeDefs program).map TypeDef.name).Nodup
  not_builtin : ∀ d ∈ typeDefs program, d.name ∉ Primitive.all.map Primitive.name
  apart : ∀ d ∈ typeDefs program, d.name ≠ "print" ∧ ∀ f ∈ functionDefs program, d.name ≠ f.name
  attributes : ∀ d ∈ typeDefs program, ∀ d' ∈ typeDefs program, ∀ a ∈ d.attributes,
    ∀ a' ∈ d'.attributes, a.name = a'.name → a.type = a'.type
  functions : ((functionDefs program).map FuncDef.signature).Nodup
  prelude : ∀ f ∈ functionDefs program, f.signature ∉ preludeSignatures

instance (program : Block) : Decidable (Coherent program) :=
  decidable_of_iff
    ((∀ b ∈ declarations program, ∀ b' ∈ declarations program, b.1 = b'.1 → b.2 = b'.2) ∧
      (∀ b ∈ declarations program, b.1 ≠ receiverName) ∧
      ((typeDefs program).map TypeDef.name).Nodup ∧
      (∀ d ∈ typeDefs program, d.name ∉ Primitive.all.map Primitive.name) ∧
      (∀ d ∈ typeDefs program, d.name ≠ "print" ∧ ∀ f ∈ functionDefs program, d.name ≠ f.name) ∧
      (∀ d ∈ typeDefs program, ∀ d' ∈ typeDefs program, ∀ a ∈ d.attributes, ∀ a' ∈ d'.attributes,
        a.name = a'.name → a.type = a'.type) ∧
      ((functionDefs program).map FuncDef.signature).Nodup ∧
      ∀ f ∈ functionDefs program, f.signature ∉ preludeSignatures)
    ⟨fun ⟨h₁, h₂, h₃, h₄, h₅, h₆, h₇, h₈⟩ => ⟨h₁, h₂, h₃, h₄, h₅, h₆, h₇, h₈⟩,
      fun ⟨h₁, h₂, h₃, h₄, h₅, h₆, h₇, h₈⟩ => ⟨h₁, h₂, h₃, h₄, h₅, h₆, h₇, h₈⟩⟩

/-! ## Glossaries of programs -/

section OfProgram

variable {program : Block} {p : Option Position}

theorem Stmt.mem_parts (s : Stmt) : s ∈ s.parts := by
  unfold Stmt.parts
  cases s <;> exact List.mem_cons_self

theorem parts_subset_blockParts {s : Stmt} {body : Block} (h : s ∈ body) :
    s.parts ⊆ blockParts body := by
  induction body with
  | nil => cases h
  | cons s' rest ih =>
    unfold blockParts
    obtain rfl | h := List.mem_cons.1 h
    · exact List.subset_append_left _ _
    · exact List.Subset.trans (ih h) (List.subset_append_right _ _)

theorem mem_blockParts {s : Stmt} {body : Block} (h : s ∈ body) : s ∈ blockParts body :=
  parts_subset_blockParts h s.mem_parts

theorem mem_typeDefs {d : TypeDef} :
    d ∈ typeDefs program ↔ ∃ p, .defineType p d ∈ blockParts program := by
  unfold typeDefs
  rw [List.mem_filterMap]
  constructor
  · rintro ⟨s, hs, hd⟩
    cases s <;> cases hd
    exact ⟨_, hs⟩
  · rintro ⟨p, hs⟩
    exact ⟨_, hs, rfl⟩

theorem mem_functionDefs {f : FuncDef} :
    f ∈ functionDefs program ↔ ∃ p, .defineFunc p f ∈ blockParts program := by
  unfold functionDefs
  rw [List.mem_filterMap]
  constructor
  · rintro ⟨s, hs, hf⟩
    cases s <;> cases hf
    exact ⟨_, hs⟩
  · rintro ⟨p, hs⟩
    exact ⟨_, hs, rfl⟩

theorem Primitive.mem_all (p : Primitive) : p ∈ Primitive.all := by
  cases p <;> decide

theorem mem_preludeSignatures {s : Signature} :
    s ∈ preludeSignatures ↔ ∃ p : Primitive, s = .function "print" [p.name] := by
  unfold preludeSignatures
  rw [List.mem_map]
  constructor
  · rintro ⟨p, -, rfl⟩
    exact ⟨p, rfl⟩
  · rintro ⟨p, rfl⟩
    exact ⟨p, p.mem_all, rfl⟩

theorem isBuiltinName_iff {name : String} :
    IsBuiltinName name ↔ name ∈ Primitive.all.map Primitive.name := by
  rw [List.mem_map]
  constructor
  · rintro ⟨p, rfl⟩
    exact ⟨p, p.mem_all, rfl⟩
  · rintro ⟨p, -, rfl⟩
    exact ⟨p, rfl⟩

namespace Glossary

theorem ofProgram_types_name (p : Primitive) :
    (ofProgram program).types p.name = some p.interface := by
  cases p <;> rfl

/-- A name that is not builtin stands for one of the type definitions. -/
theorem ofProgram_types {name : String} (hname : ¬IsBuiltinName name) :
    (ofProgram program).types name =
      ((typeDefs program).find? (·.name = name)).map TypeDef.interface := by
  have hnone : Primitive.all.find? (·.name = name) = none := by
    rw [List.find?_eq_none]
    intro p _ hp
    exact hname ⟨p, (of_decide_eq_true hp).symm⟩
  unfold ofProgram
  dsimp only
  rw [hnone]

theorem exists_of_ofProgram_types {name : String} {I : Interface} (hname : ¬IsBuiltinName name)
    (h : (ofProgram program).types name = some I) :
    ∃ d ∈ typeDefs program, d.name = name ∧ d.interface = I := by
  rw [ofProgram_types hname] at h
  obtain ⟨d, hd, hI⟩ := Option.map_eq_some_iff.1 h
  have hname' := List.find?_some hd
  exact ⟨d, List.mem_of_find?_eq_some hd, of_decide_eq_true hname', hI⟩

theorem ofProgram_functions_prelude {s : Signature} (hs : s ∈ preludeSignatures) :
    (ofProgram program).functions s = some Primitive.none.name :=
  if_pos hs

theorem ofProgram_functions {s : Signature} (hs : s ∉ preludeSignatures) :
    (ofProgram program).functions s =
      ((functionDefs program).find? (·.signature = s)).map FuncDef.returnType :=
  if_neg hs

theorem exists_of_ofProgram_functions {s : Signature} {type : String}
    (hs : s ∉ preludeSignatures) (h : (ofProgram program).functions s = some type) :
    ∃ f ∈ functionDefs program, f.signature = s ∧ f.returnType = type := by
  rw [ofProgram_functions hs] at h
  obtain ⟨f, hf, htype⟩ := Option.map_eq_some_iff.1 h
  have hs' := List.find?_some hf
  exact ⟨f, List.mem_of_find?_eq_some hf, of_decide_eq_true hs', htype⟩

theorem ofProgram_hasPrelude (program : Block) : (ofProgram program).HasPrelude where
  types := ofProgram_types_name
  functions p := ofProgram_functions_prelude (mem_preludeSignatures.2 ⟨p, rfl⟩)

end Glossary

end OfProgram

/-! ## Consistent programs -/

section Consistent

variable {program : Block} (h : Consistent program)

include h

theorem Consistent.not_isBuiltinName {d : TypeDef} (hd : d ∈ typeDefs program) :
    ¬IsBuiltinName d.name :=
  fun hname => h .notBuiltin d hd (isBuiltinName_iff.1 hname)

/-- **The glossary of a consistent program makes sense.** -/
theorem Consistent.proper : (Glossary.ofProgram program).Proper where
  toHasPrelude := Glossary.ofProgram_hasPrelude program
  apart s type hs hname := by
    rw [Glossary.ofProgram_types hname, Option.map_eq_none_iff, List.find?_eq_none]
    intro d hd heq
    have heq' : d.name = s.name := of_decide_eq_true heq
    obtain ⟨hprint, hfunctions⟩ := h .apart d hd
    by_cases hprelude : s ∈ preludeSignatures
    · obtain ⟨p, rfl⟩ := mem_preludeSignatures.1 hprelude
      exact hprint heq'
    · obtain ⟨f, hf, rfl, -⟩ := Glossary.exists_of_ofProgram_functions hprelude hs
      exact hfunctions f hf heq'
  attr_unique := h .attributes

/-- What a consistent program defines is as its glossary says. -/
theorem Consistent.definedIn {s : Stmt} (hs : s ∈ blockParts program) :
    s.DefinedIn (Glossary.ofProgram program) := by
  cases s with
  | defineFunc p f =>
    have hf : f ∈ functionDefs program := mem_functionDefs.2 ⟨p, hs⟩
    show (Glossary.ofProgram program).functions f.signature = some f.returnType
    by_cases hprelude : f.signature ∈ preludeSignatures
    · rw [Glossary.ofProgram_functions_prelude hprelude, (h .prelude).1 f hf hprelude]
    · rw [Glossary.ofProgram_functions hprelude]
      obtain ⟨f', hf'⟩ := Option.isSome_iff_exists.1
        (List.find?_isSome (p := (·.signature = f.signature)) |>.2 ⟨f, hf, decide_eq_true rfl⟩)
      have hsignature := List.find?_some hf'
      rw [hf', Option.map_some, h .functions f' (List.mem_of_find?_eq_some hf') f hf
        (of_decide_eq_true hsignature)]
  | defineType p d =>
    have hd : d ∈ typeDefs program := mem_typeDefs.2 ⟨p, hs⟩
    refine ⟨?_, h.not_isBuiltinName hd⟩
    rw [Glossary.ofProgram_types (h.not_isBuiltinName hd)]
    obtain ⟨d', hd'⟩ := Option.isSome_iff_exists.1
      (List.find?_isSome (p := (·.name = d.name)) |>.2 ⟨d, hd, decide_eq_true rfl⟩)
    have hname := List.find?_some hd'
    rw [hd', Option.map_some, h .types d' (List.mem_of_find?_eq_some hd') d hd
      (of_decide_eq_true hname)]
  | _ => trivial

end Consistent

/-! ## Attributes -/

theorem exists_of_attributeTypes {attributes : List AttributeDef} {table : Table String String}
    {x type : String} (h : (attributeTypes attributes table).find? x = some type) :
    table.find? x = some type ∨ ∃ a ∈ attributes, a.name = x ∧ a.type = type := by
  induction attributes generalizing table with
  | nil => exact .inl h
  | cons a rest ih =>
    obtain h | ⟨a', ha', hx⟩ := ih h
    · rw [Table.find?_insert] at h
      split at h
      · next hx => exact .inr ⟨a, List.mem_cons_self, hx, Option.some_inj.1 h⟩
      · exact .inl h
    · exact .inr ⟨a', List.mem_cons_of_mem _ ha', hx⟩

/-- An attribute that a type has or inherits is declared in one of the type definitions. -/
theorem Glossary.exists_of_hasAttr {program : Block} {T x type : String}
    (h : (ofProgram program).HasAttr T x type) :
    ∃ d ∈ typeDefs program, ∃ a ∈ d.attributes, a.name = x ∧ a.type = type := by
  induction h with
  | @own T x type I hI hx =>
    by_cases hT : IsBuiltinName T
    · obtain ⟨p, rfl⟩ := hT
      rw [ofProgram_types_name] at hI
      cases hI
      cases hx
    · obtain ⟨d, hd, -, rfl⟩ := exists_of_ofProgram_types hT hI
      obtain hx | hx := exists_of_attributeTypes hx
      · cases hx
      · exact ⟨d, hd, hx⟩
  | inherited _ _ _ ih => exact ih

/-! ## Coherent programs -/

/-- A variable of `γ` has the type with which the list declares it, if the list declares it. -/
def Vars.Agree (D : List (String × String)) (γ : Vars) : Prop :=
  ∀ x T, γ x = some T → ∀ b ∈ D, b.1 = x → b.2 = T

namespace Vars.Agree

variable {D : List (String × String)} {γ : Vars}

theorem none : Vars.none.Agree D := fun _ _ h => by cases h

theorem declare (h : γ.Agree D) {x T : String} (hx : ∀ b ∈ D, b.1 = x → b.2 = T) :
    (γ.declare x T).Agree D := by
  intro y U hy
  obtain ⟨rfl, rfl⟩ | ⟨-, hy⟩ := Vars.of_declare hy
  · exact hx
  · exact h y U hy

theorem bind (h : γ.Agree D) {bindings : List (String × String)}
    (hb : ∀ c ∈ bindings, ∀ b ∈ D, b.1 = c.1 → b.2 = c.2) : (γ.bind bindings).Agree D := by
  induction bindings generalizing γ with
  | nil => exact h
  | cons c rest ih =>
    obtain ⟨hc, hrest⟩ := List.forall_mem_cons.1 hb
    exact ih (h.declare hc) hrest

end Vars.Agree

section Steady

/-- Every name in the list has one type, and none is that of the receiver. -/
def OneType (D : List (String × String)) : Prop :=
  (∀ b ∈ D, ∀ b' ∈ D, b.1 = b'.1 → b.2 = b'.2) ∧ ∀ b ∈ D, b.1 ≠ receiverName

variable {D : List (String × String)}

mutual

theorem Stmt.steady_of_agree (hD : OneType D) (s : Stmt)
    (hs : ∀ s' ∈ s.parts, ∀ b ∈ s'.declared, b ∈ D) {γ : Vars} (hγ : γ.Agree D) :
    s.Steady γ := by
  unfold Stmt.parts at hs
  unfold Stmt.Steady
  cases s with
  | defineFunc p d =>
    obtain ⟨hd, hparts⟩ := List.forall_mem_cons.1 hs
    exact d.steady_of_agree hD (fun b hb => by cases hb) hd hparts hγ
  | defineType p d =>
    obtain ⟨hd, hparts⟩ := List.forall_mem_cons.1 hs
    exact d.steady_of_agree hD hd hparts hγ
  | ifElse p branches default =>
    obtain ⟨-, hparts⟩ := List.forall_mem_cons.1 hs
    obtain ⟨hbranches, hdefault⟩ := List.forall_mem_append.1 hparts
    refine ⟨branchesSteady_of_agree hD branches hbranches hγ, ?_⟩
    cases default with
    | none => trivial
    | some body => exact blockSteady_of_agree hD body hdefault hγ .none
  | whileLoop p condition body =>
    obtain ⟨-, hparts⟩ := List.forall_mem_cons.1 hs
    exact blockSteady_of_agree hD body hparts hγ .none
  | _ => trivial

theorem blockSteady_of_agree (hD : OneType D) (body : List Stmt)
    (hs : ∀ s' ∈ blockParts body, ∀ b ∈ s'.declared, b ∈ D) {γ δ : Vars} (hγ : γ.Agree D)
    (hδ : δ.Agree D) : blockSteady γ δ body := by
  unfold blockParts at hs
  unfold blockSteady
  cases body with
  | nil => trivial
  | cons s rest =>
    obtain ⟨hparts, hrest⟩ := List.forall_mem_append.1 hs
    have hδ' : Vars.Agree D (if s.defines = true then γ else δ) := by
      split
      · exact hγ
      · exact hδ
    refine ⟨s.steady_of_agree hD hparts hγ, ?_, blockSteady_of_agree hD rest hrest ?_ hδ'⟩
    · cases s with
      | declareVar p name type init =>
        have hmem : (name, type) ∈ D := hparts (.declareVar p name type init)
          (by unfold Stmt.parts; exact List.mem_singleton_self _) _ (List.mem_singleton_self _)
        exact fun T hT => (hδ name T hT (name, type) hmem rfl).symm
      | _ => trivial
    · cases s with
      | declareVar p name type init =>
        have hmem : (name, type) ∈ D := hparts (.declareVar p name type init)
          (by unfold Stmt.parts; exact List.mem_singleton_self _) _ (List.mem_singleton_self _)
        exact hγ.declare fun b hb hx => hD.1 b hb (name, type) hmem hx
      | _ => exact hγ

theorem branchesSteady_of_agree (hD : OneType D) (branches : List Branch)
    (hs : ∀ s' ∈ branchParts branches, ∀ b ∈ s'.declared, b ∈ D) {γ : Vars} (hγ : γ.Agree D) :
    branchesSteady γ branches := by
  unfold branchParts at hs
  unfold branchesSteady
  match branches with
  | [] => trivial
  | .mk condition body :: rest =>
    obtain ⟨hparts, hrest⟩ := List.forall_mem_append.1 hs
    exact ⟨blockSteady_of_agree hD body hparts hγ .none, branchesSteady_of_agree hD rest hrest hγ⟩

theorem FuncDef.steady_of_agree (hD : OneType D) (d : FuncDef) {before : List (String × String)}
    (hbefore : ∀ c ∈ before, c.1 = receiverName) (hd : ∀ b ∈ d.bindings, b ∈ D)
    (hs : ∀ s' ∈ d.parts, ∀ b ∈ s'.declared, b ∈ D) {γ : Vars} (hγ : γ.Agree D) :
    d.Steady γ before := by
  unfold FuncDef.parts at hs
  unfold FuncDef.Steady
  match d with
  | .mk p name params ret body =>
    refine blockSteady_of_agree hD body hs (hγ.bind fun c hc b hb hx => ?_) .none
    obtain hc | hc := List.mem_append.1 hc
    · exact absurd (hx.trans (hbefore c hc)) (hD.2 b hb)
    · exact hD.1 b hb c (hd c hc) hx

theorem TypeDef.steady_of_agree (hD : OneType D) (d : TypeDef)
    (hd : ∀ b ∈ d.methods.flatMap FuncDef.bindings, b ∈ D)
    (hs : ∀ s' ∈ d.parts, ∀ b ∈ s'.declared, b ∈ D) {γ : Vars} (hγ : γ.Agree D) : d.Steady γ := by
  unfold TypeDef.parts at hs
  unfold TypeDef.Steady
  match d with
  | .mk name parents attributes methods => exact methodsSteady_of_agree hD name methods hd hs hγ

theorem methodsSteady_of_agree (hD : OneType D) (type : String) (methods : List FuncDef)
    (hd : ∀ b ∈ methods.flatMap FuncDef.bindings, b ∈ D)
    (hs : ∀ s' ∈ methodParts methods, ∀ b ∈ s'.declared, b ∈ D) {γ : Vars} (hγ : γ.Agree D) :
    methodsSteady γ type methods := by
  unfold methodParts at hs
  unfold methodsSteady
  match methods with
  | [] => trivial
  | m :: rest =>
    rw [List.flatMap_cons] at hd
    obtain ⟨hm, hms⟩ := List.forall_mem_append.1 hd
    obtain ⟨hparts, hrest⟩ := List.forall_mem_append.1 hs
    exact ⟨m.steady_of_agree hD (fun c hc => by rw [List.mem_singleton.1 hc]) hm hparts hγ,
      methodsSteady_of_agree hD type rest hms hrest hγ⟩

end

end Steady

/-- A condition holds as far as the declarations in the text show, without regard to the order of
statements or to the parents of types. -/
def Condition.Evident (program : Block) : Condition → Prop
  | steady => OneType (declarations program)
  | attributes => ∀ d ∈ typeDefs program, ∀ d' ∈ typeDefs program, ∀ a ∈ d.attributes,
      ∀ a' ∈ d'.attributes, a.name = a'.name → a.type = a'.type
  | c => c.Holds program

instance (program : Block) (c : Condition) : Decidable (c.Evident program) :=
  match c with
  | .steady => inferInstanceAs (Decidable ((∀ b ∈ declarations program,
      ∀ b' ∈ declarations program, b.1 = b'.1 → b.2 = b'.2) ∧
      ∀ b ∈ declarations program, b.1 ≠ receiverName))
  | .types => inferInstanceAs (Decidable (∀ d ∈ typeDefs program, ∀ d' ∈ typeDefs program,
      d.name = d'.name → d.interface = d'.interface))
  | .notBuiltin => inferInstanceAs (Decidable (∀ d ∈ typeDefs program,
      d.name ∉ Primitive.all.map Primitive.name))
  | .apart => inferInstanceAs (Decidable (∀ d ∈ typeDefs program, d.name ≠ "print" ∧
      ∀ f ∈ functionDefs program, d.name ≠ f.name))
  | .attributes => inferInstanceAs (Decidable (∀ d ∈ typeDefs program, ∀ d' ∈ typeDefs program,
      ∀ a ∈ d.attributes, ∀ a' ∈ d'.attributes, a.name = a'.name → a.type = a'.type))
  | .functions => inferInstanceAs (Decidable (∀ f ∈ functionDefs program,
      ∀ f' ∈ functionDefs program, f.signature = f'.signature → f.returnType = f'.returnType))
  | .prelude => inferInstanceAs (Decidable ((∀ f ∈ functionDefs program,
      f.signature ∈ preludeSignatures → f.returnType = Primitive.none.name) ∧
      ∀ f ∈ program.filterMap Stmt.functionDef?, f.signature ∉ preludeSignatures))

theorem Condition.Evident.holds {program : Block} {c : Condition} (h : c.Evident program) :
    c.Holds program := by
  cases c with
  | steady =>
    exact blockSteady_of_agree h program (fun s hs _ hb => List.mem_flatMap.2 ⟨s, hs, hb⟩)
      .none .none
  | attributes =>
    intro T attr type type' hT hT'
    obtain ⟨d, hd, a, ha, hx, rfl⟩ := Glossary.exists_of_hasAttr hT
    obtain ⟨d', hd', a', ha', hx', rfl⟩ := Glossary.exists_of_hasAttr hT'
    exact h d hd d' hd' a ha a' ha' (hx.trans hx'.symm)
  | _ => exact h

/-- **Coherent programs are consistent.** -/
theorem Coherent.consistent {program : Block} (h : Coherent program) : Consistent program := by
  intro c
  refine Condition.Evident.holds ?_
  cases c with
  | steady => exact ⟨h.vars, h.not_receiver⟩
  | types =>
    intro d hd d' hd' hname
    rw [List.inj_on_of_nodup_map h.types hd hd' hname]
  | notBuiltin => exact h.not_builtin
  | apart => exact h.apart
  | attributes => exact h.attributes
  | functions =>
    intro f hf f' hf' hs
    rw [List.inj_on_of_nodup_map h.functions hf hf' hs]
  | prelude =>
    refine ⟨fun f hf hs => absurd hs (h.prelude f hf), fun f hf => ?_⟩
    obtain ⟨s, hs, hf⟩ := List.mem_filterMap.1 hf
    exact h.prelude f (List.mem_filterMap.2 ⟨s, mem_blockParts hs, hf⟩)

end Nominal
