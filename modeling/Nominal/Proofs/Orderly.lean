import Nominal.Proofs.CheckFrame
import Nominal.Proofs.Definitions
import Nominal.Proofs.Lookup

/-!
# Worlds in order

What holds of a world from its start on, whatever programs are checked or run in it: the entries of
its tables take as many arguments as their signatures announce, types are built after their parents,
and nothing refers to a scope or a type that does not exist. If programs also leave the builtin
types alone, every value has the shape of its type.

* `Signature.arity`, `Overload.HasArity`: the number of arguments that a signature announces and
  that a callable takes.
* `Stmt.Within`, `blockWithin`: a property of all statements inside a statement or a block.
* `Value.Shaped`: a value of a builtin type carries a constant of that type, every other one
  attributes.
* `Value.Below`: the types of a value exist.
* `World.Settled`, `World.Orderly`, `World.Shaped`: tables and types in order, values of the right
  shape.
* **`World.Orderly.openChild`**, **`World.Orderly.declareFunction`** and their like: worlds stay in
  order.
-/

namespace Nominal

/-! ## Numbers of arguments -/

/-- The number of arguments that a signature announces, the receiver of a method included. -/
def Signature.arity (s : Signature) : Nat := s.params.length + if s.receiver then 1 else 0

/-- An operation of the prelude takes `k` arguments. -/
def Builtin.HasArity (k : Nat) : Builtin → Prop
  | fresh _ => True
  | convert .. | render | binary .. => k = 2
  | unary .. | print => k = 1

/-- A callable takes `k` arguments. What the host registers takes any number, but no table of a
program has an entry of the host. -/
def Overload.HasArity (k : Nat) (o : Overload) : Prop :=
  match o.callable with
  | .builtin b => b.HasArity k
  | .host _ => False
  | .closure params _ _ => k = params.length

/-! ## Properties of all statements inside a block -/

section Within

variable (S : Stmt → Prop)

/-- A property of a statement and all statements inside it. -/
def Stmt.Within (s : Stmt) : Prop := ∀ s' ∈ s.parts, S s'

/-- A property of all statements inside a block. -/
def blockWithin (body : Block) : Prop := ∀ s ∈ blockParts body, S s

/-- A property of all statements inside a closure. -/
def Overload.Within (o : Overload) : Prop :=
  ∀ params body scope, o.callable = .closure params body scope → blockWithin S body

variable {S}

theorem blockWithin_cons {s : Stmt} {rest : Block} :
    blockWithin S (s :: rest) ↔ s.Within S ∧ blockWithin S rest := by
  unfold blockWithin Stmt.Within
  rw [blockParts, List.forall_mem_append]

namespace Stmt.Within

variable {p : Option Position}

theorem body_of_defineFunc {d : FuncDef} (h : (defineFunc p d).Within S) :
    blockWithin S d.body := by
  obtain ⟨_, _, _, _, body⟩ := d
  intro s hs
  refine h s ?_
  rw [Stmt.parts, FuncDef.parts]
  exact List.mem_cons_of_mem _ hs

theorem of_defineFunc {d : FuncDef} (h : (defineFunc p d).Within S) : S (.defineFunc p d) :=
  h _ (by rw [Stmt.parts]; exact List.mem_cons_self)

theorem of_defineType {d : TypeDef} (h : (defineType p d).Within S) : S (.defineType p d) :=
  h _ (by rw [Stmt.parts]; exact List.mem_cons_self)

theorem body_of_defineType {d : TypeDef} (h : (defineType p d).Within S) {m : FuncDef}
    (hm : m ∈ d.methods) : blockWithin S m.body := by
  obtain ⟨_, _, _, methods⟩ := d
  obtain ⟨_, _, _, _, body⟩ := m
  intro s hs
  refine h s ?_
  rw [Stmt.parts, TypeDef.parts]
  refine List.mem_cons_of_mem _ ?_
  change FuncDef.mk .. ∈ methods at hm
  clear h
  induction methods with
  | nil => cases hm
  | cons m' rest ih =>
    rw [methodParts]
    obtain rfl | hm := List.mem_cons.1 hm
    · rw [FuncDef.parts]
      exact List.mem_append_left _ hs
    · exact List.mem_append_right _ (ih hm)

theorem branch_of_ifElse {branches : List Branch} {default : Option Block}
    (h : (ifElse p branches default).Within S) {condition : Expr} {body : Block}
    (hb : .mk condition body ∈ branches) : blockWithin S body := by
  intro s hs
  refine h s ?_
  suffices hin : s ∈ branchParts branches by
    cases default <;> exact List.mem_cons_of_mem _ (List.mem_append_left _ hin)
  clear h
  induction branches with
  | nil => cases hb
  | cons b rest ih =>
    obtain ⟨condition', body'⟩ := b
    rw [branchParts]
    obtain heq | hb := List.mem_cons.1 hb
    · cases heq
      exact List.mem_append_left _ hs
    · exact List.mem_append_right _ (ih hb)

theorem default_of_ifElse {branches : List Branch} {body : Block}
    (h : (ifElse p branches (some body)).Within S) : blockWithin S body := by
  intro s hs
  refine h s ?_
  rw [Stmt.parts]
  exact List.mem_cons_of_mem _ (List.mem_append_right _ hs)

theorem body_of_whileLoop {condition : Expr} {body : Block}
    (h : (whileLoop p condition body).Within S) : blockWithin S body := by
  intro s hs
  refine h s ?_
  rw [Stmt.parts]
  exact List.mem_cons_of_mem _ hs

end Stmt.Within

end Within

/-! ## Entries of function and method tables -/

/-- A callable takes what its signature announces, and all statements inside it have a property. -/
structure Overload.Answers (S : Stmt → Prop) (s : Signature) (o : Overload) : Prop where
  takes : o.HasArity s.arity
  within : o.Within S

/-- A closure captures one of the first `k` scopes. -/
def Overload.CapturesBelow (k : ScopeId) (o : Overload) : Prop :=
  ∀ params body scope, o.callable = .closure params body scope → scope < k

theorem Overload.CapturesBelow.mono {k l : ScopeId} {o : Overload} (h : o.CapturesBelow k)
    (hkl : k ≤ l) : o.CapturesBelow l :=
  fun _ _ _ ho => lt_of_lt_of_le (h _ _ _ ho) hkl

namespace Overload.Answers

variable {S : Stmt → Prop} {s : Signature} {d : FuncDef} {n k : ScopeId} {ret : String}

theorem ofFunction (hs : s.receiver = false) (hlength : s.params.length = d.params.length)
    (h : blockWithin S d.body) : (Overload.ofFunction d n ret).Answers S s where
  takes := by
    change s.arity = (d.params.map Param.name).length
    rw [Signature.arity, hs, hlength, List.length_map]
    rfl
  within params body scope heq := by
    cases heq
    exact h

theorem ofMethod (hs : s.receiver = true) (hlength : s.params.length = d.params.length)
    (h : blockWithin S d.body) : (Overload.ofMethod d n ret).Answers S s where
  takes := by
    change s.arity = (receiverName :: d.params.map Param.name).length
    rw [Signature.arity, hs, hlength, List.length_cons, List.length_map]
    rfl
  within params body scope heq := by
    cases heq
    exact h

end Overload.Answers

section Methods

variable {S : Stmt → Prop} {n : ScopeId} {methods : List FuncDef}

/-- The methods of a definition take what their signatures announce. -/
theorem answers_methodTable (h : ∀ m ∈ methods, blockWithin S m.body) :
    ∀ e ∈ methodTable n methods, e.2.Answers S e.1 := by
  rintro ⟨s, o⟩ he
  obtain ⟨m, hm, rfl, rfl⟩ := mem_methodTable he
  exact .ofMethod rfl (List.length_map _) (h m hm)

theorem exists_of_mem_methodTable :
    ∀ e ∈ methodTable n methods, ∃ d ret, e.2 = .ofMethod d n ret := by
  rintro ⟨s, o⟩ he
  obtain ⟨m, -, -, rfl⟩ := mem_methodTable he
  exact ⟨m, _, rfl⟩

end Methods

section Captured

variable {d : FuncDef} {n k : ScopeId} {ret : String}

theorem Overload.capturesBelow_ofFunction (hn : n < k) :
    (Overload.ofFunction d n ret).CapturesBelow k := by
  rintro _ _ _ ⟨⟩
  exact hn

theorem Overload.capturesBelow_ofMethod (hn : n < k) :
    (Overload.ofMethod d n ret).CapturesBelow k := by
  rintro _ _ _ ⟨⟩
  exact hn

end Captured

theorem Primitive.IsMethod.answers {S : Stmt → Prop} {p : Primitive} {s : Signature} {o : Overload}
    (h : p.IsMethod s o) : o.Answers S s := by
  refine ⟨?_, ?_⟩
  · cases h with
    | defaultConstructor => exact trivial
    | @constructor source _ =>
      unfold conversion
      split
      · exact rfl
      · exact rfl
    | binary | unary => exact rfl
  · intro params body scope heq
    cases h <;> cases heq

theorem Primitive.IsMethod.capturesBelow {k : ScopeId} {p : Primitive} {s : Signature}
    {o : Overload} (h : p.IsMethod s o) : o.CapturesBelow k := by
  intro params body scope heq
  cases h <;> cases heq

/-! ## Shapes of values -/

/-- A value of a builtin type carries a constant of that type, and every other value carries
attributes, which are shaped in the same way. -/
inductive Value.Shaped (ts : Types) : Value → Prop
  | plain {t : TypeId} {l : Literal} (h : ts.name t = l.primitive.name) : Shaped ts (.plain t l)
  | object {t : TypeId} {attributes : List (String × Value)} (h : ¬IsBuiltinName (ts.name t))
      (hattrs : ∀ e ∈ attributes, Shaped ts e.2) : Shaped ts (.object t attributes)

/-- The same types have the names of the builtin types. -/
def Types.SameBuiltins (ts ts' : Types) : Prop :=
  ∀ t (p : Primitive), ts'.name t = p.name ↔ ts.name t = p.name

namespace Types.SameBuiltins

variable {ts ts₁ ts' : Types}

theorem refl (ts : Types) : ts.SameBuiltins ts := fun _ _ => Iff.rfl

theorem trans (h : ts.SameBuiltins ts₁) (h' : ts₁.SameBuiltins ts') : ts.SameBuiltins ts' :=
  fun t p => (h' t p).trans (h t p)

theorem isBuiltinName_iff (h : ts.SameBuiltins ts') (t : TypeId) :
    IsBuiltinName (ts'.name t) ↔ IsBuiltinName (ts.name t) :=
  exists_congr fun p => h t p

theorem add (ts : Types) {d : Descriptor} (hd : ¬IsBuiltinName d.name) :
    ts.SameBuiltins (ts.add d) := by
  intro t p
  rw [name, name, get_add]
  split
  · next ht =>
    have hempty : (ts.get t).name = "" := by rw [ht, get_of_le (le_refl _)]; rfl
    rw [hempty]
    exact iff_of_false (fun h => hd ⟨p, h⟩) fun h => Interpreter.not_isBuiltinName_empty ⟨p, h⟩
  · exact Iff.rfl

end Types.SameBuiltins

theorem Value.Shaped.mono {ts ts' : Types} {v : Value} (h : v.Shaped ts)
    (hts : ts.SameBuiltins ts') : v.Shaped ts' := by
  induction h with
  | plain h => exact .plain ((hts _ _).2 h)
  | object h _ ih => exact .object (fun hb => h ((hts.isBuiltinName_iff _).1 hb)) ih

/-- All types in a value are among the first `b`. -/
inductive Value.Below (b : TypeId) : Value → Prop
  | plain {t : TypeId} {l : Literal} (h : t < b) : Below b (.plain t l)
  | object {t : TypeId} {attributes : List (String × Value)} (h : t < b)
      (hattrs : ∀ e ∈ attributes, Below b e.2) : Below b (.object t attributes)

theorem Value.Below.mono {b c : TypeId} {v : Value} (h : v.Below b) (hbc : b ≤ c) : v.Below c := by
  induction h with
  | plain h => exact .plain (lt_of_lt_of_le h hbc)
  | object h _ ih => exact .object (lt_of_lt_of_le h hbc) ih

theorem Value.Below.type_lt {b : TypeId} {v : Value} (h : v.Below b) : v.type < b := by
  cases h <;> assumption

/-- The types of a value exist, and if the builtin types are left alone, it has the shape of its
type. -/
structure Value.InShape (strict : Prop) (ts : Types) (v : Value) : Prop where
  below : v.Below ts.next
  shaped : strict → v.Shaped ts

theorem Value.InShape.mono {strict : Prop} {ts ts' : Types} {v : Value} (h : v.InShape strict ts)
    (hnext : ts.next ≤ ts'.next) (hsame : strict → ts.SameBuiltins ts') : v.InShape strict ts' :=
  ⟨h.below.mono hnext, fun hs => (h.shaped hs).mono (hsame hs)⟩

/-! ## Worlds -/

/-- The builtin types are left alone, and the operations of the prelude are called in no other way
than the prelude announces. -/
structure World.Shaped (w : World) : Prop where
  functions : ∀ n, ∀ e ∈ (w.scopes.get n).functions, ∀ b, e.2.callable = .builtin b → b = .print
  builtin : ∀ t (p : Primitive), w.types.name t = p.name → w.types.get t = p.descriptor
  parents : ∀ t, ∀ q ∈ (w.types.get t).parents, ¬IsBuiltinName (w.types.name q)
  /-- The other types have no operation of the prelude. -/
  methods : ∀ t, ¬IsBuiltinName (w.types.name t) → ∀ e ∈ (w.types.get t).methods,
    ∀ b, e.2.callable ≠ .builtin b

/-- A world in which only programs with the property `S` have been checked or run. -/
structure World.Settled (S : Stmt → Prop) (w : World) : Prop where
  functions : ∀ n, ∀ e ∈ (w.scopes.get n).functions, e.2.Answers S e.1
  methods : ∀ t, ∀ e ∈ (w.types.get t).methods, e.2.Answers S e.1
  types : ∀ n, ∀ e ∈ (w.scopes.get n).types, e.2 < w.types.next ∧ w.types.name e.2 = e.1
  parents : w.types.ParentsOlder
  scopes : 0 < w.scopes.next
  /-- The first scope stands in no other one. -/
  outermost : ∀ n before behind, w.scopes.path n = before ++ (0 : ScopeId) :: behind → behind = []

/-- A settled world in which nothing refers to scopes or types that do not exist. If the programs
left the builtin types alone, all values have the shapes of their types. -/
structure World.Orderly (S : Stmt → Prop) (strict : Prop) (w : World) : Prop
    extends w.Settled S where
  nested : w.scopes.Nested
  functionScopes : ∀ n, ∀ e ∈ (w.scopes.get n).functions, e.2.CapturesBelow w.scopes.next
  methodScopes : ∀ t, ∀ e ∈ (w.types.get t).methods, e.2.CapturesBelow w.scopes.next
  vars : ∀ n, ∀ e ∈ (w.scopes.get n).vars, ∀ v, e.2 = .value v → v.InShape strict w.types
  defaults : ∀ t, ∀ e ∈ (w.types.get t).attributes, ∀ v, e.2.default = some v →
    v.InShape strict w.types
  shaped : strict → w.Shaped

/-- A type that may be added to a settled world. -/
structure Descriptor.Settled (S : Stmt → Prop) (w : World) (d : Descriptor) : Prop where
  methods : ∀ e ∈ d.methods, e.2.Answers S e.1
  parents : ∀ q ∈ d.parents, q < w.types.next

/-- A type that has nothing to do with the builtin types. -/
structure Descriptor.Shaped (ts : Types) (d : Descriptor) : Prop where
  name : ¬IsBuiltinName d.name
  parents : ∀ q ∈ d.parents, ¬IsBuiltinName (ts.name q)
  methods : ∀ e ∈ d.methods, ∀ b, e.2.callable ≠ .builtin b

/-- A type that may be added to a world in order. -/
structure Descriptor.Orderly (S : Stmt → Prop) (strict : Prop) (w : World) (d : Descriptor) : Prop
    extends d.Settled S w where
  methodScopes : ∀ e ∈ d.methods, e.2.CapturesBelow w.scopes.next
  defaults : ∀ e ∈ d.attributes, ∀ v, e.2.default = some v → v.InShape strict w.types
  shaped : strict → d.Shaped w.types

namespace World

variable {S : Stmt → Prop} {strict : Prop} {w w' : World} {n m : ScopeId}

/-! ### Changes of one scope or type -/

/-- What becomes of a property of all entries of a table when one entry is inserted. -/
theorem forall_mem_modify {κ α : Type} {table : Scope → Table κ α} {P : κ × α → Prop}
    {f : Scope → Scope} (h : ∀ n, ∀ e ∈ table (w.scopes.get n), P e)
    (hf : ∀ c, ∀ e ∈ table (f c), e ∈ table c ∨ P e) :
    ∀ m, ∀ e ∈ table ((w.scopes.modify n f).get m), P e := by
  intro m e he
  rw [Scopes.get_modify] at he
  split at he
  · exact (hf _ e he).elim (h m e) id
  · exact h m e he

theorem forall_mem_child {κ α : Type} {table : Scope → Table κ α} {P : κ × α → Prop}
    (ht : ∀ e, table (.empty e) = []) (h : ∀ n, ∀ e ∈ table (w.scopes.get n), P e) :
    ∀ m, ∀ e ∈ table ((w.scopes.child n).get m), P e := by
  intro m e he
  rw [Scopes.child, Scopes.get_openScope] at he
  split at he
  · rw [ht] at he
    cases he
  · exact h m e he

theorem forall_get_add {P : TypeId → Descriptor → Prop} {d : Descriptor}
    (h : ∀ t, P t (w.types.get t)) (hd : P w.types.next d) :
    ∀ t, P t ((w.types.add d).get t) := by
  intro t
  rw [Types.get_add]
  split
  · next ht => exact ht ▸ hd
  · exact h t

theorem next_openChild (w : World) (n : ScopeId) :
    (w.openChild n).scopes.next = w.scopes.next + 1 :=
  Scopes.next_openScope ..

namespace Settled

theorem of_eq (h : w.Settled S) (hs : w'.scopes = w.scopes) (ht : w'.types = w.types) :
    w'.Settled S := by
  obtain ⟨scopes, types, hosts, output⟩ := w
  obtain ⟨scopes', types', hosts', output'⟩ := w'
  obtain rfl : scopes' = scopes := hs
  obtain rfl : types' = types := ht
  exact ⟨h.functions, h.methods, h.types, h.parents, h.scopes, h.outermost⟩

theorem findType (h : w.Settled S) {name : String} {t : TypeId}
    (ht : w.scopes.findType n name = .ok t) : t < w.types.next ∧ w.types.name t = name := by
  obtain ⟨m, -, hfind⟩ := Scopes.exists_of_lookup (Scopes.findType_eq_ok_iff.1 ht)
  exact h.types m _ (Table.mem_of_find? hfind)

theorem openChild (h : w.Settled S) (n : ScopeId) : (w.openChild n).Settled S where
  functions := forall_mem_child (fun _ => rfl) h.functions
  methods := h.methods
  types := forall_mem_child (fun _ => rfl) h.types
  parents := h.parents
  scopes := next_openChild w n ▸ Nat.succ_pos _
  outermost := by
    intro m before behind hm
    rw [World.openChild, Scopes.path, Scopes.child, Scopes.get_openScope] at hm
    split at hm
    · next heq =>
      -- the path of the new scope is its own number in front of another path
      cases before with
      | nil => exact absurd ((List.cons.inj hm).1 ▸ heq) (ne_of_lt h.scopes)
      | cons _ before => exact h.outermost n before behind (List.cons.inj hm).2
    · exact h.outermost m before behind hm

theorem modify (h : w.Settled S) (n : ScopeId) {f : Scope → Scope}
    (hf : ∀ c, (f c).enclosing = c.enclosing)
    (hfunctions : ∀ c, ∀ e ∈ (f c).functions, e ∈ c.functions ∨ e.2.Answers S e.1)
    (htypes : ∀ c, ∀ e ∈ (f c).types,
      e ∈ c.types ∨ e.2 < w.types.next ∧ w.types.name e.2 = e.1) :
    ({ w with scopes := w.scopes.modify n f } : World).Settled S where
  functions := forall_mem_modify h.functions hfunctions
  methods := h.methods
  types := forall_mem_modify h.types htypes
  parents := h.parents
  scopes := (Scopes.next_modify ..).symm ▸ h.scopes
  outermost m before behind hm := by
    rw [Scopes.path_modify _ _ hf] at hm
    exact h.outermost m before behind hm

theorem declareVariable (h : w.Settled S) (n : ScopeId) (name : String) (b : Binding) :
    (w.declareVariable n name b).Settled S :=
  h.modify n (fun _ => rfl) (fun _ _ => .inl) (fun _ _ => .inl)

theorem declareFunction (h : w.Settled S) (n : ScopeId) {s : Signature} {o : Overload}
    (ho : o.Answers S s) : (w.declareFunction n s o).Settled S :=
  h.modify n (fun _ => rfl)
    (fun _ e he => by
      obtain rfl | he := Table.mem_insert he
      · exact .inr ho
      · exact .inl he)
    (fun _ _ => .inl)

theorem declareType (h : w.Settled S) (n : ScopeId) {name : String} {t : TypeId}
    (ht : t < w.types.next) (hname : w.types.name t = name) :
    (w.declareType n name t).Settled S :=
  h.modify n (fun _ => rfl) (fun _ _ => .inl) fun _ e he => by
    obtain rfl | he := Table.mem_insert he
    · exact .inr ⟨ht, hname⟩
    · exact .inl he

theorem addType (h : w.Settled S) {d : Descriptor} (hd : d.Settled S w) :
    (w.addType d).Settled S where
  functions := h.functions
  methods := forall_get_add (P := fun _ d => ∀ e ∈ d.methods, e.2.Answers S e.1) h.methods
    hd.methods
  types n e he := by
    obtain ⟨hlt, hname⟩ := h.types n e he
    refine ⟨lt_trans hlt ?_, ?_⟩
    · exact (Types.next_add ..).symm ▸ Nat.lt_succ_self _
    · rw [World.addType, Types.name, Types.get_add, if_neg (ne_of_lt hlt)]
      exact hname
  parents := forall_get_add (P := fun t d => ∀ q ∈ d.parents, q < t) h.parents hd.parents
  scopes := h.scopes
  outermost := h.outermost

end Settled

namespace Orderly

theorem of_eq (h : w.Orderly S strict) (hs : w'.scopes = w.scopes) (ht : w'.types = w.types) :
    w'.Orderly S strict := by
  obtain ⟨scopes, types, hosts, output⟩ := w
  obtain ⟨scopes', types', hosts', output'⟩ := w'
  obtain rfl : scopes' = scopes := hs
  obtain rfl : types' = types := ht
  refine ⟨h.toSettled.of_eq rfl rfl, h.nested, h.functionScopes, h.methodScopes, h.vars, h.defaults,
    fun hstrict => ?_⟩
  have hw := h.shaped hstrict
  exact ⟨hw.functions, hw.builtin, hw.parents, hw.methods⟩

theorem openChild (h : w.Orderly S strict) (hn : n < w.scopes.next) :
    (w.openChild n).Orderly S strict :=
  have hnext : w.scopes.next ≤ (w.openChild n).scopes.next := next_openChild w n ▸ Nat.le_succ _
  { h.toSettled.openChild n with
    nested := Scopes.nested_child h.nested hn
    functionScopes := forall_mem_child (fun _ => rfl) fun m e he =>
      (h.functionScopes m e he).mono hnext
    methodScopes := fun t e he => (h.methodScopes t e he).mono hnext
    vars := forall_mem_child (fun _ => rfl) h.vars
    defaults := h.defaults
    shaped := fun hstrict =>
      have hw := h.shaped hstrict
      ⟨forall_mem_child (fun _ => rfl) hw.functions, hw.builtin, hw.parents, hw.methods⟩ }

theorem declareVariable (h : w.Orderly S strict) (n : ScopeId) (name : String) {b : Binding}
    (hb : ∀ v, b = .value v → v.InShape strict w.types) :
    (w.declareVariable n name b).Orderly S strict :=
  have hnext : (w.declareVariable n name b).scopes.next = w.scopes.next := Scopes.next_modify ..
  { h.toSettled.declareVariable n name b with
    nested := Scopes.nested_modify h.nested fun _ => rfl
    functionScopes := hnext ▸ forall_mem_modify h.functionScopes fun _ _ => .inl
    methodScopes := hnext ▸ h.methodScopes
    vars := forall_mem_modify h.vars fun _ e he => by
      obtain rfl | he := Table.mem_insert he
      · exact .inr hb
      · exact .inl he
    defaults := h.defaults
    shaped := fun hstrict =>
      have hw := h.shaped hstrict
      ⟨forall_mem_modify hw.functions fun _ _ => .inl, hw.builtin, hw.parents, hw.methods⟩ }

theorem declareFunction (h : w.Orderly S strict) (n : ScopeId) {s : Signature} {o : Overload}
    (ho : o.Answers S s) (hscope : o.CapturesBelow w.scopes.next)
    (hb : ∀ b, o.callable ≠ .builtin b) : (w.declareFunction n s o).Orderly S strict :=
  have hnext : (w.declareFunction n s o).scopes.next = w.scopes.next := Scopes.next_modify ..
  { h.toSettled.declareFunction n ho with
    nested := Scopes.nested_modify h.nested fun _ => rfl
    functionScopes := hnext ▸ forall_mem_modify h.functionScopes fun _ e he => by
      obtain rfl | he := Table.mem_insert he
      · exact .inr hscope
      · exact .inl he
    methodScopes := hnext ▸ h.methodScopes
    vars := forall_mem_modify h.vars fun _ _ => .inl
    defaults := h.defaults
    shaped := fun hstrict =>
      have hw := h.shaped hstrict
      { functions := forall_mem_modify hw.functions fun _ e he => by
          obtain rfl | he := Table.mem_insert he
          · exact .inr fun b hcallable => absurd hcallable (hb b)
          · exact .inl he
        builtin := hw.builtin
        parents := hw.parents
        methods := hw.methods } }

theorem declareType (h : w.Orderly S strict) (n : ScopeId) {name : String} {t : TypeId}
    (ht : t < w.types.next) (hname : w.types.name t = name) :
    (w.declareType n name t).Orderly S strict :=
  have hnext : (w.declareType n name t).scopes.next = w.scopes.next := Scopes.next_modify ..
  { h.toSettled.declareType n ht hname with
    nested := Scopes.nested_modify h.nested fun _ => rfl
    functionScopes := hnext ▸ forall_mem_modify h.functionScopes fun _ _ => .inl
    methodScopes := hnext ▸ h.methodScopes
    vars := forall_mem_modify h.vars fun _ _ => .inl
    defaults := h.defaults
    shaped := fun hstrict =>
      have hw := h.shaped hstrict
      ⟨forall_mem_modify hw.functions fun _ _ => .inl, hw.builtin, hw.parents, hw.methods⟩ }

theorem addType (h : w.Orderly S strict) {d : Descriptor} (hd : d.Orderly S strict w) :
    (w.addType d).Orderly S strict :=
  have hnext : w.types.next ≤ (w.addType d).types.next :=
    (Types.next_add ..).symm ▸ Nat.le_succ _
  have hsame (hstrict : strict) : w.types.SameBuiltins (w.addType d).types :=
    .add w.types (hd.shaped hstrict).name
  { h.toSettled.addType hd.toSettled with
    nested := h.nested
    functionScopes := h.functionScopes
    methodScopes := forall_get_add
      (P := fun _ d => ∀ e ∈ d.methods, e.2.CapturesBelow w.scopes.next) h.methodScopes
      hd.methodScopes
    vars := fun n e he v hv => (h.vars n e he v hv).mono hnext hsame
    defaults := fun t e he v hv => by
      refine (forall_get_add (P := fun _ d => ∀ e ∈ d.attributes, ∀ v, e.2.default = some v →
        v.InShape strict w.types) h.defaults hd.defaults t e he v hv).mono hnext hsame
    shaped := fun hstrict =>
      have hw := h.shaped hstrict
      have hd := hd.shaped hstrict
      have hsame := hsame hstrict
      { functions := hw.functions
        builtin := by
          intro t p hp
          rw [World.addType, Types.get_add]
          split
          · next ht =>
            rw [World.addType, Types.name, Types.get_add, if_pos ht] at hp
            exact absurd ⟨p, hp⟩ hd.name
          · exact hw.builtin t p ((hsame t p).1 hp)
        parents := fun t q hq hb => by
          refine forall_get_add (P := fun _ d => ∀ q ∈ d.parents, ¬IsBuiltinName (w.types.name q))
            hw.parents hd.parents t q hq ((hsame.isBuiltinName_iff q).1 hb)
        methods := fun t ht => by
          refine forall_get_add (P := fun t d => ¬IsBuiltinName (w.types.name t) →
            ∀ e ∈ d.methods, ∀ b, e.2.callable ≠ .builtin b) hw.methods (fun _ => hd.methods) t
            fun hb => ht ((hsame.isBuiltinName_iff t).2 hb) } }

end Orderly

end World

/-! ### The first world -/

namespace Interpreter

variable {S : Stmt → Prop} {strict : Prop}

theorem empty_orderly (out : Output) : (World.empty out).Orderly S strict := by
  have hscope (n : ScopeId) : (World.empty out).scopes.get n = .empty [] := by
    cases n with
    | zero => rfl
    | succ n => rfl
  have htype (t : TypeId) : (World.empty out).types.get t = .empty "" false := rfl
  have hname (t : TypeId) : ¬IsBuiltinName ((World.empty out).types.name t) :=
    not_isBuiltinName_empty
  constructor
  case toSettled =>
    constructor
    case functions => intro n e he; rw [hscope] at he; cases he
    case methods => intro t e he; cases he
    case types => intro n e he; rw [hscope] at he; cases he
    case parents => intro t q hq; cases hq
    case scopes => exact Nat.one_pos
    case outermost =>
      intro n before behind h
      rw [Scopes.path, hscope] at h
      cases before with
      | nil => exact (List.cons.inj h).2.symm
      | cons _ before => exact absurd (List.cons.inj h).2.symm (by simp [Scope.empty])
  case nested => exact fun n => .inl (by rw [hscope]; rfl)
  case functionScopes => intro n e he; rw [hscope] at he; cases he
  case methodScopes => intro t e he; cases he
  case vars => intro n e he; rw [hscope] at he; cases he
  case defaults => intro t e he; cases he
  case shaped =>
    intro _
    constructor
    case functions => intro n e he; rw [hscope] at he; cases he
    case builtin => intro t p hp; exact absurd ⟨p, hp⟩ (hname t)
    case parents => intro t q hq; cases hq
    case methods => intro t _ e he; cases he

/-- The types of the prelude inherit nothing and have no attributes. -/
theorem startTypes_get_eq (t : TypeId) :
    (∃ p : Primitive, startTypes.get t = p.descriptor) ∨ startTypes.get t = .empty "" false := by
  by_cases ht : t < startTypes.next
  · exact .inl (startTypes_get ht)
  · exact .inr (startTypes_get_of_le (not_lt.1 ht))

theorem start_builtin {t : TypeId} {p : Primitive} (hp : startTypes.name t = p.name) :
    startTypes.get t = p.descriptor := by
  obtain ⟨q, hq⟩ | hempty := startTypes_get_eq t
  · rw [Types.name, hq] at hp
    rw [hq, Primitive.name_injective hp]
  · rw [Types.name, hempty] at hp
    exact absurd ⟨p, hp⟩ not_isBuiltinName_empty

theorem prelude_orderly (out : Output) :
    (⟨⟨#[startRoot]⟩, startTypes, #[], out⟩ : World).Orderly S strict := by
  have hscope (n : ScopeId) : Scopes.get ⟨#[startRoot]⟩ n = startRoot ∨
      Scopes.get ⟨#[startRoot]⟩ n = .empty [] := by
    cases n with
    | zero => exact .inl rfl
    | succ n => exact .inr rfl
  have hfunction {e : Signature × Overload} (he : e ∈ startRoot.functions) :
      ∃ p : Primitive,
        e = (.function "print" [p.name], ⟨Primitive.none.name, .builtin .print⟩) := by
    obtain ⟨p, -, rfl⟩ := List.mem_map.1 he
    exact ⟨p, rfl⟩
  constructor
  case toSettled =>
    constructor
    case functions =>
      intro n e he
      obtain h | h := hscope n <;> rw [h] at he
      · obtain ⟨p, rfl⟩ := hfunction he
        exact ⟨rfl, fun _ _ _ h => by cases h⟩
      · cases he
    case methods =>
      intro t e he
      obtain ⟨p, h⟩ | h := startTypes_get_eq t <;> rw [h] at he
      · exact (Primitive.isMethod_of_mem he).answers
      · cases he
    case types =>
      intro n e he
      obtain h | h := hscope n <;> rw [h] at he
      · change e ∈ startRoot.types at he
        change e.2 < startTypes.next ∧ startTypes.name e.2 = e.1
        simp only [startRoot, List.mem_cons, List.not_mem_nil, or_false] at he
        rcases he with rfl | rfl | rfl | rfl | rfl <;> exact ⟨by decide, rfl⟩
      · cases he
    case parents =>
      intro t q hq
      obtain ⟨p, h⟩ | h := startTypes_get_eq t <;> rw [h] at hq <;> cases hq
    case scopes => exact Nat.one_pos
    case outermost =>
      intro n before behind h
      have henclosing : (Scopes.get ⟨#[startRoot]⟩ n).enclosing = [] := by
        obtain h | h := hscope n <;> rw [h] <;> rfl
      rw [Scopes.path, henclosing] at h
      cases before with
      | nil => exact (List.cons.inj h).2.symm
      | cons _ before => exact absurd (List.cons.inj h).2.symm (by simp)
  case nested =>
    intro n
    obtain h | h := hscope n <;> exact .inl (by rw [h]; rfl)
  case functionScopes =>
    intro n e he
    obtain h | h := hscope n <;> rw [h] at he
    · obtain ⟨p, rfl⟩ := hfunction he
      exact fun _ _ _ h => by cases h
    · cases he
  case methodScopes =>
    intro t e he
    obtain ⟨p, h⟩ | h := startTypes_get_eq t <;> rw [h] at he
    · exact (Primitive.isMethod_of_mem he).capturesBelow
    · cases he
  case vars =>
    intro n e he
    obtain h | h := hscope n <;> rw [h] at he <;> cases he
  case defaults =>
    intro t e he
    obtain ⟨p, h⟩ | h := startTypes_get_eq t <;> rw [h] at he <;> cases he
  case shaped =>
    intro _
    constructor
    case functions =>
      intro n e he b hb
      obtain h | h := hscope n <;> rw [h] at he
      · obtain ⟨p, rfl⟩ := hfunction he
        cases hb
        rfl
      · cases he
    case builtin => exact fun t p hp => start_builtin hp
    case parents =>
      intro t q hq
      obtain ⟨p, h⟩ | h := startTypes_get_eq t <;> rw [h] at hq <;> cases hq
    case methods =>
      intro t ht e he
      obtain ⟨p, h⟩ | h := startTypes_get_eq t
      · exact absurd ⟨p, by rw [Types.name, h]; rfl⟩ ht
      · rw [h] at he
        cases he

/-- **A fresh interpreter is in order**, with the prelude or without. -/
theorem start_orderly (prelude : Bool) (out : Output) :
    (start prelude out).Orderly S strict := by
  cases prelude with
  | false => exact empty_orderly out
  | true =>
    rw [start_eq]
    exact prelude_orderly out

end Interpreter

end Nominal
