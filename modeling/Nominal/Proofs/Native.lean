import Mathlib.Tactic.SplitIfs
import Nominal.Interpreter
import Nominal.Proofs.Lookup
import Nominal.Proofs.Steps

/-!
# The operations of the prelude on builtin values

Every method of a builtin type, and the function that prints, is made for arguments of certain
builtin types and is declared to return a certain builtin type. Applied to such arguments it gives
a value of that type, or it fails for one of five reasons of arithmetic.

* `Cause.IsArithmetic`: the five reasons.
* `World.Native`: a value of a builtin type with a constant of that type.
* `Builtin.Accepts`: the arguments that an operation is made for, and the type of its result.
* **`Builtin.run_of_accepts`**: what an operation gives for the arguments that it is made for.
* **`Primitive.accepts_of_method`**: a method of a builtin type is made for the arguments that its
  signature and its receiver name, and its result is as declared.
-/

namespace Nominal

/-- The ways in which an operation on builtin values may fail. -/
inductive Cause.IsArithmetic : Cause → Prop
  | divisionByZero : IsArithmetic .divisionByZero
  | moduloByZero : IsArithmetic .moduloByZero
  | integerOverflow (operation : String) : IsArithmetic (.integerOverflow operation)
  | invalidShift (amount : Int64) : IsArithmetic (.invalidShift amount)
  | invalidConversion (value target : String) : IsArithmetic (.invalidConversion value target)

/-- A computation fails for reasons of arithmetic only. -/
def Arithmetical {α : Type} (x : Except Cause α) : Prop := ∀ c, x = .error c → c.IsArithmetic

theorem Arithmetical.ok {α : Type} (a : α) : Arithmetical (.ok a) := fun _ h => by cases h

theorem Arithmetical.error {α : Type} {c : Cause} (h : c.IsArithmetic) :
    Arithmetical (.error c : Except Cause α) := by
  rintro _ ⟨⟩
  exact h

/-! ## Words and floats -/

namespace Word

theorem arithmetical_exact (operation : String) (n : Int) :
    Arithmetical (exact operation n) := by
  unfold exact
  split
  · exact .ok _
  · exact .error (.integerOverflow operation)

theorem arithmetical_floorDiv (a b : Int64) : Arithmetical (floorDiv a b) := by
  unfold floorDiv
  split_ifs
  · exact .error .divisionByZero
  · exact .error (.integerOverflow "/")
  · exact .ok _
  · exact .ok _

theorem arithmetical_floorMod (a b : Int64) : Arithmetical (floorMod a b) := by
  unfold floorMod
  dsimp only
  split_ifs
  · exact .error .moduloByZero
  · exact .ok _
  · exact .ok _

theorem arithmetical_shiftLeft (a b : Int64) : Arithmetical (shiftLeft a b) := by
  unfold shiftLeft
  dsimp only
  split_ifs
  · exact .error (.invalidShift b)
  · exact .ok _
  · exact .error (.integerOverflow "<<")
  · exact .ok _
  · exact .error (.integerOverflow "<<")

theorem arithmetical_shiftRight (a b : Int64) : Arithmetical (shiftRight a b) := by
  unfold shiftRight
  split_ifs
  · exact .error (.invalidShift b)
  all_goals exact .ok _

end Word

namespace Floating

theorem arithmetical_div (a b : Float) : Arithmetical (div a b) := by
  unfold div
  split_ifs
  · exact .error .divisionByZero
  · exact .ok _

theorem arithmetical_floorMod (a b : Float) : Arithmetical (floorMod a b) := by
  unfold floorMod
  dsimp only
  split_ifs
  · exact .error .moduloByZero
  · exact .ok _
  · exact .ok _

end Floating

namespace Conversion

theorem arithmetical_truncate (x : Float) : Arithmetical (truncate x) := by
  unfold truncate
  dsimp only
  split
  · exact .ok _
  · exact .error (.invalidConversion _ _)

theorem arithmetical_parseInt (s : String) : Arithmetical (parseInt s) := by
  unfold parseInt
  split
  · exact .ok _
  · exact .error (.invalidConversion _ _)

theorem arithmetical_parseFloat (s : String) : Arithmetical (parseFloat s) := by
  unfold parseFloat
  split
  · exact .ok _
  · exact .error (.invalidConversion _ _)

end Conversion

/-! ## Constants -/

/-- A computation gives a constant of a builtin type or fails for a reason of arithmetic. -/
def Yields (p : Primitive) (x : Except Cause Literal) : Prop :=
  match x with
  | .ok l => l.primitive = p
  | .error c => c.IsArithmetic

theorem Yields.map {α : Type} {p : Primitive} {x : Except Cause α} {f : α → Literal}
    (h : Arithmetical x) (hf : ∀ a, (f a).primitive = p) : Yields p (x.map f) := by
  cases x with
  | ok a => exact hf a
  | error c => exact h c rfl

namespace Literal

theorem yields_binary {p q : Primitive} {op : BinaryOp} (hop : (op, q) ∈ p.binaryOps)
    {l r : Literal} (hl : l.primitive = p) (hr : r.primitive = p) : Yields q (l.binary op r) := by
  subst hl
  cases l with
  | none => cases hop
  | bool a =>
    cases r <;> cases hr
    simp only [primitive, Primitive.binaryOps, List.mem_cons, Prod.mk.injEq, List.not_mem_nil,
      or_false] at hop
    rcases hop with ⟨rfl, rfl⟩ | ⟨rfl, rfl⟩ | ⟨rfl, rfl⟩ | ⟨rfl, rfl⟩ <;> rfl
  | string a =>
    cases r <;> cases hr
    simp only [primitive, Primitive.binaryOps, List.mem_cons, Prod.mk.injEq, List.not_mem_nil,
      or_false] at hop
    rcases hop with ⟨rfl, rfl⟩ | ⟨rfl, rfl⟩ | ⟨rfl, rfl⟩ <;> rfl
  | int a =>
    cases r <;> cases hr
    rename_i b
    have hexact (s : String) (n : Int) : Yields .int ((Word.exact s n).map .int) :=
      .map (Word.arithmetical_exact s n) fun _ => rfl
    have hdiv : Yields .int ((Word.floorDiv a b).map .int) :=
      .map (Word.arithmetical_floorDiv a b) fun _ => rfl
    have hmod : Yields .int ((Word.floorMod a b).map .int) :=
      .map (Word.arithmetical_floorMod a b) fun _ => rfl
    have hshl : Yields .int ((Word.shiftLeft a b).map .int) :=
      .map (Word.arithmetical_shiftLeft a b) fun _ => rfl
    have hshr : Yields .int ((Word.shiftRight a b).map .int) :=
      .map (Word.arithmetical_shiftRight a b) fun _ => rfl
    cases op <;> simp [primitive, Primitive.binaryOps] at hop <;> subst hop <;>
      first | exact hexact _ _ | exact hdiv | exact hmod | exact hshl | exact hshr | rfl
  | float a =>
    cases r <;> cases hr
    rename_i b
    have hdiv : Yields .float ((Floating.div a b).map .float) :=
      .map (Floating.arithmetical_div a b) fun _ => rfl
    have hmod : Yields .float ((Floating.floorMod a b).map .float) :=
      .map (Floating.arithmetical_floorMod a b) fun _ => rfl
    cases op <;> simp [primitive, Primitive.binaryOps] at hop <;> subst hop <;>
      first | exact hdiv | exact hmod | rfl

theorem yields_unary {p : Primitive} {op : UnaryOp} (hop : op ∈ p.unaryOps) {l : Literal}
    (hl : l.primitive = p) : Yields p (l.unary op) := by
  subst hl
  cases l with
  | none | string => cases hop
  | bool a =>
    obtain rfl : op = .not := List.mem_singleton.1 hop
    rfl
  | float a => cases op <;> simp [primitive, Primitive.unaryOps] at hop <;> rfl
  | int a =>
    have hneg : Yields .int ((Word.neg a).map .int) :=
      .map (Word.arithmetical_exact _ _) fun _ => rfl
    cases op <;> simp [primitive, Primitive.unaryOps] at hop <;> first | exact hneg | rfl

theorem yields_convert {target : Primitive} {l : Literal} (hl : l.primitive ∈ target.sources) :
    Yields target (l.convert target) := by
  have htruncate (x : Float) : Yields .int ((Conversion.truncate x).map .int) :=
    .map (Conversion.arithmetical_truncate x) fun _ => rfl
  have hparseInt (s : String) : Yields .int ((Conversion.parseInt s).map .int) :=
    .map (Conversion.arithmetical_parseInt s) fun _ => rfl
  have hparseFloat (s : String) : Yields .float ((Conversion.parseFloat s).map .float) :=
    .map (Conversion.arithmetical_parseFloat s) fun _ => rfl
  cases target <;> cases l <;> simp [primitive, Primitive.sources] at hl <;>
    first | exact htruncate _ | exact hparseInt _ | exact hparseFloat _ | rfl

end Literal

/-! ## Values -/

namespace World

variable {w w' : World} {n : ScopeId} {p : Primitive} {v : Value}

/-- A value of a builtin type with a constant of that type. -/
def Native (w : World) (p : Primitive) (v : Value) : Prop :=
  ∃ t l, v = .plain t l ∧ w.types.get t = p.descriptor ∧ l.primitive = p

/-- The builtin types are visible under their names. -/
def SeesBuiltins (w : World) (n : ScopeId) : Prop :=
  ∀ p : Primitive, ∃ t, w.scopes.lookupType n p.name = some t ∧ w.types.get t = p.descriptor

namespace Native

theorem typeName_eq (h : w.Native p v) : w.typeName v = p.name := by
  obtain ⟨t, l, rfl, ht, -⟩ := h
  rw [World.typeName, Types.name, Value.type, ht]
  rfl

theorem get_type (h : w.Native p v) : w.types.get v.type = p.descriptor := by
  obtain ⟨t, l, rfl, ht, -⟩ := h
  exact ht

theorem datumOf_eq (h : w.Native p v) : ∃ l, w.datumOf p v = .ok l ∧ l.primitive = p := by
  obtain ⟨t, l, rfl, -, hl⟩ := h
  refine ⟨l, ?_, hl⟩
  rw [World.datumOf, Value.datum?, if_pos hl]

theorem of_types_eq (h : w.Native p v) (ht : w'.types = w.types) : w'.Native p v := by
  unfold Native
  rw [ht]
  exact h

end Native

theorem SeesBuiltins.of_eq (h : w.SeesBuiltins n) (hs : w'.scopes = w.scopes)
    (ht : w'.types = w.types) : w'.SeesBuiltins n := by
  unfold SeesBuiltins
  rw [hs, ht]
  exact h

/-- A constant becomes a value of the visible builtin type. -/
theorem SeesBuiltins.plain_eq (h : w.SeesBuiltins n) (l : Literal) :
    ∃ t, Effect.plain n l w = (.ok (.plain t l), w) ∧ w.types.get t = l.primitive.descriptor := by
  obtain ⟨t, ht, hd⟩ := h l.primitive
  refine ⟨t, ?_, hd⟩
  simp only [Effect.plain, Effect.findType, Effect.query, Scopes.findType, Effect.bind_apply, ht]
  rfl

theorem SeesBuiltins.plain_apply (h : w.SeesBuiltins n) (l : Literal) :
    ∃ v, Effect.plain n l w = (.ok v, w) ∧ w.Native l.primitive v := by
  obtain ⟨t, hv, hd⟩ := h.plain_eq l
  exact ⟨.plain t l, hv, t, l, rfl, hd, rfl⟩

end World

/-! ## Operations -/

/-- The arguments that an operation of the prelude is made for, and the type of its result. The
first argument of a constructor is a blank instance, which no constructor looks at. -/
inductive Builtin.Accepts (w : World) : Builtin → List Value → Primitive → Prop
  | fresh (l : Literal) (args : List Value) : Accepts w (.fresh l) args l.primitive
  | convert {source target : Primitive} (hsource : source ∈ target.sources) {blank v : Value}
      (hv : w.Native source v) : Accepts w (.convert source target) [blank, v] target
  | render (blank v : Value) : Accepts w .render [blank, v] .string
  | binary {p q : Primitive} {op : BinaryOp} (hop : (op, q) ∈ p.binaryOps) {u v : Value}
      (hu : w.Native p u) (hv : w.Native p v) : Accepts w (.binary p op) [u, v] q
  | unary {p : Primitive} {op : UnaryOp} (hop : op ∈ p.unaryOps) {v : Value}
      (hv : w.Native p v) : Accepts w (.unary p op) [v] p
  | print (v : Value) : Accepts w .print [v] .none

/-- The result of an operation: a value of a builtin type, or a failure of arithmetic. It has no
position yet. -/
def World.NativeResult (w : World) (p : Primitive) (r : Except EvalError Value) : Prop :=
  match r with
  | .ok v => w.Native p v
  | .error e => e.cause.IsArithmetic ∧ e.position = none

namespace Builtin

variable {w : World} {n : ScopeId} {b : Builtin} {args : List Value} {p : Primitive}

theorem plain_of_yields (hn : w.SeesBuiltins n) {x : Except Cause Literal} (hx : Yields p x) :
    ∃ r, (do let l ← Effect.query fun _ => x; Effect.plain n l) w = (r, w) ∧
      w.NativeResult p r := by
  cases x with
  | ok l =>
    obtain ⟨v, hv, hp⟩ := hn.plain_apply l
    exact ⟨.ok v, hv, hx ▸ hp⟩
  | error c => exact ⟨.error (.ofCause c), rfl, hx, rfl⟩

/-- An operation of the prelude, applied to arguments that it is made for, gives a value of its
result type or fails for a reason of arithmetic. It changes at most the output. -/
theorem run_of_accepts (h : b.Accepts w args p) (hn : w.SeesBuiltins n) :
    ∃ r w', b.run n args w = (r, w') ∧ w'.scopes = w.scopes ∧ w'.types = w.types ∧
      w.NativeResult p r := by
  cases h with
  | fresh l =>
    obtain ⟨v, hv, hp⟩ := hn.plain_apply l
    exact ⟨.ok v, w, hv, rfl, rfl, hp⟩
  | @convert source _ hsource blank v hv =>
    obtain ⟨l, hl, rfl⟩ := hv.datumOf_eq
    obtain ⟨r, hr, hp⟩ := plain_of_yields hn (Literal.yields_convert hsource)
    refine ⟨r, w, ?_, rfl, rfl, hp⟩
    rw [← hr]
    simp only [run, operands, Effect.bind_apply, Effect.query, hl]
  | render blank v =>
    obtain ⟨u, hu, hp⟩ := hn.plain_apply (.string (w.textOf v))
    exact ⟨.ok u, w, hu, rfl, rfl, hp⟩
  | @binary q _ op hop u v hu hv =>
    obtain ⟨l, hl, hl'⟩ := hu.datumOf_eq
    obtain ⟨m, hm, hm'⟩ := hv.datumOf_eq
    obtain ⟨r, hr, hp⟩ := plain_of_yields hn (Literal.yields_binary hop hl' hm')
    refine ⟨r, w, ?_, rfl, rfl, hp⟩
    rw [← hr]
    simp only [run, operands, Effect.bind_apply, Effect.query, hl, hm]
  | @unary _ op hop v hv =>
    obtain ⟨l, hl, hl'⟩ := hv.datumOf_eq
    obtain ⟨r, hr, hp⟩ := plain_of_yields hn (Literal.yields_unary hop hl')
    refine ⟨r, w, ?_, rfl, rfl, hp⟩
    rw [← hr]
    simp only [run, operand, Effect.bind_apply, Effect.query, hl]
  | print v =>
    have hw : (w.writeLine (w.textOf v)).SeesBuiltins n := hn.of_eq rfl rfl
    obtain ⟨u, hu, hp⟩ := hw.plain_apply .none
    exact ⟨.ok u, w.writeLine (w.textOf v), hu, rfl, rfl, hp.of_types_eq rfl⟩

end Builtin

/-! ## Methods of the builtin types -/

theorem Table.mem_of_find? {κ α : Type} [DecidableEq κ] {t : Table κ α} {key : κ} {a : α}
    (h : t.find? key = some a) : (key, a) ∈ t := by
  induction t with
  | nil => cases h
  | cons e t ih =>
    obtain ⟨k, b⟩ := e
    rw [find?_cons] at h
    split at h
    · next hk =>
      cases h
      rw [hk]
      exact List.mem_cons_self
    · exact List.mem_cons_of_mem _ (ih h)

namespace Primitive

variable {w : World} {p : Primitive} {s : Signature} {o : Overload}

theorem name_injective : Function.Injective name := by
  intro p q h
  cases p <;> cases q <;> first | rfl | exact absurd h (by decide)

/-- The entries of the method table of a builtin type. -/
inductive IsMethod (p : Primitive) : Signature → Overload → Prop
  | defaultConstructor : IsMethod p .defaultConstructor ⟨p.name, .builtin (.fresh p.zero)⟩
  | constructor {source : Primitive} (hsource : source ∈ p.sources) :
      IsMethod p (.constructor [source.name]) ⟨p.name, .builtin (p.conversion source)⟩
  | binary {op : BinaryOp} {q : Primitive} (hop : (op, q) ∈ p.binaryOps) :
      IsMethod p (.binaryMethod op p.name) ⟨q.name, .builtin (.binary p op)⟩
  | unary {op : UnaryOp} (hop : op ∈ p.unaryOps) :
      IsMethod p (.unaryMethod op) ⟨p.name, .builtin (.unary p op)⟩

theorem isMethod_of_mem (hmem : (s, o) ∈ p.methods) : p.IsMethod s o := by
  simp only [methods, List.mem_append, List.mem_singleton, List.mem_map, Prod.mk.injEq,
    Prod.exists] at hmem
  obtain ((⟨rfl, rfl⟩ | ⟨source, hs, rfl, rfl⟩) | ⟨op, q, hop, rfl, rfl⟩) | ⟨op, hop, rfl, rfl⟩ :=
    hmem
  · exact .defaultConstructor
  · exact .constructor hs
  · exact .binary hop
  · exact .unary hop

theorem isMethod_of_find? (h : p.methods.find? s = some o) : p.IsMethod s o :=
  isMethod_of_mem (Table.mem_of_find? h)

theorem find?_defaultConstructor (p : Primitive) :
    p.methods.find? .defaultConstructor = some ⟨p.name, .builtin (.fresh p.zero)⟩ := by
  rw [methods, List.append_assoc, List.append_assoc, List.cons_append,
    Table.find?_cons, if_pos rfl]

theorem primitive_zero (p : Primitive) : p.zero.primitive = p := by
  cases p <;> rfl

end Primitive

theorem BinaryOp.callableName_ne_constructorName (op : BinaryOp) :
    op.callableName ≠ constructorName := by
  cases op <;> decide

theorem UnaryOp.callableName_ne_constructorName (op : UnaryOp) :
    op.callableName ≠ constructorName := by
  cases op <;> decide

namespace Primitive

variable {w : World} {p : Primitive} {s : Signature} {o : Overload}

/-- A method of a builtin type is made for a receiver of that type and arguments of the types in
its signature. A constructor is made for any receiver. -/
theorem accepts_of_method (h : p.IsMethod s o) {v : Value}
    (hv : s.name ≠ constructorName → w.Native p v) {args : List Value}
    (hs : s.params = args.map w.typeName)
    (hargs : ∀ a ∈ args, ∀ q : Primitive, w.typeName a = q.name → w.Native q a) :
    ∃ b q, o = ⟨Primitive.name q, .builtin b⟩ ∧ b.Accepts w (v :: args) q := by
  have single {a : String} (ha : [a] = args.map w.typeName) :
      ∃ u, args = [u] ∧ w.typeName u = a := by
    obtain ⟨u, l, rfl, hu, hl⟩ := List.map_eq_cons_iff.1 ha.symm
    rw [List.map_eq_nil_iff.1 hl]
    exact ⟨u, rfl, hu⟩
  cases h with
  | defaultConstructor =>
    have := Builtin.Accepts.fresh (w := w) p.zero (v :: args)
    rw [primitive_zero] at this
    exact ⟨_, p, rfl, this⟩
  | @constructor source hsource =>
    obtain ⟨u, rfl, hu⟩ := single hs
    refine ⟨_, p, rfl, ?_⟩
    unfold conversion
    split
    · next hp => exact hp ▸ .render v u
    · exact .convert hsource (hargs u List.mem_cons_self source hu)
  | @binary op q hop =>
    obtain ⟨u, rfl, hu⟩ := single hs
    have hp := hv op.callableName_ne_constructorName
    exact ⟨_, q, rfl, .binary hop hp (hargs u List.mem_cons_self p hu)⟩
  | @unary op hop =>
    rw [List.map_eq_nil_iff.1 hs.symm]
    exact ⟨_, p, rfl, .unary hop (hv op.callableName_ne_constructorName)⟩

end Primitive

/-! ## Look-up of methods -/

namespace Types

variable {ts : Types} {t : TypeId} {p : Primitive}

theorem ownMethod?_descriptor (h : ts.get t = p.descriptor) (s : Signature) :
    ts.ownMethod? t s = p.methods.find? s := by
  rw [ownMethod?, h]
  rfl

theorem findMethod_descriptor (h : ts.get t = p.descriptor) (s : Signature) :
    ts.findMethod t s = .ok ((p.methods.find? s).map (MethodEntry.mk none)) := by
  have hparents : (ts.get t).parents = [] := by rw [h]; rfl
  have hinherited (depth : Nat) (visited : List String) :
      ts.inheritedWithin s depth t visited = .ok (none, visited) := by
    cases depth with
    | zero => rfl
    | succ depth => rw [inheritedWithin, hparents]; rfl
  unfold findMethod
  rw [ownMethod?_descriptor h, hinherited]
  cases p.methods.find? s <;> rfl

theorem attrType?_descriptor (h : ts.get t = p.descriptor) (attr : String) :
    ts.attrType? t attr = none := by
  have hattributes : (ts.get t).attributes = [] := by rw [h]; rfl
  have hparents : (ts.get t).parents = [] := by rw [h]; rfl
  unfold attrType?
  cases ts.entries.size with
  | zero => rfl
  | succ depth => rw [attrTypeWithin, hattributes, hparents]; rfl

end Types

/-! ## The fresh interpreter -/

namespace Interpreter

theorem modify_singleton (c : Scope) (f : Scope → Scope) :
    Scopes.modify ⟨#[c]⟩ root f = ⟨#[f c]⟩ := by
  simp [Scopes.modify, root]

/-- The only scope of a fresh interpreter. -/
def startRoot : Scope where
  vars := []
  types := [("None", (0 : Nat)), ("Bool", (1 : Nat)), ("Int", (2 : Nat)), ("Float", (3 : Nat)),
    ("String", (4 : Nat))]
  functions := Primitive.all.map fun p =>
    (.function "print" [p.name], ⟨Primitive.none.name, .builtin .print⟩)
  enclosing := []

theorem start_eq (out : Output) : start true out =
    ⟨⟨#[startRoot]⟩, ⟨(Primitive.all.map Primitive.descriptor).toArray⟩, #[], out⟩ := by
  simp only [start, World.install, World.installType, World.installPrint, Primitive.all,
    World.declareType, World.declareFunction, World.addType, Scopes.declareType,
    Scopes.declareFunction, World.empty, Types.next, Types.add, modify_singleton, List.foldl,
    if_pos]
  rfl

theorem nested_start (out : Output) : (start true out).scopes.Nested := by
  rw [start_eq]
  intro n
  left
  cases n with
  | zero => rfl
  | succ n => rfl

theorem next_start (out : Output) : (start true out).scopes.next = 1 := by
  rw [start_eq]
  rfl

theorem startRoot_types {name : String} {t : TypeId} (h : startRoot.types.find? name = some t) :
    ∃ p : Primitive, name = p.name ∧
      Types.get ⟨(Primitive.all.map Primitive.descriptor).toArray⟩ t = p.descriptor := by
  have hmem := Table.mem_of_find? h
  simp only [startRoot, List.mem_cons, Prod.mk.injEq, List.not_mem_nil, or_false] at hmem
  rcases hmem with ⟨rfl, rfl⟩ | ⟨rfl, rfl⟩ | ⟨rfl, rfl⟩ | ⟨rfl, rfl⟩ | ⟨rfl, rfl⟩
  · exact ⟨.none, rfl, rfl⟩
  · exact ⟨.bool, rfl, rfl⟩
  · exact ⟨.int, rfl, rfl⟩
  · exact ⟨.float, rfl, rfl⟩
  · exact ⟨.string, rfl, rfl⟩

theorem startRoot_functions {s : Signature} {o : Overload}
    (h : startRoot.functions.find? s = some o) :
    ∃ p : Primitive, s = .function "print" [p.name] ∧
      o = ⟨Primitive.none.name, .builtin .print⟩ := by
  obtain ⟨p, -, hp⟩ := List.mem_map.1 (Table.mem_of_find? h)
  cases hp
  exact ⟨p, rfl, rfl⟩

theorem seesBuiltins_start (out : Output) : (start true out).SeesBuiltins root := by
  rw [start_eq]
  intro p
  cases p with
  | none => exact ⟨(0 : Nat), rfl, rfl⟩
  | bool => exact ⟨(1 : Nat), rfl, rfl⟩
  | int => exact ⟨(2 : Nat), rfl, rfl⟩
  | float => exact ⟨(3 : Nat), rfl, rfl⟩
  | string => exact ⟨(4 : Nat), rfl, rfl⟩

end Interpreter

end Nominal
