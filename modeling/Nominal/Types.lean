import Nominal.Error
import Nominal.Value

/-!
# Types and inheritance

A type descriptor lists its parents, its attributes and its methods. Descriptors never change once
they are built, and a type is built after its parents.

* `Descriptor`, `Types`: a type, and all types in the order they were built.
* `Types.attrType?`: the declared type of an attribute, own or inherited.
* `Types.defaults`: the attributes that a new instance starts with.
* `Types.findMethod`: the method that a signature stands for, own or inherited.
-/

namespace Nominal

/-- A declared attribute. A check knows its type only. -/
structure Attribute where
  type : String
  default : Option Value

/-- A type. -/
structure Descriptor where
  /-- The name. Types are compared by their names. -/
  name : String
  primitive : Bool
  /-- The parent types, in the order they are listed. -/
  parents : List TypeId
  attributes : Table String Attribute
  methods : Table Signature Overload

/-- A type without parents, attributes and methods. -/
def Descriptor.empty (name : String) (primitive : Bool) : Descriptor :=
  ⟨name, primitive, [], [], []⟩

/-- All types, in the order they were built. -/
structure Types where
  entries : Array Descriptor

/-- A method that was found by its signature. -/
structure MethodEntry where
  /-- The ancestor that declares the method, unless the type does itself. -/
  inheritedFrom : Option TypeId
  overload : Overload

namespace Types

/-- The descriptor of a type. -/
def get (ts : Types) (t : TypeId) : Descriptor := ts.entries.getD t (.empty "" false)

/-- The name of a type. -/
def name (ts : Types) (t : TypeId) : String := (ts.get t).name

/-- A method that the type declares itself. -/
def ownMethod? (ts : Types) (t : TypeId) (s : Signature) : Option Overload :=
  (ts.get t).methods.find? s

/-- The types with one more. -/
def add (ts : Types) (d : Descriptor) : Types := ⟨ts.entries.push d⟩

/-- The identity of the next type that is built. -/
def next (ts : Types) : TypeId := ts.entries.size

theorem get_eq (ts : Types) (t : TypeId) :
    ts.get t = (ts.entries[t]?).getD (.empty "" false) := by
  simp [get]

@[simp] theorem next_add (ts : Types) (d : Descriptor) : (ts.add d).next = ts.next + 1 := by
  simp [add, next]

theorem get_add (ts : Types) (d : Descriptor) (t : TypeId) :
    (ts.add d).get t = if t = ts.next then d else ts.get t := by
  simp only [get_eq, add, next, Array.getElem?_push]
  split <;> simp

/-! ## Attributes -/

/-- The declared type of an attribute among a type and its ancestors up to a depth. -/
def attrTypeWithin (ts : Types) (attr : String) : (depth : Nat) → TypeId → Option String
  | 0, _ => none
  | depth + 1, t =>
    match (ts.get t).attributes.find? attr with
    | some a => some a.type
    | none => (ts.get t).parents.reverse.findSome? (ts.attrTypeWithin attr depth)

/-- The declared type of an attribute: the type's own declaration, or else that of the last parent
that has one. -/
def attrType? (ts : Types) (t : TypeId) (attr : String) : Option String :=
  ts.attrTypeWithin attr ts.entries.size t

/-- The default attributes that a type declares itself. -/
def ownDefaults (d : Descriptor) : Table String Value :=
  d.attributes.filterMap fun (name, a) => a.default.map fun v => (name, v)

/-- The default attributes of a type and its ancestors up to a depth. -/
def defaultsWithin (ts : Types) : (depth : Nat) → TypeId → Table String Value
  | 0, _ => []
  | depth + 1, t =>
    let inherited := (ts.get t).parents.foldl
      (fun attrs parent => Table.union attrs (ts.defaultsWithin depth parent)) []
    Table.union inherited (ownDefaults (ts.get t))

/-- The default attributes of a type: those of the parents, later parents before earlier ones, and
in front of all the type's own. -/
def defaults (ts : Types) (t : TypeId) : Table String Value :=
  ts.defaultsWithin ts.entries.size t

/-- An instance with the default attributes that no constructor has seen. -/
def blank (ts : Types) (t : TypeId) : Value := .object t (ts.defaults t)

/-! ## Methods -/

/-- The outcome of a search after one more parent: a second hit must have the owner of the first. -/
def join (ts : Types) (t : TypeId) (s : Signature) (found hit : Option (TypeId × Overload)) :
    Except Cause (Option (TypeId × Overload)) :=
  match found, hit with
  | found, none => .ok found
  | none, some hit => .ok (some hit)
  | some first, some second =>
    if ts.name first.1 = ts.name second.1 then .ok (some first)
    else .error (.ambiguousMethod (ts.name t) s (ts.name first.1) (ts.name second.1))

/-- The method with a given signature in the ancestors of a type up to a depth, with the ancestor
that declares it, and the names of the types looked at so far. Parents are searched one after the
other, each with its own ancestors, and no name twice. -/
def inheritedWithin (ts : Types) (s : Signature) : (depth : Nat) → TypeId →
    (visited : List String) → Except Cause (Option (TypeId × Overload) × List String)
  | 0, _, visited => .ok (none, visited)
  | depth + 1, t, visited =>
    (ts.get t).parents.foldlM (fun (found, visited) parent =>
      if ts.name parent ∈ visited then .ok (found, visited)
      else do
        let visited := ts.name parent :: visited
        let (hit, visited) ← match ts.ownMethod? parent s with
          | some o => .ok (some (parent, o), visited)
          | none => ts.inheritedWithin s depth parent visited
        let found ← ts.join t s found hit
        return (found, visited))
      (none, visited)

/-- The method with a given signature. The type's own method wins; otherwise the ancestors must
agree on one type that declares it. -/
def findMethod (ts : Types) (t : TypeId) (s : Signature) : Except Cause (Option MethodEntry) :=
  match ts.ownMethod? t s with
  | some o => .ok (some ⟨none, o⟩)
  | none =>
    (ts.inheritedWithin s ts.entries.size t [ts.name t]).map fun (hit, _) =>
      hit.map fun (owner, o) => ⟨some owner, o⟩

end Types

end Nominal
