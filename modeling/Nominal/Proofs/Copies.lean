import Nominal.Proofs.Coherence
import Nominal.Proofs.Orderly
import Nominal.Proofs.Renaming

/-!
# Copies of worlds

A copy of a world holds the same things under larger numbers. It may hold more than that: scopes and
types between the first ones and the rest, which nothing leads to, and in the outermost scope some
names that the world itself does not know. What is looked up in the copy is what is looked up in the
world, renamed, unless the look-up in the world fails for one of those names.

* `Copying`: what a copy is about.
* `Names.Missing`: the failures of look-ups for names that only the copy knows.
* `Copying.Copies`: a world and a copy of it.
* `Copying.Answered`: two answers to one question.
* **`Copying.Copies.resolveOperator`**, **`Copying.Copies.resolveMethod`**,
  **`Copying.Copies.resolveCall`**: callables are found in a copy as they are in the world.
* **`Copying.Copies.openChild`**, **`Copying.Copies.declareVariable`** and their like: copies stay
  copies.
-/

namespace Nominal

/-- Values of types that keep their numbers are as they were. -/
theorem Value.Below.value_eq {ρ : Renaming} {v : Value} (h : v.Below ρ.types) : ρ.value v = v := by
  induction h with
  | plain h => rw [Renaming.value, ρ.type_of_lt h]
  | object h _ ih =>
    rw [Renaming.value, ρ.type_of_lt h, Renaming.values_eq, Renaming.map_eq_self]
    rintro ⟨x, v⟩ he
    exact congrArg (Prod.mk x) (ih _ he)

theorem Overload.CapturesBelow.overload_eq {ρ : Renaming} {o : Overload}
    (h : o.CapturesBelow ρ.scopes) : ρ.overload o = o := by
  obtain ⟨ret, callable⟩ := o
  cases callable with
  | builtin | host => rfl
  | closure params body n =>
    rw [Renaming.overload, Renaming.callable, ρ.scope_of_lt (h params body n rfl)]

/-- A statement does not define a function with one of the given names. -/
def Stmt.Avoids (names : String → Prop) (s : Stmt) : Prop := ∀ d ∈ s.functionDef?, ¬names d.name

/-- What a copy of a world is about: the numbers in it, the names that only the copy knows, and what
had been printed before the world and the copy had anything in common. -/
structure Copying extends Renaming where
  /-- The names in the outermost scope that only the copy knows. -/
  extra : Names
  before : Output
  before' : Output

/-- The output with some more text. -/
def Output.append (o : Output) (text : String) : Output :=
  match o with
  | captured before => captured (before ++ text)
  | discarded => discarded

namespace Output

theorem append_empty (o : Output) : o.append "" = o := by
  cases o with
  | captured text => rw [append, String.append_empty]
  | discarded => rfl

theorem writeLine_append (o : Output) (text line : String) :
    (o.append text).writeLine line = o.append (text ++ line ++ "\n") := by
  cases o with
  | captured before => simp only [append, writeLine, String.append_assoc]
  | discarded => rfl

end Output

/-- The failures of look-ups for some names. A name of a type makes a call a construction, and so it
is also looked up as that of a function. -/
def Names.Missing (names : Names) : Cause → Prop
  | .undefinedVariable name => names.vars name
  | .undefinedType name => names.types name
  | .undefinedFunction s => names.functions s ∨ names.types s.name
  | _ => False

namespace Copying

variable {κ : Copying} {α β : Type}

/-! ## Answers to one question -/

/-- The copy has the entry of the world renamed, or one that only the copy knows. -/
def EntryCopied (extra : Prop) (f : α → β) (a : Option α) (b : Option β) : Prop :=
  b = a.map f ∨ a = none ∧ extra

/-- The copy gives the answer of the world renamed, or the world does not know a name that only the
copy knows. -/
def Answered (κ : Copying) (f : α → β) (x : Except Cause α) (y : Except Cause β) : Prop :=
  y = x.map f ∨ ∃ c, x = .error c ∧ κ.extra.Missing c

theorem Answered.map {γ δ : Type} {f : α → β} {f' : γ → δ} {x : Except Cause α} {y : Except Cause β}
    (h : κ.Answered f x y) {g : α → γ} {g' : β → δ} (hg : ∀ a, g' (f a) = f' (g a)) :
    κ.Answered f' (x.map g) (y.map g') := by
  obtain rfl | ⟨c, rfl, hc⟩ := h
  · left
    cases x with
    | error c => rfl
    | ok a => exact congrArg Except.ok (hg a)
  · exact .inr ⟨c, rfl, hc⟩

/-- A renamed callable that was found. -/
def resolved (κ : Copying) (r : Resolved) : Resolved :=
  ⟨κ.overload r.overload, r.receiver.map κ.type⟩

/-- What a plain call stands for, renamed. -/
def target (κ : Copying) : Target → Target
  | .function o => .function (κ.overload o)
  | .construct t => .construct (κ.type t)
  | .constructWith t o => .constructWith (κ.type t) (κ.overload o)

theorem arguments_resolved (r : Resolved) (args : List Value) :
    (κ.resolved r).arguments (args.map κ.value) = (r.arguments args).map κ.value := by
  obtain ⟨o, _ | t⟩ := r
  · cases args <;> rfl
  · cases args with
    | nil => rfl
    | cons v vs =>
      change (κ.value v).viewAs (κ.type t) :: vs.map κ.value = _
      rw [Renaming.viewAs_value]
      rfl

/-! ## Scopes -/

/-- The copies of scopes have the same entries, renamed. Only the outermost one may have more. -/
def CopiesTable {ι : Type} [DecidableEq ι] (κ : Copying) (table : Scope → Table ι α)
    (extra : ι → Prop) (f : α → α) (s s' : Scopes) : Prop :=
  ∀ n key, EntryCopied (n = 0 ∧ extra key) f ((table (s.get n)).find? key)
    ((table (s'.get (κ.scope n))).find? key)

/-- Scopes and copies of them. -/
structure CopiesScopes (κ : Copying) (s s' : Scopes) : Prop where
  bound : κ.scopes ≤ s.next
  next : s'.next = s.next + κ.scopeOffset
  enclosing : ∀ n, (s'.get (κ.scope n)).enclosing = (s.get n).enclosing.map κ.scope
  vars : κ.CopiesTable Scope.vars κ.extra.vars κ.binding s s'
  types : κ.CopiesTable Scope.types κ.extra.types κ.type s s'
  functions : κ.CopiesTable Scope.functions κ.extra.functions κ.overload s s'

/-- The first scope is the end of the way outwards. -/
def OutermostLast (path : List ScopeId) : Prop :=
  ∀ before behind, path = before ++ (0 : ScopeId) :: behind → behind = []

theorem entryCopied_findSome? {extra : Prop} {f : α → α} {g g' : ScopeId → Option α}
    (hg : ∀ n, EntryCopied (n = 0 ∧ extra) f (g n) (g' (κ.scope n))) {path : List ScopeId}
    (hpath : OutermostLast path) :
    EntryCopied extra f (path.findSome? g) ((path.map κ.scope).findSome? g') := by
  induction path with
  | nil => exact .inl rfl
  | cons n path ih =>
    rw [List.findSome?_cons, List.map_cons, List.findSome?_cons]
    obtain heq | ⟨hnone, rfl, hextra⟩ := hg n
    · rw [heq]
      cases g n with
      | some a => exact .inl rfl
      | none => exact ih fun before behind h => hpath (n :: before) behind (congrArg _ h)
    · -- the outermost scope is the last one on the way
      obtain rfl := hpath [] path rfl
      rw [hnone]
      exact .inr ⟨rfl, hextra⟩

namespace CopiesScopes

variable {ι : Type} [DecidableEq ι] {s s' : Scopes} {n : ScopeId} (h : κ.CopiesScopes s s')

include h

theorem path (n : ScopeId) : s'.path (κ.scope n) = (s.path n).map κ.scope := by
  rw [Scopes.path, h.enclosing]
  rfl

theorem lookup {table : Scope → Table ι α} {extra : ι → Prop} {f : α → α}
    (ht : κ.CopiesTable table extra f s s') (hpath : OutermostLast (s.path n)) (key : ι) :
    EntryCopied (extra key) f (s.lookup table n key) (s'.lookup table (κ.scope n) key) := by
  rw [Scopes.lookup, Scopes.lookup, h.path]
  exact entryCopied_findSome? (fun m => ht m key) hpath

theorem scope_next : κ.scope s.next = s'.next := by
  rw [h.next]
  exact Renaming.scope_of_le h.bound

theorem get_child (n m : ScopeId) :
    (s'.child (κ.scope n)).get (κ.scope m) =
      if m = s.next then .empty ((s.path n).map κ.scope) else s'.get (κ.scope m) := by
  rw [Scopes.child, Scopes.get_openScope, h.path, ← h.scope_next]
  exact if_congr Renaming.scope_inj rfl rfl

theorem get_modify (n m : ScopeId) (f : Scope → Scope) :
    (s'.modify (κ.scope n) f).get (κ.scope m) =
      if n = m ∧ n < s.next then f (s'.get (κ.scope m)) else s'.get (κ.scope m) := by
  rw [Scopes.get_modify, h.next]
  exact if_congr (and_congr Renaming.scope_inj (shift_lt_iff h.bound)) rfl rfl

theorem openChild (n : ScopeId) : κ.CopiesScopes (s.child n) (s'.child (κ.scope n)) := by
  have htable {ι : Type} [DecidableEq ι] {α : Type} {table : Scope → Table ι α} {extra : ι → Prop}
      {f : α → α} (hempty : ∀ e, table (.empty e) = []) (ht : κ.CopiesTable table extra f s s') :
      κ.CopiesTable table extra f (s.child n) (s'.child (κ.scope n)) := by
    intro m key
    rw [h.get_child, Scopes.child, Scopes.get_openScope]
    split
    · rw [hempty, hempty]
      exact .inl rfl
    · exact ht m key
  refine ⟨?_, ?_, fun m => ?_, htable (fun _ => rfl) h.vars, htable (fun _ => rfl) h.types,
    htable (fun _ => rfl) h.functions⟩
  · rw [Scopes.child, Scopes.next_openScope]
    exact Nat.le_succ_of_le h.bound
  · rw [Scopes.child, Scopes.child, Scopes.next_openScope, Scopes.next_openScope, h.next,
      Nat.add_right_comm]
  · rw [h.get_child, Scopes.child, Scopes.get_openScope]
    split
    · rfl
    · exact h.enclosing m

theorem modify (n : ScopeId) {g g' : Scope → Scope} (hg : ∀ c, (g c).enclosing = c.enclosing)
    (hg' : ∀ c, (g' c).enclosing = c.enclosing)
    (hvars : ∀ e c c' x, EntryCopied e κ.binding (c.vars.find? x) (c'.vars.find? x) →
      EntryCopied e κ.binding ((g c).vars.find? x) ((g' c').vars.find? x))
    (htypes : ∀ e c c' x, EntryCopied e κ.type (c.types.find? x) (c'.types.find? x) →
      EntryCopied e κ.type ((g c).types.find? x) ((g' c').types.find? x))
    (hfunctions : ∀ e c c' x,
      EntryCopied e κ.overload (c.functions.find? x) (c'.functions.find? x) →
      EntryCopied e κ.overload ((g c).functions.find? x) ((g' c').functions.find? x)) :
    κ.CopiesScopes (s.modify n g) (s'.modify (κ.scope n) g') := by
  have htable {ι : Type} [DecidableEq ι] {α : Type} {table : Scope → Table ι α} {extra : ι → Prop}
      {f : α → α} (ht : κ.CopiesTable table extra f s s')
      (hg : ∀ e c c' x, EntryCopied e f ((table c).find? x) ((table c').find? x) →
        EntryCopied e f ((table (g c)).find? x) ((table (g' c')).find? x)) :
      κ.CopiesTable table extra f (s.modify n g) (s'.modify (κ.scope n) g') := by
    intro m key
    rw [h.get_modify, Scopes.get_modify]
    split
    · exact hg _ _ _ key (ht m key)
    · exact ht m key
  refine ⟨?_, ?_, fun m => ?_, htable h.vars hvars, htable h.types htypes,
    htable h.functions hfunctions⟩
  · rw [Scopes.next_modify]
    exact h.bound
  · rw [Scopes.next_modify, Scopes.next_modify, h.next]
  · rw [h.get_modify, Scopes.get_modify]
    split
    · rw [hg, hg', h.enclosing]
    · exact h.enclosing m

end CopiesScopes

theorem EntryCopied.insert {ι : Type} [DecidableEq ι] {extra : Prop} {f : α → α} {t t' : Table ι α}
    {x : ι} (h : EntryCopied extra f (t.find? x) (t'.find? x)) (key : ι) (a : α) :
    EntryCopied extra f ((t.insert key a).find? x) ((t'.insert key (f a)).find? x) := by
  rw [Table.find?_insert, Table.find?_insert]
  split
  · exact .inl rfl
  · exact h

/-! ## Worlds -/

/-- A world and a copy of it. The functions that the world knows do not have the names of types that
only the copy knows. -/
structure Copies (κ : Copying) (w w' : World) : Prop where
  scopes : κ.CopiesScopes w.scopes w'.scopes
  types : κ.CopiesTypes w.types w'.types
  settled : w.Settled (Stmt.Avoids κ.extra.types)
  apart : ∀ n, ∀ e ∈ (w.scopes.get n).functions, ¬κ.extra.types e.1.name
  output : ∃ text, w.output = κ.before.append text ∧ w'.output = κ.before'.append text

namespace Copies

variable {w w' : World} {n : ScopeId} (h : κ.Copies w w')

include h

/-! ### Look-ups -/

theorem lookupVariable (n : ScopeId) (x : String) :
    EntryCopied (κ.extra.vars x) κ.binding (w.scopes.lookupVariable n x)
      (w'.scopes.lookupVariable (κ.scope n) x) :=
  h.scopes.lookup h.scopes.vars (h.settled.outermost n) x

theorem lookupType (n : ScopeId) (x : String) :
    EntryCopied (κ.extra.types x) κ.type (w.scopes.lookupType n x)
      (w'.scopes.lookupType (κ.scope n) x) :=
  h.scopes.lookup h.scopes.types (h.settled.outermost n) x

theorem lookupFunction (n : ScopeId) (x : Signature) :
    EntryCopied (κ.extra.functions x) κ.overload (w.scopes.lookupFunction n x)
      (w'.scopes.lookupFunction (κ.scope n) x) :=
  h.scopes.lookup h.scopes.functions (h.settled.outermost n) x

theorem findVariable (n : ScopeId) (x : String) :
    κ.Answered κ.binding (w.scopes.findVariable n x) (w'.scopes.findVariable (κ.scope n) x) := by
  unfold Scopes.findVariable
  obtain heq | ⟨hnone, hextra⟩ := h.lookupVariable n x
  · rw [heq]
    left
    cases w.scopes.lookupVariable n x <;> rfl
  · rw [hnone]
    exact .inr ⟨_, rfl, hextra⟩

theorem findType (n : ScopeId) (x : String) :
    κ.Answered κ.type (w.scopes.findType n x) (w'.scopes.findType (κ.scope n) x) := by
  unfold Scopes.findType
  obtain heq | ⟨hnone, hextra⟩ := h.lookupType n x
  · rw [heq]
    left
    cases w.scopes.lookupType n x <;> rfl
  · rw [hnone]
    exact .inr ⟨_, rfl, hextra⟩

theorem findFunction (n : ScopeId) (x : Signature) :
    κ.Answered κ.overload (w.scopes.findFunction n x) (w'.scopes.findFunction (κ.scope n) x) := by
  unfold Scopes.findFunction
  obtain heq | ⟨hnone, hextra⟩ := h.lookupFunction n x
  · rw [heq]
    left
    cases w.scopes.lookupFunction n x <;> rfl
  · rw [hnone]
    exact .inr ⟨_, rfl, .inl hextra⟩

/-! ### Values and types -/

theorem typeName (v : Value) : w'.typeName (κ.value v) = w.typeName v := by
  rw [World.typeName, Renaming.type_value]
  exact h.types.name v.type

theorem map_typeName (vs : List Value) :
    (vs.map κ.value).map w'.typeName = vs.map w.typeName := by
  rw [List.map_map]
  exact List.map_congr_left fun v _ => h.typeName v

theorem textOf (v : Value) : w'.textOf (κ.value v) = w.textOf v := by
  cases v with
  | plain => rfl
  | object t attributes =>
    rw [Renaming.value, World.textOf, h.types.name]
    rfl

theorem datumOf (p : Primitive) (v : Value) : w'.datumOf p (κ.value v) = w.datumOf p v := by
  rw [World.datumOf, Renaming.datum?_value, h.typeName]
  rfl

/-! ### Callables -/

/-- **Operators stand for the same methods and functions in a copy.** -/
theorem resolveOperator (n : ScopeId) (t : TypeId) (method function : Signature) :
    κ.Answered κ.resolved (w.resolveOperator n t method function)
      (w'.resolveOperator (κ.scope n) (κ.type t) method function) := by
  unfold World.resolveOperator
  rw [h.types.findMethod h.settled.parents]
  rcases w.types.findMethod t method with c | _ | m
  · exact .inl rfl
  · exact (h.findFunction n function).map fun _ => rfl
  · exact .inl rfl

theorem resolveBinary (n : ScopeId) (op : BinaryOp) (v u : Value) :
    κ.Answered κ.resolved (w.resolveBinary n op v.type (w.typeName u))
      (w'.resolveBinary (κ.scope n) op (κ.value v).type (w'.typeName (κ.value u))) := by
  unfold World.resolveBinary
  rw [Renaming.type_value, h.typeName, h.types.name]
  exact h.resolveOperator n _ _ _

theorem resolveUnary (n : ScopeId) (op : UnaryOp) (v : Value) :
    κ.Answered κ.resolved (w.resolveUnary n op v.type)
      (w'.resolveUnary (κ.scope n) op (κ.value v).type) := by
  unfold World.resolveUnary
  rw [Renaming.type_value, h.types.name]
  exact h.resolveOperator n _ _ _

/-- **Methods of values are found in a copy as they are in the world.** -/
theorem resolveMethod (v : Value) (method : String) (args : List Value) :
    κ.Answered κ.resolved (w.resolveMethod v.type method (args.map w.typeName))
      (w'.resolveMethod (κ.value v).type method ((args.map κ.value).map w'.typeName)) := by
  unfold World.resolveMethod
  dsimp only
  rw [Renaming.type_value, h.map_typeName, h.types.findMethod h.settled.parents, h.types.name]
  left
  rcases w.types.findMethod v.type (.method method (args.map w.typeName)) with c | _ | m <;> rfl

/-- **A plain call stands for the same in a copy.** A function that is called does not have the name
of a type that only the copy knows. -/
theorem resolveCall (n : ScopeId) (callee : String) (args : List Value) :
    κ.Answered κ.target (w.resolveCall n callee (args.map w.typeName))
      (w'.resolveCall (κ.scope n) callee ((args.map κ.value).map w'.typeName)) := by
  unfold World.resolveCall
  rw [h.map_typeName]
  obtain heq | ⟨hnone, hextra⟩ := h.lookupType n callee
  · rw [heq]
    cases w.scopes.lookupType n callee with
    | none => exact (h.findFunction n _).map fun _ => rfl
    | some t =>
      left
      dsimp only [Option.map_some]
      rw [h.types.ownMethod?, h.types.name]
      split
      · rfl
      · cases w.types.ownMethod? t (.constructor (args.map w.typeName)) <;> rfl
  · rw [hnone]
    right
    dsimp only
    unfold Scopes.findFunction
    cases hfind : w.scopes.lookupFunction n (.function callee (args.map w.typeName)) with
    | none => exact ⟨_, rfl, .inr hextra⟩
    | some o =>
      obtain ⟨m, -, hfind⟩ := Scopes.exists_of_lookup hfind
      exact absurd hextra (h.apart m _ (Table.mem_of_find? hfind))

/-! ### Steps -/

/-- Steps that leave scopes and types as they are. -/
theorem writeLine (line : String) : κ.Copies (w.writeLine line) (w'.writeLine line) where
  scopes := h.scopes
  types := h.types
  settled := h.settled.of_eq rfl rfl
  apart := h.apart
  output := by
    obtain ⟨text, hw, hw'⟩ := h.output
    refine ⟨text ++ line ++ "\n", ?_, ?_⟩
    · rw [World.writeLine, hw, Output.writeLine_append]
    · rw [World.writeLine, hw', Output.writeLine_append]

theorem openChild (n : ScopeId) : κ.Copies (w.openChild n) (w'.openChild (κ.scope n)) where
  scopes := h.scopes.openChild n
  types := h.types
  settled := h.settled.openChild n
  apart := World.forall_mem_child (fun _ => rfl) h.apart
  output := h.output

theorem declareVariable (n : ScopeId) (name : String) (b : Binding) :
    κ.Copies (w.declareVariable n name b) (w'.declareVariable (κ.scope n) name (κ.binding b)) where
  scopes := h.scopes.modify n (fun _ => rfl) (fun _ => rfl) (fun _ _ _ _ hx => hx.insert name b)
    (fun _ _ _ _ => id) (fun _ _ _ _ => id)
  types := h.types
  settled := h.settled.declareVariable n name b
  apart := World.forall_mem_modify h.apart fun _ _ => .inl
  output := h.output

theorem declareFunction (n : ScopeId) {s : Signature} {o : Overload}
    (ho : o.Answers (Stmt.Avoids κ.extra.types) s) (hs : ¬κ.extra.types s.name) :
    κ.Copies (w.declareFunction n s o) (w'.declareFunction (κ.scope n) s (κ.overload o)) where
  scopes := h.scopes.modify n (fun _ => rfl) (fun _ => rfl) (fun _ _ _ _ => id) (fun _ _ _ _ => id)
    (fun _ _ _ _ hx => hx.insert s o)
  types := h.types
  settled := h.settled.declareFunction n ho
  apart := World.forall_mem_modify h.apart fun _ e he => by
    obtain rfl | he := Table.mem_insert he
    · exact .inr hs
    · exact .inl he
  output := h.output

theorem declareType (n : ScopeId) {name : String} {t : TypeId} (ht : t < w.types.next)
    (hname : w.types.name t = name) :
    κ.Copies (w.declareType n name t) (w'.declareType (κ.scope n) name (κ.type t)) where
  scopes := h.scopes.modify n (fun _ => rfl) (fun _ => rfl) (fun _ _ _ _ => id)
    (fun _ _ _ _ hx => hx.insert name t) (fun _ _ _ _ => id)
  types := h.types
  settled := h.settled.declareType n ht hname
  apart := World.forall_mem_modify h.apart fun _ _ => .inl
  output := h.output

theorem type_next : κ.type w.types.next = w'.types.next := by
  rw [h.types.next]
  exact Renaming.type_of_le h.types.bound

theorem addType {d : Descriptor} (hd : d.Settled (Stmt.Avoids κ.extra.types) w) :
    κ.Copies (w.addType d) (w'.addType (κ.descriptor d)) where
  scopes := h.scopes
  types :=
    { bound := by
        rw [World.addType, Types.next_add]
        exact Nat.le_succ_of_le h.types.bound
      next := by
        rw [World.addType, World.addType, Types.next_add, Types.next_add, h.types.next,
          Nat.add_right_comm]
      get := fun t => by
        rw [World.addType, World.addType, Types.get_add, Types.get_add, ← h.type_next,
          if_congr Renaming.type_inj rfl rfl]
        split
        · rfl
        · exact h.types.get t }
  settled := h.settled.addType hd
  apart := h.apart
  output := h.output

end Copies

end Copying

end Nominal
