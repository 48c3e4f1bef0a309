import Nominal.Execution
import Nominal.Proofs.Lookup

/-!
# Empty scopes

A scope in which nothing is declared cannot be seen: a look-up that comes through it goes on to the
scopes around it. So whatever happens in an empty scope `k` inside `n` can as well happen in `n`.
This compares two worlds step by step that differ only in where `k` stands in the ways outwards.

* `World.Aside`: worlds that differ in where an empty scope stands.
* `Beside`: the scopes in the two worlds that look at the same.
* **`World.Aside.lookup_eq`**: a look-up does not see the empty scope.
* **`World.Aside.openChild`**, **`World.Aside.modify`**: changes of the two worlds.
* `Effect.InStep`, `Run.InStep`: steps that do the same in such worlds.
-/

namespace Nominal

open Effect (ask query update fail findType plain openChild bindAll)

/-! ## Worlds -/

/-- What is declared in a scope. -/
def Scope.content (c : Scope) : Scope := { c with enclosing := [] }

/-- Two scopes that look at the same: a scope and itself, or `n` in the first world and the empty
scope `k` in the second one. -/
inductive Beside (n k : ScopeId) : ScopeId → ScopeId → Prop
  | same (m : ScopeId) : Beside n k m m
  | inner : Beside n k n k

/-- The way outwards from a scope, without the scope `k`. -/
def Scopes.pathAround (k : ScopeId) (s : Scopes) (m : ScopeId) : List ScopeId :=
  (s.path m).filter (· ≠ k)

theorem Scopes.path_child_self (s : Scopes) (m : ScopeId) :
    (s.child m).path s.next = s.next :: s.path m := by
  rw [path, get_child_self]
  rfl

theorem Scopes.pathAround_child {k : ScopeId} {s : Scopes} (hk : k < s.next) (m c : ScopeId) :
    (s.child m).pathAround k c =
      if c = s.next then s.next :: s.pathAround k m else s.pathAround k c := by
  unfold pathAround
  split
  · next hc =>
    rw [hc, path_child_self]
    exact List.filter_cons_of_pos (decide_eq_true (Nat.ne_of_gt hk))
  · next hc => rw [path, path, child, get_openScope, if_neg hc]

/-- Two worlds that differ only in where the empty scope `k` stands in the ways outwards, and what
stands around `k` in the second one is `n` in the first one. -/
structure World.Aside (n k : ScopeId) (w w' : World) : Prop where
  types : w'.types = w.types
  hosts : w'.hosts = w.hosts
  output : w'.output = w.output
  next : w'.scopes.next = w.scopes.next
  content : ∀ m, (w'.scopes.get m).content = (w.scopes.get m).content
  empty : (w.scopes.get k).content = .empty []
  around : ∀ m m', Beside n k m m' → w'.scopes.pathAround k m' = w.scopes.pathAround k m
  outer_lt : n < w.scopes.next
  inner_lt : k < w.scopes.next

/-- A search is not changed by what is left out if it finds nothing there. -/
theorem findSome?_filter {α β : Type} {p : α → Bool} {f : α → Option β} {l : List α}
    (h : ∀ a, p a = false → f a = none) : (l.filter p).findSome? f = l.findSome? f := by
  induction l with
  | nil => rfl
  | cons a l ih =>
    cases hp : p a with
    | true => rw [List.filter_cons_of_pos hp, List.findSome?_cons, List.findSome?_cons, ih]
    | false =>
      rw [List.filter_cons_of_neg (by rw [hp]; exact Bool.false_ne_true), List.findSome?_cons,
        h a hp, ih]

namespace World.Aside

variable {n k m m' : ScopeId} {w w' : World}

theorem refl (hn : n < w.scopes.next) (hk : k < w.scopes.next)
    (hempty : (w.scopes.get k).content = .empty [])
    (hinner : w.scopes.pathAround k k = w.scopes.pathAround k n) : w.Aside n k w where
  types := rfl
  hosts := rfl
  output := rfl
  next := rfl
  content _ := rfl
  empty := hempty
  around m m' hm := by
    cases hm with
    | same => rfl
    | inner => exact hinner
  outer_lt := hn
  inner_lt := hk

/-- **A new scope is an empty scope.** -/
theorem child (hn : n < w.scopes.next) :
    (w.openChild n).Aside n w.scopes.next (w.openChild n) := by
  have hnext : w.scopes.next < (w.scopes.child n).next := by
    rw [Scopes.child, Scopes.next_openScope]
    exact Nat.lt_succ_self _
  refine .refl (Nat.lt_trans hn hnext) hnext ?_ ?_
  · change ((w.scopes.child n).get w.scopes.next).content = .empty []
    rw [Scopes.get_child_self]
    rfl
  · change (w.scopes.child n).pathAround w.scopes.next w.scopes.next =
      (w.scopes.child n).pathAround w.scopes.next n
    rw [Scopes.pathAround, Scopes.path_child_self, Scopes.pathAround, Scopes.path_child_of_lt hn]
    exact List.filter_cons_of_neg (by simp)

/-! ### Look-ups -/

section Lookup

variable (h : w.Aside n k w') (hm : Beside n k m m')

include h hm

/-- **A look-up does not see the empty scope.** -/
theorem lookup_eq {κ α : Type} [DecidableEq κ] {table : Scope → Table κ α}
    (htable : ∀ c, table c.content = table c) (hempty : table (.empty []) = []) (key : κ) :
    Scopes.lookup table w'.scopes m' key = Scopes.lookup table w.scopes m key := by
  have hentry (c : ScopeId) : table (w'.scopes.get c) = table (w.scopes.get c) := by
    rw [← htable, h.content, htable]
  have hnone (c : ScopeId) (hc : decide (c ≠ k) = false) :
      (table (w.scopes.get c)).find? key = none := by
    obtain rfl : c = k := not_not.1 (of_decide_eq_false hc)
    rw [← htable, h.empty, hempty]
    rfl
  let entry (c : ScopeId) : Option α := (table (w.scopes.get c)).find? key
  simp only [Scopes.lookup, hentry]
  calc (w'.scopes.path m').findSome? entry
      = (w'.scopes.pathAround k m').findSome? entry := (findSome?_filter hnone).symm
    _ = (w.scopes.pathAround k m).findSome? entry := by rw [h.around m m' hm]
    _ = (w.scopes.path m).findSome? entry := findSome?_filter hnone

theorem lookupVariable (name : String) :
    w'.scopes.lookupVariable m' name = w.scopes.lookupVariable m name :=
  h.lookup_eq hm (fun _ => rfl) rfl name

theorem lookupType (name : String) : w'.scopes.lookupType m' name = w.scopes.lookupType m name :=
  h.lookup_eq hm (fun _ => rfl) rfl name

theorem lookupFunction (s : Signature) :
    w'.scopes.lookupFunction m' s = w.scopes.lookupFunction m s :=
  h.lookup_eq hm (fun _ => rfl) rfl s

theorem findVariable (name : String) :
    w'.scopes.findVariable m' name = w.scopes.findVariable m name := by
  rw [Scopes.findVariable, Scopes.findVariable, h.lookupVariable hm]

theorem findType (name : String) : w'.scopes.findType m' name = w.scopes.findType m name := by
  rw [Scopes.findType, Scopes.findType, h.lookupType hm]

theorem findFunction (s : Signature) :
    w'.scopes.findFunction m' s = w.scopes.findFunction m s := by
  rw [Scopes.findFunction, Scopes.findFunction, h.lookupFunction hm]

theorem resolveOperator (t : TypeId) (method function : Signature) :
    w'.resolveOperator m' t method function = w.resolveOperator m t method function := by
  rw [World.resolveOperator, World.resolveOperator, h.types, h.findFunction hm]

theorem resolveBinary (op : BinaryOp) (left : TypeId) (right : String) :
    w'.resolveBinary m' op left right = w.resolveBinary m op left right := by
  rw [World.resolveBinary, World.resolveBinary, h.resolveOperator hm, h.types]

theorem resolveUnary (op : UnaryOp) (operand : TypeId) :
    w'.resolveUnary m' op operand = w.resolveUnary m op operand := by
  rw [World.resolveUnary, World.resolveUnary, h.resolveOperator hm, h.types]

theorem resolveCall (callee : String) (args : List String) :
    w'.resolveCall m' callee args = w.resolveCall m callee args := by
  rw [World.resolveCall, World.resolveCall, h.lookupType hm, h.types, h.findFunction hm]

end Lookup

section Types

variable (h : w.Aside n k w')

include h

theorem typeName (v : Value) : w'.typeName v = w.typeName v := by
  rw [World.typeName, World.typeName, h.types]

theorem textOf (v : Value) : w'.textOf v = w.textOf v := by
  unfold World.textOf
  rw [h.types]

theorem datumOf (p : Primitive) (v : Value) : w'.datumOf p v = w.datumOf p v := by
  rw [World.datumOf, World.datumOf, h.typeName]

theorem resolveMethod (t : TypeId) (method : String) (args : List String) :
    w'.resolveMethod t method args = w.resolveMethod t method args := by
  rw [World.resolveMethod, World.resolveMethod, h.types]

end Types

/-! ### Changes -/

section Changes

variable (h : w.Aside n k w')

include h

/-- **A new scope on each side.** -/
theorem openChild (hm : Beside n k m m') : (w.openChild m).Aside n k (w'.openChild m') where
  types := h.types
  hosts := h.hosts
  output := h.output
  next := by
    change (w'.scopes.child m').next = (w.scopes.child m).next
    rw [Scopes.child, Scopes.child, Scopes.next_openScope, Scopes.next_openScope, h.next]
  content c := by
    change ((w'.scopes.child m').get c).content = ((w.scopes.child m).get c).content
    rw [Scopes.child, Scopes.child, Scopes.get_openScope, Scopes.get_openScope, h.next]
    split
    · rfl
    · exact h.content c
  empty := by
    change ((w.scopes.child m).get k).content = .empty []
    rw [Scopes.get_child_of_lt h.inner_lt]
    exact h.empty
  around c c' hc := by
    change (w'.scopes.child m').pathAround k c' = (w.scopes.child m).pathAround k c
    rw [Scopes.pathAround_child h.inner_lt, Scopes.pathAround_child (h.next ▸ h.inner_lt), h.next,
      h.around m m' hm, h.around c c' hc]
    cases hc with
    | same => rfl
    | inner => rw [if_neg (Nat.ne_of_lt h.inner_lt), if_neg (Nat.ne_of_lt h.outer_lt)]
  outer_lt := by
    change n < (w.scopes.child m).next
    rw [Scopes.child, Scopes.next_openScope]
    exact Nat.lt_succ_of_lt h.outer_lt
  inner_lt := by
    change k < (w.scopes.child m).next
    rw [Scopes.child, Scopes.next_openScope]
    exact Nat.lt_succ_of_lt h.inner_lt

/-- **A change of one scope**, which is not the empty one. -/
theorem modify (hm : m ≠ k) {f : Scope → Scope} (henclosing : ∀ c, (f c).enclosing = c.enclosing)
    (hcontent : ∀ c, (f c).content = (f c.content).content) :
    World.Aside n k { w with scopes := w.scopes.modify m f }
      { w' with scopes := w'.scopes.modify m f } where
  types := h.types
  hosts := h.hosts
  output := h.output
  next := by
    rw [Scopes.next_modify, Scopes.next_modify]
    exact h.next
  content c := by
    rw [Scopes.get_modify, Scopes.get_modify, h.next]
    split
    · rw [hcontent, h.content, ← hcontent]
    · exact h.content c
  empty := by
    rw [Scopes.get_modify, if_neg fun hand => hm hand.1]
    exact h.empty
  around c c' hc := by
    unfold Scopes.pathAround
    rw [Scopes.path_modify _ _ henclosing, Scopes.path_modify _ _ henclosing]
    exact h.around c c' hc
  outer_lt := by
    rw [Scopes.next_modify]
    exact h.outer_lt
  inner_lt := by
    rw [Scopes.next_modify]
    exact h.inner_lt

theorem declareVariable (hm : m ≠ k) (name : String) (b : Binding) :
    (w.declareVariable m name b).Aside n k (w'.declareVariable m name b) :=
  h.modify hm (fun _ => rfl) fun _ => rfl

theorem declareType (hm : m ≠ k) (name : String) (t : TypeId) :
    (w.declareType m name t).Aside n k (w'.declareType m name t) :=
  h.modify hm (fun _ => rfl) fun _ => rfl

theorem declareFunction (hm : m ≠ k) (s : Signature) (o : Overload) :
    (w.declareFunction m s o).Aside n k (w'.declareFunction m s o) :=
  h.modify hm (fun _ => rfl) fun _ => rfl

theorem addType (d : Descriptor) : (w.addType d).Aside n k (w'.addType d) :=
  { h with types := congrArg (Types.add · d) h.types }

theorem writeLine (line : String) : (w.writeLine line).Aside n k (w'.writeLine line) :=
  { h with output := congrArg (Output.writeLine · line) h.output }

theorem advanceHost (index : Nat) :
    World.Aside n k { w with hosts := w.hosts.modify index Host.advance }
      { w' with hosts := w'.hosts.modify index Host.advance } :=
  { h with hosts := congrArg (Array.modify · index Host.advance) h.hosts }

end Changes

end World.Aside

/-! ## Steps of the check -/

variable {α β : Type} {n k m m' : ScopeId}

/-- Two steps do the same in such worlds. -/
def Effect.InStep (n k : ScopeId) (e e' : Effect α) : Prop :=
  ∀ w w', w.Aside n k w' → (e' w').1 = (e w).1 ∧ (e w).2.Aside n k (e' w').2

namespace Effect.InStep

variable {e e' : Effect α} {f f' : α → Effect β}

theorem exists_end {w w' : World} (he : e.InStep n k e') (h : w.Aside n k w') :
    ∃ x v v', e w = (x, v) ∧ e' w' = (x, v') ∧ v.Aside n k v' :=
  ⟨(e w).1, (e w).2, (e' w').2, rfl, Prod.ext (he w w' h).1 rfl, (he w w' h).2⟩

theorem pure (a : α) : (Pure.pure a : Effect α).InStep n k (Pure.pure a) := fun _ _ h => ⟨rfl, h⟩

theorem fail (c : Cause) : (Effect.fail c : Effect α).InStep n k (Effect.fail c) :=
  fun _ _ h => ⟨rfl, h⟩

theorem ask {q q' : World → α} (hq : ∀ w w', w.Aside n k w' → q' w' = q w) :
    (Effect.ask q).InStep n k (Effect.ask q') :=
  fun w w' h => ⟨congrArg Except.ok (hq w w' h), h⟩

theorem query {q q' : World → Except Cause α} (hq : ∀ w w', w.Aside n k w' → q' w' = q w) :
    (Effect.query q).InStep n k (Effect.query q') := by
  intro w w' h
  rw [Effect.query, Effect.query, hq w w' h]
  cases q w with
  | ok a => exact ⟨rfl, h⟩
  | error c => exact ⟨rfl, h⟩

theorem const (r : Except Cause α) :
    (Effect.query fun _ => r).InStep n k (Effect.query fun _ => r) :=
  query fun _ _ _ => rfl

theorem update {c c' : World → World} (hc : ∀ w w', w.Aside n k w' → (c w).Aside n k (c' w')) :
    (Effect.update c).InStep n k (Effect.update c') :=
  fun w w' h => ⟨rfl, hc w w' h⟩

/-- **One step after another.** -/
theorem bind (he : e.InStep n k e') (hf : ∀ a, (f a).InStep n k (f' a)) :
    (e >>= f).InStep n k (e' >>= f') := by
  intro w w' h
  obtain ⟨x, v, v', hx, hx', hv⟩ := he.exists_end h
  rw [bind_apply, bind_apply, hx, hx']
  cases x with
  | error e => exact ⟨rfl, hv⟩
  | ok a => exact hf a v v' hv

theorem orAt (he : e.InStep n k e') (p : Option Position) :
    (e.orAt p).InStep n k (e'.orAt p) := by
  intro w w' h
  obtain ⟨x, v, v', hx, hx', hv⟩ := he.exists_end h
  rw [Effect.orAt, Effect.orAt, hx, hx']
  cases x <;> exact ⟨rfl, hv⟩

theorem each {g g' : α → Effect β} (hg : ∀ a, (g a).InStep n k (g' a)) :
    ∀ as : List α, (Effect.each g as).InStep n k (Effect.each g' as)
  | [] => pure []
  | a :: as => bind (hg a) fun b => bind (each hg as) fun bs => pure (b :: bs)

/-- **A new scope**, which is not the empty one. -/
theorem openChild (hm : Beside n k m m') {f f' : ScopeId → Effect β}
    (hf : ∀ inner, inner ≠ k → (f inner).InStep n k (f' inner)) :
    (Effect.openChild m >>= f).InStep n k (Effect.openChild m' >>= f') := by
  intro w w' h
  have hinner := hf w.scopes.next (Nat.ne_of_gt h.inner_lt) _ _ (h.openChild hm)
  have hright : (Effect.openChild m' >>= f') w' = f' w.scopes.next (w'.openChild m') := by
    rw [← h.next]
    rfl
  rw [hright]
  exact hinner

theorem findType (hm : Beside n k m m') (name : String) :
    (Effect.findType m name).InStep n k (Effect.findType m' name) :=
  query fun _ _ h => h.findType hm name

theorem plain (hm : Beside n k m m') (l : Literal) :
    (Effect.plain m l).InStep n k (Effect.plain m' l) :=
  bind (findType hm _) fun t => pure (Value.plain t l)

theorem bindAll (hm : m ≠ k) :
    ∀ bs : List (String × Binding), (Effect.bindAll m bs).InStep n k (Effect.bindAll m bs)
  | [] => pure ()
  | (name, b) :: rest => bind (update fun _ _ h => h.declareVariable hm name b) fun _ =>
      bindAll hm rest

end Effect.InStep

/-! ## Steps of the execution -/

/-- Two runs do the same in such worlds. -/
def Run.InStep (n k : ScopeId) (r r' : Run α) : Prop :=
  ∀ w w', w.Aside n k w' →
    Option.Rel (fun o o' => o'.1 = o.1 ∧ o.2.Aside n k o'.2) (r w) (r' w')

namespace Run.InStep

variable {r r' : Run α} {f f' : α → Run β}

theorem cases_end {w w' : World} (hr : r.InStep n k r') (h : w.Aside n k w') :
    (r w = none ∧ r' w' = none) ∨
      ∃ x v v', r w = some (x, v) ∧ r' w' = some (x, v') ∧ v.Aside n k v' := by
  have hw := hr w w' h
  generalize r w = o, r' w' = o' at hw
  cases hw with
  | none => exact .inl ⟨rfl, rfl⟩
  | @some o o' heq => exact .inr ⟨o.1, o.2, o'.2, rfl, congrArg some (Prod.ext heq.1 rfl), heq.2⟩

theorem exhausted : (Run.exhausted : Run α).InStep n k Run.exhausted := fun _ _ _ => .none

theorem pure (a : α) : (Pure.pure a : Run α).InStep n k (Pure.pure a) :=
  fun _ _ h => .some ⟨rfl, h⟩

theorem lift {e e' : Effect α} (h : e.InStep n k e') :
    (liftM e : Run α).InStep n k (liftM e') :=
  fun w w' hw => .some (h w w' hw)

/-- **One run after another.** -/
theorem bind (hr : r.InStep n k r') (hf : ∀ a, (f a).InStep n k (f' a)) :
    (r >>= f).InStep n k (r' >>= f') := by
  intro w w' h
  rw [bind_apply, bind_apply]
  obtain ⟨hnone, hnone'⟩ | ⟨x, v, v', hx, hx', hv⟩ := hr.cases_end h
  · rw [hnone, hnone']
    exact .none
  · rw [hx, hx']
    cases x with
    | error e => exact .some ⟨rfl, hv⟩
    | ok a => exact hf a v v' hv

theorem orAt (hr : r.InStep n k r') (p : Option Position) : (r.orAt p).InStep n k (r'.orAt p) := by
  intro w w' h
  unfold Run.orAt
  obtain ⟨hnone, hnone'⟩ | ⟨x, v, v', hx, hx', hv⟩ := hr.cases_end h
  · rw [hnone, hnone']
    exact .none
  · rw [hx, hx']
    cases x <;> exact .some ⟨rfl, hv⟩

theorem each {g g' : α → Run β} (hg : ∀ a, (g a).InStep n k (g' a)) :
    ∀ as : List α, (Run.each g as).InStep n k (Run.each g' as)
  | [] => pure []
  | a :: as => bind (hg a) fun b => bind (each hg as) fun bs => pure (b :: bs)

/-- **A new scope**, which is not the empty one. -/
theorem openChild (hm : Beside n k m m') {f f' : ScopeId → Run β}
    (hf : ∀ inner, inner ≠ k → (f inner).InStep n k (f' inner)) :
    ((liftM (Effect.openChild m) : Run ScopeId) >>= f).InStep n k
      ((liftM (Effect.openChild m') : Run ScopeId) >>= f') := by
  intro w w' h
  have hinner := hf w.scopes.next (Nat.ne_of_gt h.inner_lt) _ _ (h.openChild hm)
  change Option.Rel _ (f w.scopes.next (w.openChild m)) (f' w'.scopes.next (w'.openChild m'))
  rw [h.next]
  exact hinner

end Run.InStep

end Nominal
