import Nominal.Proofs.Following
import Nominal.Session

/-!
# The world after a run

What comes into being during a run is numbered behind what was there before. So a world that has
gained nothing but scopes, types and some entries of the outermost scope is a copy of the world
that it was, and a run does the same in both. What the two runs end with has different numbers in
it, which nobody can see.

* `Flow.view`, `Run.seen`: what can be seen of the end of a statement and of a run.
* **`Renaming.CopiesTypes.view_value`**: renamed values look as they did.
* **`Copying.Outcomes.seen`**: what can be seen of a run in a world and in a copy.
* `World.Gains`: what a world has gained.
* **`World.Orderly.copies`**: a world after a run as a copy of the world before.
* **`World.Orderly.seen`**: what can be seen of a run before and after something was gained.
-/

namespace Nominal

variable {α β ν : Type}

/-! ## What can be seen -/

/-- The view of the end of a statement, as a session answers it. -/
def Flow.view (ts : Types) : Flow → FlowView
  | .normal => .normal
  | .returns value => .returns (value.map (Value.view ts))
  | .breakLoop => .breakLoop
  | .continueLoop => .continueLoop

/-- What can be seen of a run: the view of its result, or else its error, and the output. -/
def Run.seen (view : Types → α → ν) (m : Run α) (w : World) :
    Option (Except EvalError ν × Output) :=
  (m w).map fun (r, w') => (r.map (view w'.types), w'.output)

theorem Run.seen_of_eq {view : Types → α → ν} {m : Run α} {w w' : World} {r : Except EvalError α}
    (h : m w = some (r, w')) : m.seen view w = some (r.map (view w'.types), w'.output) := by
  rw [seen, h]
  rfl

namespace Renaming.CopiesTypes

variable {ρ : Renaming} {ts ts' : Types}

mutual

/-- **Renamed values look as they did.** -/
theorem view_value (h : ρ.CopiesTypes ts ts') (v : Value) : (ρ.value v).view ts' = v.view ts := by
  match v with
  | .plain t l => rw [value, Value.view, Value.view, h.name]
  | .object t attributes =>
    rw [value, Value.view, Value.view, h.name, view_values h attributes]

theorem view_values (h : ρ.CopiesTypes ts ts') (attributes : List (String × Value)) :
    viewAttributes ts' (ρ.values attributes) = viewAttributes ts attributes := by
  match attributes with
  | [] => rfl
  | (name, v) :: rest =>
    rw [values, viewAttributes, viewAttributes, view_value h v, view_values h rest]

end

theorem view_flow (h : ρ.CopiesTypes ts ts') (f : Flow) : (ρ.flow f).view ts' = f.view ts := by
  cases f with
  | returns value =>
    cases value with
    | none => rfl
    | some v => exact congrArg (fun view => FlowView.returns (some view)) (h.view_value v)
  | normal | breakLoop | continueLoop => rfl

end Renaming.CopiesTypes

/-- **What can be seen of a run in a world and in a copy is the same**, apart from what was printed
before, unless the run in the world fails for a name that only the copy knows. -/
theorem Copying.Outcomes.seen {κ : Copying} {f : α → β} {view : Types → α → ν}
    {view' : Types → β → ν}
    (hview : ∀ ts ts', κ.CopiesTypes ts ts' → ∀ a, view' ts' (f a) = view ts a) {m : Run α}
    {m' : Run β} {w w' : World} (h : κ.Outcomes f (m w) (m' w')) :
    (∃ e w₁, m w = some (.error e, w₁) ∧ κ.extra.Missing e.cause) ∨
    (m w = none ∧ m' w' = none) ∨
    ∃ o text, m.seen view w = some (o, κ.before.append text) ∧
      m'.seen view' w' = some (o, κ.before'.append text) := by
  unfold Run.seen
  generalize m w = r, m' w' = r' at h
  cases h with
  | exhausted => exact .inr (.inl ⟨rfl, rfl⟩)
  | @ok a w₁ w₁' h =>
    obtain ⟨text, hw, hw'⟩ := h.output
    refine .inr (.inr ⟨.ok (view w₁.types a), text, ?_, ?_⟩)
    · rw [← hw]
      rfl
    · rw [← hw', ← hview _ _ h.types a]
      rfl
  | @error e w₁ w₁' h =>
    obtain ⟨text, hw, hw'⟩ := h.output
    refine .inr (.inr ⟨.error e, text, ?_, ?_⟩)
    · rw [← hw]
      rfl
    · rw [← hw']
      rfl
  | lost h => exact .inl ⟨_, _, rfl, h⟩

/-! ## What is gained -/

open Copying (EntryCopied)

/-- A world has gained nothing but scopes, types, and entries of the outermost scope for some
names. -/
structure World.Gains (extra : Names) (w w' : World) : Prop where
  keeps : w.Keeps {(0 : ScopeId)} w'
  enclosing : (w'.scopes.get 0).enclosing = (w.scopes.get 0).enclosing
  vars : ∀ x, EntryCopied (extra.vars x) id ((w.scopes.get 0).vars.find? x)
    ((w'.scopes.get 0).vars.find? x)
  types : ∀ x, EntryCopied (extra.types x) id ((w.scopes.get 0).types.find? x)
    ((w'.scopes.get 0).types.find? x)
  functions : ∀ s, EntryCopied (extra.functions s) id ((w.scopes.get 0).functions.find? s)
    ((w'.scopes.get 0).functions.find? s)

theorem World.Keeps.gains {w w' : World} (h : w.Keeps ∅ w') (hw : 0 < w.scopes.next) :
    w.Gains .none w' := by
  have hget : w'.scopes.get 0 = w.scopes.get 0 := h.scope_eq 0 hw (Set.notMem_empty _)
  refine ⟨h.of_empty, by rw [hget], fun x => .inl ?_, fun x => .inl ?_, fun s => .inl ?_⟩
  all_goals rw [hget, Option.map_id, id]

/-- A world as a copy of the world that it was. -/
def Copying.between (extra : Names) (w w' : World) : Copying where
  scopes := w.scopes.next
  scopeOffset := w'.scopes.next - w.scopes.next
  types := w.types.next
  typeOffset := w'.types.next - w.types.next
  extra := extra
  before := w.output
  before' := w'.output

theorem Copying.EntryCopied.of_id {ι : Type} [DecidableEq ι] {extra : Prop} {f : α → α}
    {t : Table ι α} {key : ι} {b : Option α} (h : EntryCopied extra id (t.find? key) b)
    (hf : ∀ e ∈ t, f e.2 = e.2) : EntryCopied extra f (t.find? key) b := by
  refine h.imp (fun hb => ?_) id
  rw [hb]
  cases hfind : t.find? key with
  | none => rfl
  | some a => exact congrArg some (hf _ (Table.mem_of_find? hfind)).symm

theorem Table.map_eq_self {ι : Type} {f : α → α} {t : Table ι α} (h : ∀ e ∈ t, f e.2 = e.2) :
    (t.map fun (x, a) => (x, f a)) = t :=
  Renaming.map_eq_self fun e he => Prod.ext rfl (h e he)

namespace World

variable {w w' : World} {extra : Names}

theorem Gains.next_scopes (hg : w.Gains extra w') :
    w'.scopes.next = w.scopes.next + (w'.scopes.next - w.scopes.next) :=
  (Nat.add_sub_of_le hg.keeps.scopes_le).symm

theorem Gains.next_types (hg : w.Gains extra w') :
    w'.types.next = w.types.next + (w'.types.next - w.types.next) :=
  (Nat.add_sub_of_le hg.keeps.types_le).symm

/-- A scope is as it was, is the outermost one or does not exist. -/
theorem Gains.get_scope (hg : w.Gains extra w') (m : ScopeId) :
    w'.scopes.get ((Copying.between extra w w').scope m) = w.scopes.get m ∨
      m = 0 ∧ (Copying.between extra w w').scope m = 0 := by
  by_cases hm : m < w.scopes.next
  · rw [(Copying.between extra w w').scope_of_lt hm]
    by_cases hroot : m = 0
    · exact .inr ⟨hroot, hroot⟩
    · exact .inl (hg.keeps.scope_eq m hm hroot)
  · left
    have hle := not_lt.1 hm
    rw [(Copying.between extra w w').scope_of_le hle, Scopes.get_of_le hle, Scopes.get_of_le]
    exact hg.next_scopes ▸ Nat.add_le_add_right hle _

namespace Orderly

variable {S : Stmt → Prop} {strict : Prop} {n : ScopeId} {t : TypeId}

theorem binding_eq (h : w.Orderly S strict) {κ : Copying} (hκ : κ.types = w.types.next) :
    ∀ e ∈ (w.scopes.get n).vars, κ.binding e.2 = e.2 := by
  rintro ⟨x, type | v⟩ he
  · rfl
  · exact congrArg Binding.value (hκ ▸ (h.vars n _ he v rfl).below).value_eq

theorem descriptor_eq (h : w.Orderly S strict) {κ : Copying} (hscopes : κ.scopes = w.scopes.next)
    (htypes : κ.types = w.types.next) (ht : t < w.types.next) :
    κ.descriptor (w.types.get t) = w.types.get t := by
  have hparents : (κ.descriptor (w.types.get t)).parents = (w.types.get t).parents :=
    Renaming.map_eq_self fun q hq => κ.type_of_lt (htypes ▸ (h.parents t q hq).trans ht)
  have hattributes : (κ.descriptor (w.types.get t)).attributes = (w.types.get t).attributes := by
    refine Table.map_eq_self ?_
    rintro ⟨x, ⟨type, _ | v⟩⟩ he
    · rfl
    · exact congrArg (fun v => Attribute.mk type (some v))
        (htypes ▸ (h.defaults t _ he v rfl).below).value_eq
  have hmethods : (κ.descriptor (w.types.get t)).methods = (w.types.get t).methods :=
    Table.map_eq_self fun e he => (hscopes ▸ h.methodScopes t e he).overload_eq
  change Descriptor.mk _ _ (κ.descriptor (w.types.get t)).parents
    (κ.descriptor (w.types.get t)).attributes (κ.descriptor (w.types.get t)).methods = _
  rw [hparents, hattributes, hmethods]

theorem copiesTypes (h : w.Orderly S strict) (hg : w.Gains extra w') :
    (Copying.between extra w w').CopiesTypes w.types w'.types := by
  refine ⟨le_refl _, hg.next_types, fun t => ?_⟩
  by_cases ht : t < w.types.next
  · rw [(Copying.between extra w w').type_of_lt ht, h.descriptor_eq rfl rfl ht]
    exact hg.keeps.type_eq t ht
  · have hle := not_lt.1 ht
    rw [(Copying.between extra w w').type_of_le hle, Types.get_of_le hle, Types.get_of_le]
    · rfl
    · exact hg.next_types ▸ Nat.add_le_add_right hle _

theorem copiesScopes (h : w.Orderly S strict) (hg : w.Gains extra w') :
    (Copying.between extra w w').CopiesScopes w.scopes w'.scopes := by
  have htable {ι : Type} [DecidableEq ι] {α : Type} {table : Scope → Table ι α} {names : ι → Prop}
      {f : α → α} (hf : ∀ m, ∀ e ∈ table (w.scopes.get m), f e.2 = e.2)
      (hroot : ∀ key, EntryCopied (names key) id ((table (w.scopes.get 0)).find? key)
        ((table (w'.scopes.get 0)).find? key)) :
      (Copying.between extra w w').CopiesTable table names f w.scopes w'.scopes := by
    intro m key
    obtain heq | ⟨rfl, heq⟩ := hg.get_scope m
    · rw [heq]
      exact .of_id (.inl (by rw [Option.map_id, id])) (hf m)
    · rw [heq]
      exact (EntryCopied.of_id (hroot key) (hf 0)).imp id (And.imp_right fun hx => ⟨rfl, hx⟩)
  have henclosing (m : ScopeId) :
      (w'.scopes.get ((Copying.between extra w w').scope m)).enclosing =
        (w.scopes.get m).enclosing := by
    obtain heq | ⟨rfl, heq⟩ := hg.get_scope m
    · rw [heq]
    · rw [heq, hg.enclosing]
  refine ⟨le_refl _, hg.next_scopes, fun m => ?_, htable (fun m => h.binding_eq rfl) hg.vars,
    htable (fun m e he => Renaming.type_of_lt (h.types m e he).1) hg.types,
    htable (fun m e he => (h.functionScopes m e he).overload_eq) hg.functions⟩
  rw [henclosing, Renaming.map_eq_self]
  intro k hk
  by_cases hm : m < w.scopes.next
  · exact Renaming.scope_of_lt ((h.nested.lt_of_mem_enclosing hk).trans hm)
  · -- a scope that does not exist stands in no other
    rw [Scopes.get_of_le (not_lt.1 hm)] at hk
    cases hk

/-- **A world that has gained something is a copy of the world that it was.** -/
theorem copies (h : w.Orderly (Stmt.Avoids extra.types) strict) (hg : w.Gains extra w')
    (hapart : ∀ n, ∀ e ∈ (w.scopes.get n).functions, ¬extra.types e.1.name) :
    (Copying.between extra w w').Copies w w' where
  scopes := h.copiesScopes hg
  types := h.copiesTypes hg
  settled := h.toSettled
  apart := hapart
  output := ⟨"", (Output.append_empty _).symm, (Output.append_empty _).symm⟩

/-- **What can be seen of a run before and after something was gained.** -/
theorem seen (h : w.Orderly (Stmt.Avoids extra.types) strict)
    (hg : w.Gains extra w') (hapart : ∀ n, ∀ e ∈ (w.scopes.get n).functions, ¬extra.types e.1.name)
    {m : Run α} {f : Renaming → α → α} {view : Types → α → ν}
    (hfollows : m.Follows (.between extra w w') (f (Copying.between extra w w').toRenaming) m)
    (hview : ∀ ρ ts ts', ρ.CopiesTypes ts ts' → ∀ a, view ts' (f ρ a) = view ts a) :
    (∃ e w₁, m w = some (.error e, w₁) ∧ extra.Missing e.cause) ∨
    (m w = none ∧ m w' = none) ∨
    ∃ o text, m.seen view w = some (o, w.output.append text) ∧
      m.seen view w' = some (o, w'.output.append text) :=
  (hfollows w w' (h.copies hg hapart)).seen (hview _)

end Orderly

end World

end Nominal
