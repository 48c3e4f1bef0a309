import Nominal.Proofs.Checked
import Nominal.Proofs.Coherence

/-!
# What the check leaves behind

The check declares what the program declares, and leaves it in the scope that it was made in.
Entries of other names in this scope stay as they were.

* `Scope.AltersFor`: two scopes differ only in their entries for some names.
* **`Stmt.check_alters`**: the check of a statement.
* **`checkBlock_alters`**: the check of a block.
-/

namespace Nominal

variable {names : Names} {w w' : World} {n : ScopeId}

/-- A scope before and after declarations of some names: the entries for all other names are as they
were. -/
structure Scope.AltersFor (names : Names) (before after : Scope) : Prop where
  enclosing : after.enclosing = before.enclosing
  vars : ∀ x, ¬names.vars x → after.vars.find? x = before.vars.find? x
  types : ∀ x, ¬names.types x → after.types.find? x = before.types.find? x
  functions : ∀ s, ¬names.functions s → after.functions.find? s = before.functions.find? s

namespace Scope.AltersFor

variable {c c₁ c' : Scope}

theorem refl (names : Names) (c : Scope) : c.AltersFor names c :=
  ⟨rfl, fun _ _ => rfl, fun _ _ => rfl, fun _ _ => rfl⟩

theorem of_eq (h : c' = c) : c.AltersFor names c' := h ▸ .refl names c

theorem trans (h : c.AltersFor names c₁) (h' : c₁.AltersFor names c') : c.AltersFor names c' where
  enclosing := h'.enclosing.trans h.enclosing
  vars x hx := (h'.vars x hx).trans (h.vars x hx)
  types x hx := (h'.types x hx).trans (h.types x hx)
  functions s hs := (h'.functions s hs).trans (h.functions s hs)

/-! ### Declarations -/

theorem declareVariable (hn : n < w.scopes.next) {name : String} (hname : names.vars name)
    (b : Binding) :
    (w.scopes.get n).AltersFor names ((w.declareVariable n name b).scopes.get n) := by
  rw [World.declareVariable, Scopes.declareVariable, Scopes.get_modify, if_pos ⟨rfl, hn⟩]
  refine ⟨rfl, fun x hx => Table.find?_insert_of_ne _ ?_ _, fun _ _ => rfl, fun _ _ => rfl⟩
  rintro rfl
  exact hx hname

theorem declareFunction (hn : n < w.scopes.next) {s : Signature} (hs : names.functions s)
    (o : Overload) :
    (w.scopes.get n).AltersFor names ((w.declareFunction n s o).scopes.get n) := by
  rw [World.declareFunction, Scopes.declareFunction, Scopes.get_modify, if_pos ⟨rfl, hn⟩]
  refine ⟨rfl, fun _ _ => rfl, fun _ _ => rfl, fun f hf => Table.find?_insert_of_ne _ ?_ _⟩
  rintro rfl
  exact hf hs

theorem declareType (hn : n < w.scopes.next) {name : String} (hname : names.types name)
    (t : TypeId) :
    (w.scopes.get n).AltersFor names ((w.declareType n name t).scopes.get n) := by
  rw [World.declareType, Scopes.declareType, Scopes.get_modify, if_pos ⟨rfl, hn⟩]
  refine ⟨rfl, fun _ _ => rfl, fun x hx => Table.find?_insert_of_ne _ ?_ _, fun _ _ => rfl⟩
  rintro rfl
  exact hx hname

end Scope.AltersFor

/-- A statement declares nothing in its scope. -/
def Stmt.DeclaresNothing : Stmt → Prop
  | .declareVar .. | .defineFunc .. | .defineType .. => False
  | _ => True

/-- The check of a statement that declares nothing changes no scope. -/
theorem Stmt.check_still {s : Stmt} (hs : s.DeclaresNothing) (n : ScopeId) :
    (s.check n).Moves (World.Quiet ∅) := by
  unfold Stmt.check
  cases s with
  | expr p e => exact .orAt p (.bind (e.check_moves n).of_eq fun _ => .pure _)
  | declareVar | defineFunc | defineType => exact hs.elim
  | ifElse p branches default =>
    refine .orAt p (.bind (checkBranches_quiet branches n none) fun found => ?_)
    cases default with
    | none => exact .pure _
    | some body =>
      exact World.Quiet.framing.enter fun inner => .bind (checkBlock_quiet body inner none) fun _ =>
        .query _
  | whileLoop p condition body =>
    exact .orAt p (.bind (checkCondition_moves condition n).of_eq fun _ =>
      World.Quiet.framing.enter fun inner => checkBlock_quiet body inner none)
  | returns p value =>
    cases value with
    | none => exact .pure _
    | some e => exact .orAt p (.bind (e.check_moves n).of_eq fun _ => .pure _)
  | breakLoop | continueLoop => exact .pure _

theorem Stmt.check_alters {body : Block} (hw : w.NamesTypes) (hn : n < w.scopes.next) {s : Stmt}
    (hs : s ∈ body) {r : Option String} (h : s.check n w = (.ok r, w')) :
    (w.scopes.get n).AltersFor (.ofBlock body) (w'.scopes.get n) := by
  cases s with
  | expr | ifElse | whileLoop | returns | breakLoop | continueLoop =>
    exact .of_eq ((Stmt.check_still (by trivial) n _ _ _ h).get_eq hn)
  | declareVar p name type init =>
    unfold Stmt.check at h
    obtain ⟨declared, -, h₁⟩ := Effect.query_bind_eq_ok_iff.1 (Effect.orAt_eq_ok_iff.1 h)
    obtain ⟨_, -, h₂⟩ := (checkInit_moves _ _ _ _).bind_eq_ok_iff.1 h₁
    obtain ⟨_, w₁, hw₁, h₃⟩ := Effect.bind_eq_ok_iff.1 h₂
    obtain ⟨-, rfl⟩ := Effect.update_eq_iff.1 hw₁
    obtain ⟨-, rfl⟩ := Effect.pure_eq_ok_iff.1 h₃
    refine .declareVariable hn ?_ _
    exact ⟨p, type, init, hs⟩
  | defineFunc p d =>
    unfold Stmt.check at h
    obtain ⟨header, hheader, h₁⟩ :=
      (checkHeader_moves d n none).bind_eq_ok_iff.1 (Effect.orAt_eq_ok_iff.1 h)
    obtain rfl := checkHeader_eq (hw n) hheader
    obtain ⟨_, w₁, hw₁, h₂⟩ := Effect.bind_eq_ok_iff.1 h₁
    obtain ⟨-, rfl⟩ := Effect.update_eq_iff.1 hw₁
    obtain ⟨_, w₂, hbody, h₃⟩ := Effect.bind_eq_ok_iff.1 h₂
    obtain ⟨-, rfl⟩ := Effect.pure_eq_ok_iff.1 h₃
    rw [(d.checkBody_quiet n _ _ _ _ _ hbody).get_eq ((Scopes.next_modify ..).symm ▸ hn)]
    refine .declareFunction hn ?_ _
    exact ⟨d, List.mem_filterMap.2 ⟨_, hs, rfl⟩, rfl⟩
  | defineType p d =>
    unfold Stmt.check at h
    obtain ⟨_, w₁, hd, h₁⟩ := Effect.bind_eq_ok_iff.1 (Effect.orAt_eq_ok_iff.1 h)
    obtain ⟨-, rfl⟩ := Effect.pure_eq_ok_iff.1 h₁
    obtain ⟨name, parents, attributes, methods⟩ := d
    unfold TypeDef.check at hd
    obtain ⟨_, -, h₂⟩ := (checkParents_moves _ n).bind_eq_ok_iff.1 hd
    obtain ⟨_, -, h₃⟩ := (checkAttributes_moves _ _ _).bind_eq_ok_iff.1 h₂
    obtain ⟨⟨_, _⟩, -, h₄⟩ := (checkMethods_moves _ _ _ _).bind_eq_ok_iff.1 h₃
    obtain ⟨t, w₂, ht, h₅⟩ := Effect.bind_eq_ok_iff.1 h₄
    obtain ⟨rfl, rfl⟩ := Effect.ask_eq_ok_iff.1 ht
    obtain ⟨_, w₂, hadd, h₆⟩ := Effect.bind_eq_ok_iff.1 h₅
    obtain ⟨-, rfl⟩ := Effect.update_eq_iff.1 hadd
    obtain ⟨_, w₃, hdeclare, h₇⟩ := Effect.bind_eq_ok_iff.1 h₆
    obtain ⟨-, rfl⟩ := Effect.update_eq_iff.1 hdeclare
    rw [(checkBodies_quiet _ _ _ _ _ _ _ h₇).get_eq ((Scopes.next_modify ..).symm ▸ hn)]
    refine .declareType (w := w.addType _) hn ?_ _
    exact ⟨_, List.mem_filterMap.2 ⟨_, hs, rfl⟩, rfl⟩

/-- **The check of a block leaves behind what the block declares, and nothing else.** The property
`I` of the worlds on the way says that types are visible under their own names. -/
theorem checkBlock_alters {I : World → Prop} (hI : ∀ w, I w → w.NamesTypes) {program : Block}
    (hstep : ∀ s ∈ program, ∀ w r w', n < w.scopes.next → s.check n w = (.ok r, w') → I w → I w')
    (hw : I w) (hn : n < w.scopes.next) {body : List Stmt} (hbody : body ⊆ program)
    {found r : Option String} (h : checkBlock body n found w = (.ok r, w')) :
    (w.scopes.get n).AltersFor (.ofBlock program) (w'.scopes.get n) := by
  induction body generalizing w found with
  | nil =>
    unfold checkBlock at h
    obtain ⟨-, rfl⟩ := Effect.pure_eq_ok_iff.1 h
    exact .refl _ _
  | cons s rest ih =>
    unfold checkBlock at h
    obtain ⟨hs, hrest⟩ := List.cons_subset.1 hbody
    obtain ⟨type, w₁, hstmt, h₁⟩ := Effect.bind_eq_ok_iff.1 h
    obtain ⟨found₁, w₂, hmerge, h₂⟩ := Effect.bind_eq_ok_iff.1 h₁
    obtain ⟨-, rfl⟩ := Effect.query_eq_ok_iff.1 (Effect.orAt_eq_ok_iff.1 hmerge)
    have hn₁ := lt_of_lt_of_le hn (s.check_quiet n _ _ _ hstmt).scopes_le
    exact (s.check_alters (hI w hw) hn hs hstmt).trans
      (ih (hstep s hs w _ _ hn hstmt hw) hn₁ hrest h₂)

end Nominal
