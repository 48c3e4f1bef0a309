import Nominal.Proofs.Leftovers
import Nominal.Proofs.Orderly

/-!
# Outlines of scopes

What a check and an execution both know of a scope: the names of its variables, what its types look
like by name, and what its functions return.

* `Outline`: what is known of a scope by name; `Outline.declare`: what a statement adds to it.
* `World.OwnNames`: all visible types are visible under their own names.
* `World.DeclaresIn`: what declarations in one scope leave as it was.
* `World.Outlined`: a world that some declarations lead to.
* **`World.OwnNames.declares`**: types stay visible under their own names.
* **`World.Outlined.declareVariable`**, **`World.Outlined.defineType`** and their like: one more
  declaration.
* **`World.Outlined.same`**: scopes with the same outline have the same declarations.
-/

namespace Nominal

/-! ## Outlines -/

/-- A type, as both passes know it. -/
structure TypeOutline where
  name : String
  primitive : Bool
  interface : Interface

/-- A type by name. -/
def Types.outline (ts : Types) (t : TypeId) : TypeOutline :=
  ⟨ts.name t, (ts.get t).primitive, ts.interface (ts.get t)⟩

/-- The type that a definition declares. -/
def TypeDef.outline (d : TypeDef) : TypeOutline := ⟨d.name, false, d.interface⟩

/-- A scope, as both passes know it. -/
structure Outline where
  vars : String → Bool
  /-- The type of a name, and what is known of it if it is a new one. -/
  types : String → Option (Option TypeOutline)
  functions : Signature → Option String

/-- The outline of a scope after a statement that declares something in it. -/
def Outline.declare (o : Outline) : Stmt → Outline
  | .declareVar _ name _ _ => { o with vars := fun x => if name = x then true else o.vars x }
  | .defineFunc _ d =>
    { o with functions := fun s => if d.signature = s then some d.returnType else o.functions s }
  | .defineType _ d =>
    { o with types := fun x => if d.name = x then some (some d.outline) else o.types x }
  | _ => o

/-- The name of what a statement declares is one of the given names. -/
def Names.Cover (names : Names) : Stmt → Prop
  | .declareVar _ name _ _ => names.vars name
  | .defineFunc _ d => names.functions d.signature
  | .defineType _ d => names.types d.name
  | _ => True

theorem Names.ofBlock_cover {body : Block} {s : Stmt} (hs : s ∈ body) :
    (Names.ofBlock body).Cover s := by
  cases s with
  | declareVar p name type init => exact ⟨p, type, init, hs⟩
  | defineFunc p d => exact ⟨d, List.mem_filterMap.2 ⟨_, hs, rfl⟩, rfl⟩
  | defineType p d => exact ⟨d, List.mem_filterMap.2 ⟨_, hs, rfl⟩, rfl⟩
  | expr | ifElse | whileLoop | returns | breakLoop | continueLoop => trivial

/-- The outline of a scope, in which types from a number on count as new. -/
def World.outline (w : World) (old : TypeId) (n : ScopeId) : Outline where
  vars x := ((w.scopes.get n).vars.find? x).isSome
  types x := ((w.scopes.get n).types.find? x).map fun t =>
    if t < old then none else some (w.types.outline t)
  functions s := ((w.scopes.get n).functions.find? s).map Overload.ret

/-! ## Types under their own names -/

/-- All types that are visible from a scope are visible under their own names. -/
def World.OwnNames (w : World) (n : ScopeId) : Prop :=
  ∀ name t, w.scopes.lookupType n name = some t → t < w.types.next ∧ w.types.name t = name

/-- In worlds that programs reach types are visible under their own names. -/
theorem World.Settled.ownNames {S : Stmt → Prop} {w : World} (h : w.Settled S) (n : ScopeId) :
    w.OwnNames n :=
  fun _ _ ht => h.findType (Scopes.findType_eq_ok_iff.2 ht)

/-- A type that is new in the world `w`, under its own name. -/
structure World.NewType (old : TypeId) (w : World) (name : String) (t : TypeId) : Prop where
  le : old ≤ t
  lt : t < w.types.next
  name : w.types.name t = name
  parents_lt : ∀ q ∈ (w.types.get t).parents, q < w.types.next

/-- Nothing old has changed but scope `n`. Its entries for other names than the given ones are as
they were, and its other types are new ones under their own names. -/
structure World.DeclaresIn (names : Names) (n : ScopeId) (w w' : World) : Prop where
  keeps : w.Keeps {n} w'
  alters : (w.scopes.get n).AltersFor names (w'.scopes.get n)
  types : ∀ x, (w'.scopes.get n).types.find? x = (w.scopes.get n).types.find? x ∨
    ∃ t, (w'.scopes.get n).types.find? x = some t ∧ w'.NewType w.types.next x t

theorem World.NewType.keeps {old : TypeId} {w w' : World} {D : Set ScopeId} {name : String}
    {t : TypeId} (h : w.NewType old name t) (hk : w.Keeps D w') : w'.NewType old name t where
  le := h.le
  lt := lt_of_lt_of_le h.lt hk.types_le
  name := by
    rw [Types.name, hk.type_eq t h.lt]
    exact h.name
  parents_lt q hq := by
    rw [hk.type_eq t h.lt] at hq
    exact lt_of_lt_of_le (h.parents_lt q hq) hk.types_le

theorem findSome?_of_new {α β : Type} {f g : α → Option β} {P : β → Prop} {l : List α}
    (h : ∀ a ∈ l, g a = f a ∨ ∃ b, g a = some b ∧ P b) {b : β} (hb : l.findSome? g = some b) :
    l.findSome? f = some b ∨ P b := by
  induction l with
  | nil => cases hb
  | cons a l ih =>
    obtain ⟨ha, hl⟩ := List.forall_mem_cons.1 h
    rw [List.findSome?_cons] at hb ⊢
    obtain ha | ⟨c, hc, hP⟩ := ha
    · rw [ha] at hb
      cases hf : f a with
      | some c =>
        rw [hf] at hb
        exact .inl hb
      | none =>
        rw [hf] at hb
        exact ih hl hb
    · rw [hc] at hb
      cases hb
      exact .inr hP

namespace World

variable {names : Names} {w w' : World} {n m : ScopeId}

/-- **Types are visible under their own names as before.** -/
theorem OwnNames.declares (h : w.OwnNames m) (hnested : w.scopes.Nested) (hm : m < w.scopes.next)
    (hd : w.DeclaresIn names n w') : w'.OwnNames m := by
  intro x t ht
  have hpath : w'.scopes.path m = w.scopes.path m := by
    rw [Scopes.path, Scopes.path]
    by_cases hmn : m = n
    · rw [hmn, hd.alters.enclosing]
    · rw [hd.keeps.scope_eq m hm hmn]
  have hnew : ∀ k ∈ w.scopes.path m,
      (w'.scopes.get k).types.find? x = (w.scopes.get k).types.find? x ∨
        ∃ t, (w'.scopes.get k).types.find? x = some t ∧ w'.NewType w.types.next x t := by
    intro k hk
    by_cases hkn : k = n
    · exact hkn ▸ hd.types x
    · have hlt := lt_of_le_of_lt (hnested.le_of_mem_path m k hk) hm
      rw [hd.keeps.scope_eq k hlt hkn]
      exact .inl rfl
  unfold Scopes.lookupType Scopes.lookup at ht
  rw [hpath] at ht
  obtain hold | hnew := findSome?_of_new hnew ht
  · obtain ⟨hlt, hname⟩ := h x t hold
    refine ⟨lt_of_lt_of_le hlt hd.keeps.types_le, ?_⟩
    rw [Types.name, hd.keeps.type_eq t hlt]
    exact hname
  · exact ⟨hnew.lt, hnew.name⟩

theorem DeclaresIn.of_old (h : w.DeclaresIn names n w') {x : String} {t : TypeId}
    (ht : (w'.scopes.get n).types.find? x = some t) (hold : t < w.types.next) :
    (w.scopes.get n).types.find? x = some t := by
  obtain heq | ⟨u, hu, hnew⟩ := h.types x
  · exact heq.symm.trans ht
  · obtain rfl : u = t := Option.some.inj (hu.symm.trans ht)
    exact absurd hnew.le (Nat.not_le.2 hold)

theorem OwnNames.of_findType (h : w.OwnNames n) {name : String} {t : TypeId}
    (ht : w.scopes.findType n name = .ok t) : t < w.types.next ∧ w.types.name t = name :=
  h name t (Scopes.findType_eq_ok_iff.1 ht)

theorem OwnNames.namesTypesFrom (h : w.OwnNames n) : w.NamesTypesFrom n :=
  fun _ _ ht => (h.of_findType ht).2

theorem OwnNames.of_found (h : w.OwnNames n) {names : List String} {ts : List TypeId}
    (hall : List.Forall₂ (fun name t => w.scopes.findType n name = .ok t) names ts) :
    ts.map w.types.name = names ∧ ∀ t ∈ ts, t < w.types.next := by
  induction hall with
  | nil => exact ⟨rfl, fun _ ht => by cases ht⟩
  | cons ht _ ih =>
    obtain ⟨hlt, hname⟩ := h.of_findType ht
    rw [List.map_cons, hname, ih.1]
    exact ⟨rfl, List.forall_mem_cons.2 ⟨hlt, ih.2⟩⟩

theorem OwnNames.of_find? (h : w.OwnNames n) {x : String} {t : TypeId}
    (ht : (w.scopes.get n).types.find? x = some t) : t < w.types.next ∧ w.types.name t = x := by
  refine h x t ?_
  rw [Scopes.lookupType, Scopes.lookup_eq, ht]
  rfl

theorem Keeps.of_get_eq (hk : w.Keeps {n} w') (hget : w'.scopes.get n = w.scopes.get n) :
    w.Keeps ∅ w' where
  scopes_le := hk.scopes_le
  scope_eq m hm _ := by
    by_cases hmn : m = n
    · exact hmn ▸ hget
    · exact hk.scope_eq m hm hmn
  types_le := hk.types_le
  type_eq := hk.type_eq

theorem Keeps.outline_eq {D : Set ScopeId} (hk : w.Keeps D w') {t : TypeId}
    (ht : t < w.types.next) (hparents : ∀ q ∈ (w.types.get t).parents, q < w.types.next) :
    w'.types.outline t = w.types.outline t := by
  have hnames : (w.types.get t).parents.map w'.types.name =
      (w.types.get t).parents.map w.types.name :=
    List.map_congr_left fun q hq => congrArg Descriptor.name (hk.type_eq q (hparents q hq))
  rw [Types.outline, Types.outline, Types.name, Types.name, Types.interface, Types.interface,
    hk.type_eq t ht, hnames]

/-! ### What one declaration adds -/

theorem outline_declareVariable (hn : n < w.scopes.next) (old : TypeId) (p : Option Position)
    (name type : String) (init : Option Expr) (b : Binding) :
    (w.declareVariable n name b).outline old n =
      (w.outline old n).declare (.declareVar p name type init) := by
  have hvars (x : String) : (((w.scopes.get n).vars.insert name b).find? x).isSome =
      if name = x then true else ((w.scopes.get n).vars.find? x).isSome := by
    rw [Table.find?_insert]
    split <;> rfl
  rw [outline, declareVariable, Scopes.declareVariable, Scopes.get_modify, if_pos ⟨rfl, hn⟩,
    funext hvars]
  rfl

theorem outline_declareFunction (hn : n < w.scopes.next) (old : TypeId) (p : Option Position)
    {d : FuncDef} {f : Overload} (hf : f.ret = d.returnType) :
    (w.declareFunction n d.signature f).outline old n =
      (w.outline old n).declare (.defineFunc p d) := by
  have hfunctions (s : Signature) :
      (((w.scopes.get n).functions.insert d.signature f).find? s).map Overload.ret =
        if d.signature = s then some d.returnType
        else ((w.scopes.get n).functions.find? s).map Overload.ret := by
    rw [Table.find?_insert]
    split
    · exact congrArg some hf
    · rfl
  rw [outline, declareFunction, Scopes.declareFunction, Scopes.get_modify, if_pos ⟨rfl, hn⟩,
    funext hfunctions]
  rfl

theorem outline_declareType (hn : n < w.scopes.next) {old : TypeId} (p : Option Position)
    {d : TypeDef} {t : TypeId} (hold : old ≤ t) (ht : w.types.outline t = d.outline) :
    (w.declareType n d.name t).outline old n =
      (w.outline old n).declare (.defineType p d) := by
  have htypes (x : String) : (((w.scopes.get n).types.insert d.name t).find? x).map (fun t =>
        if t < old then none else some (w.types.outline t)) =
      if d.name = x then some (some d.outline) else (w.outline old n).types x := by
    rw [Table.find?_insert]
    split
    · rw [Option.map_some, if_neg (Nat.not_lt.2 hold), ht]
    · rfl
  rw [outline, declareType, Scopes.declareType, Scopes.get_modify, if_pos ⟨rfl, hn⟩]
  exact congrArg (Outline.mk _ · _) (funext htypes)

theorem newType_addType (w : World) {e : Descriptor}
    (hparents : ∀ q ∈ e.parents, q < w.types.next) :
    (w.addType e).NewType w.types.next e.name w.types.next ∧
      (w.addType e).types.outline w.types.next =
        ⟨e.name, e.primitive, w.types.interface e⟩ := by
  have hget : (w.addType e).types.get w.types.next = e := by
    rw [addType, Types.get_add, if_pos rfl]
  have hlt : w.types.next < (w.addType e).types.next := by
    rw [addType, Types.next_add]
    exact Nat.lt_succ_self _
  have hnames : e.parents.map (w.addType e).types.name = e.parents.map w.types.name := by
    refine List.map_congr_left fun q hq => congrArg Descriptor.name ?_
    rw [addType, Types.get_add, if_neg (Nat.ne_of_lt (hparents q hq))]
  refine ⟨⟨le_refl _, hlt, congrArg Descriptor.name hget, fun q hq => ?_⟩, ?_⟩
  · rw [hget] at hq
    exact lt_trans (hparents q hq) hlt
  · rw [Types.outline, Types.name, Types.interface, hget, hnames]
    rfl

end World

/-! ## Worlds that declarations lead to -/

/-- The world `w'` comes from `w` by declarations in scope `n` after which the scope has the given
outline. -/
structure World.Outlined (names : Names) (n : ScopeId) (o : Outline) (w w' : World) : Prop where
  declares : w.DeclaresIn names n w'
  outline : w'.outline w.types.next n = o

namespace World.Outlined

variable {names : Names} {w w₁ w' : World} {n : ScopeId} {o : Outline}

theorem refl (names : Names) (n : ScopeId) (w : World) :
    w.Outlined names n (w.outline w.types.next n) w :=
  ⟨⟨.refl w, .refl names _, fun _ => .inl rfl⟩, rfl⟩

variable (h : w.Outlined names n o w₁)

include h

/-- Entries that were there or are new have what is known of them kept. -/
theorem types_eq {D : Set ScopeId} (hown : w.OwnNames n) (hk : w₁.Keeps D w') (x : String) :
    (((w₁.scopes.get n).types.find? x).map fun t =>
        if t < w.types.next then none else some (w'.types.outline t)) =
      (w₁.outline w.types.next n).types x := by
  change _ = ((w₁.scopes.get n).types.find? x).map _
  cases hfind : (w₁.scopes.get n).types.find? x with
  | none => rfl
  | some t =>
    refine congrArg some ?_
    dsimp only
    obtain hold | ⟨t', ht', hnew⟩ := h.declares.types x
    · rw [if_pos (hown.of_find? (hold.symm.trans hfind)).1,
        if_pos (hown.of_find? (hold.symm.trans hfind)).1]
    · obtain rfl : t' = t := Option.some.inj (ht'.symm.trans hfind)
      rw [hk.outline_eq hnew.lt hnew.parents_lt]

theorem keeps (hn : n < w.scopes.next) (hown : w.OwnNames n) (hk : w₁.Keeps ∅ w') :
    w.Outlined names n o w' := by
  have hget := hk.get_eq (lt_of_lt_of_le hn h.declares.keeps.scopes_le)
  refine ⟨⟨h.declares.keeps.trans hk.of_empty, hget ▸ h.declares.alters, fun x => ?_⟩, ?_⟩
  · rw [hget]
    exact (h.declares.types x).imp_right fun ⟨t, ht, hnew⟩ => ⟨t, ht, hnew.keeps hk⟩
  · rw [← h.outline, World.outline, hget, funext (h.types_eq hown hk)]
    rfl

theorem step (hk : w₁.Keeps {n} w')
    (halters : (w₁.scopes.get n).AltersFor names (w'.scopes.get n))
    (htypes : ∀ x, (w'.scopes.get n).types.find? x = (w₁.scopes.get n).types.find? x ∨
      ∃ t, (w'.scopes.get n).types.find? x = some t ∧ w'.NewType w.types.next x t) :
    w.DeclaresIn names n w' where
  keeps := h.declares.keeps.trans hk
  alters := h.declares.alters.trans halters
  types x := by
    obtain hold | hnew := htypes x
    · rw [hold]
      exact (h.declares.types x).imp_right fun ⟨t, ht, hnew⟩ => ⟨t, ht, hnew.keeps hk⟩
    · exact .inr hnew

variable (hn : n < w.scopes.next)

include hn

theorem declareVariable {name : String} (hname : names.vars name) (p : Option Position)
    (type : String) (init : Option Expr) (b : Binding) :
    w.Outlined names n (o.declare (.declareVar p name type init))
      (w₁.declareVariable n name b) := by
  have hn₁ := lt_of_lt_of_le hn h.declares.keeps.scopes_le
  refine ⟨h.step (.declareVariable w₁ n name b) (.declareVariable hn₁ hname b)
    fun x => .inl ?_, ?_⟩
  · rw [World.declareVariable, Scopes.declareVariable, Scopes.get_modify, if_pos ⟨rfl, hn₁⟩]
  · rw [World.outline_declareVariable hn₁ _ p name type init, h.outline]

theorem declareFunction {d : FuncDef} (hd : names.functions d.signature) (p : Option Position)
    {f : Overload} (hf : f.ret = d.returnType) :
    w.Outlined names n (o.declare (.defineFunc p d)) (w₁.declareFunction n d.signature f) := by
  have hn₁ := lt_of_lt_of_le hn h.declares.keeps.scopes_le
  refine ⟨h.step (.declareFunction w₁ n d.signature f) (.declareFunction hn₁ hd f)
    fun x => .inl ?_, ?_⟩
  · rw [World.declareFunction, Scopes.declareFunction, Scopes.get_modify, if_pos ⟨rfl, hn₁⟩]
  · rw [World.outline_declareFunction hn₁ _ p hf, h.outline]

theorem defineType (hown : w.OwnNames n) {d : TypeDef} (hd : names.types d.name)
    (p : Option Position) {e : Descriptor} (hparents : ∀ q ∈ e.parents, q < w₁.types.next)
    (he : (⟨e.name, e.primitive, w₁.types.interface e⟩ : TypeOutline) = d.outline) :
    w.Outlined names n (o.declare (.defineType p d))
      ((w₁.addType e).declareType n d.name w₁.types.next) := by
  obtain ⟨hnew, houtline⟩ := w₁.newType_addType hparents
  have hname : e.name = d.name := congrArg TypeOutline.name he
  have h₂ : w.Outlined names n o (w₁.addType e) := h.keeps hn hown (.addType w₁ e)
  have hn₂ := lt_of_lt_of_le hn h₂.declares.keeps.scopes_le
  have hold := h.declares.keeps.types_le
  refine ⟨h₂.step (.declareType _ n d.name _) (.declareType hn₂ hd _) fun x => ?_, ?_⟩
  · rw [World.declareType, Scopes.declareType, Scopes.get_modify, if_pos ⟨rfl, hn₂⟩,
      Table.find?_insert]
    split
    · next hx =>
      exact .inr ⟨_, rfl, hold, hnew.lt, hnew.name.trans (hname.trans hx), hnew.parents_lt⟩
    · exact .inl rfl
  · rw [World.outline_declareType hn₂ p hold (houtline.trans he), h₂.outline]

end World.Outlined

/-! ## Outlines and tables -/

/-- All names of one outline are names of another one. -/
structure Outline.Within (o o' : Outline) : Prop where
  vars : ∀ x, o.vars x → o'.vars x
  types : ∀ x, (o.types x).isSome → (o'.types x).isSome
  functions : ∀ s, (o.functions s).isSome → (o'.functions s).isSome

theorem Outline.Within.of_eq {o o' : Outline} (h : o = o') : o.Within o' := by
  subst h
  exact ⟨fun _ hx => hx, fun _ hx => hx, fun _ hs => hs⟩

theorem Outline.Within.trans {o o₁ o' : Outline} (h : o.Within o₁) (h' : o₁.Within o') :
    o.Within o' where
  vars x hx := h'.vars x (h.vars x hx)
  types x hx := h'.types x (h.types x hx)
  functions s hs := h'.functions s (h.functions s hs)

theorem Outline.within_declare (o : Outline) (s : Stmt) : o.Within (o.declare s) := by
  cases s with
  | declareVar p name type init =>
    refine ⟨fun x hx => ?_, fun _ hx => hx, fun _ hs => hs⟩
    rw [Outline.declare]
    dsimp only
    split
    · rfl
    · exact hx
  | defineFunc p d =>
    refine ⟨fun _ hx => hx, fun _ hx => hx, fun s hs => ?_⟩
    rw [Outline.declare]
    dsimp only
    split
    · rfl
    · exact hs
  | defineType p d =>
    refine ⟨fun _ hx => hx, fun x hx => ?_, fun _ hs => hs⟩
    rw [Outline.declare]
    dsimp only
    split
    · rfl
    · exact hx
  | expr | ifElse | whileLoop | returns | breakLoop | continueLoop =>
    exact .of_eq rfl

/-- Later declarations remove no names. -/
theorem Outline.within_foldl (o : Outline) (body : List Stmt) :
    o.Within (body.foldl declare o) := by
  induction body generalizing o with
  | nil => exact .of_eq rfl
  | cons s rest ih => exact (o.within_declare s).trans (ih (o.declare s))

namespace World

/-- All names in scope `n` of one world are names in scope `n` of another one. -/
structure DeclaresWithin (n : ScopeId) (e c : World) : Prop where
  vars : (e.scopes.get n).vars.keys ⊆ (c.scopes.get n).vars.keys
  types : (e.scopes.get n).types.keys ⊆ (c.scopes.get n).types.keys
  functions : (e.scopes.get n).functions.keys ⊆ (c.scopes.get n).functions.keys

/-- Scope `n` has the same declarations in two worlds, in which types from a number on are new. -/
structure DeclaresSame (old : TypeId) (n : ScopeId) (c e : World) : Prop where
  vars : ∀ x, x ∈ (c.scopes.get n).vars.keys ↔ x ∈ (e.scopes.get n).vars.keys
  types : ∀ x, x ∈ (c.scopes.get n).types.keys ↔ x ∈ (e.scopes.get n).types.keys
  functions : ∀ s, ((c.scopes.get n).functions.find? s).map Overload.ret =
    ((e.scopes.get n).functions.find? s).map Overload.ret
  /-- A type is the same old one, or else both are new and known by the same outline. -/
  bound : ∀ x t u, (c.scopes.get n).types.find? x = some t →
    (e.scopes.get n).types.find? x = some u →
      (t < old ∧ u = t) ∨ (old ≤ t ∧ old ≤ u ∧ c.types.outline t = e.types.outline u)

theorem isSome_outline_types (w : World) (old : TypeId) (n : ScopeId) (x : String) :
    ((w.outline old n).types x).isSome ↔ x ∈ (w.scopes.get n).types.keys := by
  rw [outline, Option.isSome_map, Table.mem_keys_iff]

theorem isSome_outline_functions (w : World) (old : TypeId) (n : ScopeId) (s : Signature) :
    ((w.outline old n).functions s).isSome ↔ s ∈ (w.scopes.get n).functions.keys := by
  rw [outline, Option.isSome_map, Table.mem_keys_iff]

variable {n : ScopeId} {w : World} {o : Outline}

theorem DeclaresWithin.of_outlines (old : TypeId) {c e : World}
    (h : (e.outline old n).Within (c.outline old n)) : e.DeclaresWithin n c where
  vars x hx := (Table.mem_keys_iff _ x).2 (h.vars x ((Table.mem_keys_iff _ x).1 hx))
  types x hx :=
    (c.isSome_outline_types old n x).1 (h.types x ((e.isSome_outline_types old n x).2 hx))
  functions s hs :=
    (c.isSome_outline_functions old n s).1
      (h.functions s ((e.isSome_outline_functions old n s).2 hs))

/-- Scopes with the same outline have the same declarations. -/
theorem Outlined.same {names names' : Names} {c e : World} (hc : w.Outlined names n o c)
    (he : w.Outlined names' n o e) : c.DeclaresSame w.types.next n e := by
  have heq : c.outline w.types.next n = e.outline w.types.next n :=
    hc.outline.trans he.outline.symm
  have hce : c.DeclaresWithin n e := .of_outlines _ (.of_eq heq)
  have hec : e.DeclaresWithin n c := .of_outlines _ (.of_eq heq.symm)
  refine ⟨fun x => ⟨@hce.vars x, @hec.vars x⟩, fun x => ⟨@hce.types x, @hec.types x⟩,
    congrFun (congrArg Outline.functions heq), fun x t u ht hu => ?_⟩
  have htypes : (if t < w.types.next then none else some (c.types.outline t)) =
      if u < w.types.next then none else some (e.types.outline u) := by
    have hx := congrFun (congrArg Outline.types heq) x
    simp only [World.outline, ht, hu, Option.map_some] at hx
    exact Option.some.inj hx
  by_cases htold : t < w.types.next
  · rw [if_pos htold] at htypes
    split at htypes
    · next huold =>
      have htw := hc.declares.of_old ht htold
      have huw := he.declares.of_old hu huold
      exact .inl ⟨htold, Option.some.inj (huw.symm.trans htw)⟩
    · cases htypes
  · rw [if_neg htold] at htypes
    split at htypes
    · cases htypes
    · next huold =>
      exact .inr ⟨Nat.le_of_not_lt htold, Nat.le_of_not_lt huold, Option.some.inj htypes⟩

end World

end Nominal
