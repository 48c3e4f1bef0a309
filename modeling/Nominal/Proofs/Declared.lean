import Nominal.Proofs.Outlines

/-!
# What both passes declare

The check and the execution of a block declare the same names in the scope of the block, in the same
order, if types are visible there under their own names. The check reads types off annotations and
takes the names of what it finds; the execution copies annotations. What stands in branches, loops
and bodies declares nothing there.

* `Effect.LeadsTo`: what holds after a step, and what if it fails.
* **`Stmt.check_outlined`**, **`execute_outlined`**: what one statement declares.
* **`checkBlock_outlined`**, **`runBlock_outlined`**: a block declares what its first statements
  declare, up to the one that it stops at.
* **`passes_declare_same`**: what a check and an execution of the same block leave behind.
-/

namespace Nominal

open Effect (ask query update findType)

/-! ## The check -/

/-- From the world `w` the step leads to a world with the property `Q`, or else it fails in a world
with the property `P`. -/
def Effect.LeadsTo {α : Type} (P Q : World → Prop) (m : Effect α) (w : World) : Prop :=
  ∀ r w', m w = (r, w') → Q w' ∨ (∃ e, r = .error e) ∧ P w'

namespace Effect.LeadsTo

variable {α β : Type} {P Q : World → Prop} {w : World} {m : Effect α}

theorem of_moves {R : World → World → Prop} (hm : m.Moves R) (hQ : ∀ w', R w w' → Q w') :
    m.LeadsTo P Q w :=
  fun r w' h => .inl (hQ w' (hm w r w' h))

theorem orAt (p : Option Position) (hm : m.LeadsTo P Q w) : (m.orAt p).LeadsTo P Q w := by
  intro r w' h
  cases r with
  | ok a => exact hm _ w' (Effect.orAt_eq_ok_iff.1 h)
  | error e =>
    obtain ⟨e₀, h₀, -⟩ := Effect.orAt_eq_error_iff.1 h
    exact (hm _ w' h₀).imp_right fun h => ⟨⟨e, rfl⟩, h.2⟩

theorem bind (hm : m.Moves Eq) {f : α → Effect β} (hw : P w)
    (hf : ∀ a, m w = (.ok a, w) → (f a).LeadsTo P Q w) : (m >>= f).LeadsTo P Q w := by
  intro r w' h
  obtain ⟨e, he, rfl⟩ | ⟨a, w₁, ha, hr⟩ := Effect.bind_eq_iff.1 h
  · obtain rfl := hm w _ w' he
    exact .inr ⟨⟨e, rfl⟩, hw⟩
  · obtain rfl := hm w _ w₁ ha
    exact hf a ha r w' hr

theorem update_bind {g : World → World} {f : Unit → Effect β} (hf : (f ()).LeadsTo P Q (g w)) :
    (update g >>= f).LeadsTo P Q w :=
  hf

theorem bind_pure (hm : m.LeadsTo P Q w) (b : β) : (m >>= fun _ => pure b).LeadsTo P Q w := by
  intro r w' h
  obtain ⟨e, he, rfl⟩ | ⟨a, w₁, ha, hr⟩ := Effect.bind_eq_iff.1 h
  · exact (hm _ w' he).imp_right fun h => ⟨⟨e, rfl⟩, h.2⟩
  · obtain h | ⟨⟨e, he⟩, -⟩ := hm _ w₁ ha
    · cases hr
      exact .inl h
    · cases he

end Effect.LeadsTo

open World (Outlined Keeps)

variable {names : Names} {n : ScopeId} {w w₁ w' : World} {o : Outline}

theorem TypeDef.check_outlined (hnested : w.scopes.Nested) (hn : n < w.scopes.next)
    (hown : w.OwnNames n) (h : w.Outlined names n o w₁) {p : Option Position}
    {d : TypeDef} (hd : names.types d.name) :
    (d.check n).LeadsTo (w.Outlined names n o)
      (w.Outlined names n (o.declare (.defineType p d))) w₁ := by
  have hown₁ : w₁.OwnNames n := hown.declares hnested hn h.declares
  have htypes := hown₁.namesTypesFrom
  obtain ⟨name, parents, attributes, methods⟩ := d
  unfold TypeDef.check
  refine .bind (checkParents_moves _ n) h fun parentTypes hparents => ?_
  refine .bind (checkAttributes_moves n attributes []) h fun attrs hattrs => ?_
  refine .bind (checkMethods_moves name n methods []) h fun (table, headers) hmethods => ?_
  obtain ⟨hnames, hlts⟩ := hown₁.of_found ((checkParents_found hparents).imp fun _ _ h => h.1)
  refine .bind (.ask _) h fun t ht => .update_bind (.update_bind ?_)
  obtain ⟨rfl, -⟩ := Effect.ask_eq_ok_iff.1 ht
  have hdefined := h.defineType hn hown hd p
    (e := ⟨name, false, parentTypes, attrs, table⟩) hlts (by
      rw [Types.interface, hnames, checkAttributes_types htypes hattrs,
        (checkMethods_ok htypes hmethods).1]
      rfl)
  exact .of_moves (checkBodies_quiet name methods headers n) fun w' hk =>
    hdefined.keeps hn hown hk.toKeeps

/-- What a statement declares when it is checked. Only a statement that fails may declare nothing
instead. -/
theorem Stmt.check_outlined (hnested : w.scopes.Nested) (hn : n < w.scopes.next)
    (hown : w.OwnNames n) (h : w.Outlined names n o w₁) {s : Stmt}
    (hs : names.Cover s) :
    (s.check n).LeadsTo (w.Outlined names n o)
      (w.Outlined names n (o.declare s)) w₁ := by
  have hown₁ : w₁.OwnNames n := hown.declares hnested hn h.declares
  have htypes := hown₁.namesTypesFrom
  cases s with
  | expr | ifElse | whileLoop | returns | breakLoop | continueLoop =>
    exact .of_moves (Stmt.check_still (by trivial) n) fun w' hk => h.keeps hn hown hk.toKeeps
  | declareVar p name type init =>
    unfold Stmt.check
    refine .orAt p (.bind (.query _) h fun declared _ => .bind (checkInit_moves _ _ _ _) h
      fun _ _ => .update_bind ?_)
    refine .of_moves (R := Eq) (.pure _) ?_
    rintro _ rfl
    exact h.declareVariable hn hs p type init _
  | defineFunc p d =>
    unfold Stmt.check
    refine .orAt p (.bind (checkHeader_moves d n none) h fun header hheader => .update_bind ?_)
    obtain rfl := checkHeader_eq htypes hheader
    have hd := h.declareFunction hn hs p (f := .ofFunction d n d.returnType) rfl
    exact .of_moves (.bind (d.checkBody_quiet n _ _) fun _ => .pure _) fun w' hk =>
      hd.keeps hn hown hk.toKeeps
  | defineType p d =>
    unfold Stmt.check
    exact .orAt p (.bind_pure (d.check_outlined hnested hn hown h hs) _)

/-- A check of a block declares what its first statements declare, and all of them if it
succeeds. -/
theorem checkBlock_outlined (hnested : w.scopes.Nested) (hn : n < w.scopes.next)
    (hown : w.OwnNames n) (h : w.Outlined names n o w₁) {body : List Stmt}
    (hbody : ∀ s ∈ body, names.Cover s) {found : Option String}
    {r : Except EvalError (Option String)} (hr : checkBlock body n found w₁ = (r, w')) :
    ∃ done, done <+: body ∧ (∀ type, r = .ok type → done = body) ∧
      w.Outlined names n (done.foldl Outline.declare o) w' := by
  induction body generalizing w₁ o found with
  | nil =>
    unfold checkBlock at hr
    cases hr
    exact ⟨[], List.prefix_rfl, fun _ _ => rfl, h⟩
  | cons s rest ih =>
    unfold checkBlock at hr
    obtain ⟨hs, hrest⟩ := List.forall_mem_cons.1 hbody
    have hstmt := s.check_outlined hnested hn hown h hs
    obtain ⟨e, he, rfl⟩ | ⟨type, w₂, htype, h₁⟩ := Effect.bind_eq_iff.1 hr
    · obtain h₂ | ⟨-, h₂⟩ := hstmt _ w' he
      · exact ⟨[s], List.prefix_append [s] rest, nofun, h₂⟩
      · exact ⟨[], List.nil_prefix, nofun, h₂⟩
    · have h₂ : w.Outlined names n (o.declare s) w₂ :=
        (hstmt _ w₂ htype).resolve_right (nomatch ·.1)
      have hmoves : (Effect.orAt s.position (query fun _ => mergeReturn found type)).Moves Eq :=
        .orAt _ (.query _)
      obtain ⟨e, he, rfl⟩ | ⟨found', w₃, hmerge, h₃⟩ := Effect.bind_eq_iff.1 h₁
      · obtain rfl := hmoves _ _ _ he
        exact ⟨[s], List.prefix_append [s] rest, nofun, h₂⟩
      · obtain rfl := hmoves _ _ _ hmerge
        obtain ⟨done, hdone, hall, hout⟩ := ih h₂ hrest h₃
        refine ⟨s :: done, List.cons_prefix_cons.2 ⟨rfl, hdone⟩, fun t ht => ?_, hout⟩
        rw [hall t ht]

/-! ## The execution -/

/-- Attributes have the types of the text, whatever their default values are. -/
theorem defaultAttributes_types {init : AttributeDef → Run Value} {attributes : List AttributeDef}
    {attrs attrs' : Table String Attribute}
    (hr : defaultAttributes init attributes attrs w = some (.ok attrs', w')) :
    attrs'.map (fun (x, a) => (x, a.type)) =
      attributeTypes attributes (attrs.map fun (x, a) => (x, a.type)) := by
  induction attributes generalizing attrs w with
  | nil =>
    cases hr
    rfl
  | cons a rest ih =>
    obtain ⟨_, -, he⟩ | ⟨v, w₁, -, h₁⟩ := Run.bind_eq_some_iff.1 hr
    · cases he
    · rw [ih h₁, Table.map_insert]
      rfl

theorem defineType_outlined {init : AttributeDef → Run Value}
    (hinit : ∀ a, (init a).Moves (Keeps ∅)) (hnested : w.scopes.Nested) (hn : n < w.scopes.next)
    (hown : w.OwnNames n) (h : w.Outlined names n o w₁) {p : Option Position}
    {d : TypeDef} (hd : names.types d.name)
    (hr : defineType init d n w₁ = some (.ok (), w')) :
    w.Outlined names n (o.declare (.defineType p d)) w' := by
  have hown₁ : w₁.OwnNames n := hown.declares hnested hn h.declares
  obtain ⟨_, -, he⟩ | ⟨parents, w₂, hparents, h₂⟩ := Run.bind_eq_some_iff.1 hr
  · cases he
  have hfind : Effect.each (findType n) d.parents w₁ = (.ok parents, w₂) :=
    Run.lift_eq_some_iff.1 hparents
  have hfound := Effect.Moves.of_each (fun _ => .query _) hfind
  obtain rfl := Effect.Moves.each (R := Eq) (fun _ => .query _) d.parents w₁ _ w₂ hfind
  obtain ⟨_, -, he⟩ | ⟨attrs, w₃, hattrs, h₃⟩ := Run.bind_eq_some_iff.1 h₂
  · cases he
  cases h₃
  have hk := defaultAttributes_moves hinit d.attributes [] w₁ _ w₃ hattrs
  have h₃ : w.Outlined names n o w₃ := h.keeps hn hown hk
  obtain ⟨hnames, hlts⟩ := hown₁.of_found
    (hfound.imp fun _ _ ht => (Effect.query_eq_ok_iff.1 ht).1)
  have hnames₃ : parents.map w₃.types.name = d.parents := by
    rw [← hnames]
    exact List.map_congr_left fun q hq => congrArg Descriptor.name (hk.type_eq q (hlts q hq))
  refine h₃.defineType hn hown hd p
    (fun q hq => lt_of_lt_of_le (hlts q hq) hk.types_le) ?_
  rw [Types.interface, hnames₃, defaultAttributes_types hattrs, map_methodTable]
  rfl

/-- What a statement declares when it runs. A statement that fails declares nothing. -/
theorem execute_outlined {fuel : Nat} (hnested : w.scopes.Nested) (hn : n < w.scopes.next)
    (hown : w.OwnNames n) (h : w.Outlined names n o w₁) {s : Stmt} {r : Except EvalError Flow}
    (hr : execute fuel s n w₁ = some (r, w')) :
    (∀ flow, r = .ok flow → names.Cover s → w.Outlined names n (o.declare s) w') ∧
      ∀ e, r = .error e → w.Outlined names n o w' := by
  have hframe := execute_frame hr
  have hdeclares := hframe.declares (lt_of_lt_of_le hn h.declares.keeps.scopes_le)
  constructor
  · rintro flow rfl hs
    cases fuel with
    | zero => cases hr
    | succ fuel =>
      have hinit (type : String) (init : Option Expr) :
          (initialValue (evaluate fuel · n) (invoke fuel) n type init).Moves (Keeps ∅) :=
        initialValue_moves (invoke_keeps fuel) (evaluate_keeps fuel · n) n type init
      rw [execute_succ] at hr
      obtain ⟨_ | _, hr, heq⟩ := Run.orAt_eq_some_iff.1 hr
      · cases heq
      cases s with
      | expr | ifElse | whileLoop | returns | breakLoop | continueLoop =>
        exact h.keeps hn hown (hframe.keeps.of_get_eq hdeclares)
      | declareVar p name type init =>
        obtain ⟨_, -, he⟩ | ⟨v, w₂, hv, h₂⟩ := Run.bind_eq_some_iff.1 hr
        · cases he
        cases h₂
        exact (h.keeps hn hown (hinit type init _ _ _ hv)).declareVariable hn hs p type init _
      | defineFunc p d =>
        cases hr
        exact h.declareFunction hn hs p rfl
      | defineType p d =>
        obtain ⟨_, -, he⟩ | ⟨_, w₂, hd, h₂⟩ := Run.bind_eq_some_iff.1 hr
        · cases he
        cases h₂
        exact defineType_outlined (fun a => hinit a.type a.init) hnested hn hown h hs hd
  · rintro e rfl
    exact h.keeps hn hown (hframe.keeps.of_get_eq hdeclares)

/-- A run of a block declares what its first statements declare, and all of them if it ends
normally. -/
theorem runBlock_outlined {fuel : Nat} (hnested : w.scopes.Nested) (hn : n < w.scopes.next)
    (hown : w.OwnNames n) {body : List Stmt} {r : Except EvalError Flow}
    (hr : runBlock (execute fuel · n) body w₁ = some (r, w')) :
    ∃ done, done <+: body ∧ (r = .ok .normal → done = body) ∧
      ∀ {names o}, (∀ s ∈ done, Names.Cover names s) → w.Outlined names n o w₁ →
        w.Outlined names n (done.foldl Outline.declare o) w' := by
  induction body generalizing w₁ with
  | nil =>
    cases hr
    exact ⟨[], List.prefix_rfl, fun _ => rfl, fun _ h => h⟩
  | cons s rest ih =>
    obtain ⟨e, he, rfl⟩ | ⟨flow, w₂, hflow, h₁⟩ := Run.bind_eq_some_iff.1 hr
    · refine ⟨[], List.nil_prefix, nofun, fun _ h => ?_⟩
      exact (execute_outlined hnested hn hown h he).2 e rfl
    · have hstep {names : Names} {o : Outline} (h : w.Outlined names n o w₁)
          (hs : names.Cover s) : w.Outlined names n (o.declare s) w₂ :=
        (execute_outlined hnested hn hown h hflow).1 flow rfl hs
      cases flow with
      | normal =>
        obtain ⟨done, hdone, hall, hout⟩ := ih h₁
        refine ⟨s :: done, List.cons_prefix_cons.2 ⟨rfl, hdone⟩, fun ht => ?_, fun hs h => ?_⟩
        · rw [hall ht]
        · obtain ⟨hs, hrest⟩ := List.forall_mem_cons.1 hs
          exact hout hrest (hstep h hs)
      | returns | breakLoop | continueLoop =>
        cases h₁
        refine ⟨[s], List.prefix_append [s] rest, nofun, fun hs h => ?_⟩
        exact hstep h (hs s List.mem_cons_self)

/-! ## Both passes -/

/-- **What both passes declare.** A check and an execution of the same block in a scope, from which
types are visible under their own names, declare there what the first statements of the block
declare: all of them if the check succeeds, or if the execution ends normally. Then the same is
declared by both; and after a check that succeeds an execution declares nothing else, however it
ends. Types stay visible under their own names. -/
theorem passes_declare_same {fuel : Nat} {n : ScopeId} {w c e : World} {body : Block}
    {rc : Except EvalError (Option String)} {re : Except EvalError Flow}
    (hnested : w.scopes.Nested) (hn : n < w.scopes.next) (hown : w.OwnNames n)
    (hc : checkBlock body n none w = (rc, c))
    (he : runBlock (execute fuel · n) body w = some (re, e)) :
    (∃ done, done <+: body ∧ (∀ type, rc = .ok type → done = body) ∧
      w.Outlined (.ofBlock body) n (done.foldl .declare (w.outline w.types.next n)) c) ∧
    (∃ done, done <+: body ∧ (re = .ok .normal → done = body) ∧
      w.Outlined (.ofBlock done) n (done.foldl .declare (w.outline w.types.next n)) e) ∧
    (∀ type, rc = .ok type → e.DeclaresWithin n c ∧
      (re = .ok .normal → c.DeclaresSame w.types.next n e)) ∧
    ∀ m < w.scopes.next, w.OwnNames m → c.OwnNames m ∧ e.OwnNames m := by
  obtain ⟨doneC, hdoneC, hallC, hoc⟩ := checkBlock_outlined hnested hn hown
    (.refl (.ofBlock body) n w) (fun _ => Names.ofBlock_cover) hc
  obtain ⟨doneE, hdoneE, hallE, hoe⟩ := runBlock_outlined hnested hn hown he
  have hoe := hoe (fun _ => Names.ofBlock_cover) (.refl (.ofBlock doneE) n w)
  refine ⟨⟨doneC, hdoneC, hallC, hoc⟩, ⟨doneE, hdoneE, hallE, hoe⟩, fun type htype => ?_,
    fun m hm hownm => ⟨hownm.declares hnested hm hoc.declares,
      hownm.declares hnested hm hoe.declares⟩⟩
  obtain rfl := hallC type htype
  obtain ⟨rest, rfl⟩ := hdoneE
  refine ⟨.of_outlines w.types.next ?_, fun hnormal => ?_⟩
  · rw [hoc.outline, hoe.outline, List.foldl_append]
    exact Outline.within_foldl _ rest
  · obtain hrest := hallE hnormal
    rw [← hrest] at hoc
    exact hoc.same hoe

theorem Run.exists_normal {m : Run Flow} {w : World}
    (h : ((m w).bind fun r => r.1.toOption.map Flow.isNormal) = some true) :
    ∃ w', m w = some (.ok .normal, w') := by
  obtain ⟨⟨r, w'⟩, hm, hr⟩ := Option.bind_eq_some_iff.1 h
  rcases r with e | (_ | _ | _ | _)
  · cases hr
  · exact ⟨w', hm⟩
  all_goals cases hr

/-- Both passes declare a type with itself as the type of an attribute, a variable and a function,
and nothing from the branch between them. -/
theorem passes_declare_same_branch :
    ∃ (w c e : World) (body : Block) (type : Option String) (t : TypeId),
      checkBlock body 0 none w = (.ok type, c) ∧
      runBlock (execute 20 · 0) body w = some (.ok .normal, e) ∧
      c.DeclaresSame w.types.next 0 e ∧ (c.scopes.get 0).types.find? "T" = some t ∧
      "y" ∉ (c.scopes.get 0).vars.keys := by
  let one : Expr := .literal none (.int 1)
  let self : FuncDef :=
    .mk none "self" [⟨"t", "T"⟩] (some "T") [.returns none (some (.var none "t"))]
  let body : Block :=
    [.defineType none (.mk "S" [] [] []),
    .defineType none (.mk "T" ["S"] [⟨"a", "Int", some one⟩] [self]),
    .declareVar none "x" "T" none,
    .ifElse none [.mk (.literal none (.bool true)) [.declareVar none "y" "Int" (some one)]] none,
    .defineFunc none (.mk none "f" [⟨"x", "T"⟩] none [])]
  let w : World := Interpreter.start true (.captured "")
  have horderly : w.Orderly (fun _ => True) False := Interpreter.start_orderly true _
  have hok : (checkBlock body 0 none w).1.toOption.isSome := by decide +kernel
  obtain ⟨type, c, hc⟩ := Effect.exists_ok_of_isSome hok
  have hnormal : ((runBlock (execute 20 · 0) body w).bind fun r =>
      r.1.toOption.map Flow.isNormal) = some true := by decide +kernel
  obtain ⟨e, he⟩ := Run.exists_normal hnormal
  obtain ⟨-, -, hboth, -⟩ := passes_declare_same horderly.nested (by decide +kernel)
    (horderly.toSettled.ownNames 0) hc he
  have hfind : (((checkBlock body 0 none w).2.scopes.get 0).types.find? "T").isSome := by
    decide +kernel
  have hy : "y" ∉ ((checkBlock body 0 none w).2.scopes.get 0).vars.keys := by decide +kernel
  rw [hc] at hfind hy
  obtain ⟨t, ht⟩ := Option.isSome_iff_exists.1 hfind
  exact ⟨w, c, e, body, type, t, hc, he, (hboth type rfl).2 rfl, ht, hy⟩

end Nominal
