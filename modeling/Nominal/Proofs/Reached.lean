import Nominal.Proofs.Checked
import Nominal.Proofs.Coherence
import Nominal.Proofs.SafeEvaluation

/-!
# The worlds that programs reach

Programs are checked and run one after the other, in any scopes, whether they passed a check or not
and however they end. All worlds on the way are in order.

* `World.Reached`: the worlds that programs of a kind reach.
* `Stmt.check_orderly`, `checkBlock_orderly`: a check leaves a world in order.
* **`World.Reached.orderly`**: every world that is reached is in order.
* **`natives_called_properly`**: no callable gets a wrong number of arguments, and if the builtin
  types are left alone no wrong payload.
-/

namespace Nominal

open World (Orderly)

variable {S : Stmt → Prop} {strict : Prop}

/-! ## The check -/

/-- The step from one world to another keeps a property. -/
def Preserves (I : World → Prop) (w w' : World) : Prop := I w → I w'

instance (I : World → Prop) : Std.Refl (Preserves I) := ⟨fun _ h => h⟩

instance (I : World → Prop) : IsTrans World (Preserves I) := ⟨fun _ _ _ h h' hw => h' (h hw)⟩

/-- A step that changes nothing, and another one that may use its result. -/
theorem Effect.Moves.bind_of_eq {α β : Type} {m : Effect α} {f : α → Effect β} {I : World → Prop}
    (hm : m.Moves Eq)
    (hf : ∀ w a r w', I w → m w = (.ok a, w) → f a w = (r, w') → I w') :
    (m >>= f).Moves (Preserves I) := by
  intro w r w' h hw
  obtain ⟨e, he, -⟩ | ⟨a, w₁, ha, hr⟩ := Effect.bind_eq_iff.1 h
  · exact hm w _ w' he ▸ hw
  · obtain rfl := hm w _ w₁ ha
    exact hf w a r w' hw ha hr

namespace World.Orderly

variable {w w' : World} {n : ScopeId}

theorem namesTypes (h : w.Orderly S strict) : w.NamesTypes := fun _ _ _ ht => (h.findType ht).2

theorem checkParents_ok (h : w.Orderly S strict) {d : TypeDef} {parents : List TypeId}
    (hd : checkParents d n w = (.ok parents, w')) :
    ∀ q ∈ parents, q < w.types.next ∧ w.types.name q ∈ d.parents := by
  have hall := checkParents_found hd
  clear hd
  generalize d.parents = names at hall ⊢
  induction hall with
  | nil => exact fun _ hq => by cases hq
  | @cons name q names parents hq _ ih =>
    obtain ⟨hlt, hname⟩ := h.findType hq.1
    refine List.forall_mem_cons.2 ⟨⟨hlt, hname ▸ List.mem_cons_self⟩, fun q' hq' => ?_⟩
    exact ⟨(ih q' hq').1, List.mem_cons_of_mem _ (ih q' hq').2⟩

end World.Orderly

section Definitions

variable {w w' : World} {n : ScopeId}

/-- A check knows no default values. -/
theorem checkAttributes_default {attributes : List AttributeDef}
    {attrs attrs' : Table String Attribute} (hattrs : ∀ e ∈ attrs, e.2.default = none)
    (h : checkAttributes n attributes attrs w = (.ok attrs', w')) :
    ∀ e ∈ attrs', e.2.default = none := by
  induction attributes generalizing attrs with
  | nil =>
    obtain ⟨rfl, -⟩ := Effect.pure_eq_ok_iff.1 h
    exact hattrs
  | cons a rest ih =>
    obtain ⟨type, -, h₁⟩ := Effect.query_bind_eq_ok_iff.1 h
    obtain ⟨_, -, h₂⟩ := (checkInit_moves _ _ _ _).bind_eq_ok_iff.1 h₁
    refine ih (fun e he => ?_) h₂
    obtain rfl | he := Table.mem_insert he
    · rfl
    · exact hattrs e he

/-- The methods that a check knows take what their signatures announce. -/
theorem checkMethods_answers (hw : w.Orderly S strict) {type : String} {methods : List FuncDef}
    {table table' : Table Signature Overload} {headers : List Header}
    (hmethods : ∀ m ∈ methods, blockWithin S m.body)
    (htable : ∀ e ∈ table, e.2.Answers S e.1 ∧ ∃ d ret, e.2 = .ofMethod d n ret)
    (h : checkMethods type n methods table w = (.ok (table', headers), w')) :
    ∀ e ∈ table', e.2.Answers S e.1 ∧ ∃ d ret, e.2 = .ofMethod d n ret := by
  induction methods generalizing table headers w' with
  | nil =>
    obtain ⟨heq, -⟩ := Effect.pure_eq_ok_iff.1 h
    cases heq
    exact htable
  | cons m rest ih =>
    obtain ⟨hm, hrest⟩ := List.forall_mem_cons.1 hmethods
    obtain ⟨header, hheader, h₁⟩ := (checkHeader_moves m n _).bind_eq_ok_iff.1 h
    obtain rfl := checkHeader_eq (hw.namesTypes _) hheader
    obtain ⟨_, -, h₂⟩ := (checkConstructor_moves _ _ _).bind_eq_ok_iff.1 h₁
    obtain ⟨⟨table₁, hs⟩, hrec, h₃⟩ := (checkMethods_moves _ _ _ _).bind_eq_ok_iff.1 h₂
    obtain ⟨heq, -⟩ := Effect.pure_eq_ok_iff.1 h₃
    cases heq
    refine ih hrest (fun e he => ?_) hrec
    obtain rfl | he := Table.mem_insert he
    · exact ⟨.ofMethod rfl (List.length_map _) hm, m, _, rfl⟩
    · exact htable e he

end Definitions

/-- A world in order with all scopes up to `k`. -/
structure World.OrderlyTo (S : Stmt → Prop) (strict : Prop) (k : ScopeId) (w : World) : Prop where
  orderly : w.Orderly S strict
  scope : k < w.scopes.next

namespace World.OrderlyTo

variable {w : World} {n k : ScopeId}

theorem openChild (h : w.OrderlyTo S strict k) (hn : n ≤ k) :
    (w.openChild n).OrderlyTo S strict w.scopes.next where
  orderly := h.orderly.openChild (lt_of_le_of_lt hn h.scope)
  scope := by
    rw [World.openChild, Scopes.child, Scopes.next_openScope]
    exact Nat.lt_succ_self _

theorem declareVariable (h : w.OrderlyTo S strict k) (n : ScopeId) (name : String) {b : Binding}
    (hb : ∀ v, b = .value v → v.InShape strict w.types) :
    (w.declareVariable n name b).OrderlyTo S strict k :=
  ⟨h.orderly.declareVariable n name hb, (Scopes.next_modify ..).symm ▸ h.scope⟩

theorem declareFunction (h : w.OrderlyTo S strict k) (n : ScopeId) {s : Signature} {o : Overload}
    (ho : o.Answers S s) (hscope : o.CapturesBelow w.scopes.next)
    (hb : ∀ b, o.callable ≠ .builtin b) : (w.declareFunction n s o).OrderlyTo S strict k :=
  ⟨h.orderly.declareFunction n ho hscope hb, (Scopes.next_modify ..).symm ▸ h.scope⟩

theorem declareType (h : w.OrderlyTo S strict k) (n : ScopeId) {name : String} {t : TypeId}
    (ht : t < w.types.next) (hname : w.types.name t = name) :
    (w.declareType n name t).OrderlyTo S strict k :=
  ⟨h.orderly.declareType n ht hname, (Scopes.next_modify ..).symm ▸ h.scope⟩

end World.OrderlyTo

open World (OrderlyTo)

section Names

variable {n k : ScopeId}

theorem bindAll_orderly {bs : List (String × Binding)}
    (hbs : ∀ b ∈ bs, ∃ type, b.2 = .static type) :
    (Effect.bindAll n bs).Moves (Preserves (OrderlyTo S strict k)) := by
  induction bs with
  | nil => exact .pure _
  | cons b rest ih =>
    obtain ⟨x, b⟩ := b
    obtain ⟨⟨type, hb⟩, hrest⟩ := List.forall_mem_cons.1 hbs
    refine .bind (.update fun w hw => ?_) fun _ => ih hrest
    exact hw.declareVariable n x fun v hv => by
      rw [show b = .static type from hb] at hv
      cases hv

theorem paramBindings_static (d : FuncDef) (h : Header) :
    ∀ b ∈ paramBindings d h, ∃ type, b.2 = Binding.static type := by
  rintro ⟨x, b⟩ hb
  obtain ⟨type, -, rfl⟩ := List.mem_map.1 (List.of_mem_zip hb).2
  exact ⟨type, rfl⟩

theorem Effect.openChild_orderly {β : Type} {f : ScopeId → Effect β} (hn : n ≤ k)
    (hf : ∀ inner ≥ k, (f inner).Moves (Preserves (OrderlyTo S strict inner))) :
    (Effect.openChild n >>= f).Moves (Preserves (OrderlyTo S strict k)) := by
  intro w r w' h hw
  obtain ⟨e, he, -⟩ | ⟨inner, w₁, h₁, h₂⟩ := Effect.bind_eq_iff.1 h
  · cases he
  · cases h₁
    have hinner := hf _ (le_of_lt hw.scope) _ _ w' h₂ (hw.openChild hn)
    exact ⟨hinner.orderly, lt_trans hw.scope hinner.scope⟩

end Names

mutual

/-- **A check of a statement leaves the world in order.** -/
theorem Stmt.check_orderly (hS : SparesBuiltins S strict) (s : Stmt) {n k : ScopeId} (hn : n ≤ k)
    (hs : s.Within S) : (s.check n).Moves (Preserves (OrderlyTo S strict k)) := by
  unfold Stmt.check
  cases s with
  | expr p e => exact .orAt p (.bind (e.check_moves n).of_eq fun _ => .pure _)
  | declareVar p name type init =>
    refine .orAt p (.bind (.query _) fun declared =>
      .bind (checkInit_moves name declared init n).of_eq fun _ =>
        .bind (.update fun w hw => ?_) fun _ => .pure _)
    exact hw.declareVariable n name fun _ => nofun
  | defineFunc p d =>
    refine .orAt p (.bind_of_eq (checkHeader_moves d n none) fun w h r w' hw hheader hr => ?_)
    obtain rfl := checkHeader_eq (hw.orderly.namesTypes n) hheader
    have hbody := d.checkBody_orderly hS hn (paramBindings d d.header) d.returnType
      (paramBindings_static d _) hs.body_of_defineFunc
    refine Effect.Moves.bind (R := Preserves (OrderlyTo S strict k)) (.update fun w hw => ?_)
      (fun _ => .bind hbody fun _ => .pure _) w r w' hr hw
    exact hw.declareFunction n (.ofFunction rfl (List.length_map _) hs.body_of_defineFunc)
      (Overload.capturesBelow_ofFunction (lt_of_le_of_lt hn hw.scope)) fun _ => nofun
  | defineType p d =>
    exact .orAt p (.bind (d.check_orderly hS hn (fun hstrict => hS hstrict p d hs.of_defineType)
      fun m hm => hs.body_of_defineType hm) fun _ => .pure _)
  | ifElse p branches default =>
    refine .orAt p (.bind (checkBranches_orderly hS branches hn none fun _ _ hb =>
      hs.branch_of_ifElse hb) fun found => ?_)
    cases default with
    | none => exact .pure _
    | some body =>
      exact Effect.openChild_orderly hn fun inner _ =>
        .bind (checkBlock_orderly hS body (le_refl inner) none hs.default_of_ifElse)
          fun _ => .query _
  | whileLoop p condition body =>
    exact .orAt p (.bind (checkCondition_moves condition n).of_eq fun _ =>
      Effect.openChild_orderly hn fun inner _ =>
        checkBlock_orderly hS body (le_refl inner) none hs.body_of_whileLoop)
  | returns p value =>
    cases value with
    | none => exact .pure _
    | some e => exact .orAt p (.bind (e.check_moves n).of_eq fun _ => .pure _)
  | breakLoop | continueLoop => exact .pure _

theorem checkBlock_orderly (hS : SparesBuiltins S strict) (body : List Stmt) {n k : ScopeId}
    (hn : n ≤ k) (found : Option String) (hbody : blockWithin S body) :
    (checkBlock body n found).Moves (Preserves (OrderlyTo S strict k)) := by
  unfold checkBlock
  cases body with
  | nil => exact .pure _
  | cons s rest =>
    obtain ⟨hs, hrest⟩ := blockWithin_cons.1 hbody
    exact .bind (s.check_orderly hS hn hs) fun _ => .bind (.orAt _ (.query _)) fun _ =>
      checkBlock_orderly hS rest hn _ hrest

theorem checkBranches_orderly (hS : SparesBuiltins S strict) (branches : List Branch)
    {n k : ScopeId} (hn : n ≤ k) (found : Option String)
    (hbranches : ∀ condition body, .mk condition body ∈ branches → blockWithin S body) :
    (checkBranches branches n found).Moves (Preserves (OrderlyTo S strict k)) := by
  unfold checkBranches
  match branches with
  | [] => exact .pure _
  | .mk condition body :: rest =>
    exact .bind (checkCondition_moves condition n).of_eq fun _ =>
      Effect.openChild_orderly hn fun inner hinner =>
        .bind (checkBlock_orderly hS body (le_refl inner) none
          (hbranches condition body List.mem_cons_self)) fun _ =>
            .bind (.query _) fun _ =>
              checkBranches_orderly hS rest (le_trans hn hinner) _ fun c b hb =>
                hbranches c b (List.mem_cons_of_mem _ hb)

theorem FuncDef.checkBody_orderly (hS : SparesBuiltins S strict) (d : FuncDef) {n k : ScopeId}
    (hn : n ≤ k) (params : List (String × Binding)) (declared : String)
    (hparams : ∀ b ∈ params, ∃ type, b.2 = .static type)
    (hbody : blockWithin S d.body) :
    (d.checkBody n params declared).Moves (Preserves (OrderlyTo S strict k)) := by
  unfold FuncDef.checkBody
  match d with
  | .mk p name ps ret body =>
    exact Effect.openChild_orderly hn fun inner _ => .bind (bindAll_orderly hparams) fun _ =>
      .bind (checkBlock_orderly hS body (le_refl inner) none hbody) fun _ =>
        (matchReturn_moves _ _ _).of_eq

theorem TypeDef.check_orderly (hS : SparesBuiltins S strict) (d : TypeDef) {n k : ScopeId}
    (hn : n ≤ k) (hd : strict → d.AvoidsBuiltins)
    (hmethods : ∀ m ∈ d.methods, blockWithin S m.body) :
    (d.check n).Moves (Preserves (OrderlyTo S strict k)) := by
  unfold TypeDef.check
  match d with
  | .mk name parents attributes methods =>
    intro w r w' h hw
    obtain ⟨e, he, -⟩ | ⟨parents, w₁, hts, h⟩ := Effect.bind_eq_iff.1 h
    · exact checkParents_moves _ n w _ w' he ▸ hw
    obtain rfl := checkParents_moves _ n w _ w₁ hts
    have hparents := hw.orderly.checkParents_ok hts
    obtain ⟨e, he, -⟩ | ⟨attrs, w₁, hattrs, h⟩ := Effect.bind_eq_iff.1 h
    · exact checkAttributes_moves n attributes [] w _ w' he ▸ hw
    obtain rfl := checkAttributes_moves n attributes [] w _ w₁ hattrs
    have hdefault := checkAttributes_default (fun e he => by cases he) hattrs
    obtain ⟨e, he, -⟩ | ⟨⟨table, headers⟩, w₁, htable, h⟩ := Effect.bind_eq_iff.1 h
    · exact checkMethods_moves _ n methods [] w _ w' he ▸ hw
    obtain rfl := checkMethods_moves _ n methods [] w _ w₁ htable
    have hanswers := checkMethods_answers hw.orderly hmethods (fun e he => by cases he) htable
    -- the type is declared now, and then the bodies of its methods are checked
    have hw₁ : (w.addType ⟨name, false, parents, attrs, table⟩).OrderlyTo S strict k :=
      ⟨hw.orderly.addType
        { methods := fun e he => (hanswers e he).1
          parents := fun q hq => (hparents q hq).1
          methodScopes := fun e he => by
            obtain ⟨m, ret, heq⟩ := (hanswers e he).2
            exact heq ▸ Overload.capturesBelow_ofMethod (lt_of_le_of_lt hn hw.scope)
          defaults := fun e he v hv => by
            rw [hdefault e he] at hv
            cases hv
          shaped := fun hs =>
            { name := (hd hs).name
              parents := fun q hq => (hd hs).parents _ (hparents q hq).2
              methods := fun e he b hb => by
                obtain ⟨m, ret, heq⟩ := (hanswers e he).2
                rw [heq] at hb
                cases hb } }, hw.scope⟩
    have hlt : w.types.next < (w.types.add ⟨name, false, parents, attrs, table⟩).next :=
      (Types.next_add ..).symm ▸ Nat.lt_succ_self _
    have hname : (w.types.add ⟨name, false, parents, attrs, table⟩).name w.types.next = name := by
      rw [Types.name, Types.get_add, if_pos rfl]
    have hw₂ := hw₁.declareType n hlt hname
    exact checkBodies_orderly hS name methods headers hn hmethods _ r w' h hw₂

theorem checkBodies_orderly (hS : SparesBuiltins S strict) (type : String)
    (methods : List FuncDef) (headers : List Header) {n k : ScopeId} (hn : n ≤ k)
    (hmethods : ∀ m ∈ methods, blockWithin S m.body) :
    (checkBodies type methods headers n).Moves (Preserves (OrderlyTo S strict k)) := by
  unfold checkBodies
  match methods, headers with
  | [], _ => exact .pure _
  | _ :: _, [] => exact .pure _
  | m :: methods, h :: headers =>
    obtain ⟨hm, hrest⟩ := List.forall_mem_cons.1 hmethods
    refine .bind (m.checkBody_orderly hS hn _ _ ?_ hm) fun _ =>
      checkBodies_orderly hS type methods headers hn hrest
    exact List.forall_mem_cons.2 ⟨⟨type, rfl⟩, paramBindings_static m h⟩

end

/-! ## Worlds that are reached -/

/-- The worlds that programs of a kind reach, from a fresh interpreter on. A scope may be opened in
any other one, a program may be checked or run in any scope, and it may end in any way. -/
inductive World.Reached (S : Stmt → Prop) : World → Prop
  | start (prelude : Bool) (out : Output) : Reached S (Interpreter.start prelude out)
  | openChild {w : World} {n : ScopeId} (h : Reached S w) (hn : n < w.scopes.next) :
    Reached S (w.openChild n)
  | output {w : World} (h : Reached S w) (out : Output) : Reached S { w with output := out }
  | check {w w' : World} {program : Block} {n : ScopeId} {r : Except EvalError (Option String)}
      (h : Reached S w) (hn : n < w.scopes.next) (hprogram : blockWithin S program)
      (hr : checkBlock program n none w = (r, w')) : Reached S w'
  | run {w w' : World} {program : Block} {n : ScopeId} {fuel : Nat} {r : Except EvalError Flow}
      (h : Reached S w) (hn : n < w.scopes.next) (hprogram : blockWithin S program)
      (hr : runBlock (execute fuel · n) program w = some (r, w')) : Reached S w'

/-- **Every world that is reached is in order.** -/
theorem World.Reached.orderly (hS : SparesBuiltins S strict) {w : World} (h : w.Reached S) :
    w.Orderly S strict := by
  induction h with
  | start prelude out => exact Interpreter.start_orderly prelude out
  | openChild _ hn ih => exact ih.openChild hn
  | output _ out ih => exact ih.of_eq rfl rfl
  | check _ hn hprogram hr ih =>
    exact (checkBlock_orderly hS _ (le_refl _) _ hprogram _ _ _ hr ⟨ih, hn⟩).orderly
  | @run _ _ _ n fuel _ _ hn hprogram hr ih =>
    exact (runBlock_safe (fun s n => (runsSafe hS fuel).execute s n) ih hn hprogram _ _ hr).1

theorem World.Reached.mono {T : Stmt → Prop} (hS : ∀ s, S s → T s) {w : World}
    (h : w.Reached S) : w.Reached T := by
  induction h with
  | start prelude out => exact .start prelude out
  | openChild _ hn ih => exact ih.openChild hn
  | output _ out ih => exact ih.output out
  | check _ hn hprogram hr ih => exact ih.check hn (fun s hs => hS s (hprogram s hs)) hr
  | run _ hn hprogram hr ih => exact ih.run hn (fun s hs => hS s (hprogram s hs)) hr

/-- A run ends normally in a world with a property. -/
def Run.endsIn (m : Run Flow) (w : World) (P : World → Bool) : Bool :=
  (m w).any fun r => r.1.toOption.any Flow.isNormal && P r.2

theorem Run.exists_of_endsIn {m : Run Flow} {w : World} {P : World → Bool} (h : m.endsIn w P) :
    ∃ w', m w = some (.ok .normal, w') ∧ P w' := by
  obtain ⟨⟨r, w'⟩, hrun, hr⟩ := (Option.any_eq_true ..).1 h
  obtain ⟨hnormal, hP⟩ := Bool.and_eq_true_iff.1 hr
  rcases r with e | (_ | _ | _ | _)
  · cases hnormal
  · exact ⟨w', hrun, hP⟩
  all_goals cases hnormal

/-! ## Calls and payloads -/

/-- A statement does not define a type with a builtin name or a builtin parent. -/
def Stmt.AvoidsBuiltins (s : Stmt) : Prop := ∀ d ∈ s.typeDef?, d.AvoidsBuiltins

/-- Every callable takes the arguments that its signature announces, and no run fails for a wrong
number of them. -/
structure World.CallsProperly (w : World) : Prop where
  functions : ∀ n, ∀ e ∈ (w.scopes.get n).functions, e.2.HasArity e.1.arity
  methods : ∀ t, ∀ e ∈ (w.types.get t).methods, e.2.HasArity e.1.arity
  evaluate : ∀ fuel e, ∀ n < w.scopes.next, ∀ err w',
    evaluate fuel e n w = some (.error err, w') →
    ∀ expected got, err.cause ≠ .arityMismatch expected got
  execute : ∀ fuel program, ∀ n < w.scopes.next, ∀ err w',
    runBlock (execute fuel · n) program w = some (.error err, w') →
    ∀ expected got, err.cause ≠ .arityMismatch expected got

/-- Every value has the shape of its type, wherever it is bound or stored and whatever expression it
comes from. No run of a program that leaves the builtin types alone fails for a wrong payload. -/
structure World.PayloadsFit (w : World) : Prop where
  vars : ∀ n, ∀ e ∈ (w.scopes.get n).vars, ∀ v, e.2 = .value v → v.Shaped w.types
  defaults : ∀ t, ∀ e ∈ (w.types.get t).attributes, ∀ v, e.2.default = some v → v.Shaped w.types
  result : ∀ fuel e, ∀ n < w.scopes.next, ∀ v w', evaluate fuel e n w = some (.ok v, w') →
    v.Shaped w'.types
  evaluate : ∀ fuel e, ∀ n < w.scopes.next, ∀ err w',
    evaluate fuel e n w = some (.error err, w') →
    ∀ expected found, err.cause ≠ .payloadMismatch expected found
  execute : ∀ fuel program, ∀ n < w.scopes.next, ∀ err w',
    blockWithin Stmt.AvoidsBuiltins program →
    runBlock (execute fuel · n) program w = some (.error err, w') →
    ∀ expected found, err.cause ≠ .payloadMismatch expected found

theorem World.Reached.callsProperly {w : World} (h : w.Reached S) : w.CallsProperly :=
  have hS : SparesBuiltins (fun _ => True) False := False.elim
  have hw := (h.mono (T := fun _ => True) fun _ _ => trivial).orderly hS
  { functions := fun n e he => (hw.functions n e he).takes
    methods := fun t e he => (hw.methods t e he).takes
    evaluate := fun fuel e n hn _ w' hr => ((runsSafe hS fuel).evaluate e n hw hn _ w' hr).2.2.arity
    execute := fun fuel _ _ hn _ w' hr =>
      (runBlock_safe (fun s n => (runsSafe hS fuel).execute s n) hw hn
        (fun _ _ => trivial) _ w' hr).2.2.arity }

theorem World.Reached.payloadsFit {w : World} (h : w.Reached Stmt.AvoidsBuiltins) :
    w.PayloadsFit :=
  have hS : SparesBuiltins Stmt.AvoidsBuiltins True := fun _ _ d hd => hd d rfl
  have hw := h.orderly hS
  { vars := fun n e he v hv => (hw.vars n e he v hv).shaped trivial
    defaults := fun t e he v hv => (hw.defaults t e he v hv).shaped trivial
    result := fun fuel e n hn _ w' hr =>
      ((runsSafe hS fuel).evaluate e n hw hn _ w' hr).2.2.shaped trivial
    evaluate := fun fuel e n hn _ w' hr =>
      ((runsSafe hS fuel).evaluate e n hw hn _ w' hr).2.2.payload trivial
    execute := fun fuel _ _ hn _ w' hprogram hr =>
      (runBlock_safe (fun s n => (runsSafe hS fuel).execute s n) hw hn
        hprogram _ w' hr).2.2.payload trivial }

/-- **No operation of the prelude and no function of a program is called with a wrong number or a
wrong kind of arguments.** The first holds whatever programs were checked or run before; the second,
if none of them defines a type with a builtin name or a builtin parent. -/
theorem natives_called_properly {w : World} (h : w.Reached S) :
    w.CallsProperly ∧ ((∀ s, S s → s.AvoidsBuiltins) → w.PayloadsFit) :=
  ⟨h.callsProperly, fun hS => (h.mono hS).payloadsFit⟩

/-- The value that a variable has. -/
def Binding.value? : Binding → Option Value
  | .value v => some v
  | .static _ => none

/-- A method of the parent reads an attribute of the child. -/
theorem natives_called_properly_inherited :
    ∃ (w : World) (v : Value), w.Reached Stmt.AvoidsBuiltins ∧ w.CallsProperly ∧ w.PayloadsFit ∧
      ("x", .value v) ∈ (w.scopes.get Interpreter.root).vars ∧ v.Shaped w.types ∧
      (v.datum? .int).map Literal.text = some "3" := by
  let program : Block :=
    [.defineType none (.mk "A" [] [⟨"a", "Int", some (.literal none (.int 1))⟩]
      [.mk none "next" [] (some "Int") [.returns none (some (.binary none .add
        (.attr none (.var none "this") "a") (.literal none (.int 1))))]]),
    .defineType none (.mk "B" ["A"] [⟨"a", "Int", some (.literal none (.int 2))⟩] []),
    .declareVar none "x" "Int" (some (.methodCall none (.call none "B" []) "next" []))]
  let start : World := Interpreter.start true (.captured "")
  have hspares : blockWithin Stmt.AvoidsBuiltins program := by
    have hA : ¬IsBuiltinName "A" := by rw [isBuiltinName_iff]; decide
    have hB : ¬IsBuiltinName "B" := by rw [isBuiltinName_iff]; decide
    have hdefs : ∀ d ∈ typeDefs program, d.AvoidsBuiltins := by
      refine List.forall_mem_cons.2 ⟨⟨hA, fun _ h => by cases h⟩, ?_⟩
      refine List.forall_mem_cons.2 ⟨⟨hB, List.forall_mem_singleton.2 hA⟩, fun _ h => by cases h⟩
    exact fun s hs d hd => hdefs d (List.mem_filterMap.2 ⟨s, hs, hd⟩)
  have hends : (Interpreter.execute 20 program start).any (fun r =>
      (r.2.scopes.get Interpreter.root).vars.any fun e => e.1 == "x" && e.2.value?.any fun v =>
        (v.datum? .int).map Literal.text == some "3") = true := by decide +kernel
  obtain ⟨⟨r, w⟩, hrun, hvars⟩ := (Option.any_eq_true _ _).1 hends
  obtain ⟨⟨x, b⟩, hx, hb⟩ := List.any_eq_true.1 hvars
  obtain ⟨hname, hvalue⟩ := Bool.and_eq_true_iff.1 hb
  obtain ⟨v, hv, htext⟩ := (Option.any_eq_true _ _).1 hvalue
  have hroot : Interpreter.root < start.scopes.next := by decide +kernel
  have hreached : w.Reached Stmt.AvoidsBuiltins := .run (.start true _) hroot hspares hrun
  obtain ⟨hcalls, hpayloads⟩ := natives_called_properly hreached
  have hfit := hpayloads fun _ hs => hs
  rw [beq_iff_eq] at hname htext
  cases b with
  | static type => cases hv
  | value v' =>
    cases hname
    cases hv
    exact ⟨w, v, hreached, hcalls, hfit, hx, hfit.vars _ _ hx v rfl, htext⟩

end Nominal
