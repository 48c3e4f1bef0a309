import Mathlib.Logic.Relation
import Nominal.Proofs.Attributes

/-!
# Namesakes among the ancestors of a type

The search for a method knows the types that it came to by their names. Where two of them have one
name it passes over the second one, and over all that stands behind it. What has a name of its own
is not passed over, however many namesakes there are elsewhere.

* `Types.Meets`: the types that the search for a method may come to.
* `Types.Alone`, `Types.Clear`: a type with a name of its own, and a way through such types.
* `Types.Explored`: what is known when some parents of a type have been searched.
* **`Types.inheritedWithin_explores`**: a search with at most one owner comes to its end, and to
  everything that has a name of its own.
* **`Types.findMethod_sole`**: the method that one ancestor alone declares.
-/

namespace Nominal.Types

variable {ts : Types} {s : Signature} {d t p q : TypeId}

/-! ## Names of their own -/

/-- The search from `d` may come to `q`. -/
def Meets (ts : Types) (s : Signature) (d q : TypeId) : Prop := q = d ∨ ts.Leads s d q

/-- No other type that the search from `d` may come to has the name of `q`. -/
def Alone (ts : Types) (s : Signature) (d q : TypeId) : Prop :=
  ∀ r, ts.Meets s d r → ts.name r = ts.name q → r = q

/-- Parent steps lead from `t` to `p`, each to a type with a name of its own. -/
def Clear (ts : Types) (s : Signature) (d : TypeId) : (t p : TypeId) → Prop :=
  Relation.TransGen fun t q => q ∈ (ts.get t).parents ∧ ts.Alone s d q

theorem Meets.leads (h : ts.Meets s d t) (ht : ts.ownMethod? t s = none)
    (hq : q ∈ (ts.get t).parents) : ts.Leads s d q := by
  obtain rfl | h := h
  · exact .parent ht hq
  · exact h.trans (.parent ht hq)

theorem Clear.lt (holder : ts.ParentsOlder) (h : ts.Clear s d t p) : p < t := by
  induction h with
  | single h => exact holder _ _ h.1
  | tail _ h ih => exact lt_trans (holder _ _ h.1) ih

theorem Ancestor.hasAttribute {x : String} (h : ts.Ancestor t p) (hx : ts.HasAttribute x p) :
    ts.HasAttribute x t := by
  induction h with
  | parent h => exact .inherited h hx
  | step h _ ih => exact .inherited h (ih hx)

theorem DistinctNames.alone (h : ts.DistinctNames d) (hq : ts.Within d q) : ts.Alone s d q := by
  rintro r (rfl | hr) hname
  · exact h r q .self hq hname
  · exact h r q (.inr hr.ancestor) hq hname

/-- If types have different names, there is a clear way to every ancestor. -/
theorem DistinctNames.clear (h : ts.DistinctNames d) (ht : ts.Within d t)
    (hp : ts.Ancestor t p) : ts.Clear s d t p := by
  induction hp with
  | parent hp => exact .single ⟨hp, h.alone (ht.parent hp)⟩
  | step hq _ ih => exact .head ⟨hq, h.alone (ht.parent hq)⟩ (ih (ht.parent hq))

theorem Ancestor.lt (holder : ts.ParentsOlder) (h : ts.Ancestor t p) : p < t := by
  induction h with
  | parent h => exact holder _ _ h
  | step h _ ih => exact lt_trans ih (holder _ _ h)

/-! ## What a search knows -/

/-- The search from `d` has gone through the parents `done` of a type. It has added `after` to the
names it had seen `before`, and it has `hit` a method. -/
structure Explored (ts : Types) (s : Signature) (d : TypeId) (done : List TypeId)
    (before after : List String) (hit : Option (TypeId × Overload)) : Prop where
  subset : before ⊆ after
  parents : ∀ q ∈ done, ts.name q ∈ after
  /-- The search has gone on behind every type with a name of its own that it came to. -/
  closed : ∀ p, ts.Alone s d p → ts.name p ∈ after → ts.name p ∉ before →
    ts.ownMethod? p s = none → ∀ q ∈ (ts.get p).parents, ts.name q ∈ after
  found : ∀ p o, hit = some (p, o) → ts.Leads s d p ∧ ts.ownMethod? p s = some o
  /-- It has come to no type with a name of its own that declares another method. -/
  sole : ∀ p o, ts.Alone s d p → ts.name p ∈ after → ts.name p ∉ before →
    ts.ownMethod? p s = some o → hit = some (p, o)

section Explored

variable {done : List TypeId} {before after later : List String}
  {found hit : Option (TypeId × Overload)}

theorem Explored.nil : ts.Explored s d [] before before none where
  subset := List.Subset.refl _
  parents := by simp
  closed _ _ hin hout := absurd hin hout
  found := by simp
  sole _ _ _ hin hout := absurd hin hout

/-- A parent whose name was seen already is passed over. -/
theorem Explored.skip (h : ts.Explored s d done before after hit) (hq : ts.name q ∈ after) :
    ts.Explored s d (done ++ [q]) before after hit where
  subset := h.subset
  parents := by
    intro p hp
    obtain hp | hp := List.mem_append.1 hp
    · exact h.parents p hp
    · rwa [List.mem_singleton.1 hp]
  closed := h.closed
  found := h.found
  sole := h.sole

theorem explored_declares {o : Overload} (hq : ts.Leads s d q) (hown : ts.ownMethod? q s = some o) :
    ts.Explored s d [q] after (ts.name q :: after) (some (q, o)) where
  subset := List.subset_cons_self _ _
  parents := by simp
  closed p hp hin hout hno := by
    obtain rfl := hp q (.inr hq) ((List.mem_cons.1 hin).resolve_right hout).symm
    rw [hown] at hno
    cases hno
  found := by
    rintro p o' ⟨⟩
    exact ⟨hq, hown⟩
  sole p o' hp hin hout ho' := by
    obtain rfl := hp q (.inr hq) ((List.mem_cons.1 hin).resolve_right hout).symm
    rw [hown] at ho'
    rw [Option.some.inj ho']

theorem explored_descends (hq : ts.Leads s d q) (hown : ts.ownMethod? q s = none)
    (h : ts.Explored s d (ts.get q).parents (ts.name q :: after) later hit) :
    ts.Explored s d [q] after later hit where
  subset := List.Subset.trans (List.subset_cons_self _ _) h.subset
  parents := by
    intro p hp
    rw [List.mem_singleton.1 hp]
    exact h.subset List.mem_cons_self
  closed p hp hin hout hno := by
    by_cases hname : ts.name q = ts.name p
    · rw [← hp q (.inr hq) hname]
      exact h.parents
    · exact h.closed p hp hin (by simp [Ne.symm hname, hout]) hno
  found := h.found
  sole p o hp hin hout ho := by
    by_cases hname : ts.name q = ts.name p
    · rw [← hp q (.inr hq) hname, hown] at ho
      cases ho
    · exact h.sole p o hp hin (by simp [Ne.symm hname, hout]) ho

variable (hone : ∀ p q, ts.Owner s d p → ts.Owner s d q → p = q)

include hone

theorem Explored.hit_eq {a b : TypeId × Overload}
    (h : ts.Explored s d done before after (some a))
    (h' : ts.Explored s d [q] after later (some b)) : a = b := by
  obtain ⟨hleads, ho⟩ := h.found a.1 a.2 rfl
  obtain ⟨hleads', ho'⟩ := h'.found b.1 b.2 rfl
  have hp : a.1 = b.1 := hone _ _ ⟨hleads, by simp [ho]⟩ ⟨hleads', by simp [ho']⟩
  rw [hp, ho'] at ho
  exact Prod.ext hp (Option.some.inj ho).symm

/-- One more parent has been searched. What was found on its way is what was found before. -/
theorem Explored.append (h : ts.Explored s d done before after found)
    (h' : ts.Explored s d [q] after later hit) :
    ts.Explored s d (done ++ [q]) before later (found.or hit) where
  subset := List.Subset.trans h.subset h'.subset
  parents := by
    intro p hp
    obtain hp | hp := List.mem_append.1 hp
    · exact h'.subset (h.parents p hp)
    · exact h'.parents p hp
  closed p hp hin hout hown := by
    by_cases hold : ts.name p ∈ after
    · exact fun x hx => h'.subset (h.closed p hp hold hout hown x hx)
    · exact h'.closed p hp hin hold hown
  found p o hpo := by
    obtain hpo | ⟨-, hpo⟩ := Option.or_eq_some_iff.1 hpo
    · exact h.found p o hpo
    · exact h'.found p o hpo
  sole p o hp hin hout hown := by
    by_cases hold : ts.name p ∈ after
    · rw [h.sole p o hp hold hout hown, Option.some_or]
    · have hhit := h'.sole p o hp hin hold hown
      subst hhit
      cases found with
      | none => rfl
      | some a => rw [Option.some_or, h.hit_eq hone h']

theorem Explored.join (h : ts.Explored s d done before after found)
    (h' : ts.Explored s d [q] after later hit) :
    Concludes (fun state => ts.Explored s d (done ++ [q]) before state.2 state.1)
      (fun _ => False) (ts.join t s found hit >>= fun found => pure (found, later)) := by
  have happend := h.append hone h'
  cases hit with
  | none => cases found <;> exact happend
  | some b =>
    cases found with
    | none => exact happend
    | some a =>
      obtain rfl := h.hit_eq hone h'
      rw [Types.join, if_pos rfl]
      exact happend

/-- **A search with at most one owner ends, with all that has a name of its own.** -/
theorem inheritedWithin_explores (holder : ts.ParentsOlder) {depth : Nat}
    (visited : List String) (hmeets : ts.Meets s d t) (ht : ts.ownMethod? t s = none)
    (hdepth : t < depth) :
    Concludes (fun state => ts.Explored s d (ts.get t).parents visited state.2 state.1)
      (fun _ => False) (ts.inheritedWithin s depth t visited) := by
  induction depth generalizing t visited with
  | zero => cases hdepth
  | succ depth ih =>
    rw [inheritedWithin]
    refine foldlM_concludes
      (P := fun done (state : Option (TypeId × Overload) × List String) =>
        ts.Explored s d done visited state.2 state.1)
      (fun done q hq state h => ?_) [] .nil
    obtain ⟨found, seen⟩ := state
    dsimp only at h ⊢
    have hq' : ts.Leads s d q := hmeets.leads ht hq
    by_cases hseen : ts.name q ∈ seen
    · rw [if_pos hseen]
      exact h.skip hseen
    · rw [if_neg hseen]
      cases hown : ts.ownMethod? q s with
      | some o => exact h.join hone (explored_declares hq' hown)
      | none =>
        have hlt : q < depth := lt_of_lt_of_le (holder t q hq) (Nat.le_of_lt_succ hdepth)
        have hrec := ih (ts.name q :: seen) (.inr hq') hown hlt
        cases hsearch : ts.inheritedWithin s depth q (ts.name q :: seen) with
        | error c =>
          rw [hsearch] at hrec
          exact hrec.elim
        | ok result =>
          rw [hsearch] at hrec
          exact h.join hone (explored_descends hq' hown hrec)

end Explored

/-! ## The method that one ancestor declares -/

section Explored

variable {after : List String} {hit : Option (TypeId × Overload)}
  (h : ts.Explored s d (ts.get d).parents [ts.name d] after hit)

/-- The search came to a type and knows it from the one that it started from. -/
def Reaches (ts : Types) (s : Signature) (d : TypeId) (after : List String) (p : TypeId) : Prop :=
  ts.Alone s d p ∧ ts.name p ∈ after ∧ ts.name p ∉ [ts.name d]

include h

/-- Behind a type without the method it comes to the parents that have names of their own. -/
theorem Explored.reaches_parent (holder : ts.ParentsOlder) (hx : t = d ∨ ts.Reaches s d after t)
    (ht : ts.ownMethod? t s = none) (hle : t ≤ d) (hq : q ∈ (ts.get t).parents)
    (halone : ts.Alone s d q) : ts.Reaches s d after q := by
  have hlt : q < d := lt_of_lt_of_le (holder t q hq) hle
  refine ⟨halone, ?_, fun hname => ?_⟩
  · obtain rfl | ⟨halone', hin, hout⟩ := hx
    · exact h.parents q hq
    · exact h.closed t halone' hin hout ht q hq
  · have heq : d = q := halone d (.inl rfl) (List.mem_singleton.1 hname).symm
    exact absurd (heq ▸ hlt) (lt_irrefl q)

theorem Explored.reaches (holder : ts.ParentsOlder) (hown : ts.ownMethod? d s = none)
    (hsole : ∀ q, ts.Ancestor d q → (ts.ownMethod? q s).isSome → q = p)
    (hp : ts.Clear s d d p) : ts.Reaches s d after p := by
  -- along the way, from a type that the search came to
  suffices ∀ t, ts.Clear s d t p → ts.Within d t → (t = d ∨ ts.Reaches s d after t) →
      ts.Reaches s d after p from this d hp .self (.inl rfl)
  intro t ht
  have hbefore {t : TypeId} (ht : ts.Clear s d t p) (hwithin : ts.Within d t) :
      ts.ownMethod? t s = none ∧ t ≤ d := by
    obtain rfl | hanc := hwithin
    · exact ⟨hown, le_refl _⟩
    · refine ⟨Option.not_isSome_iff_eq_none.1 fun hsome => ?_, le_of_lt (hanc.lt holder)⟩
      have hlt := ht.lt holder
      rw [hsole t hanc hsome] at hlt
      exact lt_irrefl p hlt
  induction ht using Relation.TransGen.head_induction_on with
  | single hstep =>
    intro hwithin hx
    obtain ⟨hno, hle⟩ := hbefore (.single hstep) hwithin
    exact h.reaches_parent holder hx hno hle hstep.1 hstep.2
  | head hstep hrest ih =>
    intro hwithin hx
    obtain ⟨hno, hle⟩ := hbefore (.head hstep hrest) hwithin
    exact ih (hwithin.parent hstep.1)
      (.inr (h.reaches_parent holder hx hno hle hstep.1 hstep.2))

end Explored

/-- **The method that one ancestor alone declares.** The search finds it or nothing. It finds it if
there is a way to the ancestor through types with names of their own, and so it does whenever a type
and its ancestors have different names. An attribute that one type alone declares is always
found. -/
theorem findMethod_sole (holder : ts.ParentsOlder) {o : Overload}
    (hown : ts.ownMethod? d s = none) (hp : ts.Ancestor d p) (ho : ts.ownMethod? p s = some o)
    (hsole : ∀ q, ts.Ancestor d q → (ts.ownMethod? q s).isSome → q = p) :
    (ts.findMethod d s = .ok none ∨ ts.findMethod d s = .ok (some ⟨some p, o⟩)) ∧
      (ts.Clear s d d p → ts.findMethod d s = .ok (some ⟨some p, o⟩)) ∧
      (ts.DistinctNames d → ts.Clear s d d p) ∧
      ∀ x a, (∀ q, ts.Within d q → ((ts.get q).attributes.find? x).isSome → q = p) →
        (ts.get p).attributes.find? x = some a → ts.attrType? d x = some a.type := by
  have hone (a b : TypeId) (ha : ts.Owner s d a) (hb : ts.Owner s d b) : a = b :=
    (hsole a ha.1.ancestor ha.2).trans (hsole b hb.1.ancestor hb.2).symm
  have hd : d < ts.next := by
    by_contra hd
    cases hp with
    | parent hq | step hq => simp [parents_of_le (not_lt.1 hd)] at hq
  have hsearch := inheritedWithin_explores hone holder [ts.name d] (.inl rfl) hown hd
  -- what the search came to
  obtain ⟨after, hit, hexplored, hfind⟩ : ∃ after hit,
      ts.Explored s d (ts.get d).parents [ts.name d] after hit ∧
        ts.findMethod d s = .ok (hit.map fun first => ⟨some first.1, first.2⟩) := by
    rw [findMethod, hown]
    change ∃ after hit, _ ∧ (ts.inheritedWithin s ts.next d [ts.name d]).map _ = _
    cases hresult : ts.inheritedWithin s ts.next d [ts.name d] with
    | error c =>
      rw [hresult] at hsearch
      exact hsearch.elim
    | ok state =>
      rw [hresult] at hsearch
      exact ⟨state.2, state.1, hsearch, rfl⟩
  refine ⟨?_, fun hclear => ?_, fun hnames => hnames.clear .self hp, fun x a hattr ha => ?_⟩
  · cases hit with
    | none => exact .inl hfind
    | some first =>
      obtain ⟨q, o'⟩ := first
      obtain ⟨hleads, ho'⟩ := hexplored.found q o' rfl
      obtain rfl : q = p := hsole q hleads.ancestor (by simp [ho'])
      rw [ho] at ho'
      rw [hfind, Option.some.inj ho']
      exact .inr rfl
  · obtain ⟨halone, hin, hout⟩ := hexplored.reaches holder hown hsole hclear
    rw [hfind, hexplored.sole p o halone hin hout ho]
    rfl
  · have hx : ts.HasAttribute x d := hp.hasAttribute (.own ha)
    obtain ⟨q, b, hq⟩ := holder.exists_picks hx
    obtain rfl := hattr q hq.within (by simp [hq.declares])
    have hba := hq.declares
    rw [ha] at hba
    rw [hq.attrType?_eq holder, Option.some.inj hba]

/-- `Bottom` has the parents `Left` and `Right`. The parent of `Right` is another type of that name,
and the parent of `Left` is `Top`, which declares the method. -/
def withNamesakes : Types := ⟨#[
  ⟨"Top", false, [], [("a", ⟨"Int", none⟩)], [(.method "m" [], ⟨"Int", .host 0⟩)]⟩,
  ⟨"Left", false, [0], [], []⟩,
  ⟨"Right", false, [], [], []⟩,
  ⟨"Right", false, [2], [], []⟩,
  ⟨"Bottom", false, [1, 3], [], []⟩]⟩

/-- The two types of one name stand aside from the way to `Top`. -/
theorem findMethod_sole_namesakes :
    withNamesakes.ownMethod? 4 (.method "m" []) = none ∧ withNamesakes.Ancestor 4 0 ∧
      ∃ o, withNamesakes.ownMethod? 0 (.method "m" []) = some o ∧
        withNamesakes.findMethod 4 (.method "m" []) = .ok (some ⟨some 0, o⟩) ∧
        withNamesakes.attrType? 4 "a" = some "Int" := by
  have holder : withNamesakes.ParentsOlder := parentsOlder_of_lt (by decide)
  have hown : withNamesakes.ownMethod? 4 (.method "m" []) = none := by decide
  have htop : withNamesakes.Ancestor 4 0 := .step (q := 1) (by decide) (.parent (by decide))
  -- nothing that a search from `Bottom` comes to lies behind it
  have hbound (q : TypeId) (hq : withNamesakes.Within 4 q) : q < 5 := by
    obtain rfl | hq := hq
    · decide
    · exact lt_trans (hq.lt holder) (by decide)
  have hdeclares : ∀ q < 5, (withNamesakes.ownMethod? q (.method "m" [])).isSome → q = 0 := by
    decide
  have halone (q : TypeId) (hq : ∀ r < 5, withNamesakes.name r = withNamesakes.name q → r = q) :
      withNamesakes.Alone (.method "m" []) 4 q :=
    fun r hr => hq r (hbound r (hr.imp id Leads.ancestor))
  have hclear : withNamesakes.Clear (.method "m" []) 4 4 0 :=
    .head ⟨by decide, halone 1 (by decide)⟩ (.single ⟨by decide, halone 0 (by decide)⟩)
  have hsole := findMethod_sole holder hown htop rfl fun q hq => hdeclares q (hbound q (.inr hq))
  refine ⟨hown, htop, _, rfl, hsole.2.1 hclear, hsole.2.2.2 "a" ⟨"Int", none⟩ (fun q hq => ?_) rfl⟩
  have hattributes : ∀ q < 5, ((withNamesakes.get q).attributes.find? "a").isSome → q = 0 := by
    decide
  exact hattributes q (hbound q hq)

/-! ## A type that is defined again -/

/-- A type is defined again as a child of its first version. -/
def redefined : Block :=
  [.defineType none (.mk "A" [] [⟨"a", "Int", none⟩] [.mk none "m" [] (some "Int")
    [.returns none (some (.literal none (.int 1)))]]),
  .defineType none (.mk "A" ["A"] [] [])]

/-- **The second version does not inherit the method of the first one**, which is its only ancestor,
although it inherits the attribute. -/
theorem findMethod_redefined :
    ∃ w t p, Interpreter.run 20 redefined (Interpreter.start true (.captured "")) =
        some (.ok .normal, w) ∧
      w.scopes.lookupType Interpreter.root "A" = some t ∧
      w.types.ownMethod? t (.method "m" []) = none ∧
      w.types.Ancestor t p ∧ (w.types.ownMethod? p (.method "m" [])).isSome ∧
      (∀ q, w.types.Ancestor t q → q = p) ∧
      w.types.findMethod t (.method "m" []) = .ok none ∧ w.types.attrType? t "a" = some "Int" := by
  let start : World := Interpreter.start true (.captured "")
  have hends : (Interpreter.run 20 redefined).endsIn start fun w =>
      w.scopes.lookupType Interpreter.root "A" = some 8 ∧
      (w.types.ownMethod? 8 (.method "m" [])).isNone ∧ (w.types.get 8).parents = [7] ∧
      (w.types.ownMethod? 7 (.method "m" [])).isSome ∧ (w.types.get 7).parents = [] ∧
      (w.types.findMethod 8 (.method "m" [])).toOption.any Option.isNone ∧
      w.types.attrType? 8 "a" = some "Int" := by decide +kernel
  obtain ⟨w, hrun, hfacts⟩ := Run.exists_of_endsIn hends
  obtain ⟨hname, hown, hparents, hdeclares, hnone, hfind, hattr⟩ := of_decide_eq_true hfacts
  have hsole (q : TypeId) (hq : w.types.Ancestor 8 q) : q = 7 := by
    cases hq with
    | parent h => exact List.mem_singleton.1 (hparents ▸ h)
    | step h hq =>
      obtain rfl := List.mem_singleton.1 (hparents ▸ h)
      cases hq with
      | parent h | step h => simp [hnone] at h
  have hmissing : w.types.findMethod 8 (.method "m" []) = .ok none := by
    cases hresult : w.types.findMethod 8 (.method "m" []) with
    | error c =>
      rw [hresult] at hfind
      cases hfind
    | ok entry =>
      rw [hresult] at hfind
      rw [Option.isNone_iff_eq_none.1 hfind]
  exact ⟨w, 8, 7, hrun, hname, Option.isNone_iff_eq_none.1 hown, .parent (by simp [hparents]),
    hdeclares, hsole, hmissing, hattr⟩

end Nominal.Types
