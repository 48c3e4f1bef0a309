import Mathlib.Data.Finset.Card
import Nominal.Proofs.Glossary

/-!
# Owners of inherited methods

A type that does not declare a method itself inherits it from its owners, the ancestors that declare
it and stand behind types that do not. The search looks at no type twice, and a type may have been
looked at below another parent. Nothing is lost by that: what was skipped has been counted where it
was seen first.

* `Types.Leads`, `Types.Owner`: the owners of a method.
* `Types.DistinctNames`: types among whose ancestors a name stands for one type.
* `Types.Searched`: what is known when some parents of a type have been searched.
* **`Types.inheritedWithin_concludes`**: a search ends with all that can be known, or with two
  owners.
* `Types.Reordered`: the same types, their parents listed in other orders.
* **`Types.findMethod_exact`**: the method that a signature stands for, by the number of its owners.
-/

namespace Nominal

/-- One statement holds of the result, or another one of the error. -/
def Concludes {α ε : Type} (P : α → Prop) (E : ε → Prop) : Except ε α → Prop
  | .ok a => P a
  | .error c => E c

/-- A fold with a statement on the members it has gone through, and one on the errors. -/
theorem foldlM_concludes {α σ ε : Type} {f : σ → α → Except ε σ} {P : List α → σ → Prop}
    {E : ε → Prop} {l : List α}
    (h : ∀ done, ∀ a ∈ l, ∀ b, P done b → Concludes (P (done ++ [a])) E (f b a))
    (done : List α) {b : σ} (hb : P done b) : Concludes (P (done ++ l)) E (l.foldlM f b) := by
  induction l generalizing done b with
  | nil =>
    rw [List.append_nil]
    exact hb
  | cons a l ih =>
    have hstep := h done a List.mem_cons_self b hb
    rw [List.foldlM_cons]
    cases hf : f b a with
    | error c =>
      rw [hf] at hstep
      exact hstep
    | ok b' =>
      rw [hf] at hstep
      have hrest := ih (fun done a ha => h done a (List.mem_cons_of_mem _ ha)) (done ++ [a]) hstep
      rwa [List.append_assoc, List.singleton_append] at hrest

namespace Types

variable {ts ts' : Types} {s : Signature} {r t p q : TypeId}

/-! ## Ancestors and owners -/

/-- Parent steps lead from `t` to `p`, and no type that they leave declares the method. -/
inductive Leads (ts : Types) (s : Signature) : (t p : TypeId) → Prop
  | parent {t p : TypeId} (ht : ts.ownMethod? t s = none) (h : p ∈ (ts.get t).parents) :
      Leads ts s t p
  | step {t q p : TypeId} (ht : ts.ownMethod? t s = none) (h : q ∈ (ts.get t).parents)
      (hq : Leads ts s q p) : Leads ts s t p

/-- The ancestor `p` of `t` declares the method, and no type in between does. -/
def Owner (ts : Types) (s : Signature) (t p : TypeId) : Prop :=
  ts.Leads s t p ∧ (ts.ownMethod? p s).isSome

/-- A type or one of its ancestors. -/
def Within (ts : Types) (t p : TypeId) : Prop := p = t ∨ ts.Ancestor t p

/-- A type and its ancestors have different names. -/
def DistinctNames (ts : Types) (t : TypeId) : Prop :=
  ∀ p q, ts.Within t p → ts.Within t q → ts.name p = ts.name q → p = q

theorem Within.self : ts.Within t t := .inl rfl

theorem Ancestor.tail (h : ts.Ancestor t p) (hq : q ∈ (ts.get p).parents) : ts.Ancestor t q := by
  induction h with
  | parent hp => exact .step hp (.parent hq)
  | step h _ ih => exact .step h (ih hq)

theorem Within.parent (h : ts.Within t p) (hq : q ∈ (ts.get p).parents) : ts.Within t q := by
  obtain rfl | h := h
  · exact .inr (.parent hq)
  · exact .inr (h.tail hq)

theorem Leads.trans (h : ts.Leads s t p) (hp : ts.Leads s p q) : ts.Leads s t q := by
  induction h with
  | parent ht h => exact .step ht h hp
  | step ht h _ ih => exact .step ht h (ih hp)

theorem Leads.ancestor (h : ts.Leads s t p) : ts.Ancestor t p := by
  induction h with
  | parent _ h => exact .parent h
  | step _ h _ ih => exact .step h ih

/-! ## What a search knows -/

/-- The search from `t` has gone through the parents `done`. It has added `after` to the names it
had seen `before`, and it has `hit` a method. -/
structure Searched (ts : Types) (s : Signature) (r t : TypeId) (done : List TypeId)
    (before after : List String) (hit : Option (TypeId × Overload)) : Prop where
  subset : before ⊆ after
  parents : ∀ q ∈ done, ts.name q ∈ after
  /-- The search has gone on behind every type that it came to and that does not declare the
  method. -/
  closed : ∀ p, ts.Within r p → ts.name p ∈ after → ts.name p ∉ before →
    ts.ownMethod? p s = none → ∀ q ∈ (ts.get p).parents, ts.name q ∈ after
  found : ∀ p o, hit = some (p, o) → ts.Leads s t p ∧ ts.ownMethod? p s = some o ∧
    ts.name p ∈ after ∧ ts.name p ∉ before
  /-- It has come to no other type that declares the method. -/
  sole : ∀ p o, ts.Within r p → ts.name p ∈ after → ts.name p ∉ before →
    ts.ownMethod? p s = some o → hit = some (p, o)

/-- The error names two different owners that the search from `t` has come to. -/
def Clash (ts : Types) (s : Signature) (t : TypeId) (c : Cause) : Prop :=
  ∃ m a b, (m = t ∨ ts.Leads s t m) ∧ ts.Owner s m a ∧ ts.Owner s m b ∧ a ≠ b ∧
    c = .ambiguousMethod (ts.name m) s (ts.name a) (ts.name b)

theorem Clash.parent {c : Cause} (ht : ts.ownMethod? t s = none) (hq : q ∈ (ts.get t).parents)
    (h : ts.Clash s q c) : ts.Clash s t c := by
  obtain ⟨m, a, b, hm, hclash⟩ := h
  refine ⟨m, a, b, .inr ?_, hclash⟩
  obtain rfl | hm := hm
  · exact .parent ht hq
  · exact .step ht hq hm

section Searched

variable {done : List TypeId} {before after later : List String}
  {found hit : Option (TypeId × Overload)}

theorem Searched.nil : ts.Searched s r t [] before before none where
  subset := List.Subset.refl _
  parents := by simp
  closed _ _ hin hout := absurd hin hout
  found := by simp
  sole _ _ _ hin hout := absurd hin hout

theorem Searched.skip (h : ts.Searched s r t done before after hit) (hq : ts.name q ∈ after) :
    ts.Searched s r t (done ++ [q]) before after hit where
  subset := h.subset
  parents := by
    intro p hp
    obtain hp | hp := List.mem_append.1 hp
    · exact h.parents p hp
    · rwa [List.mem_singleton.1 hp]
  closed := h.closed
  found := h.found
  sole := h.sole

/-- One more parent is searched, and one of the two searches has found nothing. -/
theorem Searched.append (h : ts.Searched s r t done before after found)
    (h' : ts.Searched s r t [q] after later hit) (hone : found = none ∨ hit = none) :
    ts.Searched s r t (done ++ [q]) before later (found.or hit) where
  subset := List.Subset.trans h.subset h'.subset
  parents := by
    intro p hp
    obtain hp | hp := List.mem_append.1 hp
    · exact h'.subset (h.parents p hp)
    · exact h'.parents p hp
  closed p hp hafter hbefore hown := by
    by_cases hold : ts.name p ∈ after
    · exact fun x hx => h'.subset (h.closed p hp hold hbefore hown x hx)
    · exact h'.closed p hp hafter hold hown
  found p o hpo := by
    obtain rfl | rfl := hone
    · obtain ⟨hleads, hown, hin, hout⟩ := h'.found p o (by simpa using hpo)
      exact ⟨hleads, hown, hin, fun hb => hout (h.subset hb)⟩
    · obtain ⟨hleads, hown, hin, hout⟩ := h.found p o (by simpa using hpo)
      exact ⟨hleads, hown, h'.subset hin, hout⟩
  sole p o hp hafter hbefore hown := by
    by_cases hold : ts.name p ∈ after
    · simp [h.sole p o hp hold hbefore hown]
    · have hhit := h'.sole p o hp hafter hold hown
      obtain rfl | rfl := hone
      · simpa using hhit
      · cases hhit

variable (hr : ts.DistinctNames r)

include hr

theorem searched_declares {o : Overload} (ht : ts.ownMethod? t s = none)
    (hq : q ∈ (ts.get t).parents) (hwithin : ts.Within r q) (hown : ts.ownMethod? q s = some o)
    (hnew : ts.name q ∉ after) :
    ts.Searched s r t [q] after (ts.name q :: after) (some (q, o)) where
  subset := List.subset_cons_self _ _
  parents := by simp
  closed p hp hin hout hno := by
    have hname : ts.name p = ts.name q := (List.mem_cons.1 hin).resolve_right hout
    rw [hr p q hp hwithin hname, hown] at hno
    cases hno
  found := by
    rintro p o' ⟨⟩
    exact ⟨.parent ht hq, hown, List.mem_cons_self, hnew⟩
  sole p o' hp hin hout ho' := by
    have hname : ts.name p = ts.name q := (List.mem_cons.1 hin).resolve_right hout
    obtain rfl := hr p q hp hwithin hname
    rw [hown] at ho'
    rw [Option.some.inj ho']

theorem searched_descends (ht : ts.ownMethod? t s = none) (hq : q ∈ (ts.get t).parents)
    (hwithin : ts.Within r q) (hown : ts.ownMethod? q s = none)
    (h : ts.Searched s r q (ts.get q).parents (ts.name q :: after) later hit) :
    ts.Searched s r t [q] after later hit where
  subset := List.Subset.trans (List.subset_cons_self _ _) h.subset
  parents := by
    intro p hp
    rw [List.mem_singleton.1 hp]
    exact h.subset List.mem_cons_self
  closed p hp hin hout hno := by
    by_cases hname : ts.name p = ts.name q
    · rw [hr p q hp hwithin hname]
      exact h.parents
    · exact h.closed p hp hin (by simp [hname, hout]) hno
  found p o hpo := by
    obtain ⟨hleads, hp, hin, hout⟩ := h.found p o hpo
    exact ⟨.step ht hq hleads, hp, hin, fun hold => hout (List.mem_cons_of_mem _ hold)⟩
  sole p o hp hin hout ho := by
    by_cases hname : ts.name p = ts.name q
    · rw [hr p q hp hwithin hname, hown] at ho
      cases ho
    · exact h.sole p o hp hin (by simp [hname, hout]) ho

end Searched

/-! ## The search -/

/-- The number of types whose names were not seen. It bounds the depth of a search. -/
def unvisited (ts : Types) (visited : List String) : Nat :=
  ((Finset.range ts.next).filter fun t => ts.name t ∉ visited).card

theorem unvisited_le {before after : List String} (h : before ⊆ after) :
    ts.unvisited after ≤ ts.unvisited before := by
  apply Finset.card_le_card
  intro p hp
  simp only [Finset.mem_filter] at hp ⊢
  exact ⟨hp.1, fun hold => hp.2 (h hold)⟩

theorem unvisited_lt {visited : List String} (hq : q < ts.next) (h : ts.name q ∉ visited) :
    ts.unvisited (ts.name q :: visited) < ts.unvisited visited := by
  apply Finset.card_lt_card
  refine Finset.ssubset_iff_of_subset ?_ |>.2 ⟨q, by simp [hq, h], by simp⟩
  intro p hp
  simp only [Finset.mem_filter, List.mem_cons, not_or] at hp ⊢
  exact ⟨hp.1, hp.2.2⟩

theorem parents_of_le (h : ts.next ≤ t) : (ts.get t).parents = [] := by
  rw [get_of_le h]
  rfl

variable {found hit : Option (TypeId × Overload)}

/-- One more parent has been searched: what was found is put together, or two owners clash. -/
theorem join_concludes {done : List TypeId} {before after later : List String}
    (h : ts.Searched s r t done before after found)
    (h' : ts.Searched s r t [q] after later hit) :
    Concludes (fun state => ts.Searched s r t (done ++ [q]) before state.2 state.1)
      (ts.Clash s t) (ts.join t s found hit >>= fun found => pure (found, later)) := by
  cases hit with
  | none =>
    cases found with
    | none => exact h.append h' (.inr rfl)
    | some first => exact h.append h' (.inr rfl)
  | some second =>
    cases found with
    | none => exact h.append h' (.inl rfl)
    | some first =>
      obtain ⟨a, oa⟩ := first
      obtain ⟨b, ob⟩ := second
      obtain ⟨hleads, hown, hin, -⟩ := h.found a oa rfl
      obtain ⟨hleads', hown', -, hout⟩ := h'.found b ob rfl
      -- the second one was not seen when the first one was
      have hname : ts.name a ≠ ts.name b := fun heq => hout (heq ▸ hin)
      have hjoin : ts.join t s (some (a, oa)) (some (b, ob)) =
          .error (.ambiguousMethod (ts.name t) s (ts.name a) (ts.name b)) := if_neg hname
      rw [hjoin]
      exact ⟨t, a, b, .inl rfl, ⟨hleads, by simp [hown]⟩, ⟨hleads', by simp [hown']⟩,
        fun heq => hname (congrArg ts.name heq), rfl⟩

/-- **A search that is deep enough ends with all that can be known, or with two owners.** -/
theorem inheritedWithin_concludes (hr : ts.DistinctNames r) {depth : Nat} {visited : List String}
    (hwithin : ts.Within r t) (ht : ts.ownMethod? t s = none)
    (hdepth : (ts.get t).parents = [] ∨ ts.unvisited visited < depth) :
    Concludes (fun state => ts.Searched s r t (ts.get t).parents visited state.2 state.1)
      (ts.Clash s t) (ts.inheritedWithin s depth t visited) := by
  induction depth generalizing t visited with
  | zero =>
    have hparents : (ts.get t).parents = [] := by simpa using hdepth
    rw [inheritedWithin, hparents]
    exact .nil
  | succ depth ih =>
    rw [inheritedWithin]
    refine foldlM_concludes
      (P := fun done (state : Option (TypeId × Overload) × List String) =>
        ts.Searched s r t done visited state.2 state.1)
      (fun done q hq state h => ?_) [] .nil
    obtain ⟨found, seen⟩ := state
    dsimp only at h ⊢
    have hq' := hwithin.parent hq
    by_cases hseen : ts.name q ∈ seen
    · rw [if_pos hseen]
      exact h.skip hseen
    · rw [if_neg hseen]
      cases hown : ts.ownMethod? q s with
      | some o => exact join_concludes h (searched_declares hr ht hq hq' hown hseen)
      | none =>
        have hdeep : (ts.get q).parents = [] ∨ ts.unvisited (ts.name q :: seen) < depth := by
          by_cases hlt : q < ts.next
          · have hmany := hdepth.resolve_left (List.ne_nil_of_mem hq)
            have hle : ts.unvisited seen ≤ ts.unvisited visited := unvisited_le h.subset
            have := unvisited_lt hlt hseen
            omega
          · exact .inl (parents_of_le (not_lt.1 hlt))
        have hrec := ih hq' hown hdeep
        cases hsearch : ts.inheritedWithin s depth q (ts.name q :: seen) with
        | error c =>
          rw [hsearch] at hrec
          exact hrec.parent ht hq
        | ok result =>
          rw [hsearch] at hrec
          exact join_concludes h (searched_descends hr ht hq hq' hown hrec)

/-! ## The method that a signature stands for -/

/-- The type's own method, the method of its only owner, or none if there is no owner. -/
inductive Resolves (ts : Types) (t : TypeId) (s : Signature) : Option MethodEntry → Prop
  | own (o : Overload) : ts.ownMethod? t s = some o → Resolves ts t s (some ⟨none, o⟩)
  | absent : ts.ownMethod? t s = none → (∀ p, ¬ ts.Owner s t p) → Resolves ts t s none
  | inherited (p : TypeId) (o : Overload) : ts.Owner s t p → (∀ q, ts.Owner s t q → q = p) →
      ts.ownMethod? p s = some o → Resolves ts t s (some ⟨some p, o⟩)

theorem Leads.ownMethod?_eq (h : ts.Leads s t p) : ts.ownMethod? t s = none := by
  cases h <;> assumption

theorem Resolves.unique {m m' : Option MethodEntry} (h : ts.Resolves t s m)
    (h' : ts.Resolves t s m') : m = m' := by
  cases h with
  | own o ho =>
    cases h' with
    | own o' ho' =>
      rw [ho] at ho'
      rw [Option.some.inj ho']
    | absent hno => simp [ho] at hno
    | inherited p o' hp => simp [hp.1.ownMethod?_eq] at ho
  | absent hno hnone =>
    cases h' with
    | own o' ho' => simp [hno] at ho'
    | absent => rfl
    | inherited p o' hp => exact absurd hp (hnone p)
  | inherited p o hp hsole ho =>
    cases h' with
    | own o' ho' => simp [hp.1.ownMethod?_eq] at ho'
    | absent hno hnone => exact absurd hp (hnone p)
    | inherited p' o' hp' hsole' ho' =>
      obtain rfl := hsole p' hp'
      rw [ho] at ho'
      rw [Option.some.inj ho']

/-- The two types of a clash are owners for the type that the search started from. -/
theorem Clash.owners {c : Cause} (h : ts.Clash s t c) :
    ∃ m a b, ts.Owner s t a ∧ ts.Owner s t b ∧ a ≠ b ∧
      c = .ambiguousMethod (ts.name m) s (ts.name a) (ts.name b) := by
  obtain ⟨m, a, b, hm, ha, hb, hne, hc⟩ := h
  have howner {x : TypeId} (hx : ts.Owner s m x) : ts.Owner s t x := by
    obtain rfl | hm := hm
    · exact hx
    · exact ⟨hm.trans hx.1, hx.2⟩
  exact ⟨m, a, b, howner ha, howner hb, hne, hc⟩

/-- A search through all parents of a type comes to everything that is led to. -/
theorem Searched.name_mem {after : List String} (hr : ts.DistinctNames t)
    (h : ts.Searched s t t (ts.get t).parents [ts.name t] after hit) (hp : ts.Leads s t p) :
    ts.name p ∈ after := by
  -- behind every type that was come to
  have hbehind : ∀ x, ts.Within t x → ts.name x ∈ after → ts.ownMethod? x s = none →
      ∀ q ∈ (ts.get x).parents, ts.name q ∈ after := by
    intro x hx hin hown
    by_cases hname : ts.name x = ts.name t
    · rw [hr x t hx .self hname]
      exact h.parents
    · exact h.closed x hx hin (by simpa using hname) hown
  have hleads : ∀ x y, ts.Leads s x y → ts.Within t x → ts.name x ∈ after →
      ts.name y ∈ after := by
    intro x y hx
    induction hx with
    | parent hown hq => exact fun hwithin hin => hbehind _ hwithin hin hown _ hq
    | step hown hq _ ih =>
      exact fun hwithin hin => ih (hwithin.parent hq) (hbehind _ hwithin hin hown _ hq)
  exact hleads t p hp .self (h.subset (List.mem_singleton_self _))

theorem Searched.hit_of_owner {after : List String} (hr : ts.DistinctNames t)
    (h : ts.Searched s t t (ts.get t).parents [ts.name t] after hit) (hp : ts.Owner s t p) :
    ∃ o, ts.ownMethod? p s = some o ∧ hit = some (p, o) := by
  obtain ⟨hleads, hown⟩ := hp
  obtain ⟨o, ho⟩ := Option.isSome_iff_exists.1 hown
  have hwithin : ts.Within t p := .inr hleads.ancestor
  have hname : ts.name p ≠ ts.name t := by
    intro heq
    rw [hr p t hwithin .self heq, hleads.ownMethod?_eq] at ho
    cases ho
  exact ⟨o, ho, h.sole p o hwithin (h.name_mem hr hleads) (by simpa using hname) ho⟩

/-- **The search for a method ends as its owners say.** -/
theorem findMethod_concludes (hr : ts.DistinctNames t) (s : Signature) :
    Concludes (ts.Resolves t s) (ts.Clash s t) (ts.findMethod t s) := by
  unfold findMethod
  cases hown : ts.ownMethod? t s with
  | some o => exact .own o hown
  | none =>
    have hdeep : (ts.get t).parents = [] ∨ ts.unvisited [ts.name t] < ts.next := by
      by_cases ht : t < ts.next
      · have hlt : ts.unvisited [ts.name t] < ts.unvisited [] := unvisited_lt ht (by simp)
        have hle : ts.unvisited [] ≤ ts.next := (Finset.card_filter_le _ _).trans (by simp)
        exact .inr (by omega)
      · exact .inl (parents_of_le (not_lt.1 ht))
    have hsearch := inheritedWithin_concludes hr .self hown hdeep
    change Concludes _ _ ((ts.inheritedWithin s ts.next t [ts.name t]).map _)
    cases hresult : ts.inheritedWithin s ts.next t [ts.name t] with
    | error c =>
      rw [hresult] at hsearch
      exact hsearch
    | ok state =>
      rw [hresult] at hsearch
      obtain ⟨hit, after⟩ := state
      have hsearched : ts.Searched s t t (ts.get t).parents [ts.name t] after hit := hsearch
      cases hit with
      | none =>
        refine .absent hown fun p hp => ?_
        obtain ⟨o, -, hhit⟩ := hsearched.hit_of_owner hr hp
        cases hhit
      | some first =>
        obtain ⟨p, o⟩ := first
        obtain ⟨hleads, ho, -⟩ := hsearched.found p o rfl
        refine .inherited p o ⟨hleads, by simp [ho]⟩ (fun q hq => ?_) ho
        obtain ⟨o', -, hhit⟩ := hsearched.hit_of_owner hr hq
        cases hhit
        rfl

theorem findMethod_eq_ok_iff (hr : ts.DistinctNames t) {m : Option MethodEntry} :
    ts.findMethod t s = .ok m ↔ ts.Resolves t s m := by
  have hsearch := findMethod_concludes hr s
  constructor
  · intro h
    rwa [h] at hsearch
  · intro hm
    cases h : ts.findMethod t s with
    | ok m' =>
      rw [h] at hsearch
      rw [hm.unique hsearch]
    | error c =>
      rw [h] at hsearch
      obtain ⟨_, a, b, ha, hb, hne, -⟩ := Clash.owners hsearch
      cases hm with
      | own o ho => simp [ha.1.ownMethod?_eq] at ho
      | absent _ hnone => exact absurd ha (hnone a)
      | inherited p o _ hsole => exact absurd ((hsole a ha).trans (hsole b hb).symm) hne

/-! ## The order of parents -/

/-- The same types, each with its parents listed in some order. -/
structure Reordered (ts ts' : Types) : Prop where
  name : ∀ t, ts'.name t = ts.name t
  methods : ∀ t, (ts'.get t).methods = (ts.get t).methods
  parents : ∀ t, (ts'.get t).parents.Perm (ts.get t).parents

namespace Reordered

theorem symm (h : ts.Reordered ts') : ts'.Reordered ts where
  name t := (h.name t).symm
  methods t := (h.methods t).symm
  parents t := (h.parents t).symm

variable (h : ts.Reordered ts')

include h

theorem ownMethod?_eq (t : TypeId) (s : Signature) : ts'.ownMethod? t s = ts.ownMethod? t s := by
  rw [ownMethod?, ownMethod?, h.methods]

theorem leads (hp : ts.Leads s t p) : ts'.Leads s t p := by
  induction hp with
  | parent ht hq => exact .parent (by rwa [h.ownMethod?_eq]) ((h.parents _).mem_iff.2 hq)
  | step ht hq _ ih => exact .step (by rwa [h.ownMethod?_eq]) ((h.parents _).mem_iff.2 hq) ih

theorem ancestor (hp : ts.Ancestor t p) : ts'.Ancestor t p := by
  induction hp with
  | parent hq => exact .parent ((h.parents _).mem_iff.2 hq)
  | step hq _ ih => exact .step ((h.parents _).mem_iff.2 hq) ih

theorem owner_iff : ts'.Owner s t p ↔ ts.Owner s t p := by
  unfold Owner
  rw [h.ownMethod?_eq]
  exact and_congr_left fun _ => ⟨h.symm.leads, h.leads⟩

theorem distinctNames (hr : ts.DistinctNames t) : ts'.DistinctNames t := by
  intro p q hp hq hname
  rw [h.name, h.name] at hname
  exact hr p q (hp.imp id h.symm.ancestor) (hq.imp id h.symm.ancestor) hname

theorem resolves {m : Option MethodEntry} (hm : ts.Resolves t s m) : ts'.Resolves t s m := by
  cases hm with
  | own o ho => exact .own o (by rwa [h.ownMethod?_eq])
  | absent hno hnone =>
    exact .absent (by rwa [h.ownMethod?_eq]) fun p hp => hnone p (h.owner_iff.1 hp)
  | inherited p o hp hsole ho =>
    exact .inherited p o (h.owner_iff.2 hp) (fun q hq => hsole q (h.owner_iff.1 hq))
      (by rwa [h.ownMethod?_eq])

end Reordered

/-- **A method is the type's own, or else that of its only owner.** With two owners or more there is
an error that names two of them, and with none there is no method. The order in which types list
their parents does not matter, neither for the method nor for there being an error. -/
theorem findMethod_exact (h : ts.DistinctNames t) (s : Signature) :
    (∀ o, ts.ownMethod? t s = some o → ts.findMethod t s = .ok (some ⟨none, o⟩)) ∧
      (ts.ownMethod? t s = none →
        ((∀ p, ¬ ts.Owner s t p) → ts.findMethod t s = .ok none) ∧
        (∀ p, ts.Owner s t p → (∀ q, ts.Owner s t q → q = p) →
          ∃ o, ts.ownMethod? p s = some o ∧ ts.findMethod t s = .ok (some ⟨some p, o⟩)) ∧
        (∀ p q, ts.Owner s t p → ts.Owner s t q → p ≠ q →
          ∃ m a b, ts.Owner s t a ∧ ts.Owner s t b ∧ a ≠ b ∧ ts.findMethod t s =
            .error (.ambiguousMethod (ts.name m) s (ts.name a) (ts.name b)))) ∧
      ∀ ts', ts.Reordered ts' → ∀ m, ts'.findMethod t s = .ok m ↔ ts.findMethod t s = .ok m := by
  refine ⟨fun o ho => (findMethod_eq_ok_iff h).2 (.own o ho), fun hno => ⟨fun hnone => ?_,
    fun p hp hsole => ?_, fun p q hp hq hne => ?_⟩, fun ts' hts m => ?_⟩
  · exact (findMethod_eq_ok_iff h).2 (.absent hno hnone)
  · obtain ⟨o, ho⟩ := Option.isSome_iff_exists.1 hp.2
    exact ⟨o, ho, (findMethod_eq_ok_iff h).2 (.inherited p o hp hsole ho)⟩
  · have hsearch := findMethod_concludes h s
    cases hresult : ts.findMethod t s with
    | error c =>
      rw [hresult] at hsearch
      obtain ⟨m, a, b, ha, hb, hab, rfl⟩ := Clash.owners hsearch
      exact ⟨m, a, b, ha, hb, hab, rfl⟩
    | ok m =>
      rw [hresult] at hsearch
      cases hsearch with
      | own o ho => simp [hno] at ho
      | absent _ hnone => exact absurd hp (hnone p)
      | inherited x o _ hsole => exact absurd ((hsole p hp).trans (hsole q hq).symm) hne
  · rw [findMethod_eq_ok_iff h, findMethod_eq_ok_iff (hts.distinctNames h)]
    exact ⟨hts.symm.resolves, hts.resolves⟩

theorem distinctNames_of_lt (hparents : ∀ p < ts.next, ∀ q ∈ (ts.get p).parents, q < ts.next)
    (hnames : ∀ p < ts.next, ∀ q < ts.next, ts.name p = ts.name q → p = q) (ht : t < ts.next) :
    ts.DistinctNames t := by
  have hlt {p : TypeId} (hp : ts.Within t p) : p < ts.next := by
    obtain rfl | hp := hp
    · exact ht
    · induction hp with
      | parent hq => exact hparents _ ht _ hq
      | step hq _ ih => exact ih (hparents _ ht _ hq)
  intro p q hp hq
  exact hnames p (hlt hp) q (hlt hq)

/-- `Bottom` has the parents `Left` and `Right`, both have the parent `Top`, and `Right` also has
the parent `Other`. The method is declared by `Top` and by `Other`. -/
def shared : Types := ⟨#[
  ⟨"Top", false, [], [], [(.method "m" [], ⟨"Int", .host 0⟩)]⟩,
  ⟨"Left", false, [0], [], []⟩,
  ⟨"Other", false, [], [], [(.method "m" [], ⟨"Int", .host 1⟩)]⟩,
  ⟨"Right", false, [0, 2], [], []⟩,
  ⟨"Bottom", false, [1, 3], [], []⟩]⟩

/-- The search from `Bottom` comes to `Top` below `Left` and passes over it below `Right`; the clash
is there all the same. `Left` alone has one owner. -/
theorem findMethod_exact_shared :
    shared.DistinctNames 4 ∧ shared.DistinctNames 1 ∧
      (∃ m a b, shared.Owner (.method "m" []) 4 a ∧ shared.Owner (.method "m" []) 4 b ∧ a ≠ b ∧
        shared.findMethod 4 (.method "m" []) =
          .error (.ambiguousMethod (shared.name m) (.method "m" []) (shared.name a)
            (shared.name b))) ∧
      ∃ o, shared.ownMethod? 0 (.method "m" []) = some o ∧
        shared.findMethod 1 (.method "m" []) = .ok (some ⟨some 0, o⟩) := by
  have hnames {t : TypeId} (ht : t < 5) : shared.DistinctNames t :=
    distinctNames_of_lt (by decide) (by decide) ht
  have hno : ∀ t ∈ [1, 3, 4], shared.ownMethod? t (.method "m" []) = none := by decide
  have htop : shared.Owner (.method "m" []) 1 0 :=
    ⟨.parent (hno 1 (by decide)) (by decide), by decide⟩
  have hother : shared.Owner (.method "m" []) 3 2 :=
    ⟨.parent (hno 3 (by decide)) (by decide), by decide⟩
  have hsole : ∀ q, shared.Owner (.method "m" []) 1 q → q = 0 := by
    rintro q ⟨hq, -⟩
    cases hq with
    | parent _ h => exact List.mem_singleton.1 h
    | step _ h hq =>
      obtain rfl := List.mem_singleton.1 h
      cases hq.ownMethod?_eq
  have hclash := (findMethod_exact (hnames (t := 4) (by decide)) (.method "m" [])).2.1
    (hno 4 (by decide))
  have hone := (findMethod_exact (hnames (t := 1) (by decide)) (.method "m" [])).2.1
    (hno 1 (by decide))
  exact ⟨hnames (by decide), hnames (by decide),
    hclash.2.2 0 2 ⟨.step (hno 4 (by decide)) (by decide) htop.1, htop.2⟩
      ⟨.step (hno 4 (by decide)) (by decide) hother.1, hother.2⟩ (by decide),
    hone.2.1 0 htop hsole⟩

end Types

end Nominal
