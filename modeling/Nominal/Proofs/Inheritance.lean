import Mathlib.Data.List.Forall2
import Nominal.Proofs.Glossary

/-!
# Inheritance among types that resemble others

The search for a method goes through the ancestors of a type. Two families of types may have
different numbers and still list the same ancestors: then the searches go the same way, and they end
alike if the methods on the way are alike.

* `Types.attrTypeWithin_stable`: a search for an attribute that is deep enough.
* `Types.Resemble`: types with the same names, ancestors and methods, as far as can be seen.
* **`Types.Resemble.inheritedWithin`**: inherited methods of types that resemble each other.
-/

namespace Nominal

theorem foldlM_map_eq {α β σ τ υ : Type} {f : σ → α → Except Cause σ} {g : τ → β → Except Cause τ}
    {φ : σ → υ} {ψ : τ → υ} {R : α → β → Prop} {l : List α} {l' : List β} (hl : List.Forall₂ R l l')
    (h : ∀ a b, R a b → ∀ s t, φ s = ψ t → (f s a).map φ = (g t b).map ψ) {s : σ} {t : τ}
    (hst : φ s = ψ t) : (l.foldlM f s).map φ = (l'.foldlM g t).map ψ := by
  induction hl generalizing s t with
  | nil => exact congrArg Except.ok hst
  | cons hab _ ih =>
    have hstep := h _ _ hab s t hst
    rw [List.foldlM_cons, List.foldlM_cons]
    cases hf : f s _ with
    | error c =>
      cases hg : g t _ with
      | error c' =>
        rw [hf, hg] at hstep
        cases hstep
        rfl
      | ok t' => rw [hf, hg] at hstep; cases hstep
    | ok s' =>
      cases hg : g t _ with
      | error c' => rw [hf, hg] at hstep; cases hstep
      | ok t' =>
        rw [hf, hg] at hstep
        exact ih (Except.ok.inj hstep)

theorem map_bind_pure {α β γ : Type} (x : Except Cause α) (g : α → β) (c : γ) :
    ((x >>= fun a => pure (a, c)) : Except Cause (α × γ)).map (Prod.map g id) =
      (x.map g).map fun b => (b, c) := by
  cases x <;> rfl

theorem findSome?_forall₂ {α β γ : Type} {f : α → Option γ} {g : β → Option γ} {l : List α}
    {l' : List β} (h : List.Forall₂ (fun a b => f a = g b) l l') :
    l.findSome? f = l'.findSome? g := by
  induction h with
  | nil => rfl
  | cons hab _ ih => rw [List.findSome?_cons, List.findSome?_cons, hab, ih]

namespace Types

variable {ts ts' : Types} {s : Signature} {γ : Type}

theorem attrTypeWithin_stable (h : ts.ParentsOlder) {attr : String} {t : TypeId}
    {depth depth' : Nat} (hd : t < depth) (hd' : t < depth') :
    ts.attrTypeWithin attr depth t = ts.attrTypeWithin attr depth' t := by
  induction t using Nat.strongRecOn generalizing depth depth' with
  | ind t ih =>
    obtain ⟨k, rfl⟩ := Nat.exists_eq_add_of_lt hd
    obtain ⟨l, rfl⟩ := Nat.exists_eq_add_of_lt hd'
    rw [attrTypeWithin, attrTypeWithin]
    have hparents : (ts.get t).parents.reverse.findSome? (ts.attrTypeWithin attr (t + k)) =
        (ts.get t).parents.reverse.findSome? (ts.attrTypeWithin attr (t + l)) := by
      refine findSome?_forall₂ (List.forall₂_same.2 fun q hq => ?_)
      have hlt := h t q (List.mem_reverse.1 hq)
      exact ih q hlt (lt_of_lt_of_le hlt (Nat.le_add_right t k))
        (lt_of_lt_of_le hlt (Nat.le_add_right t l))
    rw [hparents]

/-- Related types have the same names, related parents, and methods for a signature that look alike,
when a method is looked at by `φ` in one family of types and by `φ'` in the other. What is seen of a
method tells the name of its owner. -/
structure Resemble (ts ts' : Types) (s : Signature) (φ φ' : TypeId × Overload → γ)
    (R : TypeId → TypeId → Prop) : Prop where
  owner : ∀ hit hit', φ hit = φ' hit' → ts.name hit.1 = ts'.name hit'.1
  name : ∀ t t', R t t' → ts.name t = ts'.name t'
  parents : ∀ t t', R t t' → List.Forall₂ R (ts.get t).parents (ts'.get t').parents
  own : ∀ t t', R t t' →
    (ts.ownMethod? t s).map (fun o => φ (t, o)) = (ts'.ownMethod? t' s).map fun o => φ' (t', o)

namespace Resemble

variable {φ φ' : TypeId × Overload → γ} {R : TypeId → TypeId → Prop}
  (h : ts.Resemble ts' s φ φ' R) {t t' : TypeId}

include h

theorem join (ht : R t t') {found hit : Option (TypeId × Overload)}
    {found' hit' : Option (TypeId × Overload)} (hfound : found.map φ = found'.map φ')
    (hhit : hit.map φ = hit'.map φ') :
    (ts.join t s found hit).map (Option.map φ) =
      (ts'.join t' s found' hit').map (Option.map φ') := by
  cases hit with
  | none =>
    cases hit' with
    | none => cases found <;> cases found' <;> exact congrArg Except.ok hfound
    | some _ => cases hhit
  | some second =>
    cases hit' with
    | none => cases hhit
    | some second' =>
      cases found with
      | none =>
        cases found' with
        | none => exact congrArg Except.ok hhit
        | some _ => cases hfound
      | some first =>
        cases found' with
        | none => cases hfound
        | some first' =>
          have hfirst := h.owner _ _ (Option.some.inj hfound)
          have hsecond := h.owner _ _ (Option.some.inj hhit)
          simp only [Types.join, hfirst, hsecond, h.name t t' ht]
          split
          · exact congrArg Except.ok hfound
          · rfl

/-- **The searches for inherited methods go the same way.** -/
theorem inheritedWithin (depth : Nat) (ht : R t t') (visited : List String) :
    (ts.inheritedWithin s depth t visited).map (Prod.map (Option.map φ) id) =
      (ts'.inheritedWithin s depth t' visited).map (Prod.map (Option.map φ') id) := by
  induction depth generalizing t t' visited with
  | zero => rfl
  | succ depth ih =>
    rw [Types.inheritedWithin, Types.inheritedWithin]
    refine foldlM_map_eq (h.parents t t' ht) (fun p p' hp state state' hstate => ?_) rfl
    obtain ⟨found, visited⟩ := state
    obtain ⟨found', visited'⟩ := state'
    obtain ⟨hfound, hvisited⟩ := Prod.mk.inj hstate
    obtain rfl : visited = visited' := hvisited
    -- one more hit is joined to what was found
    have hjoin (hit hit' : Option (TypeId × Overload)) (v : List String)
        (hhit : hit.map φ = hit'.map φ') :
        ((ts.join t s found hit >>= fun found => pure (found, v)) :
            Except Cause _).map (Prod.map (Option.map φ) id) =
          ((ts'.join t' s found' hit' >>= fun found => pure (found, v)) :
            Except Cause _).map (Prod.map (Option.map φ') id) := by
      rw [map_bind_pure, map_bind_pure, h.join ht hfound hhit]
    dsimp only
    rw [h.name p p' hp]
    by_cases hv : ts'.name p' ∈ visited
    · rw [if_pos hv, if_pos hv]
      exact congrArg (fun f => Except.ok (f, visited)) hfound
    · rw [if_neg hv, if_neg hv]
      have hown := h.own p p' hp
      cases ho : ts.ownMethod? p s with
      | some o =>
        cases ho' : ts'.ownMethod? p' s with
        | none => rw [ho, ho'] at hown; cases hown
        | some o' =>
          rw [ho, ho'] at hown
          exact hjoin (some (p, o)) (some (p', o')) _ hown
      | none =>
        cases ho' : ts'.ownMethod? p' s with
        | some o' => rw [ho, ho'] at hown; cases hown
        | none =>
          have hrec := ih hp (ts'.name p' :: visited)
          cases hx : ts.inheritedWithin s depth p (ts'.name p' :: visited) with
          | error c =>
            cases hy : ts'.inheritedWithin s depth p' (ts'.name p' :: visited) with
            | error c' => rw [hx, hy] at hrec; cases hrec; rfl
            | ok r' => rw [hx, hy] at hrec; cases hrec
          | ok r =>
            cases hy : ts'.inheritedWithin s depth p' (ts'.name p' :: visited) with
            | error c' => rw [hx, hy] at hrec; cases hrec
            | ok r' =>
              rw [hx, hy] at hrec
              obtain ⟨hhit, hvisited⟩ := Prod.mk.inj (Except.ok.inj hrec)
              obtain ⟨hit, v⟩ := r
              obtain ⟨hit', v'⟩ := r'
              obtain rfl : v = v' := hvisited
              exact hjoin hit hit' v hhit

end Resemble

end Types

end Nominal
