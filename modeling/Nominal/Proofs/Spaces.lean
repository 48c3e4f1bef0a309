import Mathlib.Data.List.Basic

/-!
# Texts between spaces

Texts that contain no space can be joined by spaces and taken apart again, and such a text is also
recognised in front of and behind a fixed wording that contains a space.

* `Text.Spaceless`: the texts that contain no space.
* `Text.fields`: the texts between the spaces of a text.
* **`Text.fields_intercalate`**, **`Text.intercalate_fields`**: joining and taking apart.
* `Text.Spaceless.append_inj`, `Text.Spaceless.append_inj_right`: what stands beside a wording.
-/

namespace Nominal.Text

/-- The text contains no space. -/
def Spaceless (s : String) : Prop := ' ' ∉ s.toList

instance : DecidablePred Spaceless := fun s => inferInstanceAs (Decidable (' ' ∉ s.toList))

/-! ## Joining and taking apart -/

section Fields

variable {cs part : List Char} {parts : List String} {s text : String}

/-- The texts between the spaces of a text. -/
def fields (text : String) : List String := (text.toList.splitOn ' ').map String.ofList

theorem fields_ne_nil (text : String) : fields text ≠ [] := by
  simp [fields, List.splitOn_ne_nil]

theorem notMem_of_mem_splitOn (h : part ∈ cs.splitOn ' ') : ' ' ∉ part := by
  induction cs generalizing part with
  | nil =>
    obtain rfl : part = [] := by simpa using h
    exact List.not_mem_nil
  | cons c cs ih =>
    rw [List.splitOn_cons_eq_if_modifyHead] at h
    split_ifs at h with hc
    · obtain rfl | h := List.mem_cons.1 h
      · exact List.not_mem_nil
      · exact ih h
    · obtain ⟨first, rest, heq⟩ := List.exists_cons_of_ne_nil (List.splitOn_ne_nil ' ' cs)
      rw [heq] at h ih
      obtain rfl | h := List.mem_cons.1 h
      · have hspace : ' ' ≠ c := fun heq => hc (beq_iff_eq.2 heq.symm)
        exact List.not_mem_cons_of_ne_of_not_mem hspace (ih List.mem_cons_self)
      · exact ih (List.mem_cons_of_mem _ h)

theorem spaceless_of_mem_fields (h : s ∈ fields text) : Spaceless s := by
  obtain ⟨part, hpart, rfl⟩ := List.mem_map.1 h
  rw [Spaceless, String.toList_ofList]
  exact notMem_of_mem_splitOn hpart

/-- **A text is its fields joined by spaces.** -/
theorem intercalate_fields (text : String) : " ".intercalate (fields text) = text := by
  rw [← String.toList_inj, String.toList_intercalate, fields, List.map_map]
  have hid : String.toList ∘ String.ofList = id := funext fun _ => String.toList_ofList
  rw [hid, List.map_id]
  exact List.intercalate_splitOn ' '

/-- **Texts without spaces, joined by spaces, are the fields of the result.** -/
theorem fields_intercalate (hne : parts ≠ []) (h : ∀ s ∈ parts, Spaceless s) :
    fields (" ".intercalate parts) = parts := by
  have hspaceless : ∀ part ∈ parts.map String.toList, ' ' ∉ part := List.forall_mem_map.2 h
  have hsplit : ([' '].intercalate (parts.map String.toList)).splitOn ' ' =
      parts.map String.toList :=
    List.splitOn_intercalate ' ' hspaceless (by simpa using hne)
  have hid : String.ofList ∘ String.toList = id := funext fun _ => String.ofList_toList
  rw [fields, String.toList_intercalate]
  change (([' '].intercalate _).splitOn ' ').map _ = _
  rw [hsplit, List.map_map, hid, List.map_id]

end Fields

/-! ## Beside a wording -/

section Wording

variable {u v w x y : List Char} {s t wording front front' rest rest' : String}

/-- The first space of the wording tells where the wording starts. -/
theorem append_inj_of_notMem (hu : ' ' ∉ u) (hv : ' ' ∉ v) (hw : ' ' ∈ w)
    (h : u ++ (w ++ x) = v ++ (w ++ y)) : u = v ∧ x = y := by
  have hplace := congrArg (List.idxOf ' ') h
  rw [List.idxOf_append_of_notMem hu, List.idxOf_append_of_notMem hv,
    List.idxOf_append_of_mem hw, List.idxOf_append_of_mem hw] at hplace
  obtain ⟨rfl, hrest⟩ := List.append_inj h (by omega)
  exact ⟨rfl, List.append_cancel_left hrest⟩

theorem Spaceless.append_inj (hs : Spaceless s) (ht : Spaceless t) (hw : ' ' ∈ wording.toList)
    (h : s ++ (wording ++ rest) = t ++ (wording ++ rest')) : s = t ∧ rest = rest' := by
  simp only [← String.toList_inj, String.toList_append] at h ⊢
  exact append_inj_of_notMem hs ht hw h

theorem Spaceless.append_inj_right (hs : Spaceless s) (ht : Spaceless t)
    (hw : ' ' ∈ wording.toList) (h : front ++ wording ++ s = front' ++ wording ++ t) :
    front = front' ∧ s = t := by
  have hback := congrArg (List.reverse ∘ String.toList) h
  simp only [Function.comp_apply, String.toList_append, List.reverse_append] at hback
  obtain ⟨hst, hfront⟩ := append_inj_of_notMem (by rwa [List.mem_reverse])
    (by rwa [List.mem_reverse]) (by rwa [List.mem_reverse]) hback
  exact ⟨String.toList_inj.1 (List.reverse_inj.1 hfront),
    String.toList_inj.1 (List.reverse_inj.1 hst)⟩

theorem spaceless_repr (n : ℕ) : Spaceless n.repr := by
  intro h
  rw [Nat.toList_repr] at h
  have hdigit := Nat.isDigit_of_mem_toDigits (by decide) (by decide) h
  contradiction

end Wording

end Nominal.Text
