import Mathlib
import Nominal.Error
import Nominal.Proofs.Spaces

/-!
# Keys in diagnostics

The text of a signature is a flat list of names, in which the receiver takes the place of a
parameter. It can be read back if and only if no name contains a space and no free function has the
receiver's name for its first parameter type. So these signatures and all texts correspond one to
one, and every other signature shares its text with one of them. A diagnostic about an overload puts
the text into a wording that can be read back, too.

* `Signature.Legible`: the signatures that can be told from their texts.
* `Signature.ofText`: the signature that a text shows.
* **`Signature.legible_iff`**, **`Signature.text_ofText`**: reading and writing undo each other.
* `Cause.Shows`: the causes that are about an overload.
* **`Cause.Shows.text_inj`**, **`EvalError.message_inj`**: what a diagnostic tells.
* **`KeysIdentify`**, **`keys_identify`**: all signatures, and all diagnostics about overloads.
-/

namespace Nominal

open Text

/-! ## Texts of signatures -/

namespace Signature

/-- The names that the text of a signature shows. -/
def names (s : Signature) : List String :=
  s.name :: (if s.receiver then [receiverName] else []) ++ s.params

/-- The signature that a list of names shows. -/
def ofNames : List String → Signature
  | [] => function "" []
  | [name] => function name []
  | name :: first :: rest =>
    if first = receiverName then method name rest else function name (first :: rest)

/-- The signature that a text shows. -/
def ofText (text : String) : Signature := ofNames (fields text)

/-- A signature whose names contain no space, and a free function does not have the receiver's name
for its first parameter type. -/
structure Legible (s : Signature) : Prop where
  name : Spaceless s.name
  params : ∀ p ∈ s.params, Spaceless p
  first : s.receiver = false → s.params.head? ≠ some receiverName

variable {s t : Signature} {name : String} {params ns : List String}

theorem text_eq (s : Signature) : s.text = " ".intercalate s.names := rfl

theorem names_ne_nil (s : Signature) : s.names ≠ [] := List.cons_ne_nil _ _

theorem spaceless_receiverName : Spaceless receiverName := by decide

theorem Legible.spaceless_names (h : s.Legible) : ∀ n ∈ s.names, Spaceless n := by
  intro n hn
  obtain ⟨name, receiver, params⟩ := s
  obtain rfl | hn := List.mem_cons.1 hn
  · exact h.name
  · cases receiver with
    | false => exact h.params n hn
    | true =>
      obtain rfl | hn := List.mem_cons.1 hn
      · exact spaceless_receiverName
      · exact h.params n hn

theorem ofNames_names (h : s.receiver = false → s.params.head? ≠ some receiverName) :
    ofNames s.names = s := by
  obtain ⟨name, receiver, params⟩ := s
  cases receiver with
  | true => simp [names, ofNames, method]
  | false =>
    cases params with
    | nil => rfl
    | cons first rest =>
      have hfirst : first ≠ receiverName := fun heq => h rfl (congrArg some heq)
      exact if_neg hfirst

theorem names_ofNames (h : ns ≠ []) : (ofNames ns).names = ns := by
  obtain _ | ⟨name, _ | ⟨first, rest⟩⟩ := ns
  · contradiction
  · rfl
  · rw [ofNames]
    split_ifs with hfirst
    · rw [hfirst]
      rfl
    · rfl

theorem legible_method_iff :
    (method name params).Legible ↔ Spaceless name ∧ ∀ p ∈ params, Spaceless p :=
  ⟨fun h => ⟨h.name, h.params⟩, fun h => ⟨h.1, h.2, nofun⟩⟩

theorem legible_function_iff : (function name params).Legible ↔
    Spaceless name ∧ (∀ p ∈ params, Spaceless p) ∧ params.head? ≠ some receiverName :=
  ⟨fun h => ⟨h.name, h.params, h.first rfl⟩, fun h => ⟨h.1, h.2.1, fun _ => h.2.2⟩⟩

theorem legible_ofNames (h : ∀ n ∈ ns, Spaceless n) : (ofNames ns).Legible := by
  obtain _ | ⟨name, _ | ⟨first, rest⟩⟩ := ns
  · exact legible_function_iff.2 ⟨by decide, by simp, by simp⟩
  · exact legible_function_iff.2 ⟨h name List.mem_cons_self, by simp, by simp⟩
  · have hname := h name List.mem_cons_self
    have hrest := List.forall_mem_of_forall_mem_cons h
    rw [ofNames]
    split_ifs with hfirst
    · exact legible_method_iff.2 ⟨hname, List.forall_mem_of_forall_mem_cons hrest⟩
    · exact legible_function_iff.2 ⟨hname, hrest, by simpa using hfirst⟩

theorem Legible.ofText_text (h : s.Legible) : ofText s.text = s := by
  rw [ofText, text_eq, fields_intercalate s.names_ne_nil h.spaceless_names, ofNames_names h.first]

/-- **Every text is the text of the signature that it shows.** -/
theorem text_ofText (text : String) : (ofText text).text = text := by
  rw [text_eq, ofText, names_ofNames (fields_ne_nil text), intercalate_fields]

theorem legible_ofText (text : String) : (ofText text).Legible :=
  legible_ofNames fun _ => spaceless_of_mem_fields

/-- **The legible signatures are those that can be read back.** -/
theorem legible_iff : s.Legible ↔ ofText s.text = s :=
  ⟨Legible.ofText_text, fun h => h ▸ legible_ofText s.text⟩

theorem Legible.text_inj (hs : s.Legible) (ht : t.Legible) (h : s.text = t.text) : s = t := by
  rw [← hs.ofText_text, ← ht.ofText_text, h]

theorem Legible.text_eq_iff (hs : s.Legible) (ht : t.Legible) :
    s.text = t.text ↔ s.name = t.name ∧ s.receiver = t.receiver ∧ s.params = t.params := by
  constructor
  · intro h
    obtain rfl := hs.text_inj ht h
    exact ⟨rfl, rfl, rfl⟩
  · rintro ⟨hname, hreceiver, hparams⟩
    rw [text, text, hname, hreceiver, hparams]

/-! ### Constructors and operators -/

theorem legible_constructor_iff : (constructor params).Legible ↔ ∀ p ∈ params, Spaceless p := by
  have hname : Spaceless constructorName := by decide
  rw [constructor, legible_method_iff, and_iff_right hname]

theorem spaceless_binary (op : BinaryOp) : Spaceless op.callableName := by
  cases op <;> decide

theorem spaceless_unary (op : UnaryOp) : Spaceless op.callableName := by
  cases op <;> decide

theorem legible_binaryMethod_iff {op : BinaryOp} {right : String} :
    (binaryMethod op right).Legible ↔ Spaceless right := by
  simp [binaryMethod, legible_method_iff, spaceless_binary]

theorem legible_binaryFunction_iff {op : BinaryOp} {left right : String} :
    (binaryFunction op left right).Legible ↔
      Spaceless left ∧ Spaceless right ∧ left ≠ receiverName := by
  simp [binaryFunction, legible_function_iff, spaceless_binary, and_assoc]

theorem legible_unaryMethod (op : UnaryOp) : (unaryMethod op).Legible :=
  legible_method_iff.2 ⟨spaceless_unary op, by simp⟩

theorem legible_unaryFunction_iff {op : UnaryOp} {operand : String} :
    (unaryFunction op operand).Legible ↔ Spaceless operand ∧ operand ≠ receiverName := by
  simp [unaryFunction, legible_function_iff, spaceless_unary]

end Signature

/-! ## Diagnostics -/

/-- A cause is about an overload, and the names of types beside it contain no space. -/
inductive Cause.Shows : Cause → Signature → Prop
  | undefinedFunction (s : Signature) : Shows (.undefinedFunction s) s
  | undefinedMethod {type : String} (s : Signature) (htype : Spaceless type) :
    Shows (.undefinedMethod type s) s
  | ambiguousMethod {type first second : String} (s : Signature) (htype : Spaceless type)
    (hfirst : Spaceless first) (hsecond : Spaceless second) :
    Shows (.ambiguousMethod type s first second) s

namespace Cause

variable {c c' : Cause} {s t : Signature}

theorem text_undefinedFunction (s : Signature) :
    (undefinedFunction s).text = "undefined function '" ++ s.text ++ "'" := rfl

theorem text_undefinedMethod (type : String) (s : Signature) :
    (undefinedMethod type s).text = "type '" ++ type ++ "' has no method '" ++ s.text ++ "'" := rfl

theorem text_ambiguousMethod (type : String) (s : Signature) (first second : String) :
    (ambiguousMethod type s first second).text = "method '" ++ s.text ++ "' of type '" ++ type ++
      "' is inherited from both '" ++ first ++ "' and '" ++ second ++ "'" := rfl

theorem text_undefinedMethod_inj {type type' : String} (htype : Spaceless type)
    (htype' : Spaceless type')
    (h : (undefinedMethod type s).text = (undefinedMethod type' t).text) :
    type = type' ∧ s.text = t.text := by
  simp only [text_undefinedMethod, String.append_assoc, String.append_right_inj] at h
  obtain ⟨rfl, hkey⟩ := htype.append_inj htype' (by decide) h
  exact ⟨rfl, (String.append_left_inj _).1 hkey⟩

/-- The key may contain spaces, so the names are read from the end. -/
theorem text_ambiguousMethod_inj {type type' first first' second second' : String}
    (htype : Spaceless type) (htype' : Spaceless type') (hfirst : Spaceless first)
    (hfirst' : Spaceless first') (hsecond : Spaceless second) (hsecond' : Spaceless second')
    (h : (ambiguousMethod type s first second).text =
      (ambiguousMethod type' t first' second').text) :
    type = type' ∧ s.text = t.text ∧ first = first' ∧ second = second' := by
  rw [text_ambiguousMethod, text_ambiguousMethod, String.append_left_inj] at h
  obtain ⟨htofirst, rfl⟩ := hsecond.append_inj_right hsecond' (by decide) h
  obtain ⟨htotype, rfl⟩ := hfirst.append_inj_right hfirst' (by decide) htofirst
  obtain ⟨htokey, rfl⟩ := htype.append_inj_right htype' (by decide) htotype
  exact ⟨rfl, (String.append_right_inj _).1 htokey, rfl, rfl⟩

theorem Shows.unique (hs : c.Shows s) (ht : c.Shows t) : s = t := by
  cases hs <;> cases ht <;> rfl

/-- The first letter of the wording tells the kind of the cause. -/
theorem Shows.head?_text (h : c.Shows s) : c.text.toList.head? =
    match c with
    | .undefinedFunction _ => some 'u'
    | .undefinedMethod .. => some 't'
    | _ => some 'm' := by
  cases h with
  | undefinedFunction => simp [text_undefinedFunction]
  | undefinedMethod => simp [text_undefinedMethod]
  | ambiguousMethod => simp [text_ambiguousMethod]

theorem Shows.category_eq (h : c.Shows s) : c.category = .nameResolution := by
  cases h <;> rfl

/-- **The wording of a cause tells the cause.** -/
theorem Shows.text_inj (hc : c.Shows s) (hc' : c'.Shows t) (hs : s.Legible) (ht : t.Legible)
    (h : c.text = c'.text) : c = c' := by
  have hhead := congrArg (fun text => text.toList.head?) h
  rw [hc.head?_text, hc'.head?_text] at hhead
  cases hc with
  | undefinedFunction =>
    cases hc' with
    | undefinedFunction =>
      rw [text_undefinedFunction, text_undefinedFunction, String.append_left_inj,
        String.append_right_inj] at h
      rw [hs.text_inj ht h]
    | undefinedMethod => cases hhead
    | ambiguousMethod => cases hhead
  | undefinedMethod _ htype =>
    cases hc' with
    | undefinedFunction => cases hhead
    | undefinedMethod _ htype' =>
      obtain ⟨rfl, hkey⟩ := text_undefinedMethod_inj htype htype' h
      rw [hs.text_inj ht hkey]
    | ambiguousMethod => cases hhead
  | ambiguousMethod _ htype hfirst hsecond =>
    cases hc' with
    | undefinedFunction => cases hhead
    | undefinedMethod => cases hhead
    | ambiguousMethod _ htype' hfirst' hsecond' =>
      obtain ⟨rfl, hkey, rfl, rfl⟩ :=
        text_ambiguousMethod_inj htype htype' hfirst hfirst' hsecond hsecond' h
      rw [hs.text_inj ht hkey]

end Cause

theorem Position.text_append_inj {p q : Position} {x y : String}
    (h : p.text ++ (": " ++ x) = q.text ++ (": " ++ y)) : p = q ∧ x = y := by
  obtain ⟨line, column⟩ := p
  obtain ⟨line', column'⟩ := q
  have hwords (p : Position) : p.text = "line " ++ p.line.repr ++ ", column " ++ p.column.repr :=
    rfl
  simp only [hwords, String.append_assoc, String.append_right_inj] at h
  obtain ⟨hline, hrest⟩ := (spaceless_repr line).append_inj (spaceless_repr line') (by decide) h
  obtain ⟨hcolumn, htext⟩ :=
    (spaceless_repr column).append_inj (spaceless_repr column') (by decide) hrest
  rw [Nat.repr_injective hline, Nat.repr_injective hcolumn]
  exact ⟨rfl, htext⟩

namespace EvalError

variable {e e' : EvalError} {s t : Signature}

/-- The text between the family of a cause and its wording. -/
def place : Option Position → String
  | some p => " at " ++ p.text
  | none => ""

theorem message_eq (e : EvalError) :
    e.message = e.cause.category.text ++ place e.position ++ ": " ++ e.cause.text ++ "." := by
  rcases e with ⟨c, _ | p⟩ <;> rfl

theorem place_append_inj {p q : Option Position} {x y : String}
    (h : place p ++ (": " ++ x) = place q ++ (": " ++ y)) : p = q ∧ x = y := by
  cases p with
  | none =>
    cases q with
    | none => simpa [place] using h
    | some q => simp [place, ← String.toList_inj] at h
  | some p =>
    cases q with
    | none => simp [place, ← String.toList_inj] at h
    | some q =>
      simp only [place, String.append_assoc, String.append_right_inj] at h
      obtain ⟨rfl, htext⟩ := Position.text_append_inj h
      exact ⟨rfl, htext⟩

/-- **The message of an error about an overload tells the error.** -/
theorem message_inj (hc : e.cause.Shows s) (hc' : e'.cause.Shows t) (hs : s.Legible)
    (ht : t.Legible) (h : e.message = e'.message) : e = e' := by
  obtain ⟨c, p⟩ := e
  obtain ⟨c', p'⟩ := e'
  rw [message_eq, message_eq, hc.category_eq, hc'.category_eq, String.append_left_inj] at h
  simp only [String.append_assoc, String.append_right_inj] at h
  obtain ⟨rfl, htext⟩ := place_append_inj h
  obtain rfl := hc.text_inj hc' hs ht htext
  rfl

end EvalError

/-! ## All signatures -/

/-- What the texts of signatures tell, alone and in diagnostics. -/
structure KeysIdentify : Prop where
  text : ∀ s t : Signature, s.Legible → t.Legible →
    (s.text = t.text ↔ s.name = t.name ∧ s.receiver = t.receiver ∧ s.params = t.params)
  constructors : ∀ params,
    (Signature.constructor params).Legible ↔ ∀ p ∈ params, Spaceless p
  binary : ∀ op left right, ((Signature.binaryMethod op right).Legible ↔ Spaceless right) ∧
    ((Signature.binaryFunction op left right).Legible ↔
      Spaceless left ∧ Spaceless right ∧ left ≠ receiverName)
  unary : ∀ op operand, (Signature.unaryMethod op).Legible ∧
    ((Signature.unaryFunction op operand).Legible ↔ Spaceless operand ∧ operand ≠ receiverName)
  collides : ∀ s : Signature, ¬ s.Legible →
    ∃ t : Signature, t.Legible ∧ t ≠ s ∧ t.text = s.text
  message : ∀ (e e' : EvalError) (s t : Signature), e.cause.Shows s → e'.cause.Shows t →
    s.Legible → t.Legible → e.message = e'.message → e = e' ∧ s = t

/-- **The text of a signature identifies the overload, alone and in a diagnostic.** -/
theorem keys_identify : KeysIdentify where
  text _ _ hs ht := hs.text_eq_iff ht
  constructors _ := Signature.legible_constructor_iff
  binary _ _ _ := ⟨Signature.legible_binaryMethod_iff, Signature.legible_binaryFunction_iff⟩
  unary op _ := ⟨Signature.legible_unaryMethod op, Signature.legible_unaryFunction_iff⟩
  collides s hs := by
    refine ⟨Signature.ofText s.text, Signature.legible_ofText s.text, ?_,
      Signature.text_ofText s.text⟩
    intro heq
    exact hs (Signature.legible_iff.2 heq)
  message e e' s t hc hc' hs ht h := by
    obtain rfl := EvalError.message_inj hc hc' hs ht h
    exact ⟨rfl, hc.unique hc'⟩

/-- A method and a function of the same arity, and a function that is mistaken for the method. -/
theorem keys_identify_receiver :
    let onReceiver := Signature.method "f" ["Int"]
    let free := Signature.function "f" ["Int", "Int"]
    let mistaken := Signature.function "f" ["this", "Int"]
    onReceiver.Legible ∧ free.Legible ∧ onReceiver.text ≠ free.text ∧
      (EvalError.ofCause (.undefinedMethod "A" onReceiver)).message ≠
        (EvalError.ofCause (.undefinedFunction free)).message ∧
      ¬ mistaken.Legible ∧ mistaken.text = onReceiver.text ∧
      ∃ t : Signature, t.Legible ∧ t ≠ mistaken ∧ t.text = mistaken.text := by
  intro onReceiver free mistaken
  have hmethod : onReceiver.Legible := Signature.legible_method_iff.2 ⟨by decide, by decide⟩
  have hfree : free.Legible :=
    Signature.legible_function_iff.2 ⟨by decide, by decide, by decide⟩
  have hmistaken : ¬ mistaken.Legible := fun h => h.first rfl rfl
  refine ⟨hmethod, hfree, ?_, ?_, hmistaken, rfl, keys_identify.collides _ hmistaken⟩
  · intro h
    obtain ⟨-, hreceiver, -⟩ := (keys_identify.text _ _ hmethod hfree).1 h
    cases hreceiver
  · intro h
    obtain ⟨-, heq⟩ := keys_identify.message _ _ _ _ (.undefinedMethod _ (by decide))
      (.undefinedFunction _) hmethod hfree h
    have hreceiver : true = false := congrArg Signature.receiver heq
    cases hreceiver

end Nominal
