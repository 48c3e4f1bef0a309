import Nominal.Lexer.Fault

/-!
# String bodies

A string is written between two equal quotes. Inside, each character stands for itself or is
written as an escape: a backslash and a letter, or a backslash, `x` or `u`, and two or four
hexadecimal digits.

* `StringBody.Item`: one character of a string, as it is written and as it is meant.
* `StringBody.scan`: the items up to the closing quote.
-/

namespace Nominal.StringBody

/-- One character of a string. -/
structure Item where
  text : List Char
  char : Char
deriving DecidableEq, Repr

/-- The character that a backslash and a letter stand for. -/
def simpleEscape? : Char → Option Char
  | 'r' => some '\r'
  | 't' => some '\t'
  | 'a' => some '\x07'
  | 'f' => some '\x0c'
  | 'v' => some '\x0b'
  | 'b' => some '\x08'
  | 'n' => some '\n'
  | '"' => some '"'
  | '\'' => some '\''
  | '\\' => some '\\'
  | _ => none

/-- The number of hexadecimal digits behind a letter that announces a character code. -/
def codeLength? : Char → Option Nat
  | 'x' => some 2
  | 'u' => some 4
  | _ => none

/-- The value of a hexadecimal digit. -/
def hexValue? (c : Char) : Option Nat :=
  if c.isDigit then some (c.toNat - '0'.toNat)
  else if 'a' ≤ c ∧ c ≤ 'f' then some (c.toNat - 'a'.toNat + 10)
  else if 'A' ≤ c ∧ c ≤ 'F' then some (c.toNat - 'A'.toNat + 10)
  else none

/-- The character with a given code, unless the code is a surrogate or too large. -/
def charOfCode? (n : Nat) : Option Char := if n.isValidChar then some (Char.ofNat n) else none

/-- Exactly `n` hexadecimal digits, the code they write after `code`, and the text behind them. -/
def hexDigits : (n : Nat) → (code : Nat) → List Char →
    Except LexFault (List Char × Nat × List Char)
  | 0, code, cs => .ok ([], code, cs)
  | _ + 1, _, [] => .error .unterminatedString
  | n + 1, code, c :: cs =>
    match hexValue? c with
    | none => .error .invalidEscape
    | some v =>
      match hexDigits n (16 * code + v) cs with
      | .error f => .error f
      | .ok (digits, code, rest) => .ok (c :: digits, code, rest)

/-- The escape behind a backslash, and the text behind it. -/
def escape : List Char → Except LexFault (Item × List Char)
  | [] => .error .unterminatedString
  | e :: cs =>
    match simpleEscape? e with
    | some c => .ok (⟨['\\', e], c⟩, cs)
    | none =>
      match codeLength? e with
      | none => .error .invalidEscape
      | some n =>
        match hexDigits n 0 cs with
        | .error f => .error f
        | .ok (digits, code, rest) =>
          match charOfCode? code with
          | none => .error .invalidEscape
          | some c => .ok (⟨'\\' :: e :: digits, c⟩, rest)

/-- The item that starts with `c`, and the text behind it. -/
def item (c : Char) (cs : List Char) : Except LexFault (Item × List Char) :=
  if c = '\\' then escape cs else .ok (⟨[c], c⟩, cs)

theorem hexDigits_eq {n code : Nat} {cs digits rest : List Char} {code' : Nat}
    (h : hexDigits n code cs = .ok (digits, code', rest)) : cs = digits ++ rest := by
  induction n generalizing code cs digits with
  | zero => simp only [hexDigits, Except.ok.injEq, Prod.mk.injEq] at h; simp [← h.1, h.2.2]
  | succ n ih =>
    cases cs with
    | nil => simp [hexDigits] at h
    | cons c cs =>
      simp only [hexDigits] at h
      split at h
      · cases h
      · split at h
        · cases h
        · next hd =>
          cases h
          rw [ih hd, List.cons_append]

theorem escape_eq {cs rest : List Char} {i : Item} (h : escape cs = .ok (i, rest)) :
    '\\' :: cs = i.text ++ rest := by
  cases cs with
  | nil => simp [escape] at h
  | cons e cs =>
    simp only [escape] at h
    split at h
    · cases h; rfl
    · split at h
      · cases h
      · split at h
        · cases h
        · next hd =>
          split at h
          · cases h
          · cases h; simp [hexDigits_eq hd]

theorem item_eq {c : Char} {cs rest : List Char} {i : Item} (h : item c cs = .ok (i, rest)) :
    c :: cs = i.text ++ rest := by
  unfold item at h
  split at h
  · next hc => rw [hc, escape_eq h]
  · cases h; rfl

theorem escape_text_pos {cs rest : List Char} {i : Item} (h : escape cs = .ok (i, rest)) :
    0 < i.text.length := by
  cases cs with
  | nil => simp [escape] at h
  | cons e cs =>
    simp only [escape] at h
    split at h
    · cases h; simp
    · split at h
      · cases h
      · split at h
        · cases h
        · split at h
          · cases h
          · cases h; simp

theorem item_length {c : Char} {cs rest : List Char} {i : Item} (h : item c cs = .ok (i, rest)) :
    rest.length ≤ cs.length := by
  have hpos : 0 < i.text.length := by
    unfold item at h
    split at h
    · exact escape_text_pos h
    · cases h; simp
  have := congrArg List.length (item_eq h)
  simp only [List.length_cons, List.length_append] at this
  omega

/-- The items of a string up to its closing quote, and the text behind that quote. -/
def scan (quote : Char) (cs : List Char) : Except LexFault (List Item × List Char) :=
  match cs with
  | [] => .error .unterminatedString
  | c :: cs =>
    if c = quote then .ok ([], cs)
    else
      match _h : item c cs with
      | .error f => .error f
      | .ok (i, rest) =>
        match scan quote rest with
        | .error f => .error f
        | .ok (items, rest) => .ok (i :: items, rest)
termination_by cs.length
decreasing_by exact Nat.lt_succ_of_le (item_length _h)

/-- The text that items are written with. -/
def written (items : List Item) : List Char := items.flatMap Item.text

/-- The text that items stand for. -/
def meaning (items : List Item) : String := String.ofList (items.map Item.char)

theorem scan_eq {quote : Char} {cs : List Char} {items : List Item} {rest : List Char}
    (h : scan quote cs = .ok (items, rest)) : cs = written items ++ quote :: rest := by
  fun_induction scan quote cs generalizing items with
  | case1 => cases h
  | case2 cs => cases h; simp [written]
  | case3 => cases h
  | case4 => cases h
  | case5 c cs _ i rest' hi items' rest'' hs ih =>
    cases h
    rw [item_eq hi, ih hs]
    simp [written]

end Nominal.StringBody
