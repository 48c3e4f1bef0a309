import Nominal.Proofs.Places

/-!
# Written tokens

How a list of tokens is written as a source text. Every type here only has well-formed members: a
name is not a reserved word, a comment does not hold its own end.

* `Name`: identifiers.
* `Spelling`: one token as it is written, with its text and its lexeme.
* `Separator`: what stands between two tokens, white space and comments behind a first blank.
* `Writing`: tokens with separators between them, its text and the tokens it stands for.
-/

namespace Nominal

/-! ### Spellings -/

/-- Words that are not identifiers. -/
def reservedWords : List String := Keyword.all.map Keyword.spelling ++ ["True", "False", "None"]

/-- An identifier: a letter or an underscore, then letters, digits and underscores. -/
structure Name where
  head : Char
  tail : List Char
  isStart : head.isAlpha ∨ head = '_'
  areParts : ∀ c ∈ tail, c.isAlphanum ∨ c = '_'
  free : String.ofList (head :: tail) ∉ reservedWords

/-- The quotes that strings are written between. -/
inductive Quote where
  | single | double

namespace Quote

/-- The character. -/
def char : Quote → Char
  | .single => '\''
  | .double => '"'

/-- How a character is written inside a string: the backslash and the quote behind a backslash. -/
def escaped (q : Quote) (c : Char) : List Char :=
  if c = '\\' ∨ c = q.char then ['\\', c] else [c]

end Quote

/-- A token as it is written. -/
inductive Spelling where
  | mark (m : Mark)
  | keyword (k : Keyword)
  | ident (x : Name)
  | bool (b : Bool)
  | none
  | int (n : Nat) (fits : n < 2 ^ 63)
  | string (quote : Quote) (s : String)

namespace Spelling

/-- The characters. -/
def text : Spelling → List Char
  | mark m => m.spelling.toList
  | keyword k => k.spelling.toList
  | ident x => x.head :: x.tail
  | bool true => ['T', 'r', 'u', 'e']
  | bool false => ['F', 'a', 'l', 's', 'e']
  | none => ['N', 'o', 'n', 'e']
  | int n _ => Nat.toDigits 10 n
  | string quote s => quote.char :: s.toList.flatMap quote.escaped ++ [quote.char]

/-- What the token is. -/
def lexeme : Spelling → Lexeme
  | mark m => .mark m
  | keyword k => .keyword k
  | ident x => .ident (String.ofList (x.head :: x.tail))
  | bool b => .const (.bool b)
  | none => .const .none
  | int n _ => .const (.int (Int64.ofNat n))
  | string _ s => .const (.string s)

end Spelling

/-! ### Separators -/

/-- White space. -/
inductive Blank where
  | space | tab | return | feed

/-- The character. -/
def Blank.char : Blank → Char
  | .space => ' '
  | .tab => '\t'
  | .return => '\r'
  | .feed => '\n'

/-- A character of white space or a comment. -/
inductive Gap where
  | blank (b : Blank)
  | line (comment : List Char) (inside : '\n' ∉ comment)
  | block (comment : List Char) (inside : ¬ ['*', '/'] <:+: comment)

/-- The characters. -/
def Gap.text : Gap → List Char
  | .blank b => [b.char]
  | .line comment _ => '/' :: '/' :: comment ++ ['\n']
  | .block comment _ => '/' :: '*' :: comment ++ ['*', '/']

/-- What stands between two tokens. -/
structure Separator where
  first : Blank
  gaps : List Gap

/-- The characters. -/
def Separator.text (s : Separator) : List Char := s.first.char :: s.gaps.flatMap Gap.text

/-- The characters of a separator that may be absent. -/
def Separator.optional : Option Separator → List Char
  | some s => s.text
  | none => []

/-! ### Writings -/

/-- Tokens in order, a separator behind each of them. It may be absent behind the last one. -/
inductive Writing where
  | done
  | last (s : Spelling)
  | more (s : Spelling) (behind : Separator) (rest : Writing)

namespace Writing

/-- The characters. -/
def text : Writing → List Char
  | done => []
  | last s => s.text
  | more s behind rest => s.text ++ (behind.text ++ rest.text)

/-- The tokens of a text that starts at `p`, each at the place of its first character, and the end
of the text. -/
def tokens (p : Position) : Writing → List Token
  | done => [⟨.eof, p⟩]
  | last s => [⟨s.lexeme, p⟩, ⟨.eof, p.after s.text⟩]
  | more s behind rest => ⟨s.lexeme, p⟩ :: rest.tokens ((p.after s.text).after behind.text)

end Writing

end Nominal
