import Nominal.Position

/-!
# Lexical errors

* `LexFault`: what is wrong with a text.
* `LexError`: a fault and the place where the malformed token starts.
-/

namespace Nominal

/-- What is wrong with a text. -/
inductive LexFault where
  | unexpectedChar (c : Char)
  | tooManyDots
  | intOverflow (digits : String)
  | unterminatedString
  | unterminatedComment
  | invalidEscape
deriving DecidableEq, Repr

/-- The wording of a fault. -/
def LexFault.text : LexFault → String
  | .unexpectedChar c => s!"unexpected character '{c}'"
  | .tooManyDots => "too many dots in a number"
  | .intOverflow digits => s!"integer literal '{digits}' does not fit in 64 bits"
  | .unterminatedString => "unexpected EOF in a string"
  | .unterminatedComment => "unexpected EOF in a long comment"
  | .invalidEscape => "wrong escape sequence"

/-- A fault and where the malformed token starts. -/
structure LexError where
  fault : LexFault
  position : Position
deriving DecidableEq, Repr

/-- The text shown for an error. -/
def LexError.message (e : LexError) : String := s!"LexError at {e.position.text}: {e.fault.text}."

end Nominal
