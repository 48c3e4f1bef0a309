import Nominal.Text.Extending
import Nominal.Text.Graphic

/-!
# Quoted text

* `isVisible`: the characters that show something of their own.
* `quoted`: a text between double quotes, as debug texts show it.
-/

namespace Nominal.Text

/-- The lower-case hexadecimal digits of a number. -/
def hex (n : Nat) : String := String.ofList (Nat.toDigits 16 n)

/-- Whether a character is one of the letters without a shape that stand in for a missing part of a
Hangul syllable. -/
def isHangulFiller (c : Char) : Bool :=
  c == '\u115f' || c == '\u1160' || c == '\u3164' || c == '\uffa0'

/-- Whether a character shows something of its own when it stands alone. -/
def isVisible (c : Char) : Bool := isGraphic c && !isExtendingMark c && !isHangulFiller c

/-- A character inside quotes: the quote, the backslash and characters that show nothing of their
own are escaped. -/
def escaped (c : Char) : String :=
  match c with
  | '"' => "\\\""
  | '\\' => "\\\\"
  | '\n' => "\\n"
  | '\r' => "\\r"
  | '\t' => "\\t"
  | '\x00' => "\\0"
  | c => if isVisible c then c.toString else "\\u\x7b" ++ hex c.toNat ++ "\x7d"

/-- A text between double quotes. -/
def quoted (s : String) : String := "\"" ++ String.join (s.toList.map escaped) ++ "\""

end Nominal.Text
