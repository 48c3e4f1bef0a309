import Nominal.Literal
import Nominal.Position

/-!
# Tokens

* `Mark`: operators and punctuation.
* `Keyword`: reserved words.
* `Lexeme`: what a token is, with its name or constant.
* `Token`: a lexeme and the position of its first character.
-/

namespace Nominal

/-- Operators and punctuation. -/
inductive Mark where
  | add | sub | mul | div | mod
  | eq | ne | gt | lt | ge | le
  | shl | shr | and | or | bitAnd | bitOr | xor | not | inv
  | openParen | closeParen | openBracket | closeBracket | openBrace | closeBrace
  | comma | colon | dot | semicolon | assign
deriving DecidableEq, Repr

/-- Reserved words. -/
inductive Keyword where
  | ifWord | elseWord | whileWord | varWord | funcWord | returnWord | breakWord | continueWord
deriving DecidableEq, Repr

namespace Mark

/-- The written form. -/
def spelling : Mark → String
  | .add => "+"
  | .sub => "-"
  | .mul => "*"
  | .div => "/"
  | .mod => "%"
  | .eq => "=="
  | .ne => "!="
  | .gt => ">"
  | .lt => "<"
  | .ge => ">="
  | .le => "<="
  | .shl => "<<"
  | .shr => ">>"
  | .and => "&&"
  | .or => "||"
  | .bitAnd => "&"
  | .bitOr => "|"
  | .xor => "^"
  | .not => "!"
  | .inv => "~"
  | .openParen => "("
  | .closeParen => ")"
  | .openBracket => "["
  | .closeBracket => "]"
  | .openBrace => "\x7b"
  | .closeBrace => "\x7d"
  | .comma => ","
  | .colon => ":"
  | .dot => "."
  | .semicolon => ";"
  | .assign => "="

/-- The mark of two characters that `c` and `d` form. -/
def ofPair? (c d : Char) : Option Mark :=
  match c, d with
  | '=', '=' => some .eq
  | '!', '=' => some .ne
  | '>', '=' => some .ge
  | '<', '=' => some .le
  | '<', '<' => some .shl
  | '>', '>' => some .shr
  | '&', '&' => some .and
  | '|', '|' => some .or
  | _, _ => none

/-- The mark of one character. -/
def ofChar? : Char → Option Mark
  | '+' => some .add
  | '-' => some .sub
  | '*' => some .mul
  | '/' => some .div
  | '%' => some .mod
  | '>' => some .gt
  | '<' => some .lt
  | '&' => some .bitAnd
  | '|' => some .bitOr
  | '^' => some .xor
  | '!' => some .not
  | '~' => some .inv
  | '(' => some .openParen
  | ')' => some .closeParen
  | '[' => some .openBracket
  | ']' => some .closeBracket
  | '\x7b' => some .openBrace
  | '\x7d' => some .closeBrace
  | ',' => some .comma
  | ':' => some .colon
  | '.' => some .dot
  | ';' => some .semicolon
  | '=' => some .assign
  | _ => none

end Mark

namespace Keyword

/-- The reserved words, each once. -/
def all : List Keyword :=
  [.ifWord, .elseWord, .whileWord, .varWord, .funcWord, .returnWord, .breakWord, .continueWord]

/-- The written form. -/
def spelling : Keyword → String
  | .ifWord => "if"
  | .elseWord => "else"
  | .whileWord => "while"
  | .varWord => "var"
  | .funcWord => "func"
  | .returnWord => "return"
  | .breakWord => "break"
  | .continueWord => "continue"

/-- The reserved word written as `s`. -/
def ofSpelling? (s : String) : Option Keyword := all.find? fun k => k.spelling = s

end Keyword

/-- What a token is. -/
inductive Lexeme where
  | eof
  | mark (m : Mark)
  | keyword (k : Keyword)
  | ident (name : String)
  | const (value : Literal)

/-- The fixed spelling of a lexeme, or a name for its family. -/
def Lexeme.text : Lexeme → String
  | .eof => "<eof>"
  | .mark m => m.spelling
  | .keyword k => k.spelling
  | .ident _ => "<identifier>"
  | .const _ => "<constant>"

/-- A lexeme at its place in the source text. -/
structure Token where
  lexeme : Lexeme
  position : Position

end Nominal
