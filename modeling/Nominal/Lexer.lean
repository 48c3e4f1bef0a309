import Nominal.Lexer.Lines
import Nominal.Lexer.Piece

/-!
# The lexer

* `tokensFrom`: the tokens among the pieces of a text, each at its position.
* `lex`: the tokens of a source text, the end of the text as the last one, or the first error.
-/

namespace Nominal

/-- The tokens among pieces of which the first stands at a byte offset, and the end of the text. -/
def tokensFrom (lines : Lines) : (offset : Nat) → List Piece → List Token
  | offset, [] => [⟨.eof, lines.position offset⟩]
  | offset, p :: ps =>
    let rest := tokensFrom lines (offset + p.size) ps
    match p.lexeme with
    | some l => ⟨l, lines.position offset⟩ :: rest
    | none => rest

/-- The tokens of a source text. A malformed token is reported where it starts. -/
def lex (source : String) : Except LexError (List Token) :=
  let text := source.toList
  let lines := Lines.ofText text
  match Piece.split text with
  | (ps, none) => .ok (tokensFrom lines 0 ps)
  | (ps, some f) => .error ⟨f, lines.position (ps.foldr (fun p n => p.size + n) 0)⟩

end Nominal
