/-!
# Positions

* `Position`: a line and a column, both counted from one.
* `Position.le`: the reading order of positions, lines first.
* `Position.advance`: the position behind one more character.
-/

namespace Nominal

/-- A place in a source text. Lines and columns count from one, columns in characters. -/
structure Position where
  line : Nat
  column : Nat
deriving DecidableEq, Repr

namespace Position

/-- The first character of a text. -/
def start : Position := ⟨1, 1⟩

/-- The position behind a character: a line feed opens the next line, every other character
takes one column. -/
def advance (p : Position) (c : Char) : Position :=
  if c = '\n' then ⟨p.line + 1, 1⟩ else ⟨p.line, p.column + 1⟩

/-- The largest line or column that is reported. -/
def limit : Nat := UInt32.size - 1

/-- A position with both numbers kept within `limit`. -/
def capped (p : Position) : Position := ⟨min p.line limit, min p.column limit⟩

/-- Reading order: by line, and by column on one line. -/
def le (p q : Position) : Bool :=
  p.line < q.line || (p.line == q.line && p.column ≤ q.column)

/-- Positions in ascending reading order. -/
def sort (ps : List Position) : List Position := ps.mergeSort le

/-- The words that name a position in a message. -/
def text (p : Position) : String := s!"line {p.line}, column {p.column}"

end Position

end Nominal
