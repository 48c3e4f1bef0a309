import Nominal.Position

/-!
# Lines of a text

* `Lines`: where the lines of a text start.
* `Lines.position`: the position of the character at a byte offset, found by searching the line
  starts and counting the characters behind one.
-/

namespace Nominal

/-- The first character of a line: its byte offset, and the text from there on. -/
structure LineStart where
  offset : Nat
  text : List Char

/-- The lines of a text, in order; the first one always exists. -/
structure Lines where
  starts : Array LineStart

namespace Lines

/-- The lines that start behind a line feed of a text, the text itself being at `offset`. -/
def later : (offset : Nat) → List Char → List LineStart
  | _, [] => []
  | offset, c :: cs =>
    let offset := offset + c.utf8Size
    if c = '\n' then ⟨offset, cs⟩ :: later offset cs else later offset cs

/-- The lines of a text. -/
def ofText (cs : List Char) : Lines := ⟨(⟨0, cs⟩ :: later 0 cs).toArray⟩

/-- Whether line `i`, counted from zero, starts at or before an offset. -/
def startsBy (l : Lines) (offset i : Nat) : Bool :=
  match l.starts[i]? with
  | some s => s.offset ≤ offset
  | none => false

/-- The last line that starts at or before an offset, searched from line `low`, which does, to
line `high`, which does not. -/
def lineOf (l : Lines) (offset low high : Nat) : Nat :=
  if high ≤ low + 1 then low
  else
    let middle := (low + high) / 2
    if l.startsBy offset middle then l.lineOf offset middle high
    else l.lineOf offset low middle
termination_by high - low

/-- The number of characters that start within the first bytes of a text. -/
def charsWithin : List Char → (bytes : Nat) → Nat
  | [], _ => 0
  | c :: cs, bytes => if bytes = 0 then 0 else charsWithin cs (bytes - c.utf8Size) + 1

/-- The position of the character at a byte offset. -/
def position (l : Lines) (offset : Nat) : Position :=
  let line := l.lineOf offset 0 l.starts.size
  let column := match l.starts[line]? with
    | some s => charsWithin s.text (offset - s.offset)
    | none => 0
  Position.capped ⟨line + 1, column + 1⟩

end Lines

end Nominal
