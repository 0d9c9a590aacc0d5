import TypeInType.Report
import TypeInType.Text.Blank
import TypeInType.Text.Columns
import TypeInType.Text.Sources

/-!
# Rendering reports

The lines that show a report: the message, the labelled source lines with a border and carets, and
the notes.
-/

namespace TypeInType

namespace Render

/-- Characters repeated. -/
def times (n : Nat) (c : Char) : String :=
  String.ofList (List.replicate n c)

/-- A character of a source line: the byte at which it begins in the line, the bytes that it takes,
and the columns that it takes. -/
structure Cell where
  char : Char
  byte : Nat
  bytes : Nat
  width : Nat

/-- The tab stops are this many columns apart. -/
def tabWidth : Nat := 4

/-- The characters of a line, from a byte and a column on. -/
def cellsFrom (byte column : Nat) : List Char → List Cell
  | [] => []
  | c :: cs =>
    let width := if c = '\t' then tabWidth - column % tabWidth else columns c
    ⟨c, byte, c.utf8Size, width⟩ :: cellsFrom (byte + c.utf8Size) (column + width) cs

/-- The characters of a line. -/
def cells (line : List Char) : List Cell :=
  cellsFrom 0 0 line

/-- A line without what ends it. -/
def trimLine (line : List Char) : List Char :=
  (line.reverse.dropWhile fun c => c = '\n' ∨ c = '\r' ∨ c = '\x00').reverse

/-- A line as it is shown, with blanks for tabs. -/
def shown (line : List Char) : String :=
  String.join ((cells line).map fun cell =>
    if cell.char = '\t' then times cell.width ' ' else cell.char.toString)

/-- The total width of the characters that begin before a byte of the line. -/
def widthBefore (line : List Char) (byte : Nat) : Nat :=
  ((cells line).filter (·.byte < byte)).foldr (fun c n => c.width + n) 0

/-- What is said of a label, after its caret. -/
def remark (message : String) : String :=
  if message.isEmpty then "" else " " ++ message

/-- The carets under the bytes from `start` to `stop` of a line, which has one more place at its
end. A label covers at least one byte. -/
def carets (line : List Char) (start stop : Nat) : String :=
  let stop := max stop (start + 1)
  let places := cells line ++ [⟨' ', byteLength line, 1, 1⟩]
  String.join (places.map fun cell =>
    if max start cell.byte < min stop (cell.byte + cell.bytes) then times cell.width '^'
    else if cell.byte < stop then times cell.width ' '
    else "")

/-- The lines that are shown of a label from the line `first` to the line `last`: both ends, three
lines after the first and one before the last. A single line between them is not left out; where
more are, there is `none`. -/
def shownLines (first last : Nat) : List (Option Nat) :=
  if last ≤ first + 6 then (List.range (last + 1 - first)).map fun i => some (first + i)
  else [some first, some (first + 1), some (first + 2), some (first + 3), none, some (last - 1),
    some last]

/-- A text moved to the right so that it ends at a column. -/
def alignRight (width : Nat) (s : String) : String :=
  times (width - s.length) ' ' ++ s

/-- What a source line and its label look like. -/
structure View where
  doc : Document
  pad : Nat

namespace View

/-- A border line with something after the border. -/
def border (view : View) (after : String) : String :=
  times view.pad ' ' ++ " │" ++ after ++ "\n"

/-- A numbered line, the first having number zero, with something after the border. -/
def numbered (view : View) (line : Nat) (after : String) : String :=
  alignRight view.pad (toString (line + 1)) ++ " │" ++ after ++ "\n"

/-- The characters of a line, without what ends it. -/
def line (view : View) (line : Nat) : List Char :=
  match view.doc.lineRange line with
  | .ok range => trimLine (view.doc.slice range)
  | .error _ => []

/-- The byte at which a line starts. -/
def start (view : View) (line : Nat) : Nat :=
  match view.doc.lineStart line with
  | .ok start => start
  | .error _ => 0

/-- A label within one line. -/
def oneLine (view : View) (number : Nat) (range : Range) (message : String) : String :=
  let line := view.line number
  let start := view.start number
  view.numbered number (" " ++ shown line) ++
    view.border (" " ++ carets line (range.start - start) (range.stop - start) ++ remark message)

/-- The first line of a label over several lines. The border of the label begins beside the line if
only white space stands before the label, and else at a caret under it. -/
def firstLine (view : View) (number : Nat) (byte : Nat) : String :=
  let line := view.line number
  let column := byte - view.start number
  let margin := match view.doc.lineRange number with
    | .ok range => byteLength ((view.doc.slice range).takeWhile isBlank)
    | .error _ => 0
  if column ≤ margin then view.numbered number (" ╭ " ++ shown line)
  else
    view.numbered number ("   " ++ shown line) ++
      view.border (" ╭" ++ times (widthBefore line (column + 1)) '─' ++ "^")

/-- A label over several lines. -/
def manyLines (view : View) (first last : Nat) (range : Range) (message : String) : String :=
  let lines := (shownLines first last).map fun
    | some number =>
      if number = first then view.firstLine number range.start
      else view.numbered number (" │ " ++ shown (view.line number))
    | none => times view.pad ' ' ++ " · │\n"
  let width := widthBefore (view.line last) (range.stop - view.start last)
  String.join lines ++ view.border (" ╰" ++ times width '─' ++ "^" ++ remark message)

end View

/-- The labelled lines of a source, with their border, and the width of their line numbers. -/
def label (sources : Sources) (l : Label) (hasNotes : Bool) : String × Nat :=
  match sources.get? l.region.file with
  | .error _ => ("", 0)
  | .ok doc =>
    let range := l.region.range
    let first := doc.lineIndex range.start
    let last := doc.lineIndex range.stop
    let view : View := ⟨doc, (toString (last + 1)).length⟩
    let margin := if first = last then "" else "  "
    let place := match doc.location range.start with
      | .ok (line, column) => doc.name ++ ":" ++ toString line ++ ":" ++ toString column
      | .error _ => doc.name
    let lines :=
      if first = last then view.oneLine first range l.message
      else view.manyLines first last range l.message
    (times view.pad ' ' ++ " ┌─ " ++ place ++ "\n" ++ view.border margin ++ lines ++
      (if hasNotes then view.border margin else ""), view.pad)

end Render

/-- The lines that show a report. -/
def Report.render (sources : Sources) (r : Report) : String :=
  let (lines, pad) := match r.label with
    | some l => Render.label sources l (!r.notes.isEmpty)
    | none => ("", 0)
  let notes := r.notes.map fun note => Render.times pad ' ' ++ " = " ++ note ++ "\n"
  "error: " ++ r.message ++ "\n" ++ lines ++ String.join notes ++ "\n"

end TypeInType
