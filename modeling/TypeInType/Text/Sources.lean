import TypeInType.Text.Range

/-!
# Sources

The sources that have been loaded, numbered from one, and the lines and columns of their bytes. A
line starts at the beginning of its source and after each line feed.
-/

namespace TypeInType

/-- A source with the name that messages give it. -/
structure Document where
  name : String
  text : String
  deriving Repr, Inhabited

/-- Why a place in a source cannot be looked up. -/
inductive LookupError where
  | fileMissing
  | lineTooLarge (given last : Nat)
  deriving DecidableEq, Repr

/-- What a message says of the error. -/
def LookupError.message : LookupError → String
  | fileMissing => "file missing"
  | lineTooLarge given last => s!"invalid line {given}, maximum line is {last}"

/-- The starts of the lines after the first one, in a text that begins at `start`. -/
def lineStartsFrom (start : Nat) : List Char → List Nat
  | [] => []
  | c :: cs =>
    let next := start + c.utf8Size
    if c = '\n' then next :: lineStartsFrom next cs else lineStartsFrom next cs

/-- The number of characters that begin at `start` or later and end at `stop` or before, in a text
that begins at `pos`. -/
def charsWithin (start stop pos : Nat) : List Char → Nat
  | [] => 0
  | c :: cs =>
    let next := pos + c.utf8Size
    (if start ≤ pos ∧ next ≤ stop then 1 else 0) + charsWithin start stop next cs

namespace Document

/-- The length in bytes. -/
def length (doc : Document) : Nat :=
  byteLength doc.text.toList

/-- The byte at which each line starts. -/
def lineStarts (doc : Document) : List Nat :=
  0 :: lineStartsFrom 0 doc.text.toList

/-- The byte at which a line starts; the line after the last one starts at the end. -/
def lineStart (doc : Document) (line : Nat) : Except LookupError Nat :=
  let starts := doc.lineStarts
  match starts[line]? with
  | some start => .ok start
  | none =>
    if line = starts.length then .ok doc.length
    else .error (.lineTooLarge line (starts.length - 1))

/-- The last line that starts at the given byte or before. -/
def lineIndex (doc : Document) (byte : Nat) : Nat :=
  (doc.lineStarts.filter (· ≤ byte)).length - 1

/-- The bytes of a line, the line feed included. -/
def lineRange (doc : Document) (line : Nat) : Except LookupError Range := do
  let start ← doc.lineStart line
  let stop ← doc.lineStart (line + 1)
  return ⟨start, stop⟩

/-- The line and the column of a byte, both counted from one. -/
def location (doc : Document) (byte : Nat) : Except LookupError (Nat × Nat) := do
  let line := doc.lineIndex byte
  let range ← doc.lineRange line
  let stop := min byte (min range.stop doc.length)
  return (line + 1, charsWithin range.start stop 0 doc.text.toList + 1)

/-- The characters of a range of bytes. -/
def slice (doc : Document) (range : Range) : List Char :=
  go 0 doc.text.toList
where
  go (pos : Nat) : List Char → List Char
    | [] => []
    | c :: cs =>
      let rest := go (pos + c.utf8Size) cs
      if range.start ≤ pos ∧ pos < range.stop then c :: rest else rest

end Document

/-- The sources that have been loaded. -/
structure Sources where
  documents : List Document
  deriving Repr, Inhabited

namespace Sources

instance : EmptyCollection Sources := ⟨⟨[]⟩⟩

/-- Load a source, and number it. -/
def add (sources : Sources) (name text : String) : Sources × Nat :=
  (⟨sources.documents ++ [⟨name, text⟩]⟩, sources.documents.length + 1)

/-- The source with a number. -/
def get? (sources : Sources) (file : Nat) : Except LookupError Document :=
  match file with
  | 0 => .error .fileMissing
  | i + 1 =>
    match sources.documents[i]? with
    | some doc => .ok doc
    | none => .error .fileMissing

end Sources

end TypeInType
