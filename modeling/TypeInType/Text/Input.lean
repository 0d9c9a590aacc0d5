/-!
# Decoding input

Bytes that come from outside. A text is valid UTF-8; interactive input is decoded line by line.
-/

namespace TypeInType

/-- The text that bytes encode. -/
def decodeText (bytes : List UInt8) : Option String :=
  String.fromUTF8? ⟨bytes.toArray⟩

/-- The lines of the input, each with the line feed that ends it. -/
def splitLines (bytes : List UInt8) : List (List UInt8) :=
  match bytes with
  | [] => []
  | b :: bs =>
    if b = 10 then [b] :: splitLines bs
    else match splitLines bs with
      | [] => [[b]]
      | line :: lines => (b :: line) :: lines

/-- The lines of the input, each decoded by itself. -/
def decodeLines (bytes : List UInt8) : List (Option String) :=
  (splitLines bytes).map decodeText

end TypeInType
