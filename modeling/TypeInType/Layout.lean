import TypeInType.Text.Cluster

/-!
# Layout

Documents that can be broken into lines where they would not fit on one. A group is set on one line
if it fits together with what follows it up to the next line break that is certain, and else each of
its own line breaks ends a line.
-/

namespace TypeInType

/-- A document. A `line` is a space or the end of a line. -/
inductive Doc where
  | nil
  | text (s : String)
  | append (left right : Doc)
  | line
  | nest (indent : Nat) (doc : Doc)
  | group (doc : Doc)
  deriving Repr, Inhabited

namespace Doc

instance : Append Doc := ⟨append⟩

instance : EmptyCollection Doc := ⟨nil⟩

/-- A line break of its own, taken only if what follows it does not fit. -/
def softline : Doc :=
  group line

/-- Documents one after another. -/
def concat (docs : List Doc) : Doc :=
  docs.foldr append nil

/-- A document between parentheses, if they are needed. -/
def parens (needed : Bool) (doc : Doc) : Doc :=
  if needed then text "(" ++ doc ++ text ")" else doc

/-- The columns that a text takes. -/
def textWidth (s : String) : Nat :=
  let cs := s.toList
  if cs.all (·.toNat < 0x80) then cs.length else clusters cs

/-- Whether the lines of a document are broken. -/
inductive Mode where
  | flat
  | broken
  deriving DecidableEq, Repr

/-- The document fits from column `col` on, given whether what follows fits from a column on. -/
def fits (width : Nat) (mode : Mode) (rest : Nat → Bool) : Doc → Nat → Bool
  | nil, col => rest col
  | text s, col =>
    let col := col + textWidth s
    col ≤ width && rest col
  | append a b, col => a.fits width mode (fun col => b.fits width mode rest col) col
  | line, col =>
    match mode with
    | .broken => true
    | .flat => col + 1 ≤ width && rest (col + 1)
  | nest _ d, col => d.fits width mode rest col
  | group d, col => d.fits width mode rest col

/-- A text that has been set, and the column it ends at. -/
structure Page where
  text : String
  column : Nat

/-- Set a document, given whether what follows it fits from a column on. -/
def set (width : Nat) (indent : Nat) (mode : Mode) (rest : Nat → Bool) : Doc → Page → Page
  | nil, page => page
  | text s, page => ⟨page.text ++ s, page.column + textWidth s⟩
  | append a b, page =>
    let page := a.set width indent mode (fun col => b.fits width .broken rest col) page
    b.set width indent mode rest page
  | line, page =>
    match mode with
    | .flat => ⟨page.text.push ' ', page.column + 1⟩
    | .broken => ⟨page.text ++ "\n" ++ String.ofList (List.replicate indent ' '), indent⟩
  | nest k d, page => d.set width (indent + k) mode rest page
  | group d, page =>
    match mode with
    | .flat => d.set width indent .flat rest page
    | .broken =>
      let mode := if d.fits width .flat rest page.column then .flat else .broken
      d.set width indent mode rest page

/-- The text of a document on lines of the given width. -/
def render (width : Nat) (doc : Doc) : String :=
  (doc.set width 0 .broken (fun _ => true) ⟨"", 0⟩).text

end Doc

end TypeInType
