import TypeInType.Run
import TypeInType.Text.Blank
import TypeInType.Token

/-!
# Scanning

A source is cut into pieces: white space, comments, tokens, and stray characters that begin nothing.
The texts of the pieces concatenate to the source (`flatten_pieces`), and each token is the longest
that its first characters allow. Positions are numbers of 32 bits, and a source that they cannot count
is not scanned.
-/

namespace TypeInType

/-! ## Character classes -/

def isNameStart (c : Char) : Bool :=
  c.isAlpha || c == '_'

def isNameRest (c : Char) : Bool :=
  c.isAlphanum || c == '_' || c == '\''

/-! ## Pieces -/

/-- A piece of a source. -/
inductive Piece where
  | blank (c : Char)
  | comment (text : List Char)
  | token (token : Token) (text : List Char)
  | stray (c : Char)
  deriving DecidableEq, Repr

namespace Piece

def text : Piece → List Char
  | blank c => [c]
  | comment cs => cs
  | token _ cs => cs
  | stray c => [c]

end Piece

/-- The token that a word of name characters spells: a keyword, or else a name. -/
def Token.ofWord (word : List Char) : Token :=
  if word = ['a', 'x', 'i', 'o', 'm'] then axiomWord
  else if word = ['c', 'h', 'e', 'c', 'k'] then checkWord
  else if word = ['d', 'e', 'f', 'u', 'n'] then defunWord
  else if word = ['f', 'o', 'r', 'a', 'l', 'l'] then forallSign
  else if word = ['l', 'a', 'm', 'b', 'd', 'a'] then lambdaSign
  else name

/-- The token that one character spells by itself. -/
def Token.ofChar? : Char → Option Token
  | 'Π' | '∀' => some forallSign
  | 'λ' | '\\' => some lambdaSign
  | '→' => some arrow
  | ':' => some colon
  | ',' => some comma
  | '=' => some equals
  | '.' => some dot
  | '*' => some star
  | '(' => some openParen
  | ')' => some closeParen
  | _ => none

/-- The run of characters of a class at the front, and what follows it. -/
def run (p : Char → Bool) (cs : List Char) : List Char × List Char :=
  (cs.takeWhile p, cs.dropWhile p)

/-- The piece at the front of a source that begins with `c`, and what follows it. -/
def Piece.front (c : Char) (cs : List Char) : Piece × List Char :=
  if isBlank c then (blank c, cs)
  else if isNameStart c then
    let (word, rest) := run isNameRest cs
    (token (Token.ofWord (c :: word)) (c :: word), rest)
  else if c.isDigit then
    let (digits, rest) := run Char.isDigit cs
    (token .number (c :: digits), rest)
  else match Token.ofChar? c with
    | some t => (token t [c], cs)
    | none =>
      match c, cs with
      | '-', '>' :: rest => (token .arrow ['-', '>'], rest)
      | '/', '/' :: cs =>
        let (words, rest) := run (· != '\n') cs
        (comment ('/' :: '/' :: words), rest)
      | c, cs => (stray c, cs)

theorem Piece.text_front (c : Char) (cs : List Char) :
    (front c cs).1.text ++ (front c cs).2 = c :: cs := by
  unfold front
  split
  · rfl
  split
  · simp [run, text]
  split
  · simp [run, text]
  split
  · rfl
  split <;> simp [run, text]

theorem Piece.length_front (c : Char) (cs : List Char) :
    (front c cs).2.length ≤ cs.length := by
  unfold front
  split
  · simp
  split
  · simpa [run] using (List.dropWhile_suffix _).length_le
  split
  · simpa [run] using (List.dropWhile_suffix _).length_le
  split
  · simp
  split
  · simp
  · simpa [run] using Nat.le_succ_of_le (List.dropWhile_suffix _).length_le
  · simp

/-- The pieces of a source, in order. -/
def pieces : List Char → List Piece
  | [] => []
  | c :: cs =>
    let p := Piece.front c cs
    p.1 :: pieces p.2
termination_by cs => cs.length
decreasing_by
  have := Piece.length_front c cs
  simp only [List.length_cons]
  omega

/-- No character is lost, added or moved. -/
theorem flatten_pieces (cs : List Char) : ((pieces cs).map Piece.text).flatten = cs := by
  fun_induction pieces cs with
  | case1 => rfl
  | case2 c cs p ih =>
    simp only [List.map_cons, List.flatten_cons, ih]
    exact Piece.text_front c cs

/-! ## Lexemes -/

/-- What scanning reports: a lexeme, or the range of a stray character. -/
inductive ScanItem where
  | lexeme (l : Lexeme)
  | stray (range : Range)
  deriving DecidableEq, Repr

/-- Number the bytes of the pieces from `start` on, leaving out white space and comments. -/
def place (start : Nat) : List Piece → List ScanItem
  | [] => []
  | p :: ps =>
    let stop := start + byteLength p.text
    match p with
    | .blank _ | .comment _ => place stop ps
    | .token t text => .lexeme ⟨t, String.ofList text, start⟩ :: place stop ps
    | .stray _ => .stray ⟨start, stop⟩ :: place stop ps

/-- The lexemes and stray characters of a text. -/
def scan (source : String) : List ScanItem :=
  place 0 (pieces source.toList)

/-- The last position that can be counted. -/
def maxPosition : Nat := 4294967295

/-- Every position in the text can be counted. -/
def Countable (source : String) : Prop :=
  byteLength source.toList ≤ maxPosition

instance (source : String) : Decidable (Countable source) :=
  inferInstanceAs (Decidable (_ ≤ _))

/-- The lexemes and stray characters of a source, which must be countable. -/
def scanSource (source : String) : Run Empty (List ScanItem) :=
  if Countable source then return scan source else .abort .sourceTooLong

theorem scanSource_of_countable {source : String} (h : Countable source) :
    scanSource source = .ok (scan source) :=
  if_pos h

theorem scanSource_of_not_countable {source : String} (h : ¬Countable source) :
    scanSource source = .abort .sourceTooLong :=
  if_neg h

/-- The lexemes of a source, or the range of its first stray character. -/
def lexemes (items : List ScanItem) : Except Range (List Lexeme) :=
  items.mapM fun
    | .lexeme l => .ok l
    | .stray r => .error r

end TypeInType
