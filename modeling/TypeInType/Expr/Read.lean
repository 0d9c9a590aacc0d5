import TypeInType.Expr
import TypeInType.Token.Scan

/-!
# Reading expressions and declarations

Recursive descent over the lexemes of a source, with one lexeme of lookahead. Every reader returns
what it read together with the lexemes that are left, of which there are fewer than before; this is
what ends the recursion.

The grammar:

* a program is a sequence of declarations: `axiom` names `:` expression, `defun` name `=`
  expression, `check` expression;
* an expression is one or more arrow expressions joined by `:`, grouped to the left;
* an arrow expression is `forall` binders, an arrow and an arrow expression, or `lambda` names, an
  arrow and an arrow expression, or an application optionally followed by `->` and an arrow
  expression;
* an application is one or more atoms, grouped to the left;
* an atom is a name, `*`, a number literal or an expression in parentheses.
-/

namespace TypeInType

/-- Why a source cannot be read. -/
inductive SyntaxError where
  | unexpectedCharacter (range : Range)
  | unexpectedToken (range : Range) (found : String) (expected : List Token)
  | unexpectedEnd (range : Range) (expected : List Token)
  | numberTooLarge (range : Range)
  deriving DecidableEq, Repr

/-- The bytes at which reading failed. -/
def SyntaxError.range : SyntaxError → Range
  | unexpectedCharacter r | unexpectedToken r _ _ | unexpectedEnd r _ | numberTooLarge r => r

/-- The largest value of a number literal. -/
def maxNumber : Nat := 1000

/-- The value of a text of decimal digits. -/
def decimalValue (digits : List Char) : Nat :=
  digits.foldl (fun n c => 10 * n + (c.toNat - '0'.toNat)) 0

namespace Read

/-- What was read, and the lexemes that are left: fewer than `n`. -/
structure Result (α : Type) (n : Nat) where
  value : α
  rest : List Lexeme
  shorter : rest.length < n

/-- Reading a part of a source. -/
abbrev Outcome (α : Type) (n : Nat) := Except SyntaxError (Result α n)

variable (eof : Nat)

/-- The error at the next lexeme, or at the end of the source, whose length is `eof`. -/
def unexpected (ts : List Lexeme) (expected : List Token) : SyntaxError :=
  match ts with
  | [] => .unexpectedEnd ⟨eof, eof⟩ expected
  | t :: _ => .unexpectedToken t.range t.text expected

/-! ## Names and arrows -/

/-- One lexeme with the given token. -/
def expect (token : Token) (ts : List Lexeme) : Outcome Lexeme ts.length :=
  match ts with
  | [] => .error (unexpected eof [] [token])
  | t :: ts =>
    if t.token = token then .ok ⟨t, ts, by simp⟩
    else .error (unexpected eof (t :: ts) [token])

/-- A name. -/
def name (ts : List Lexeme) : Outcome Ident ts.length := do
  let ⟨t, ts, h⟩ ← expect eof .name ts
  return ⟨⟨t.range, t.text⟩, ts, h⟩

/-- The rest of a list of names, each after a comma. -/
def moreNames (ts : List Lexeme) : Outcome (List Ident) (ts.length + 1) :=
  match ts with
  | [] => return ⟨[], [], by simp⟩
  | t :: ts =>
    if t.token = .comma then do
      let ⟨x, ts, h⟩ ← name eof ts
      let ⟨xs, ts, h'⟩ ← moreNames ts
      return ⟨x :: xs, ts, by simp only [List.length_cons]; omega⟩
    else return ⟨[], t :: ts, by simp⟩
termination_by ts.length
decreasing_by simp only [List.length_cons]; omega

/-- Names with commas between them. -/
def names (ts : List Lexeme) : Outcome (List Ident) ts.length := do
  let ⟨x, ts, h⟩ ← name eof ts
  let ⟨xs, ts, h'⟩ ← moreNames eof ts
  return ⟨x :: xs, ts, by omega⟩

/-- The arrow after the binders of a function type. -/
def piArrow (ts : List Lexeme) : Outcome Unit ts.length :=
  match ts with
  | [] => .error (unexpected eof [] [.arrow, .dot, .comma])
  | t :: ts =>
    if t.token = .arrow ∨ t.token = .dot ∨ t.token = .comma then .ok ⟨(), ts, by simp⟩
    else .error (unexpected eof (t :: ts) [.arrow, .dot, .comma])

/-- Further names of a function literal, and the arrow that ends them. -/
def moreParams (ts : List Lexeme) : Outcome (List Ident) ts.length :=
  match ts with
  | [] => .error (unexpected eof [] [.arrow, .dot, .name])
  | t :: ts =>
    if t.token = .name then do
      let ⟨xs, ts, h⟩ ← moreParams ts
      return ⟨⟨t.range, t.text⟩ :: xs, ts, by simp only [List.length_cons]; omega⟩
    else if t.token = .arrow ∨ t.token = .dot then .ok ⟨[], ts, by simp⟩
    else .error (unexpected eof (t :: ts) [.arrow, .dot, .name])

/-- The names of a function literal, and the arrow that ends them. -/
def params (ts : List Lexeme) : Outcome (List Ident) ts.length := do
  let ⟨x, ts, h⟩ ← name eof ts
  let ⟨xs, ts, h'⟩ ← moreParams eof ts
  return ⟨x :: xs, ts, by omega⟩

/-! ## Expressions -/

mutual

/-- Arrow expressions joined by `:`. -/
def expr (ts : List Lexeme) : Outcome Expr ts.length := do
  let ⟨e, ts, h⟩ ← arrowExpr ts
  let ⟨e, ts, h'⟩ ← annotations e ts
  return ⟨e, ts, by omega⟩
termination_by 5 * ts.length + 4
decreasing_by all_goals omega

/-- The types that follow an expression, each after a `:`. -/
def annotations (e : Expr) (ts : List Lexeme) : Outcome Expr (ts.length + 1) :=
  match ts with
  | [] => return ⟨e, [], by simp⟩
  | t :: ts =>
    if t.token = .colon then do
      let ⟨type, ts, h⟩ ← arrowExpr ts
      let ⟨e, ts, h'⟩ ← annotations (.ann (e.range.merge type.range) e type) ts
      return ⟨e, ts, by simp only [List.length_cons]; omega⟩
    else return ⟨e, t :: ts, by simp⟩
termination_by 5 * ts.length
decreasing_by all_goals simp only [List.length_cons]; omega

/-- A function type, a function literal, or an application. -/
def arrowExpr (ts : List Lexeme) : Outcome Expr ts.length :=
  match ts with
  | [] => .error (unexpected eof [] [.openParen, .star, .name, .number])
  | t :: ts =>
    if t.token = .forallSign then do
      let ⟨bs, ts, h⟩ ← binders ts
      let ⟨_, ts, h'⟩ ← piArrow eof ts
      let ⟨body, ts, h''⟩ ← arrowExpr ts
      return ⟨.pis (t.range.merge body.range) bs body, ts,
        by simp only [List.length_cons]; omega⟩
    else if t.token = .lambdaSign then do
      let ⟨xs, ts, h⟩ ← params eof ts
      let ⟨body, ts, h'⟩ ← arrowExpr ts
      return ⟨.lams (t.range.merge body.range) xs body, ts,
        by simp only [List.length_cons]; omega⟩
    else do
      let ⟨domain, ts, h⟩ ← appExpr (t :: ts)
      match ts, h with
      | [], h => return ⟨domain, [], h⟩
      | t :: ts, h =>
        if t.token = .arrow then do
          let ⟨codomain, ts, h'⟩ ← arrowExpr ts
          return ⟨.pi (domain.range.merge codomain.range) none domain codomain, ts,
            by simp only [List.length_cons] at h ⊢; omega⟩
        else return ⟨domain, t :: ts, h⟩
termination_by 5 * ts.length + 3
decreasing_by all_goals simp only [List.length_cons] at *; omega

/-- The binders of a function type, each name with its domain. -/
def binders (ts : List Lexeme) : Outcome (List (Ident × Expr)) (ts.length + 1) :=
  match ts with
  | [] => .error (unexpected eof [] [.name])
  | t :: ts =>
    if t.token = .openParen then groups (t :: ts)
    else do
      let ⟨x, ts, h⟩ ← name eof (t :: ts)
      let ⟨_, ts, h'⟩ ← expect eof .colon ts
      let ⟨domain, ts, h''⟩ ← appExpr ts
      return ⟨[(x, domain)], ts, by omega⟩
termination_by 5 * ts.length + 3
decreasing_by all_goals simp only [List.length_cons] at *; omega

/-- Binders in parentheses, as many as there are. -/
def groups (ts : List Lexeme) : Outcome (List (Ident × Expr)) (ts.length + 1) :=
  match ts with
  | [] => return ⟨[], [], by simp⟩
  | t :: ts =>
    if t.token = .openParen then do
      let ⟨xs, ts, h₁⟩ ← names eof ts
      let ⟨_, ts, h₂⟩ ← expect eof .colon ts
      let ⟨domain, ts, h₃⟩ ← expr ts
      let ⟨_, ts, h₄⟩ ← expect eof .closeParen ts
      let ⟨bs, ts, h₅⟩ ← groups ts
      return ⟨xs.map (·, domain) ++ bs, ts, by simp only [List.length_cons]; omega⟩
    else return ⟨[], t :: ts, by simp⟩
termination_by 5 * ts.length + 2
decreasing_by all_goals simp only [List.length_cons]; omega

/-- Atoms applied to one another. -/
def appExpr (ts : List Lexeme) : Outcome Expr ts.length := do
  let ⟨head, ts, h⟩ ← atom ts
  let ⟨e, ts, h'⟩ ← arguments head ts
  return ⟨e, ts, by omega⟩
termination_by 5 * ts.length + 2
decreasing_by all_goals omega

/-- The atoms that an expression is applied to. -/
def arguments (head : Expr) (ts : List Lexeme) : Outcome Expr (ts.length + 1) :=
  match ts with
  | [] => return ⟨head, [], by simp⟩
  | t :: ts =>
    if t.token.startsAtom then do
      let ⟨arg, ts, h⟩ ← atom (t :: ts)
      let ⟨e, ts, h'⟩ ← arguments (.app (head.range.merge arg.range) head arg) ts
      return ⟨e, ts, by omega⟩
    else return ⟨head, t :: ts, by simp⟩
termination_by 5 * ts.length + 2
decreasing_by all_goals simp only [List.length_cons] at *; omega

/-- A name, `*`, a number literal, or an expression in parentheses. -/
def atom (ts : List Lexeme) : Outcome Expr ts.length :=
  match ts with
  | [] => .error (unexpected eof [] [.openParen, .star, .name, .number])
  | t :: ts =>
    match t.token with
    | .openParen => do
      let ⟨e, ts, h⟩ ← expr ts
      let ⟨_, ts, h'⟩ ← expect eof .closeParen ts
      return ⟨e, ts, by simp only [List.length_cons]; omega⟩
    | .name => return ⟨.var t.range t.text, ts, by simp⟩
    | .star => return ⟨.star t.range, ts, by simp⟩
    | .number =>
      let value := decimalValue t.text.toList
      if value ≤ maxNumber then return ⟨.number t.range value, ts, by simp⟩
      else .error (.numberTooLarge t.range)
    | _ => .error (unexpected eof (t :: ts) [.openParen, .star, .name, .number])
termination_by 5 * ts.length + 1
decreasing_by all_goals simp only [List.length_cons]; omega

end

/-! ## Declarations and whole sources -/

/-- A declaration. -/
def decl (ts : List Lexeme) : Outcome Decl ts.length :=
  match ts with
  | [] => .error (unexpected eof [] [.axiomWord, .checkWord, .defunWord])
  | t :: ts =>
    match t.token with
    | .axiomWord => do
      let ⟨xs, ts, h⟩ ← names eof ts
      let ⟨_, ts, h'⟩ ← expect eof .colon ts
      let ⟨type, ts, h''⟩ ← expr eof ts
      return ⟨.postulate (t.range.merge type.range) xs type, ts,
        by simp only [List.length_cons]; omega⟩
    | .defunWord => do
      let ⟨x, ts, h⟩ ← name eof ts
      let ⟨_, ts, h'⟩ ← expect eof .equals ts
      let ⟨e, ts, h''⟩ ← expr eof ts
      return ⟨.define (t.range.merge e.range) x e, ts, by simp only [List.length_cons]; omega⟩
    | .checkWord => do
      let ⟨e, ts, h⟩ ← expr eof ts
      return ⟨.check (t.range.merge e.range) e, ts, by simp only [List.length_cons]; omega⟩
    | _ => .error (unexpected eof (t :: ts) [.axiomWord, .checkWord, .defunWord])

/-- Declarations up to the end of the source. -/
def program (ts : List Lexeme) : Except SyntaxError (List Decl) :=
  match ts with
  | [] => return []
  | t :: ts => do
    let ⟨d, ts, _⟩ ← decl eof (t :: ts)
    let ds ← program ts
    return d :: ds
termination_by ts.length
decreasing_by assumption

/-- One expression, up to the end of the source. -/
def term (ts : List Lexeme) : Except SyntaxError Expr := do
  let ⟨e, ts, _⟩ ← expr eof ts
  match ts with
  | [] => return e
  | t :: ts => .error (unexpected eof (t :: ts) [.colon, .arrow])

/-- Declarations, if the first lexeme begins one, and else one expression. -/
def input (ts : List Lexeme) : Except SyntaxError (List Decl) :=
  if (ts.head?.any fun t => t.token.startsDecl) then program eof ts
  else return [.expr (← term eof ts)]

end Read

/-- The lexemes of a source; a stray character anywhere is an error. -/
def lexSource (source : String) : Run SyntaxError (List Lexeme) := do
  let items ← (scanSource source).widen
  .ofExcept ((lexemes items).mapError .unexpectedCharacter)

theorem lexSource_of_countable {source : String} (h : Countable source) :
    lexSource source = .ofExcept ((lexemes (scan source)).mapError .unexpectedCharacter) := by
  rw [lexSource, scanSource_of_countable h]
  rfl

theorem lexSource_of_not_countable {source : String} (h : ¬Countable source) :
    lexSource source = .abort .sourceTooLong := by
  rw [lexSource, scanSource_of_not_countable h]
  rfl

/-- Read a source by a reader of lexemes, which is told where the source ends. -/
def readSource {α : Type} (read : Nat → List Lexeme → Except SyntaxError α) (source : String) :
    Run SyntaxError α := do
  .ofExcept (read (byteLength source.toList) (← lexSource source))

section

variable {α : Type} {read : Nat → List Lexeme → Except SyntaxError α} {source : String}

theorem readSource_of_lexSource {ts : List Lexeme} (h : lexSource source = .ok ts) :
    readSource read source = .ofExcept (read (byteLength source.toList) ts) := by
  rw [readSource, h]
  rfl

/-- What can be counted is read, or is reported. -/
theorem readSource_of_countable (h : Countable source) :
    (∃ a, readSource read source = .ok a) ∨ ∃ e, readSource read source = .error (.refused e) := by
  rw [readSource, lexSource_of_countable h]
  cases lexemes (scan source) with
  | error r => exact .inr ⟨_, rfl⟩
  | ok ts =>
    show (∃ a, Run.ofExcept (read _ ts) = _) ∨ ∃ e, Run.ofExcept (read _ ts) = _
    cases read (byteLength source.toList) ts with
    | error e => exact .inr ⟨e, rfl⟩
    | ok a => exact .inl ⟨a, rfl⟩

theorem readSource_of_not_countable (h : ¬Countable source) :
    readSource read source = .abort .sourceTooLong := by
  rw [readSource, lexSource_of_not_countable h]
  rfl

end

/-- Read a source that is one expression. -/
def readTerm : String → Run SyntaxError Expr :=
  readSource Read.term

/-- Read a source that is a sequence of declarations. -/
def readProgram : String → Run SyntaxError (List Decl) :=
  readSource Read.program

/-- Read a line of interactive input: declarations, or one expression. -/
def readInput : String → Run SyntaxError (List Decl) :=
  readSource Read.input

end TypeInType
