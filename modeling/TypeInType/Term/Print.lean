import TypeInType.Layout
import TypeInType.Term.FreshName

/-!
# Printing terms

Terms are printed with as few parentheses as reading them back needs.
-/

namespace TypeInType

/-- How tightly the place where a term stands binds. -/
inductive Prec where
  | top
  | arrow
  | app
  | atom
  deriving DecidableEq, Repr

/-- The level of a place, the loosest being zero. -/
def Prec.level : Prec → Nat
  | top => 0
  | arrow => 1
  | app => 2
  | atom => 3

/-- A term that binds as tightly as the second place needs parentheses in the first. -/
def Prec.exceeds (p q : Prec) : Bool :=
  q.level < p.level

namespace Print

/-- How far a continued line is moved to the right. -/
def indent : Nat := 2

/-- A part of an application, on a line of its own if need be. -/
def argument (doc : Doc) : Doc :=
  .nest indent (.line ++ doc)

/-- A name applied to arguments. -/
def former (prec : Prec) (name : String) (args : List Doc) : Doc :=
  if args.isEmpty then .text name
  else .parens (prec.exceeds .app) (.group (.text name ++ .concat (args.map argument)))

/-- A function literal. -/
def lambda (prec : Prec) (names : List String) (body : Doc) : Doc :=
  let params := Doc.concat ((names.map Doc.text).intersperse (.text " "))
  .parens (prec.exceeds .arrow)
    (.group (.group (.text "λ" ++ params ++ .text ".") ++ argument body))

/-- An annotated term. -/
def annotation (prec : Prec) (term type : Doc) : Doc :=
  .parens (prec.exceeds .top)
    (.group (.group (term ++ .text " " ++ .text ":") ++ .softline ++ type))

/-- The domain of a function type that depends on its argument. -/
def binder (name : String) (domain : Doc) : Doc :=
  .text "forall" ++ .text " " ++ .text "(" ++ .text name ++ .text " " ++ .text ":" ++ .text " " ++
    domain ++ .text ")"

/-- A function type. -/
def arrow (prec : Prec) (domain codomain : Doc) : Doc :=
  .parens (prec.exceeds .arrow)
    (.group (.group (domain ++ .text " " ++ .text "->") ++ .softline ++ codomain))

/-- An application. -/
def app (prec : Prec) (head arg : Doc) : Doc :=
  .parens (prec.exceeds .app) (.group (head ++ argument arg))

end Print

mutual

/-- The document of a term, with the names in scope, the innermost first. -/
def Synth.doc (scope : List String) (prec : Prec) : Synth → Doc
  | .ann _ e t => Print.annotation prec (e.doc scope .arrow) (t.doc scope .arrow)
  | .star _ => .text "*"
  | .pi _ x d c =>
    let x := freshName scope x c
    let domain := if c.binds 0 then Print.binder x (d.doc scope .top) else d.doc scope .app
    Print.arrow prec domain (c.doc (x :: scope) .arrow)
  | .bound _ i =>
    match scope[i]? with
    | some x => .text x
    | none => .text s!"#{i}"
  | .free _ (.global x) => .text x
  | .free _ (.hyp l) => .text s!"%{l}"
  | .free _ (.quote l) => .text s!"'{l}"
  | .app _ h a => Print.app prec (h.doc scope .app) (a.doc scope .atom)
  | .nat _ => Print.former prec Former.nat.name []
  | .zero _ => .text "0"
  | .succ s n =>
    match (Synth.succ s n).numeral? with
    | some k => .text (toString k)
    | none => Print.former prec Former.succ.name [n.doc scope .atom]
  | .natElim _ m b s n =>
    Print.former prec Former.natElim.name
      [m.doc scope .atom, b.doc scope .atom, s.doc scope .atom, n.doc scope .atom]
  | .vec _ a n => Print.former prec Former.vec.name [a.doc scope .atom, n.doc scope .atom]
  | .nil _ a => Print.former prec Former.nil.name [a.doc scope .atom]
  | .cons _ a n x xs =>
    Print.former prec Former.cons.name
      [a.doc scope .atom, n.doc scope .atom, x.doc scope .atom, xs.doc scope .atom]
  | .vecElim _ a m b s n xs =>
    Print.former prec Former.vecElim.name
      [a.doc scope .atom, m.doc scope .atom, b.doc scope .atom, s.doc scope .atom,
        n.doc scope .atom, xs.doc scope .atom]

/-- The document of a term, with the names in scope, the innermost first. -/
def Check.doc (scope : List String) (prec : Prec) : Check → Doc
  | .synth t => t.doc scope prec
  | .lam _ x b =>
    let x := freshName scope x b
    let (xs, body) := b.lamDoc (x :: scope)
    Print.lambda prec (x :: xs) body
  | .ascribe _ t e =>
    Print.former prec Former.ascribe.name [t.doc scope .atom, e.doc scope .atom]
  | .sealed _ e => Print.former prec Former.sealed.name [e.doc scope .atom]

/-- The names of the function literals at the front of a body, and the document of what they bind
their names in. -/
def Check.lamDoc (scope : List String) : Check → List String × Doc
  | .lam _ x b =>
    let x := freshName scope x b
    let (xs, body) := b.lamDoc (x :: scope)
    (x :: xs, body)
  | .synth t => ([], t.doc scope .arrow)
  | .ascribe _ t e =>
    ([], Print.former .arrow Former.ascribe.name [t.doc scope .atom, e.doc scope .atom])
  | .sealed _ e => ([], Print.former .arrow Former.sealed.name [e.doc scope .atom])

end

/-- The width of lines inside messages. -/
def messageWidth : Nat := 65536

/-- The text of a term on lines of the given width. -/
def Check.render (width : Nat) (t : Check) : String :=
  (t.doc [] .top).render width

/-- The text of a term inside a message. -/
def Check.display (t : Check) : String :=
  t.render messageWidth

/-- The text of a term inside a message. -/
def Synth.display (t : Synth) : String :=
  (Check.synth t).display

end TypeInType
