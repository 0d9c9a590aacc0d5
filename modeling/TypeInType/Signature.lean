import TypeInType.Value

/-!
# Signatures

The names that have been declared, in the order of their first declaration, each with the value and
the type that its latest declaration gives it.
-/

namespace TypeInType

/-- A declared name. -/
structure Entry where
  name : String
  value : Value
  type : Value

/-- The declared names. -/
structure Signature where
  entries : List Entry

namespace Signature

instance : EmptyCollection Signature := ⟨⟨[]⟩⟩

/-- The entry of a name. -/
def find? (sig : Signature) (x : String) : Option Entry :=
  sig.entries.find? (·.name == x)

def value? (sig : Signature) (x : String) : Option Value :=
  (sig.find? x).map Entry.value

def type? (sig : Signature) (x : String) : Option Value :=
  (sig.find? x).map Entry.type

/-- The declared names, in the order of their first declaration. -/
def names (sig : Signature) : List String :=
  sig.entries.map Entry.name

/-- The values of the names, as evaluation uses them. -/
def values (sig : Signature) : List (String × Value) :=
  sig.entries.map fun e => (e.name, e.value)

/-- Declare a name. A name that is declared already keeps its place. -/
def define (sig : Signature) (x : String) (value type : Value) : Signature :=
  if sig.entries.any (·.name == x) then
    ⟨sig.entries.map fun e => if e.name == x then ⟨x, value, type⟩ else e⟩
  else ⟨sig.entries ++ [⟨x, value, type⟩]⟩

/-- Declare a name that stands for itself. -/
def postulate (sig : Signature) (x : String) (type : Value) : Signature :=
  sig.define x (.free (.global x)) type

/-- The value of the name is the name itself. -/
def isPostulate (sig : Signature) (x : String) : Bool :=
  match sig.value? x with
  | some (.neutral (.free (.global y))) => x == y
  | _ => false

end Signature

end TypeInType
