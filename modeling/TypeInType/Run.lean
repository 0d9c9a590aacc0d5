/-!
# Computations that may stop

Evaluation may go on for ever, because `*` has type `*`, so it runs on fuel. A computation ends with
a result, with an error that is reported to the user, with an internal fault, which no well-typed
term and no source of a sensible length is meant to reach, or because its fuel is used up.
-/

namespace TypeInType

/-- A broken invariant of the engine, or a number that its counters cannot hold. -/
inductive Fault where
  | unboundVariable
  | unboundGlobal
  | unboundQuote
  | unexpectedBound
  | invalidApplication
  | invalidFormerArguments
  | sourceTooLong
  | depthOverflow
  deriving DecidableEq, Repr

/-- What a message says of the fault. -/
def Fault.describe : Fault → String
  | unboundVariable => "unbound variable"
  | unboundGlobal => "unbound global"
  | unboundQuote => "unbound quote variable"
  | unexpectedBound => "unexpected bound variable"
  | invalidApplication => "invalid function application"
  | invalidFormerArguments => "invalid term-former arguments"
  | sourceTooLong => "`source` must be less than 4GiB in length"
  | depthOverflow => "attempt to add with overflow"

/-- Why a computation ends without a result. The errors that it can report are those of `ε`. -/
inductive Halt (ε : Type) where
  | refused (error : ε)
  | fault (fault : Fault)
  | outOfFuel
  deriving Repr

/-- Change the reported error. -/
def Halt.map {ε ε' : Type} (f : ε → ε') : Halt ε → Halt ε'
  | refused e => refused (f e)
  | fault x => fault x
  | outOfFuel => outOfFuel

/-- A computation that reports errors of `ε`. -/
abbrev Run (ε α : Type) := Except (Halt ε) α

namespace Run

/-- A computation that reports nothing, within one that may report errors. -/
def widen {ε α : Type} : Run Empty α → Run ε α
  | .ok a => .ok a
  | .error (.fault x) => .error (.fault x)
  | .error .outOfFuel => .error .outOfFuel

/-- Change the errors that a computation reports. -/
def mapRefused {ε ε' α : Type} (f : ε → ε') : Run ε α → Run ε' α
  | .ok a => .ok a
  | .error h => .error (h.map f)

/-- Report an error. -/
def refuse {ε α : Type} (e : ε) : Run ε α :=
  .error (.refused e)

/-- Stop at a broken invariant. -/
def abort {ε α : Type} (x : Fault) : Run ε α :=
  .error (.fault x)

/-- A computation that always ends, with a result or with an error that it reports. -/
def ofExcept {ε α : Type} : Except ε α → Run ε α
  | .ok a => .ok a
  | .error e => .refuse e

end Run

end TypeInType
