import TypeInType.Term

/-!
# Values

What terms evaluate to. A function is a closure: the body of a binder with the environment in which
it was met. A computation that waits for a variable is a neutral value.
-/

namespace TypeInType

mutual

/-- A value. -/
inductive Value where
  | neutral (n : Neutral)
  | star
  | pi (name : Option String) (domain : Value) (codomain : Closure)
  | lam (name : Option String) (body : Closure)
  | nat
  | zero
  | succ (pred : Value)
  | vec (elem len : Value)
  | nil (elem : Value)
  | cons (elem len head tail : Value)

/-- A variable under eliminations that wait for its value. -/
inductive Neutral where
  | free (name : Name)
  | app (fn : Neutral) (arg : Value)
  | natElim (motive base step : Value) (scrut : Neutral)
  | vecElim (elem motive base step len : Value) (scrut : Neutral)

/-- The values of the names of the signature, and of the bound variables, the innermost first. -/
structure Env where
  globals : List (String × Value)
  locals : List Value

/-- The body of a binder, and the values of all its variables but the bound one. -/
structure Closure where
  env : Env
  body : Check

end

instance : Inhabited Value := ⟨.star⟩

/-- The value of a free variable that stands for itself. -/
def Value.free (x : Name) : Value :=
  .neutral (.free x)

namespace Env

/-- The value of a name of the signature. -/
def global? (env : Env) (x : String) : Option Value :=
  env.globals.lookup x

/-- The environment inside a binder whose variable has the given value. -/
def push (env : Env) (v : Value) : Env :=
  { env with locals := v :: env.locals }

end Env

end TypeInType
