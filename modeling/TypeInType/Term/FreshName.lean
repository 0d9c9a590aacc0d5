import TypeInType.Term

/-!
# Names for binders

A printed binder keeps its name, with primes if the name is taken, and a binder without a name is
given the first letter that is free. A name is taken if it is in scope or if the body of the binder
mentions it as a name of the signature.
-/

namespace TypeInType

/-- The names `a`, …, `z`, `a1`, …, `z1`, `a2`, …. -/
def alphabeticName (i : Nat) : String :=
  let letter := Char.ofNat ('a'.toNat + i % 26)
  let round := i / 26
  if round = 0 then String.ofList [letter]
  else String.ofList (letter :: (toString round).toList)

/-- A name with primes. -/
def primed (x : String) (i : Nat) : String :=
  x ++ String.ofList (List.replicate i '\'')

/-- The first candidate that is not taken. One of the first `taken.length + 1` is free if no two
candidates are equal. -/
def firstFree (candidate : Nat → String) (taken : List String) : String :=
  let free := (List.range (taken.length + 1)).find? fun i => !taken.contains (candidate i)
  candidate (free.getD taken.length)

mutual

/-- The names of the signature that occur in a term. -/
def Synth.globals : Synth → List String
  | .ann _ e t => e.globals ++ t.globals
  | .star _ => []
  | .pi _ _ d c => d.globals ++ c.globals
  | .bound _ _ => []
  | .free _ (.global x) => [x]
  | .free _ _ => []
  | .app _ h a => h.globals ++ a.globals
  | .nat _ => []
  | .zero _ => []
  | .succ _ n => n.globals
  | .natElim _ m b s n => m.globals ++ b.globals ++ s.globals ++ n.globals
  | .vec _ a n => a.globals ++ n.globals
  | .nil _ a => a.globals
  | .cons _ a n x xs => a.globals ++ n.globals ++ x.globals ++ xs.globals
  | .vecElim _ a m b s n xs =>
    a.globals ++ m.globals ++ b.globals ++ s.globals ++ n.globals ++ xs.globals

/-- The names of the signature that occur in a term. -/
def Check.globals : Check → List String
  | .synth t => t.globals
  | .lam _ _ b => b.globals
  | .ascribe _ t e => t.globals ++ e.globals
  | .sealed _ e => e.globals

end

mutual

/-- The bound variable with the given index occurs in the term. -/
def Synth.binds : Synth → Nat → Bool
  | .ann _ e t, i => e.binds i || t.binds i
  | .star _, _ => false
  | .pi _ _ d c, i => d.binds i || c.binds (i + 1)
  | .bound _ j, i => j == i
  | .free _ _, _ => false
  | .app _ h a, i => h.binds i || a.binds i
  | .nat _, _ => false
  | .zero _, _ => false
  | .succ _ n, i => n.binds i
  | .natElim _ m b s n, i => m.binds i || b.binds i || s.binds i || n.binds i
  | .vec _ a n, i => a.binds i || n.binds i
  | .nil _ a, i => a.binds i
  | .cons _ a n x xs, i => a.binds i || n.binds i || x.binds i || xs.binds i
  | .vecElim _ a m b s n xs, i =>
    a.binds i || m.binds i || b.binds i || s.binds i || n.binds i || xs.binds i

/-- The bound variable with the given index occurs in the term. -/
def Check.binds : Check → Nat → Bool
  | .synth t, i => t.binds i
  | .lam _ _ b, i => b.binds (i + 1)
  | .ascribe _ t e, i => t.binds i || e.binds i
  | .sealed _ e, i => e.binds i

end

/-- The name to print for a binder, given the names in scope and the body of the binder. -/
def freshName (scope : List String) (name : Option String) (body : Check) : String :=
  let taken := scope ++ body.globals
  match name with
  | some x => firstFree (primed x) taken
  | none => firstFree alphabeticName taken

end TypeInType
