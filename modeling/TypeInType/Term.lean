import TypeInType.Text.Range

/-!
# Terms

The terms that are checked and evaluated. Terms come in two sorts: those whose type can be inferred,
and those that are checked against a known type. Bound variables are de Bruijn indices; the names of
binders are kept for printing only, and spans for messages only.
-/

namespace TypeInType

/-- A free variable: a name of the signature, a hypothesis that checking introduced for the binder
at a level, or a variable that read-back introduced for the binder at a level. -/
inductive Name where
  | global (name : String)
  | hyp (level : Nat)
  | quote (level : Nat)
  deriving DecidableEq, Repr, Inhabited

mutual

/-- Terms whose type can be inferred. -/
inductive Synth where
  | ann (span : Span) (term type : Check)
  | star (span : Span)
  | pi (span : Span) (name : Option String) (domain codomain : Check)
  | bound (span : Span) (index : Nat)
  | free (span : Span) (name : Name)
  | app (span : Span) (head : Synth) (arg : Check)
  | nat (span : Span)
  | zero (span : Span)
  | succ (span : Span) (pred : Check)
  | natElim (span : Span) (motive base step scrut : Check)
  | vec (span : Span) (elem len : Check)
  | nil (span : Span) (elem : Check)
  | cons (span : Span) (elem len head tail : Check)
  | vecElim (span : Span) (elem motive base step len scrut : Check)

/-- Terms that are checked against a type. An ascription `id` names the type that a term is checked
against; a seal hides that the type of a term can be inferred. -/
inductive Check where
  | synth (term : Synth)
  | lam (span : Span) (name : Option String) (body : Check)
  | ascribe (span : Span) (type term : Check)
  | sealed (span : Span) (term : Synth)

end

instance : Inhabited Synth := ⟨.star none⟩

instance : Inhabited Check := ⟨.synth (.star none)⟩

/-- Where the term comes from. -/
def Synth.span : Synth → Span
  | ann s _ _ | star s | pi s _ _ _ | bound s _ | free s _ | app s _ _ | nat s | zero s | succ s _
  | natElim s _ _ _ _ | vec s _ _ | nil s _ | cons s _ _ _ _ | vecElim s _ _ _ _ _ _ => s

/-- Where the term comes from. -/
def Check.span : Check → Span
  | synth t => t.span
  | lam s _ _ | ascribe s _ _ | sealed s _ => s

/-! ## Substitution -/

mutual

/-- Put a term that has no bound variables in place of the bound variable with the given index. The
other indices stay as they are. -/
def Synth.subst : Synth → Nat → Synth → Synth
  | .ann s e t, i, r => .ann s (e.subst i r) (t.subst i r)
  | .star s, _, _ => .star s
  | .pi s x d c, i, r => .pi s x (d.subst i r) (c.subst (i + 1) r)
  | .bound s j, i, r => if j = i then r else .bound s j
  | .free s x, _, _ => .free s x
  | .app s h a, i, r => .app s (h.subst i r) (a.subst i r)
  | .nat s, _, _ => .nat s
  | .zero s, _, _ => .zero s
  | .succ s n, i, r => .succ s (n.subst i r)
  | .natElim s m b t n, i, r =>
    .natElim s (m.subst i r) (b.subst i r) (t.subst i r) (n.subst i r)
  | .vec s a n, i, r => .vec s (a.subst i r) (n.subst i r)
  | .nil s a, i, r => .nil s (a.subst i r)
  | .cons s a n x xs, i, r => .cons s (a.subst i r) (n.subst i r) (x.subst i r) (xs.subst i r)
  | .vecElim s a m b t n xs, i, r =>
    .vecElim s (a.subst i r) (m.subst i r) (b.subst i r) (t.subst i r) (n.subst i r) (xs.subst i r)

/-- Put a term that has no bound variables in place of the bound variable with the given index. -/
def Check.subst : Check → Nat → Synth → Check
  | .synth t, i, r => .synth (t.subst i r)
  | .lam s x b, i, r => .lam s x (b.subst (i + 1) r)
  | .ascribe s t e, i, r => .ascribe s (t.subst i r) (e.subst i r)
  | .sealed s e, i, r => .sealed s (e.subst i r)

end

/-! ## Equality up to spans and the names of binders -/

mutual

/-- The terms differ in spans and in the names of binders at most. -/
def Synth.alphaEq : Synth → Synth → Bool
  | .ann _ e t, .ann _ e' t' => e.alphaEq e' && t.alphaEq t'
  | .star _, .star _ => true
  | .pi _ _ d c, .pi _ _ d' c' => d.alphaEq d' && c.alphaEq c'
  | .bound _ i, .bound _ i' => i == i'
  | .free _ x, .free _ x' => x == x'
  | .app _ h a, .app _ h' a' => h.alphaEq h' && a.alphaEq a'
  | .nat _, .nat _ => true
  | .zero _, .zero _ => true
  | .succ _ n, .succ _ n' => n.alphaEq n'
  | .natElim _ m b t n, .natElim _ m' b' t' n' =>
    m.alphaEq m' && b.alphaEq b' && t.alphaEq t' && n.alphaEq n'
  | .vec _ a n, .vec _ a' n' => a.alphaEq a' && n.alphaEq n'
  | .nil _ a, .nil _ a' => a.alphaEq a'
  | .cons _ a n x xs, .cons _ a' n' x' xs' =>
    a.alphaEq a' && n.alphaEq n' && x.alphaEq x' && xs.alphaEq xs'
  | .vecElim _ a m b t n xs, .vecElim _ a' m' b' t' n' xs' =>
    a.alphaEq a' && m.alphaEq m' && b.alphaEq b' && t.alphaEq t' && n.alphaEq n' && xs.alphaEq xs'
  | _, _ => false

/-- The terms differ in spans and in the names of binders at most. -/
def Check.alphaEq : Check → Check → Bool
  | .synth t, .synth t' => t.alphaEq t'
  | .lam _ _ b, .lam _ _ b' => b.alphaEq b'
  | .ascribe _ t e, .ascribe _ t' e' => t.alphaEq t' && e.alphaEq e'
  | .sealed _ e, .sealed _ e' => e.alphaEq e'
  | _, _ => false

end

/-! ## Numerals -/

/-- The number that a chain of successors of zero stands for. -/
def Synth.numeral? : Synth → Option Nat
  | .zero _ => some 0
  | .succ _ (.synth t) => t.numeral?.map (· + 1)
  | _ => none

/-! ## Formers -/

/-- The constants with a syntax of their own: each is always applied to all its arguments. -/
inductive Former where
  | nat
  | zero
  | succ
  | natElim
  | vec
  | nil
  | cons
  | vecElim
  | ascribe
  | sealed
  deriving DecidableEq, Repr

/-- What the former is called in sources and messages. -/
def Former.name : Former → String
  | nat => "Nat"
  | zero => "Zero"
  | succ => "Succ"
  | natElim => "natElim"
  | vec => "Vec"
  | nil => "Nil"
  | cons => "Cons"
  | vecElim => "vecElim"
  | ascribe => "id"
  | sealed => "opaque"

/-- The former at the root of a term and its arguments. -/
def Synth.former? : Synth → Option (Former × List Check)
  | .nat _ => some (.nat, [])
  | .zero _ => some (.zero, [])
  | .succ _ n => some (.succ, [n])
  | .natElim _ m b s n => some (.natElim, [m, b, s, n])
  | .vec _ a n => some (.vec, [a, n])
  | .nil _ a => some (.nil, [a])
  | .cons _ a n x xs => some (.cons, [a, n, x, xs])
  | .vecElim _ a m b s n xs => some (.vecElim, [a, m, b, s, n, xs])
  | _ => none

/-- The former at the root of a term and its arguments. -/
def Check.former? : Check → Option (Former × List Check)
  | .synth t => t.former?
  | .lam _ _ _ => none
  | .ascribe _ t e => some (.ascribe, [t, e])
  | .sealed _ e => some (.sealed, [.synth e])

end TypeInType
