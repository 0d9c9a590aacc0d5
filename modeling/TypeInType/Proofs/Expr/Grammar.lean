import TypeInType.Expr.Read

/-!
# The grammar of sources

Derivation trees of the grammar, with lexemes at their leaves. A tree has the lexemes that it derives
(`yield`) and the expression that it denotes (`denote`); no other tree derives these lexemes.

```
program ::= decl*
decl    ::= 'axiom' names ':' expr | 'defun' name '=' expr | 'check' expr
names   ::= name (',' name)*
expr    ::= arrow (':' arrow)*
arrow   ::= forall name ':' app pi-arrow arrow | forall group+ pi-arrow arrow
          | lambda name+ lam-arrow arrow | app '->' arrow | app
group   ::= '(' names ':' expr ')'
app     ::= atom+
atom    ::= '(' expr ')' | name | '*' | number
```
-/

namespace TypeInType.Grammar

/-! ## Terminals -/

/-- A lexeme with a given token. -/
abbrev Lex (k : Token) := { l : Lexeme // l.token = k }

/-- What stands between the binders and the body of a function type. -/
abbrev PiArrow := { l : Lexeme // l.token = .arrow ∨ l.token = .dot ∨ l.token = .comma }

/-- What stands between the names and the body of a function literal. -/
abbrev LamArrow := { l : Lexeme // l.token = .arrow ∨ l.token = .dot }

/-- A number literal that is not too large. -/
abbrev Numeral := { l : Lexeme // l.token = .number ∧ decimalValue l.text.toList ≤ maxNumber }

/-- The name that a lexeme spells, where it is bound. -/
def Lex.ident (l : Lex .name) : Ident :=
  ⟨l.1.range, l.1.text⟩

/-! ## Trees -/

/-- Names with commas between them. -/
structure Names where
  first : Lex .name
  more : List (Lex .comma × Lex .name)

mutual

inductive ExprTree where
  | mk (first : ArrowTree) (types : TypesTree)

inductive TypesTree where
  | nil
  | cons (colon : Lex .colon) (type : ArrowTree) (more : TypesTree)

inductive ArrowTree where
  | piName (sign : Lex .forallSign) (name : Lex .name) (colon : Lex .colon) (domain : AppTree)
      (arrow : PiArrow) (body : ArrowTree)
  | piGroups (sign : Lex .forallSign) (first : GroupTree) (more : GroupsTree) (arrow : PiArrow)
      (body : ArrowTree)
  | lam (sign : Lex .lambdaSign) (first : Lex .name) (more : List (Lex .name)) (arrow : LamArrow)
      (body : ArrowTree)
  | fn (domain : AppTree) (arrow : Lex .arrow) (codomain : ArrowTree)
  | app (tree : AppTree)

inductive GroupTree where
  | mk (left : Lex .openParen) (names : Names) (colon : Lex .colon) (domain : ExprTree)
      (right : Lex .closeParen)

inductive GroupsTree where
  | nil
  | cons (group : GroupTree) (more : GroupsTree)

inductive AppTree where
  | mk (head : AtomTree) (args : ArgsTree)

inductive ArgsTree where
  | nil
  | cons (arg : AtomTree) (more : ArgsTree)

inductive AtomTree where
  | paren (left : Lex .openParen) (expr : ExprTree) (right : Lex .closeParen)
  | name (name : Lex .name)
  | star (star : Lex .star)
  | number (number : Numeral)

end

inductive DeclTree where
  | postulate (word : Lex .axiomWord) (names : Names) (colon : Lex .colon) (type : ExprTree)
  | define (word : Lex .defunWord) (name : Lex .name) (equals : Lex .equals) (expr : ExprTree)
  | check (word : Lex .checkWord) (expr : ExprTree)

/-! ## What a tree derives -/

def Names.yield (ns : Names) : List Lexeme :=
  ns.first.1 :: ns.more.flatMap fun n => [n.1.1, n.2.1]

mutual

def ExprTree.yield : ExprTree → List Lexeme
  | .mk first types => first.yield ++ types.yield

def TypesTree.yield : TypesTree → List Lexeme
  | .nil => []
  | .cons colon type more => colon.1 :: (type.yield ++ more.yield)

def ArrowTree.yield : ArrowTree → List Lexeme
  | .piName sign name colon domain arrow body =>
    sign.1 :: name.1 :: colon.1 :: (domain.yield ++ arrow.1 :: body.yield)
  | .piGroups sign first more arrow body =>
    sign.1 :: (first.yield ++ (more.yield ++ arrow.1 :: body.yield))
  | .lam sign first more arrow body =>
    sign.1 :: first.1 :: (more.map Subtype.val ++ arrow.1 :: body.yield)
  | .fn domain arrow codomain => domain.yield ++ arrow.1 :: codomain.yield
  | .app tree => tree.yield

def GroupTree.yield : GroupTree → List Lexeme
  | .mk left names colon domain right =>
    left.1 :: (names.yield ++ colon.1 :: (domain.yield ++ [right.1]))

def GroupsTree.yield : GroupsTree → List Lexeme
  | .nil => []
  | .cons group more => group.yield ++ more.yield

def AppTree.yield : AppTree → List Lexeme
  | .mk head args => head.yield ++ args.yield

def ArgsTree.yield : ArgsTree → List Lexeme
  | .nil => []
  | .cons arg more => arg.yield ++ more.yield

def AtomTree.yield : AtomTree → List Lexeme
  | .paren left expr right => left.1 :: (expr.yield ++ [right.1])
  | .name name => [name.1]
  | .star star => [star.1]
  | .number number => [number.1]

end

def DeclTree.yield : DeclTree → List Lexeme
  | .postulate word names colon type => word.1 :: (names.yield ++ colon.1 :: type.yield)
  | .define word name equals expr => word.1 :: name.1 :: equals.1 :: expr.yield
  | .check word expr => word.1 :: expr.yield

/-! ## What a tree denotes -/

def Names.idents (ns : Names) : List Ident :=
  ns.first.ident :: ns.more.map fun n => n.2.ident

mutual

def ExprTree.denote : ExprTree → Expr
  | .mk first types => types.annotate first.denote

/-- Annotations group to the left. -/
def TypesTree.annotate : TypesTree → Expr → Expr
  | .nil, e => e
  | .cons _ type more, e => more.annotate (.ann (e.range.merge type.denote.range) e type.denote)

def ArrowTree.denote : ArrowTree → Expr
  | .piName sign name _ domain _ body =>
    .pi (sign.1.range.merge body.denote.range) (some name.ident) domain.denote body.denote
  | .piGroups sign first more _ body =>
    .pis (sign.1.range.merge body.denote.range) (first.binders ++ more.binders) body.denote
  | .lam sign first more _ body =>
    .lams (sign.1.range.merge body.denote.range) (first.ident :: more.map Lex.ident) body.denote
  | .fn domain _ codomain =>
    .pi (domain.denote.range.merge codomain.denote.range) none domain.denote codomain.denote
  | .app tree => tree.denote

/-- Each name of the group is bound with the domain of the group. -/
def GroupTree.binders : GroupTree → List (Ident × Expr)
  | .mk _ names _ domain _ => names.idents.map (·, domain.denote)

def GroupsTree.binders : GroupsTree → List (Ident × Expr)
  | .nil => []
  | .cons group more => group.binders ++ more.binders

def AppTree.denote : AppTree → Expr
  | .mk head args => args.apply head.denote

def ArgsTree.apply : ArgsTree → Expr → Expr
  | .nil, e => e
  | .cons arg more, e => more.apply (.app (e.range.merge arg.denote.range) e arg.denote)

def AtomTree.denote : AtomTree → Expr
  | .paren _ expr _ => expr.denote
  | .name name => .var name.1.range name.1.text
  | .star star => .star star.1.range
  | .number number => .number number.1.range (decimalValue number.1.text.toList)

end

def DeclTree.denote : DeclTree → Decl
  | .postulate word names _ type =>
    .postulate (word.1.range.merge type.denote.range) names.idents type.denote
  | .define word name _ expr => .define (word.1.range.merge expr.denote.range) name.ident expr.denote
  | .check word expr => .check (word.1.range.merge expr.denote.range) expr.denote

/-! ## Where a phrase ends -/

/-- The next lexeme, if there is one, has no token of the class. -/
def Stops (p : Token → Bool) (r : List Lexeme) : Prop :=
  ∀ l ∈ r.head?, p l.token = false

theorem stops_nil {p} : Stops p [] := nofun

theorem stops_cons {p l r} : Stops p (l :: r) ↔ p l.token = false := by
  simp [Stops]

theorem Stops.mono {p q : Token → Bool} {r} (h : Stops q r) (hpq : ∀ k, q k = false → p k = false) :
    Stops p r :=
  fun l hl => hpq l.token (h l hl)

/-- The tokens that continue an arrow expression. -/
def continuesArrow (k : Token) : Bool :=
  k.startsAtom || k == .arrow

/-- The tokens that continue an expression. -/
def continuesExpr (k : Token) : Bool :=
  continuesArrow k || k == .colon

theorem Stops.arrow_of_expr {r} (h : Stops continuesExpr r) : Stops continuesArrow r :=
  h.mono fun k hk => by simp_all [continuesExpr]

theorem Stops.colon_of_expr {r} (h : Stops continuesExpr r) : Stops (· == .colon) r :=
  h.mono fun k hk => by simp_all [continuesExpr]

theorem Stops.atom_of_arrow {r} (h : Stops continuesArrow r) : Stops Token.startsAtom r :=
  h.mono fun k hk => by simp_all [continuesArrow]

theorem Stops.sign_of_arrow {r} (h : Stops continuesArrow r) : Stops (· == .arrow) r :=
  h.mono fun k hk => by simp_all [continuesArrow]

theorem Stops.expr {r} (h : Stops continuesArrow r) (hc : Stops (· == .colon) r) :
    Stops continuesExpr r := by
  intro l hl
  simp only [continuesExpr, h l hl, Bool.false_or]
  exact hc l hl

theorem Stops.arrow {r} (h : Stops Token.startsAtom r) (ha : Stops (· == .arrow) r) :
    Stops continuesArrow r := by
  intro l hl
  simp only [continuesArrow, h l hl, Bool.false_or]
  exact ha l hl

theorem ne_sign {l : Lexeme} {k : Token} (h : l.token.startsAtom = true) (hk : k.startsAtom = false) :
    l.token ≠ k := by
  rintro rfl
  rw [h] at hk
  cases hk

theorem Lex.stops {p : Token → Bool} {k : Token} (l : Lex k) (hk : p k = false) (r : List Lexeme) :
    Stops p (l.1 :: r) := by
  rw [stops_cons, l.2]; exact hk

theorem PiArrow.stops {p : Token → Bool} (l : PiArrow) (ha : p .arrow = false) (hd : p .dot = false)
    (hc : p .comma = false) (r : List Lexeme) : Stops p (l.1 :: r) := by
  rw [stops_cons]
  rcases l.2 with h | h | h <;> rw [h] <;> assumption

theorem LamArrow.stops {p : Token → Bool} (l : LamArrow) (ha : p .arrow = false)
    (hd : p .dot = false) (r : List Lexeme) : Stops p (l.1 :: r) := by
  rw [stops_cons]
  rcases l.2 with h | h <;> rw [h] <;> assumption

/-! ## Every derivation is the only one -/

theorem terminal_cons {p : Lexeme → Prop} {l l' : { l // p l }} {r r' : List Lexeme} :
    l.1 :: r = l'.1 :: r' ↔ l = l' ∧ r = r' := by
  rw [List.cons.injEq, Subtype.ext_iff]

theorem names_unique {r r' : List Lexeme} : ∀ {more more' : List (Lex .comma × Lex .name)},
    Stops (· == .comma) r → Stops (· == .comma) r' →
      (more.flatMap fun n => [n.1.1, n.2.1]) ++ r = (more'.flatMap fun n => [n.1.1, n.2.1]) ++ r' →
      more = more' ∧ r = r'
  | [], [], _, _, h => ⟨rfl, h⟩
  | [], n :: _, hr, _, h => by
    simp only [List.flatMap_nil, List.nil_append, List.flatMap_cons] at h
    subst h
    simp [stops_cons, n.1.2] at hr
  | n :: _, [], _, hr', h => by
    simp only [List.flatMap_nil, List.nil_append, List.flatMap_cons] at h
    subst h
    simp [stops_cons, n.1.2] at hr'
  | (c, x) :: more, (c', x') :: more', hr, hr', h => by
    simp only [List.flatMap_cons, List.cons_append, List.nil_append, terminal_cons] at h
    obtain ⟨rfl, rfl, h⟩ := h
    obtain ⟨rfl, rfl⟩ := names_unique hr hr' h
    exact ⟨rfl, rfl⟩

theorem Names.unique {ns ns' : Names} {r r' : List Lexeme} (hr : Stops (· == .comma) r)
    (hr' : Stops (· == .comma) r') (h : ns.yield ++ r = ns'.yield ++ r') : ns = ns' ∧ r = r' := by
  obtain ⟨x, more⟩ := ns
  obtain ⟨x', more'⟩ := ns'
  simp only [Names.yield, List.cons_append, terminal_cons] at h
  obtain ⟨rfl, h⟩ := h
  obtain ⟨rfl, rfl⟩ := names_unique hr hr' h
  exact ⟨rfl, rfl⟩

theorem params_unique {r r' : List Lexeme} : ∀ {xs xs' : List (Lex .name)},
    Stops (· == .name) r → Stops (· == .name) r' →
      xs.map Subtype.val ++ r = xs'.map Subtype.val ++ r' → xs = xs' ∧ r = r'
  | [], [], _, _, h => ⟨rfl, h⟩
  | [], x :: _, hr, _, h => by
    simp only [List.map_nil, List.nil_append, List.map_cons, List.cons_append] at h
    subst h
    simp [stops_cons, x.2] at hr
  | x :: _, [], _, hr', h => by
    simp only [List.map_nil, List.nil_append, List.map_cons, List.cons_append] at h
    subst h
    simp [stops_cons, x.2] at hr'
  | x :: xs, x' :: xs', hr, hr', h => by
    simp only [List.map_cons, List.cons_append, terminal_cons] at h
    obtain ⟨rfl, h⟩ := h
    obtain ⟨rfl, rfl⟩ := params_unique hr hr' h
    exact ⟨rfl, rfl⟩

theorem AtomTree.yield_eq (d : AtomTree) :
    ∃ l r, d.yield = l :: r ∧ l.token.startsAtom = true := by
  cases d with
  | paren left _ _ => exact ⟨_, _, rfl, by rw [left.2]; rfl⟩
  | name name => exact ⟨_, _, rfl, by rw [name.2]; rfl⟩
  | star star => exact ⟨_, _, rfl, by rw [star.2]; rfl⟩
  | number number => exact ⟨_, _, rfl, by rw [number.2.1]; rfl⟩

theorem AppTree.yield_eq (d : AppTree) :
    ∃ l r, d.yield = l :: r ∧ l.token.startsAtom = true := by
  obtain ⟨head, args⟩ := d
  obtain ⟨l, r, h, hl⟩ := head.yield_eq
  exact ⟨l, r ++ args.yield, by simp only [AppTree.yield, h, List.cons_append], hl⟩

theorem GroupTree.yield_eq (d : GroupTree) : ∃ (l : Lex .openParen) (r : List Lexeme), d.yield = l.1 :: r := by
  obtain ⟨left, names, colon, domain, right⟩ := d
  exact ⟨left, _, rfl⟩

theorem Lex.clash {k k' : Token} {l : Lex k} {l' : Lex k'} {r r' : List Lexeme}
    (h : l.1 :: r = l'.1 :: r') (hk : k ≠ k') : False := by
  injection h with h _
  exact hk (l.2.symm.trans ((congrArg Lexeme.token h).trans l'.2))

theorem Numeral.clash {n : Numeral} {k : Token} {l : Lex k} {r r' : List Lexeme}
    (h : n.1 :: r = l.1 :: r') (hk : Token.number ≠ k) : False :=
  Lex.clash (l := ⟨n.1, n.2.1⟩) h hk

theorem AppTree.clash {d : AppTree} {k : Token} {l : Lex k} {r r' : List Lexeme}
    (h : d.yield ++ r = l.1 :: r') (hk : k.startsAtom = false) : False := by
  obtain ⟨l', s, hd, hl'⟩ := d.yield_eq
  rw [hd, List.cons_append] at h
  injection h with h _
  rw [h, l.2, hk] at hl'
  cases hl'

theorem TypesTree.stops {d : TypesTree} {r : List Lexeme} (hr : Stops continuesArrow r) :
    Stops continuesArrow (d.yield ++ r) := by
  cases d with
  | nil => exact hr
  | cons colon _ _ => exact colon.stops rfl _

theorem GroupsTree.clash {d : GroupTree} {r r' : List Lexeme} (hr : Stops (· == .openParen) r)
    (h : r = d.yield ++ r') : False := by
  obtain ⟨l, s, hd⟩ := d.yield_eq
  rw [h, hd, List.cons_append, stops_cons, l.2] at hr
  cases hr

theorem ArgsTree.clash {d : AtomTree} {r r' : List Lexeme} (hr : Stops Token.startsAtom r)
    (h : r = d.yield ++ r') : False := by
  obtain ⟨l, s, hd, hl⟩ := d.yield_eq
  rw [h, hd, List.cons_append, stops_cons, hl] at hr
  cases hr

mutual

theorem ExprTree.unique : ∀ {d d' : ExprTree} {r r' : List Lexeme}, Stops continuesExpr r →
    Stops continuesExpr r' → d.yield ++ r = d'.yield ++ r' → d = d' ∧ r = r'
  | .mk first types, .mk first' types', r, r', hr, hr', h => by
    simp only [ExprTree.yield, List.append_assoc] at h
    obtain ⟨rfl, h₁⟩ := ArrowTree.unique (TypesTree.stops hr.arrow_of_expr)
      (TypesTree.stops hr'.arrow_of_expr) h
    obtain ⟨rfl, rfl⟩ := TypesTree.unique hr hr' h₁
    exact ⟨rfl, rfl⟩

theorem TypesTree.unique : ∀ {d d' : TypesTree} {r r' : List Lexeme}, Stops continuesExpr r →
    Stops continuesExpr r' → d.yield ++ r = d'.yield ++ r' → d = d' ∧ r = r'
  | .nil, .nil, _, _, _, _, h => ⟨rfl, h⟩
  | .nil, .cons colon _ _, _, _, hr, _, h => by
    simp only [TypesTree.yield, List.nil_append, List.cons_append] at h
    simp [h, stops_cons, colon.2, continuesExpr] at hr
  | .cons colon _ _, .nil, _, _, _, hr', h => by
    simp only [TypesTree.yield, List.nil_append, List.cons_append] at h
    simp [← h, stops_cons, colon.2, continuesExpr] at hr'
  | .cons colon type more, .cons colon' type' more', r, r', hr, hr', h => by
    simp only [TypesTree.yield, List.cons_append, List.append_assoc, terminal_cons] at h
    obtain ⟨rfl, h₁⟩ := h
    obtain ⟨rfl, h₂⟩ := ArrowTree.unique (TypesTree.stops hr.arrow_of_expr)
      (TypesTree.stops hr'.arrow_of_expr) h₁
    obtain ⟨rfl, rfl⟩ := TypesTree.unique hr hr' h₂
    exact ⟨rfl, rfl⟩

theorem ArrowTree.unique : ∀ {d d' : ArrowTree} {r r' : List Lexeme}, Stops continuesArrow r →
    Stops continuesArrow r' → d.yield ++ r = d'.yield ++ r' → d = d' ∧ r = r'
  | .piName sign name colon domain arrow body, d', r, r', hr, hr', h => by
    cases d' with
    | piName sign' name' colon' domain' arrow' body' =>
      simp only [ArrowTree.yield, List.cons_append, List.append_assoc, terminal_cons] at h
      obtain ⟨rfl, rfl, rfl, h₁⟩ := h
      obtain ⟨rfl, h₂⟩ := AppTree.unique (arrow.stops rfl rfl rfl _) (arrow'.stops rfl rfl rfl _) h₁
      obtain ⟨rfl, h₃⟩ := terminal_cons.mp h₂
      obtain ⟨rfl, rfl⟩ := ArrowTree.unique hr hr' h₃
      exact ⟨rfl, rfl⟩
    | piGroups sign' first' more' arrow' body' =>
      obtain ⟨left, s, hfirst⟩ := first'.yield_eq
      simp only [ArrowTree.yield, hfirst, List.cons_append, List.append_assoc, terminal_cons] at h
      exact (Lex.clash h.2 nofun).elim
    | lam sign' first' more' arrow' body' => exact (Lex.clash h nofun).elim
    | fn domain' arrow' codomain' =>
      simp only [ArrowTree.yield, List.append_assoc] at h
      exact (AppTree.clash h.symm rfl).elim
    | app tree' => exact (AppTree.clash h.symm rfl).elim
  | .piGroups sign first more arrow body, d', r, r', hr, hr', h => by
    cases d' with
    | piName sign' name' colon' domain' arrow' body' =>
      obtain ⟨left, s, hfirst⟩ := first.yield_eq
      simp only [ArrowTree.yield, hfirst, List.cons_append, List.append_assoc, terminal_cons] at h
      exact (Lex.clash h.2 nofun).elim
    | piGroups sign' first' more' arrow' body' =>
      simp only [ArrowTree.yield, List.cons_append, List.append_assoc, terminal_cons] at h
      obtain ⟨rfl, h₁⟩ := h
      obtain ⟨rfl, h₂⟩ := GroupTree.unique h₁
      obtain ⟨rfl, h₃⟩ := GroupsTree.unique (arrow.stops rfl rfl rfl _) (arrow'.stops rfl rfl rfl _) h₂
      obtain ⟨rfl, h₄⟩ := terminal_cons.mp h₃
      obtain ⟨rfl, rfl⟩ := ArrowTree.unique hr hr' h₄
      exact ⟨rfl, rfl⟩
    | lam sign' first' more' arrow' body' => exact (Lex.clash h nofun).elim
    | fn domain' arrow' codomain' =>
      simp only [ArrowTree.yield, List.append_assoc] at h
      exact (AppTree.clash h.symm rfl).elim
    | app tree' => exact (AppTree.clash h.symm rfl).elim
  | .lam sign first more arrow body, d', r, r', hr, hr', h => by
    cases d' with
    | piName sign' name' colon' domain' arrow' body' => exact (Lex.clash h nofun).elim
    | piGroups sign' first' more' arrow' body' => exact (Lex.clash h nofun).elim
    | lam sign' first' more' arrow' body' =>
      simp only [ArrowTree.yield, List.cons_append, List.append_assoc, terminal_cons] at h
      obtain ⟨rfl, rfl, h₁⟩ := h
      obtain ⟨rfl, h₂⟩ := params_unique (arrow.stops rfl rfl _) (arrow'.stops rfl rfl _) h₁
      obtain ⟨rfl, h₃⟩ := terminal_cons.mp h₂
      obtain ⟨rfl, rfl⟩ := ArrowTree.unique hr hr' h₃
      exact ⟨rfl, rfl⟩
    | fn domain' arrow' codomain' =>
      simp only [ArrowTree.yield, List.append_assoc] at h
      exact (AppTree.clash h.symm rfl).elim
    | app tree' => exact (AppTree.clash h.symm rfl).elim
  | .fn domain arrow codomain, d', r, r', hr, hr', h => by
    simp only [ArrowTree.yield, List.append_assoc] at h
    cases d' with
    | piName sign' name' colon' domain' arrow' body' => exact (AppTree.clash h rfl).elim
    | piGroups sign' first' more' arrow' body' => exact (AppTree.clash h rfl).elim
    | lam sign' first' more' arrow' body' => exact (AppTree.clash h rfl).elim
    | fn domain' arrow' codomain' =>
      simp only [ArrowTree.yield, List.append_assoc] at h
      obtain ⟨rfl, h₁⟩ := AppTree.unique (arrow.stops rfl _) (arrow'.stops rfl _) h
      obtain ⟨rfl, h₂⟩ := terminal_cons.mp h₁
      obtain ⟨rfl, rfl⟩ := ArrowTree.unique hr hr' h₂
      exact ⟨rfl, rfl⟩
    | app tree' =>
      simp only [ArrowTree.yield] at h
      obtain ⟨_, h₁⟩ := AppTree.unique (arrow.stops rfl _) hr'.atom_of_arrow h
      rw [← h₁, stops_cons, arrow.2] at hr'
      cases hr'
  | .app tree, d', r, r', hr, hr', h => by
    simp only [ArrowTree.yield] at h
    cases d' with
    | piName sign' name' colon' domain' arrow' body' => exact (AppTree.clash h rfl).elim
    | piGroups sign' first' more' arrow' body' => exact (AppTree.clash h rfl).elim
    | lam sign' first' more' arrow' body' => exact (AppTree.clash h rfl).elim
    | fn domain' arrow' codomain' =>
      simp only [ArrowTree.yield, List.append_assoc] at h
      obtain ⟨_, h₁⟩ := AppTree.unique hr.atom_of_arrow (arrow'.stops rfl _) h
      rw [h₁, stops_cons, arrow'.2] at hr
      cases hr
    | app tree' =>
      simp only [ArrowTree.yield] at h
      obtain ⟨rfl, rfl⟩ := AppTree.unique hr.atom_of_arrow hr'.atom_of_arrow h
      exact ⟨rfl, rfl⟩

theorem GroupTree.unique : ∀ {d d' : GroupTree} {r r' : List Lexeme},
    d.yield ++ r = d'.yield ++ r' → d = d' ∧ r = r'
  | .mk left names colon domain right, .mk left' names' colon' domain' right', r, r', h => by
    simp only [GroupTree.yield, List.cons_append, List.append_assoc, terminal_cons] at h
    obtain ⟨rfl, h₁⟩ := h
    obtain ⟨rfl, h₂⟩ := Names.unique (colon.stops rfl _) (colon'.stops rfl _) h₁
    obtain ⟨rfl, h₃⟩ := terminal_cons.mp h₂
    obtain ⟨rfl, h₄⟩ := ExprTree.unique (right.stops rfl _) (right'.stops rfl _) h₃
    obtain ⟨rfl, rfl⟩ := terminal_cons.mp h₄
    exact ⟨rfl, rfl⟩

theorem GroupsTree.unique : ∀ {d d' : GroupsTree} {r r' : List Lexeme},
    Stops (· == .openParen) r → Stops (· == .openParen) r' →
      d.yield ++ r = d'.yield ++ r' → d = d' ∧ r = r'
  | .nil, .nil, _, _, _, _, h => ⟨rfl, h⟩
  | .nil, .cons group more, _, _, hr, _, h => by
    simp only [GroupsTree.yield, List.append_assoc] at h
    exact (GroupsTree.clash hr h).elim
  | .cons group more, .nil, _, _, _, hr', h => by
    simp only [GroupsTree.yield, List.append_assoc] at h
    exact (GroupsTree.clash hr' h.symm).elim
  | .cons group more, .cons group' more', r, r', hr, hr', h => by
    simp only [GroupsTree.yield, List.append_assoc] at h
    obtain ⟨rfl, h₁⟩ := GroupTree.unique h
    obtain ⟨rfl, rfl⟩ := GroupsTree.unique hr hr' h₁
    exact ⟨rfl, rfl⟩

theorem AppTree.unique : ∀ {d d' : AppTree} {r r' : List Lexeme}, Stops Token.startsAtom r →
    Stops Token.startsAtom r' → d.yield ++ r = d'.yield ++ r' → d = d' ∧ r = r'
  | .mk head args, .mk head' args', r, r', hr, hr', h => by
    simp only [AppTree.yield, List.append_assoc] at h
    obtain ⟨rfl, h₁⟩ := AtomTree.unique h
    obtain ⟨rfl, rfl⟩ := ArgsTree.unique hr hr' h₁
    exact ⟨rfl, rfl⟩

theorem ArgsTree.unique : ∀ {d d' : ArgsTree} {r r' : List Lexeme}, Stops Token.startsAtom r →
    Stops Token.startsAtom r' → d.yield ++ r = d'.yield ++ r' → d = d' ∧ r = r'
  | .nil, .nil, _, _, _, _, h => ⟨rfl, h⟩
  | .nil, .cons arg more, _, _, hr, _, h => by
    simp only [ArgsTree.yield, List.append_assoc] at h
    exact (ArgsTree.clash hr h).elim
  | .cons arg more, .nil, _, _, _, hr', h => by
    simp only [ArgsTree.yield, List.append_assoc] at h
    exact (ArgsTree.clash hr' h.symm).elim
  | .cons arg more, .cons arg' more', r, r', hr, hr', h => by
    simp only [ArgsTree.yield, List.append_assoc] at h
    obtain ⟨rfl, h₁⟩ := AtomTree.unique h
    obtain ⟨rfl, rfl⟩ := ArgsTree.unique hr hr' h₁
    exact ⟨rfl, rfl⟩

theorem AtomTree.unique : ∀ {d d' : AtomTree} {r r' : List Lexeme},
    d.yield ++ r = d'.yield ++ r' → d = d' ∧ r = r'
  | .paren left expr right, d', r, r', h => by
    cases d' with
    | paren left' expr' right' =>
      simp only [AtomTree.yield, List.cons_append, List.append_assoc, terminal_cons] at h
      obtain ⟨rfl, h₁⟩ := h
      obtain ⟨rfl, h₂⟩ := ExprTree.unique (right.stops rfl _) (right'.stops rfl _) h₁
      obtain ⟨rfl, rfl⟩ := terminal_cons.mp h₂
      exact ⟨rfl, rfl⟩
    | name name' => exact (Lex.clash h nofun).elim
    | star star' => exact (Lex.clash h nofun).elim
    | number number' => exact (Numeral.clash h.symm nofun).elim
  | .name name, d', r, r', h => by
    cases d' with
    | paren left' expr' right' => exact (Lex.clash h nofun).elim
    | name name' =>
      obtain ⟨rfl, rfl⟩ := terminal_cons.mp h
      exact ⟨rfl, rfl⟩
    | star star' => exact (Lex.clash h nofun).elim
    | number number' => exact (Numeral.clash h.symm nofun).elim
  | .star star, d', r, r', h => by
    cases d' with
    | paren left' expr' right' => exact (Lex.clash h nofun).elim
    | name name' => exact (Lex.clash h nofun).elim
    | star star' =>
      obtain ⟨rfl, rfl⟩ := terminal_cons.mp h
      exact ⟨rfl, rfl⟩
    | number number' => exact (Numeral.clash h.symm nofun).elim
  | .number number, d', r, r', h => by
    cases d' with
    | paren left' expr' right' => exact (Numeral.clash h nofun).elim
    | name name' => exact (Numeral.clash h nofun).elim
    | star star' => exact (Numeral.clash h nofun).elim
    | number number' =>
      obtain ⟨rfl, rfl⟩ := terminal_cons.mp h
      exact ⟨rfl, rfl⟩

end

/-! ## Programs -/

theorem DeclTree.unique {d d' : DeclTree} {r r' : List Lexeme} (hr : Stops continuesExpr r)
    (hr' : Stops continuesExpr r') (h : d.yield ++ r = d'.yield ++ r') : d = d' ∧ r = r' := by
  cases d with
  | postulate word names colon type =>
    cases d' with
    | postulate word' names' colon' type' =>
      simp only [DeclTree.yield, List.cons_append, List.append_assoc, terminal_cons] at h
      obtain ⟨rfl, h₁⟩ := h
      obtain ⟨rfl, h₂⟩ := Names.unique (colon.stops rfl _) (colon'.stops rfl _) h₁
      obtain ⟨rfl, h₃⟩ := terminal_cons.mp h₂
      obtain ⟨rfl, rfl⟩ := ExprTree.unique hr hr' h₃
      exact ⟨rfl, rfl⟩
    | define => exact (Lex.clash h nofun).elim
    | check => exact (Lex.clash h nofun).elim
  | define word name equals expr =>
    cases d' with
    | postulate => exact (Lex.clash h nofun).elim
    | define word' name' equals' expr' =>
      simp only [DeclTree.yield, List.cons_append, terminal_cons] at h
      obtain ⟨rfl, rfl, rfl, h₁⟩ := h
      obtain ⟨rfl, rfl⟩ := ExprTree.unique hr hr' h₁
      exact ⟨rfl, rfl⟩
    | check => exact (Lex.clash h nofun).elim
  | check word expr =>
    cases d' with
    | postulate => exact (Lex.clash h nofun).elim
    | define => exact (Lex.clash h nofun).elim
    | check word' expr' =>
      simp only [DeclTree.yield, List.cons_append, terminal_cons] at h
      obtain ⟨rfl, h₁⟩ := h
      obtain ⟨rfl, rfl⟩ := ExprTree.unique hr hr' h₁
      exact ⟨rfl, rfl⟩

theorem DeclTree.yield_eq (d : DeclTree) : ∃ l r, d.yield = l :: r ∧ l.token.startsDecl = true := by
  cases d with
  | postulate word _ _ _ => exact ⟨_, _, rfl, by rw [word.2]; rfl⟩
  | define word _ _ _ => exact ⟨_, _, rfl, by rw [word.2]; rfl⟩
  | check word _ => exact ⟨_, _, rfl, by rw [word.2]; rfl⟩

/-- The lexemes of declarations one after another. -/
def programYield (p : List DeclTree) : List Lexeme :=
  p.flatMap DeclTree.yield

/-- A declaration ends where the word of the next one begins. -/
theorem programYield_stops (p : List DeclTree) : Stops continuesExpr (programYield p) := by
  cases p with
  | nil => exact stops_nil
  | cons d p =>
    obtain ⟨l, r, hd, hl⟩ := d.yield_eq
    rw [programYield, List.flatMap_cons, hd, List.cons_append, stops_cons]
    revert hl
    cases l.token <;> decide

theorem programYield_injective : ∀ {p p' : List DeclTree}, programYield p = programYield p' → p = p'
  | [], [], _ => rfl
  | [], d :: _, h | d :: _, [], h => by
    obtain ⟨l, r, hd, _⟩ := d.yield_eq
    simp [programYield, hd] at h
  | d :: p, d' :: p', h => by
    obtain ⟨rfl, h₁⟩ := DeclTree.unique (programYield_stops p) (programYield_stops p')
      (show d.yield ++ programYield p = d'.yield ++ programYield p' from h)
    rw [programYield_injective h₁]

end TypeInType.Grammar
