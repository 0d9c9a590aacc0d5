import TypeInType.Proofs.Expr.Reading
import TypeInType.Proofs.Token.Words

/-!
# Sources one after another

A declaration ends where the next one begins. The declarations of two sources, one after the other on
lines of their own, are those of the first followed by those of the second. The second ones lie further
on, by the length of the first source and the line feed.
-/

namespace TypeInType

/-! ## Places further on -/

/-- The range `n` bytes further on. -/
def Range.shift (n : Nat) (r : Range) : Range :=
  ⟨r.start + n, r.stop + n⟩

/-- The lexeme `n` bytes further on. -/
def Lexeme.shift (n : Nat) (l : Lexeme) : Lexeme :=
  { l with start := l.start + n }

def Ident.shift (n : Nat) (x : Ident) : Ident :=
  ⟨x.range.shift n, x.name⟩

/-- The expression with every range `n` bytes further on. -/
def Expr.shift (n : Nat) : Expr → Expr
  | .ann r e t => .ann (r.shift n) (e.shift n) (t.shift n)
  | .star r => .star (r.shift n)
  | .pi r x d c => .pi (r.shift n) (x.map (Ident.shift n)) (d.shift n) (c.shift n)
  | .var r x => .var (r.shift n) x
  | .app r h a => .app (r.shift n) (h.shift n) (a.shift n)
  | .lam r x b => .lam (r.shift n) (x.shift n) (b.shift n)
  | .number r k => .number (r.shift n) k

/-- The declaration with every range `n` bytes further on. -/
def Decl.shift (n : Nat) : Decl → Decl
  | .postulate r xs e => .postulate (r.shift n) (xs.map (Ident.shift n)) (e.shift n)
  | .define r x e => .define (r.shift n) (x.shift n) (e.shift n)
  | .check r e => .check (r.shift n) (e.shift n)
  | .expr e => .expr (e.shift n)

section Shift

variable (n : Nat)

theorem Range.shift_merge (r r' : Range) : (r.merge r').shift n = (r.shift n).merge (r'.shift n) := by
  simp only [Range.shift, Range.merge, Nat.add_min_add_right, Nat.add_max_add_right]

theorem Lexeme.range_shift (l : Lexeme) : (l.shift n).range = l.range.shift n := by
  simp only [Lexeme.range, Lexeme.shift, Range.shift, Nat.add_right_comm]

theorem Expr.range_shift (e : Expr) : (e.shift n).range = e.range.shift n := by
  cases e <;> rfl

theorem Expr.shift_zero : ∀ e : Expr, e.shift 0 = e
  | .ann r e t => by simp only [Expr.shift, Range.shift, Nat.add_zero, e.shift_zero, t.shift_zero]
  | .star r => rfl
  | .pi r x d c => by
    have hx : x.map (Ident.shift 0) = x := by
      cases x <;> rfl
    simp only [Expr.shift, Range.shift, Nat.add_zero, hx, d.shift_zero, c.shift_zero]
  | .var r x => rfl
  | .app r h a => by simp only [Expr.shift, Range.shift, Nat.add_zero, h.shift_zero, a.shift_zero]
  | .lam r x b => by
    simp only [Expr.shift, Range.shift, Nat.add_zero, b.shift_zero]
    rfl
  | .number r m => rfl

theorem Decl.shift_zero (d : Decl) : d.shift 0 = d := by
  have hidents : ∀ xs : List Ident, xs.map (Ident.shift 0) = xs := fun xs => List.map_id xs
  cases d with
  | postulate r xs e =>
    simp only [Decl.shift, hidents, e.shift_zero]
    rfl
  | define r x e =>
    simp only [Decl.shift, e.shift_zero]
    rfl
  | check r e =>
    simp only [Decl.shift, e.shift_zero]
    rfl
  | expr e => simp only [Decl.shift, e.shift_zero]

theorem Expr.shift_pis (r : Range) (bs : List (Ident × Expr)) (e : Expr) :
    (Expr.pis r bs e).shift n =
      .pis (r.shift n) (bs.map fun b => (b.1.shift n, b.2.shift n)) (e.shift n) := by
  induction bs with
  | nil => rfl
  | cons b bs ih =>
    simp only [Expr.pis, List.map_cons, List.foldr_cons, Expr.shift, Option.map_some] at ih ⊢
    rw [ih]

theorem Expr.shift_lams (r : Range) (xs : List Ident) (e : Expr) :
    (Expr.lams r xs e).shift n = .lams (r.shift n) (xs.map (Ident.shift n)) (e.shift n) := by
  induction xs with
  | nil => rfl
  | cons x xs ih =>
    simp only [Expr.lams, List.map_cons, List.foldr_cons, Expr.shift] at ih ⊢
    rw [ih]

end Shift

/-! ## Trees further on -/

namespace Grammar

def Lex.shift (n : Nat) {k : Token} (l : Lex k) : Lex k :=
  ⟨l.1.shift n, l.2⟩

def PiArrow.shift (n : Nat) (l : PiArrow) : PiArrow :=
  ⟨l.1.shift n, l.2⟩

def LamArrow.shift (n : Nat) (l : LamArrow) : LamArrow :=
  ⟨l.1.shift n, l.2⟩

def Numeral.shift (n : Nat) (l : Numeral) : Numeral :=
  ⟨l.1.shift n, l.2⟩

def Names.shift (n : Nat) (ns : Names) : Names :=
  ⟨ns.first.shift n, ns.more.map fun x => (x.1.shift n, x.2.shift n)⟩

mutual

def ExprTree.shift (n : Nat) : ExprTree → ExprTree
  | .mk first types => .mk (first.shift n) (types.shift n)

def TypesTree.shift (n : Nat) : TypesTree → TypesTree
  | .nil => .nil
  | .cons colon type more => .cons (colon.shift n) (type.shift n) (more.shift n)

def ArrowTree.shift (n : Nat) : ArrowTree → ArrowTree
  | .piName sign name colon domain arrow body => .piName (sign.shift n) (name.shift n)
      (colon.shift n) (domain.shift n) (arrow.shift n) (body.shift n)
  | .piGroups sign first more arrow body => .piGroups (sign.shift n) (first.shift n) (more.shift n)
      (arrow.shift n) (body.shift n)
  | .lam sign first more arrow body => .lam (sign.shift n) (first.shift n)
      (more.map (Lex.shift n)) (arrow.shift n) (body.shift n)
  | .fn domain arrow codomain => .fn (domain.shift n) (arrow.shift n) (codomain.shift n)
  | .app tree => .app (tree.shift n)

def GroupTree.shift (n : Nat) : GroupTree → GroupTree
  | .mk left names colon domain right => .mk (left.shift n) (names.shift n) (colon.shift n)
      (domain.shift n) (right.shift n)

def GroupsTree.shift (n : Nat) : GroupsTree → GroupsTree
  | .nil => .nil
  | .cons group more => .cons (group.shift n) (more.shift n)

def AppTree.shift (n : Nat) : AppTree → AppTree
  | .mk head args => .mk (head.shift n) (args.shift n)

def ArgsTree.shift (n : Nat) : ArgsTree → ArgsTree
  | .nil => .nil
  | .cons arg more => .cons (arg.shift n) (more.shift n)

def AtomTree.shift (n : Nat) : AtomTree → AtomTree
  | .paren left expr right => .paren (left.shift n) (expr.shift n) (right.shift n)
  | .name name => .name (name.shift n)
  | .star star => .star (star.shift n)
  | .number number => .number (number.shift n)

end

def DeclTree.shift (n : Nat) : DeclTree → DeclTree
  | .postulate word names colon type => .postulate (word.shift n) (names.shift n) (colon.shift n)
      (type.shift n)
  | .define word name equals expr => .define (word.shift n) (name.shift n) (equals.shift n)
      (expr.shift n)
  | .check word expr => .check (word.shift n) (expr.shift n)

section Shift

variable (n : Nat)

/-! ## Their lexemes -/

theorem Names.yield_shift (ns : Names) : (ns.shift n).yield = ns.yield.map (Lexeme.shift n) := by
  simp only [Names.yield, Names.shift, Lex.shift, List.map_cons, List.flatMap_map, List.map_flatMap,
    List.map_nil]

mutual

theorem ExprTree.yield_shift : ∀ d : ExprTree, (d.shift n).yield = d.yield.map (Lexeme.shift n)
  | .mk first types => by
    simp only [ExprTree.shift, ExprTree.yield, List.map_append, first.yield_shift,
      types.yield_shift]

theorem TypesTree.yield_shift : ∀ d : TypesTree, (d.shift n).yield = d.yield.map (Lexeme.shift n)
  | .nil => rfl
  | .cons colon type more => by
    simp only [TypesTree.shift, TypesTree.yield, Lex.shift, List.map_cons, List.map_append,
      type.yield_shift, more.yield_shift]

theorem ArrowTree.yield_shift : ∀ d : ArrowTree, (d.shift n).yield = d.yield.map (Lexeme.shift n)
  | .piName sign name colon domain arrow body => by
    simp only [ArrowTree.shift, ArrowTree.yield, Lex.shift, PiArrow.shift, List.map_cons,
      List.map_append, domain.yield_shift, body.yield_shift]
  | .piGroups sign first more arrow body => by
    simp only [ArrowTree.shift, ArrowTree.yield, Lex.shift, PiArrow.shift, List.map_cons,
      List.map_append, first.yield_shift, more.yield_shift, body.yield_shift]
  | .lam sign first more arrow body => by
    simp only [ArrowTree.shift, ArrowTree.yield, Lex.shift, LamArrow.shift, List.map_cons,
      List.map_append, List.map_map, body.yield_shift]
    rfl
  | .fn domain arrow codomain => by
    simp only [ArrowTree.shift, ArrowTree.yield, Lex.shift, List.map_cons, List.map_append,
      domain.yield_shift, codomain.yield_shift]
  | .app tree => tree.yield_shift

theorem GroupTree.yield_shift : ∀ d : GroupTree, (d.shift n).yield = d.yield.map (Lexeme.shift n)
  | .mk left names colon domain right => by
    simp only [GroupTree.shift, GroupTree.yield, Lex.shift, List.map_cons, List.map_append,
      List.map_nil, names.yield_shift, domain.yield_shift]

theorem GroupsTree.yield_shift : ∀ d : GroupsTree, (d.shift n).yield = d.yield.map (Lexeme.shift n)
  | .nil => rfl
  | .cons group more => by
    simp only [GroupsTree.shift, GroupsTree.yield, List.map_append, group.yield_shift,
      more.yield_shift]

theorem AppTree.yield_shift : ∀ d : AppTree, (d.shift n).yield = d.yield.map (Lexeme.shift n)
  | .mk head args => by
    simp only [AppTree.shift, AppTree.yield, List.map_append, head.yield_shift, args.yield_shift]

theorem ArgsTree.yield_shift (d : ArgsTree) : (d.shift n).yield = d.yield.map (Lexeme.shift n) := by
  cases d with
  | nil => rfl
  | cons arg more =>
    simp only [ArgsTree.shift, ArgsTree.yield, List.map_append, arg.yield_shift, more.yield_shift]

theorem AtomTree.yield_shift : ∀ d : AtomTree, (d.shift n).yield = d.yield.map (Lexeme.shift n)
  | .paren left expr right => by
    simp only [AtomTree.shift, AtomTree.yield, Lex.shift, List.map_cons, List.map_append,
      List.map_nil, expr.yield_shift]
  | .name _ => rfl
  | .star _ => rfl
  | .number _ => rfl

end

theorem DeclTree.yield_shift (d : DeclTree) : (d.shift n).yield = d.yield.map (Lexeme.shift n) := by
  cases d <;> simp only [DeclTree.shift, DeclTree.yield, Lex.shift, List.map_cons, List.map_append,
    Names.yield_shift, ExprTree.yield_shift]

/-! ## What they denote -/

theorem Lex.ident_shift (l : Lex .name) : (l.shift n).ident = l.ident.shift n := by
  simp only [Lex.ident, Lex.shift, Ident.shift, Lexeme.range_shift]
  rfl

theorem Names.idents_shift (ns : Names) : (ns.shift n).idents = ns.idents.map (Ident.shift n) := by
  simp only [Names.idents, Names.shift, Lex.ident_shift, List.map_cons, List.map_map,
    Function.comp_def]

mutual

theorem ExprTree.denote_shift : ∀ d : ExprTree, (d.shift n).denote = d.denote.shift n
  | .mk first types => by
    simp only [ExprTree.shift, ExprTree.denote, first.denote_shift, types.annotate_shift]

theorem TypesTree.annotate_shift : ∀ (d : TypesTree) (e : Expr),
    (d.shift n).annotate (e.shift n) = (d.annotate e).shift n
  | .nil, _ => rfl
  | .cons colon type more, e => by
    simp only [TypesTree.shift, TypesTree.annotate, type.denote_shift, Expr.range_shift,
      ← Range.shift_merge]
    exact more.annotate_shift (.ann (e.range.merge type.denote.range) e type.denote)

theorem ArrowTree.denote_shift : ∀ d : ArrowTree, (d.shift n).denote = d.denote.shift n
  | .piName sign name colon domain arrow body => by
    simp only [ArrowTree.shift, ArrowTree.denote, Expr.shift, Option.map_some, Lex.ident_shift,
      domain.denote_shift, body.denote_shift, Expr.range_shift, Range.shift_merge]
    rw [Lex.shift, Lexeme.range_shift]
  | .piGroups sign first more arrow body => by
    simp only [ArrowTree.shift, ArrowTree.denote, Expr.shift_pis, List.map_append,
      first.binders_shift, more.binders_shift, body.denote_shift, Expr.range_shift,
      Range.shift_merge]
    rw [Lex.shift, Lexeme.range_shift]
  | .lam sign first more arrow body => by
    simp only [ArrowTree.shift, ArrowTree.denote, Expr.shift_lams, List.map_cons, List.map_map,
      Lex.ident_shift, Function.comp_def, body.denote_shift, Expr.range_shift, Range.shift_merge]
    rw [Lex.shift, Lexeme.range_shift]
  | .fn domain arrow codomain => by
    simp only [ArrowTree.shift, ArrowTree.denote, Expr.shift, Option.map_none, domain.denote_shift,
      codomain.denote_shift, Expr.range_shift, Range.shift_merge]
  | .app tree => tree.denote_shift

theorem GroupTree.binders_shift : ∀ d : GroupTree,
    (d.shift n).binders = d.binders.map fun b => (b.1.shift n, b.2.shift n)
  | .mk left names colon domain right => by
    simp only [GroupTree.shift, GroupTree.binders, Names.idents_shift, domain.denote_shift,
      List.map_map, Function.comp_def]

theorem GroupsTree.binders_shift : ∀ d : GroupsTree,
    (d.shift n).binders = d.binders.map fun b => (b.1.shift n, b.2.shift n)
  | .nil => rfl
  | .cons group more => by
    simp only [GroupsTree.shift, GroupsTree.binders, List.map_append, group.binders_shift,
      more.binders_shift]

theorem AppTree.denote_shift : ∀ d : AppTree, (d.shift n).denote = d.denote.shift n
  | .mk head args => by
    simp only [AppTree.shift, AppTree.denote, head.denote_shift, args.apply_shift]

theorem ArgsTree.apply_shift : ∀ (d : ArgsTree) (e : Expr),
    (d.shift n).apply (e.shift n) = (d.apply e).shift n
  | .nil, _ => rfl
  | .cons arg more, e => by
    simp only [ArgsTree.shift, ArgsTree.apply, arg.denote_shift, Expr.range_shift,
      ← Range.shift_merge]
    exact more.apply_shift (.app (e.range.merge arg.denote.range) e arg.denote)

theorem AtomTree.denote_shift : ∀ d : AtomTree, (d.shift n).denote = d.denote.shift n
  | .paren left expr right => expr.denote_shift
  | .name name => by
    simp only [AtomTree.shift, AtomTree.denote, Expr.shift, ← Lexeme.range_shift]
    rfl
  | .star star => by
    simp only [AtomTree.shift, AtomTree.denote, Expr.shift, ← Lexeme.range_shift]
    rfl
  | .number number => by
    simp only [AtomTree.shift, AtomTree.denote, Expr.shift, ← Lexeme.range_shift]
    rfl

end

theorem DeclTree.denote_shift (d : DeclTree) : (d.shift n).denote = d.denote.shift n := by
  cases d <;>
    simp only [DeclTree.shift, DeclTree.denote, Decl.shift, ExprTree.denote_shift, Lex.ident_shift,
      Names.idents_shift, Expr.range_shift, Range.shift_merge, ← Lexeme.range_shift] <;> rfl

theorem programYield_append (p q : List DeclTree) :
    programYield (p ++ q) = programYield p ++ programYield q :=
  List.flatMap_append

theorem programYield_shift (p : List DeclTree) :
    programYield (p.map (DeclTree.shift n)) = (programYield p).map (Lexeme.shift n) := by
  simp only [programYield, List.flatMap_map, List.map_flatMap, DeclTree.yield_shift]

end Shift

end Grammar

/-! ## Lexemes of two sources

No token goes on after a line feed, and a comment ends there. -/

theorem run_lineFeed {p : Char → Bool} (hp : p '\n' = false) (cs ds : List Char) :
    run p (cs ++ '\n' :: ds) = ((run p cs).1, (run p cs).2 ++ '\n' :: ds) := by
  induction cs with
  | nil => simp [run, hp]
  | cons c cs ih =>
    simp only [run, Prod.mk.injEq] at ih
    cases hc : p c <;> simp [run, hc, ih.1, ih.2]

theorem Piece.front_lineFeed (c : Char) (cs ds : List Char) :
    front c (cs ++ '\n' :: ds) = ((front c cs).1, (front c cs).2 ++ '\n' :: ds) := by
  unfold front
  split
  · rfl
  split
  · simp only [run_lineFeed (p := isNameRest) rfl]
  split
  · simp only [run_lineFeed (p := Char.isDigit) rfl]
  cases Token.ofChar? c with
  | some t => rfl
  | none =>
    -- an arrow and a comment take a second character, and a line feed is neither
    cases cs with
    | nil => grind
    | cons d cs =>
      by_cases harrow : c = '-' ∧ d = '>'
      · obtain ⟨rfl, rfl⟩ := harrow
        rfl
      by_cases hslashes : c = '/' ∧ d = '/'
      · obtain ⟨rfl, rfl⟩ := hslashes
        exact congrArg (fun r => (comment ('/' :: '/' :: r.1), r.2))
          (run_lineFeed (p := (· != '\n')) rfl cs ds)
      · grind

theorem pieces_lineFeed (cs ds : List Char) :
    pieces (cs ++ '\n' :: ds) = pieces cs ++ .blank '\n' :: pieces ds := by
  fun_induction pieces cs with
  | case1 => rw [List.nil_append, pieces, Piece.front_blank rfl, List.nil_append]
  | case2 c cs p ih =>
    rw [List.cons_append, pieces, Piece.front_lineFeed]
    simp only [List.cons_append]
    exact congrArg _ ih

def ScanItem.shift (n : Nat) : ScanItem → ScanItem
  | lexeme l => lexeme (l.shift n)
  | stray r => stray (r.shift n)

theorem place_append (start : Nat) (ps qs : List Piece) : place start (ps ++ qs) =
    place start ps ++ place (start + byteLength (ps.map Piece.text).flatten) qs := by
  induction ps generalizing start with
  | nil => rfl
  | cons p ps ih =>
    cases p <;>
      simp only [List.cons_append, place, ih, List.map_cons, List.flatten_cons, byteLength_append,
        Nat.add_assoc]

theorem place_shift (n start : Nat) (ps : List Piece) :
    place (start + n) ps = (place start ps).map (ScanItem.shift n) := by
  induction ps generalizing start with
  | nil => rfl
  | cons p ps ih =>
    cases p <;>
      simp only [place, List.map_cons, ScanItem.shift, Lexeme.shift, Range.shift,
        Nat.add_right_comm _ n, ih]

theorem lexemes_eq_ok {items : List ScanItem} {ts : List Lexeme} :
    lexemes items = .ok ts ↔ items = ts.map .lexeme := by
  induction items generalizing ts with
  | nil => cases ts <;> simp [lexemes, pure, Except.pure]
  | cons i items ih =>
    cases i with
    | stray r =>
      constructor
      · intro h
        cases h
      · intro h
        cases ts <;> cases h
    | lexeme l =>
      rw [lexemes_cons]
      constructor
      · intro h
        cases hs : lexemes items with
        | error r => rw [hs] at h; cases h
        | ok us =>
          rw [hs] at h
          cases h
          rw [List.map_cons, ih.mp hs]
      · intro h
        cases ts with
        | nil => cases h
        | cons t ts =>
          injection h with hl h
          cases hl
          rw [ih.mpr h]
          rfl

theorem lexSource_eq_ok_iff {source : String} {ts : List Lexeme} :
    lexSource source = .ok ts ↔ Countable source ∧ scan source = ts.map .lexeme := by
  by_cases hsource : Countable source
  · rw [lexSource_of_countable hsource, Run.ofExcept_eq_ok, ← lexemes_eq_ok, and_iff_right hsource]
    cases lexemes (scan source) with
    | error r => constructor <;> intro h <;> cases h
    | ok ts' =>
      show Except.ok ts' = Except.ok ts ↔ _
      simp only [Except.ok.injEq]
  · rw [lexSource_of_not_countable hsource]
    constructor
    · intro h
      cases h
    · intro h
      exact absurd h.1 hsource

theorem scan_lines (s s' : String) : scan (s ++ "\n" ++ s') =
    scan s ++ (scan s').map (ScanItem.shift (byteLength s.toList + 1)) := by
  have hlist : (s ++ "\n" ++ s').toList = s.toList ++ '\n' :: s'.toList := by
    simp
  have hsecond : place (byteLength s.toList) (.blank '\n' :: pieces s'.toList) =
      place (0 + (byteLength s.toList + 1)) (pieces s'.toList) := by
    rw [Nat.zero_add]
    rfl
  rw [scan, hlist, pieces_lineFeed, place_append, flatten_pieces, Nat.zero_add, hsecond, place_shift]
  rfl

/-- The lexemes of two texts on lines of their own. -/
theorem scan_lexemes_lines {s s' : String} {ts ts' : List Lexeme} (h : scan s = ts.map .lexeme)
    (h' : scan s' = ts'.map .lexeme) : scan (s ++ "\n" ++ s') =
      (ts ++ ts'.map (Lexeme.shift (byteLength s.toList + 1))).map .lexeme := by
  rw [scan_lines, h, h', List.map_append, List.map_map, List.map_map]
  rfl

/-! ## Declarations of two sources -/

open Grammar

theorem readProgram_eq_ok {source : String} {ds : List Decl} : readProgram source = .ok ds ↔
    ∃ p : List DeclTree, lexSource source = .ok (programYield p) ∧ p.map DeclTree.denote = ds := by
  rw [readProgram, readSource, Run.bind_eq_ok]
  constructor
  · rintro ⟨ts, hts, h⟩
    obtain ⟨p, rfl, hp⟩ := Read.program_eq_ok.mp (Run.ofExcept_eq_ok.mp h)
    exact ⟨p, hts, hp⟩
  · rintro ⟨p, hp, hds⟩
    exact ⟨_, hp, Run.ofExcept_eq_ok.mpr (Read.program_eq_ok.mpr ⟨p, rfl, hds⟩)⟩

/-- The declarations of two sources on lines of their own, if their positions can be counted, are those
of the one and those of the other. -/
theorem readProgram_lines {s s' : String} {ds ds' : List Decl} (h : readProgram s = .ok ds)
    (h' : readProgram s' = .ok ds') (hlines : Countable (s ++ "\n" ++ s')) :
    readProgram (s ++ "\n" ++ s') = .ok (ds ++ ds'.map (Decl.shift (byteLength s.toList + 1))) := by
  obtain ⟨p, hp, rfl⟩ := readProgram_eq_ok.mp h
  obtain ⟨p', hp', rfl⟩ := readProgram_eq_ok.mp h'
  apply readProgram_eq_ok.mpr
  refine ⟨p ++ p'.map (DeclTree.shift (byteLength s.toList + 1)), ?_, ?_⟩
  · rw [programYield_append, programYield_shift]
    exact lexSource_eq_ok_iff.mpr ⟨hlines, scan_lexemes_lines (lexSource_eq_ok_iff.mp hp).2
      (lexSource_eq_ok_iff.mp hp').2⟩
  · simp only [List.map_append, List.map_map, Function.comp_def, DeclTree.denote_shift]

end TypeInType
