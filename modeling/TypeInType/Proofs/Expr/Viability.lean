import TypeInType.Proofs.Expr.Errors
import TypeInType.Proofs.Token.Spelling

/-!
# Errors are reported at the earliest token

The tokens before the place of an error can be completed to an accepted source, and those up to that place
cannot. Any token that the error asks for can stand there.
-/

namespace TypeInType

/-! ## Words of trees

Whether lexemes are a phrase does not depend on where they stand. -/

namespace Grammar

/-- A terminal that depends on the word of its lexeme only. -/
theorem exists_terminal {p : Lexeme → Prop} (hp : ∀ {l l' : Lexeme}, l.word = l'.word → p l' → p l)
    (t : { l // p l }) {ts : List Lexeme} {ws : List Word} (h : ts.map Lexeme.word = t.1.word :: ws) :
    ∃ (t' : { l // p l }) (ts' : List Lexeme), ts = t'.1 :: ts' ∧ ts'.map Lexeme.word = ws := by
  obtain ⟨l, ts', rfl, hl, hts'⟩ := List.map_eq_cons_iff.mp h
  exact ⟨⟨l, hp hl t.2⟩, ts', rfl, hts'⟩

theorem token_eq_of_word {l l' : Lexeme} (h : l.word = l'.word) : l.token = l'.token :=
  congrArg Prod.fst h

theorem text_eq_of_word {l l' : Lexeme} (h : l.word = l'.word) : l.text = l'.text :=
  congrArg Prod.snd h

theorem Lex.relocate {k : Token} (t : Lex k) {ts : List Lexeme} {ws : List Word}
    (h : ts.map Lexeme.word = t.1.word :: ws) :
    ∃ (t' : Lex k) (ts' : List Lexeme), ts = t'.1 :: ts' ∧ ts'.map Lexeme.word = ws :=
  exists_terminal (fun hw hl => (token_eq_of_word hw).trans hl) t h

theorem PiArrow.relocate (t : PiArrow) {ts : List Lexeme} {ws : List Word}
    (h : ts.map Lexeme.word = t.1.word :: ws) :
    ∃ (t' : PiArrow) (ts' : List Lexeme), ts = t'.1 :: ts' ∧ ts'.map Lexeme.word = ws :=
  exists_terminal (fun hw hl => by rwa [token_eq_of_word hw]) t h

theorem LamArrow.relocate (t : LamArrow) {ts : List Lexeme} {ws : List Word}
    (h : ts.map Lexeme.word = t.1.word :: ws) :
    ∃ (t' : LamArrow) (ts' : List Lexeme), ts = t'.1 :: ts' ∧ ts'.map Lexeme.word = ws :=
  exists_terminal (fun hw hl => by rwa [token_eq_of_word hw]) t h

theorem Numeral.relocate (t : Numeral) {ts : List Lexeme} {ws : List Word}
    (h : ts.map Lexeme.word = t.1.word :: ws) :
    ∃ (t' : Numeral) (ts' : List Lexeme), ts = t'.1 :: ts' ∧ ts'.map Lexeme.word = ws :=
  exists_terminal (fun hw hl => by rwa [token_eq_of_word hw, text_eq_of_word hw]) t h

theorem params_relocate : ∀ (xs : List (Lex .name)) {ts : List Lexeme},
    ts.map Lexeme.word = (xs.map Subtype.val).map Lexeme.word →
      ∃ xs' : List (Lex .name), xs'.map Subtype.val = ts
  | [], ts, h => ⟨[], (List.map_eq_nil_iff.mp h).symm⟩
  | x :: xs, ts, h => by
    obtain ⟨x', ts', rfl, hr₁⟩ := x.relocate h
    obtain ⟨xs', rfl⟩ := params_relocate xs hr₁
    exact ⟨x' :: xs', rfl⟩

theorem moreNames_relocate : ∀ (more : List (Lex .comma × Lex .name)) {ts : List Lexeme},
    ts.map Lexeme.word = (Read.moreYield more).map Lexeme.word → Derived Read.moreYield ts
  | [], ts, h => ⟨[], (List.map_eq_nil_iff.mp h).symm⟩
  | n :: more, ts, h => by
    obtain ⟨c, ts', rfl, hr₁⟩ := n.1.relocate h
    obtain ⟨x, ts'', rfl, hr₂⟩ := n.2.relocate hr₁
    obtain ⟨more', rfl⟩ := moreNames_relocate more hr₂
    exact ⟨(c, x) :: more', rfl⟩

theorem Names.relocate (ns : Names) {ts : List Lexeme}
    (h : ts.map Lexeme.word = ns.yield.map Lexeme.word) : Derived Names.yield ts := by
  obtain ⟨x, ts', rfl, hr₁⟩ := ns.first.relocate h
  obtain ⟨more, rfl⟩ := moreNames_relocate ns.more hr₁
  exact ⟨⟨x, more⟩, rfl⟩

mutual

theorem ExprTree.relocate : ∀ (d : ExprTree) {ts : List Lexeme},
    ts.map Lexeme.word = d.yield.map Lexeme.word → Derived ExprTree.yield ts
  | .mk first types, ts, h => by
    rw [ExprTree.yield, List.map_append] at h
    obtain ⟨ts₁, ts₂, rfl, h₁, h₂⟩ := List.map_eq_append_iff.mp h
    obtain ⟨first', rfl⟩ := first.relocate h₁
    obtain ⟨types', rfl⟩ := types.relocate h₂
    exact ⟨.mk first' types', rfl⟩

theorem TypesTree.relocate : ∀ (d : TypesTree) {ts : List Lexeme},
    ts.map Lexeme.word = d.yield.map Lexeme.word → Derived TypesTree.yield ts
  | .nil, ts, h => ⟨.nil, (List.map_eq_nil_iff.mp h).symm⟩
  | .cons colon type more, ts, h => by
    rw [TypesTree.yield, List.map_cons, List.map_append] at h
    obtain ⟨colon', ts', rfl, hr₁⟩ := colon.relocate h
    obtain ⟨ts₁, ts₂, rfl, h₁, h₂⟩ := List.map_eq_append_iff.mp hr₁
    obtain ⟨type', rfl⟩ := type.relocate h₁
    obtain ⟨more', rfl⟩ := more.relocate h₂
    exact ⟨.cons colon' type' more', rfl⟩

theorem ArrowTree.relocate : ∀ (d : ArrowTree) {ts : List Lexeme},
    ts.map Lexeme.word = d.yield.map Lexeme.word → Derived ArrowTree.yield ts
  | .piName sign name colon domain arrow body, ts, h => by
    simp only [ArrowTree.yield, List.map_cons, List.map_append] at h
    obtain ⟨sign', ts₁, rfl, hr₁⟩ := sign.relocate h
    obtain ⟨name', ts₂, rfl, hr₂⟩ := name.relocate hr₁
    obtain ⟨colon', ts₃, rfl, hr₃⟩ := colon.relocate hr₂
    obtain ⟨ts₄, ts₅, rfl, h₄, h₅⟩ := List.map_eq_append_iff.mp hr₃
    obtain ⟨domain', rfl⟩ := domain.relocate h₄
    obtain ⟨arrow', ts₆, rfl, h₆⟩ := PiArrow.relocate arrow h₅
    obtain ⟨body', rfl⟩ := body.relocate h₆
    exact ⟨.piName sign' name' colon' domain' arrow' body', rfl⟩
  | .piGroups sign first more arrow body, ts, h => by
    simp only [ArrowTree.yield, List.map_cons, List.map_append] at h
    obtain ⟨sign', ts₁, rfl, hr₁⟩ := sign.relocate h
    obtain ⟨ts₂, ts₃, rfl, h₂, hr₂⟩ := List.map_eq_append_iff.mp hr₁
    obtain ⟨ts₄, ts₅, rfl, h₄, h₅⟩ := List.map_eq_append_iff.mp hr₂
    obtain ⟨first', rfl⟩ := first.relocate h₂
    obtain ⟨more', rfl⟩ := more.relocate h₄
    obtain ⟨arrow', ts₆, rfl, h₆⟩ := PiArrow.relocate arrow h₅
    obtain ⟨body', rfl⟩ := body.relocate h₆
    exact ⟨.piGroups sign' first' more' arrow' body', rfl⟩
  | .lam sign first more arrow body, ts, h => by
    simp only [ArrowTree.yield, List.map_cons, List.map_append] at h
    obtain ⟨sign', ts₁, rfl, hr₁⟩ := sign.relocate h
    obtain ⟨first', ts₂, rfl, hr₂⟩ := first.relocate hr₁
    obtain ⟨ts₃, ts₄, rfl, h₃, h₄⟩ := List.map_eq_append_iff.mp hr₂
    obtain ⟨more', rfl⟩ := params_relocate more h₃
    obtain ⟨arrow', ts₅, rfl, h₅⟩ := LamArrow.relocate arrow h₄
    obtain ⟨body', rfl⟩ := body.relocate h₅
    exact ⟨.lam sign' first' more' arrow' body', rfl⟩
  | .fn domain arrow codomain, ts, h => by
    simp only [ArrowTree.yield, List.map_cons, List.map_append] at h
    obtain ⟨ts₁, ts₂, rfl, h₁, h₂⟩ := List.map_eq_append_iff.mp h
    obtain ⟨domain', rfl⟩ := domain.relocate h₁
    obtain ⟨arrow', ts₃, rfl, h₃⟩ := arrow.relocate h₂
    obtain ⟨codomain', rfl⟩ := codomain.relocate h₃
    exact ⟨.fn domain' arrow' codomain', rfl⟩
  | .app tree, ts, h => by
    obtain ⟨tree', rfl⟩ := tree.relocate h
    exact ⟨.app tree', rfl⟩

theorem GroupTree.relocate : ∀ (d : GroupTree) {ts : List Lexeme},
    ts.map Lexeme.word = d.yield.map Lexeme.word → Derived GroupTree.yield ts
  | .mk left names colon domain right, ts, h => by
    simp only [GroupTree.yield, List.map_cons, List.map_append] at h
    obtain ⟨left', ts₁, rfl, hr₁⟩ := left.relocate h
    obtain ⟨ts₂, ts₃, rfl, h₂, hr₂⟩ := List.map_eq_append_iff.mp hr₁
    obtain ⟨names', rfl⟩ := names.relocate h₂
    obtain ⟨colon', ts₄, rfl, hr₃⟩ := colon.relocate hr₂
    obtain ⟨ts₅, ts₆, rfl, h₅, hr₄⟩ := List.map_eq_append_iff.mp hr₃
    obtain ⟨domain', rfl⟩ := domain.relocate h₅
    obtain ⟨right', ts₇, rfl, hr₅⟩ := right.relocate hr₄
    cases List.map_eq_nil_iff.mp hr₅
    exact ⟨.mk left' names' colon' domain' right', rfl⟩

theorem GroupsTree.relocate : ∀ (d : GroupsTree) {ts : List Lexeme},
    ts.map Lexeme.word = d.yield.map Lexeme.word → Derived GroupsTree.yield ts
  | .nil, ts, h => ⟨.nil, (List.map_eq_nil_iff.mp h).symm⟩
  | .cons group more, ts, h => by
    rw [GroupsTree.yield, List.map_append] at h
    obtain ⟨ts₁, ts₂, rfl, h₁, h₂⟩ := List.map_eq_append_iff.mp h
    obtain ⟨group', rfl⟩ := group.relocate h₁
    obtain ⟨more', rfl⟩ := more.relocate h₂
    exact ⟨.cons group' more', rfl⟩

theorem AppTree.relocate : ∀ (d : AppTree) {ts : List Lexeme},
    ts.map Lexeme.word = d.yield.map Lexeme.word → Derived AppTree.yield ts
  | .mk head args, ts, h => by
    rw [AppTree.yield, List.map_append] at h
    obtain ⟨ts₁, ts₂, rfl, h₁, h₂⟩ := List.map_eq_append_iff.mp h
    obtain ⟨head', rfl⟩ := head.relocate h₁
    obtain ⟨args', rfl⟩ := args.relocate h₂
    exact ⟨.mk head' args', rfl⟩

theorem ArgsTree.relocate : ∀ (d : ArgsTree) {ts : List Lexeme},
    ts.map Lexeme.word = d.yield.map Lexeme.word → Derived ArgsTree.yield ts
  | .nil, ts, h => ⟨.nil, (List.map_eq_nil_iff.mp h).symm⟩
  | .cons arg more, ts, h => by
    rw [ArgsTree.yield, List.map_append] at h
    obtain ⟨ts₁, ts₂, rfl, h₁, h₂⟩ := List.map_eq_append_iff.mp h
    obtain ⟨arg', rfl⟩ := arg.relocate h₁
    obtain ⟨more', rfl⟩ := more.relocate h₂
    exact ⟨.cons arg' more', rfl⟩

theorem AtomTree.relocate : ∀ (d : AtomTree) {ts : List Lexeme},
    ts.map Lexeme.word = d.yield.map Lexeme.word → Derived AtomTree.yield ts
  | .paren left expr right, ts, h => by
    simp only [AtomTree.yield, List.map_cons, List.map_append] at h
    obtain ⟨left', ts₁, rfl, hr₁⟩ := left.relocate h
    obtain ⟨ts₂, ts₃, rfl, h₂, hr₂⟩ := List.map_eq_append_iff.mp hr₁
    obtain ⟨expr', rfl⟩ := expr.relocate h₂
    obtain ⟨right', ts₄, rfl, hr₃⟩ := right.relocate hr₂
    cases List.map_eq_nil_iff.mp hr₃
    exact ⟨.paren left' expr' right', rfl⟩
  | .name name, ts, h => by
    obtain ⟨name', ts', rfl, hr₁⟩ := name.relocate h
    cases List.map_eq_nil_iff.mp hr₁
    exact ⟨.name name', rfl⟩
  | .star star, ts, h => by
    obtain ⟨star', ts', rfl, hr₁⟩ := star.relocate h
    cases List.map_eq_nil_iff.mp hr₁
    exact ⟨.star star', rfl⟩
  | .number number, ts, h => by
    obtain ⟨number', ts', rfl, hr₁⟩ := Numeral.relocate number h
    cases List.map_eq_nil_iff.mp hr₁
    exact ⟨.number number', rfl⟩

end

theorem DeclTree.relocate (d : DeclTree) {ts : List Lexeme}
    (h : ts.map Lexeme.word = d.yield.map Lexeme.word) : Derived DeclTree.yield ts := by
  cases d with
  | postulate word names colon type =>
    simp only [DeclTree.yield, List.map_cons, List.map_append] at h
    obtain ⟨word', ts₁, rfl, hr₁⟩ := word.relocate h
    obtain ⟨ts₂, ts₃, rfl, h₂, hr₂⟩ := List.map_eq_append_iff.mp hr₁
    obtain ⟨names', rfl⟩ := names.relocate h₂
    obtain ⟨colon', ts₄, rfl, hr₃⟩ := colon.relocate hr₂
    obtain ⟨type', rfl⟩ := type.relocate hr₃
    exact ⟨.postulate word' names' colon' type', rfl⟩
  | define word name equals expr =>
    obtain ⟨word', ts₁, rfl, hr₁⟩ := word.relocate h
    obtain ⟨name', ts₂, rfl, hr₂⟩ := name.relocate hr₁
    obtain ⟨equals', ts₃, rfl, hr₃⟩ := equals.relocate hr₂
    obtain ⟨expr', rfl⟩ := expr.relocate hr₃
    exact ⟨.define word' name' equals' expr', rfl⟩
  | check word expr =>
    obtain ⟨word', ts₁, rfl, hr₁⟩ := word.relocate h
    obtain ⟨expr', rfl⟩ := expr.relocate hr₁
    exact ⟨.check word' expr', rfl⟩

theorem program_relocate : ∀ (p : List DeclTree) {ts : List Lexeme},
    ts.map Lexeme.word = (programYield p).map Lexeme.word → Derived programYield ts
  | [], ts, h => ⟨[], (List.map_eq_nil_iff.mp h).symm⟩
  | d :: p, ts, h => by
    rw [programYield, List.flatMap_cons, List.map_append] at h
    obtain ⟨ts₁, ts₂, rfl, h₁, h₂⟩ := List.map_eq_append_iff.mp h
    obtain ⟨d', rfl⟩ := d.relocate h₁
    obtain ⟨p', rfl⟩ := program_relocate p h₂
    exact ⟨d' :: p', rfl⟩

/-! ## Lines of input -/

theorem ArrowTree.stops_startsDecl (d : ArrowTree) (r : List Lexeme) :
    Stops Token.startsDecl (d.yield ++ r) := by
  have happ (k : Token) : k.startsAtom = true → k.startsDecl = false := by
    cases k <;> decide
  cases d with
  | piName sign _ _ _ _ _ => exact sign.stops rfl _
  | piGroups sign _ _ _ _ => exact sign.stops rfl _
  | lam sign _ _ _ _ => exact sign.stops rfl _
  | fn domain _ _ =>
    rw [ArrowTree.yield, List.append_assoc]
    exact domain.stops happ _
  | app tree => exact tree.stops happ r

/-- An expression does not begin with the word of a declaration. -/
theorem ExprTree.stops_startsDecl (d : ExprTree) : Stops Token.startsDecl d.yield := by
  obtain ⟨first, types⟩ := d
  exact first.stops_startsDecl types.yield

end Grammar

open Grammar Read

/-! ## Accepted words -/

variable {α : Type}

/-- The words are those of a text, of whatever length, whose lexemes are read. -/
def Accepts (read : Nat → List Lexeme → Except SyntaxError α) (ws : List Word) : Prop :=
  ∃ (source : String) (ts : List Lexeme) (a : α), scan source = ts.map .lexeme ∧
    ts.map Lexeme.word = ws ∧ read (byteLength source.toList) ts = .ok a

/-- The words begin a text that is read. -/
def Viable (read : Nat → List Lexeme → Except SyntaxError α) (ws : List Word) : Prop :=
  ∃ more, Accepts read (ws ++ more)

/-- Each of the tokens may follow the words: a name, a number that is not too large, or a symbol. -/
def Extends (read : Nat → List Lexeme → Except SyntaxError α) (ws : List Word) (ks : List Token) : Prop :=
  ∀ k ∈ ks, ∀ text, Spelled (k, text) → (k = .number → decimalValue text.toList ≤ maxNumber) →
    Viable read (ws ++ [(k, text)])

/-- The error is at the first lexeme with which no accepted source begins, or at the end of a source that
begins a longer one. Each of the tokens that the error asks for may stand there. -/
def ReportedEarliest (read : Nat → List Lexeme → Except SyntaxError α) (source : String)
    (ts : List Lexeme) : SyntaxError → Prop
  | .unexpectedCharacter _ => False
  | .unexpectedToken range found expected => ∃ before l after, ts = before ++ l :: after ∧
      range = l.range ∧ found = l.text ∧ Viable read (before.map Lexeme.word) ∧
        ¬ Viable read ((before ++ [l]).map Lexeme.word) ∧ Extends read (before.map Lexeme.word) expected
  | .numberTooLarge range => ∃ before l after, ts = before ++ l :: after ∧ range = l.range ∧
      Viable read (before.map Lexeme.word) ∧ ¬ Viable read ((before ++ [l]).map Lexeme.word)
  | .unexpectedEnd range expected =>
      range = ⟨byteLength source.toList, byteLength source.toList⟩ ∧
        (∃ w more, Accepts read (ts.map Lexeme.word ++ w :: more)) ∧
          Extends read (ts.map Lexeme.word) expected

theorem Viable.of_append {read : Nat → List Lexeme → Except SyntaxError α} {ws ws' : List Word}
    (h : Viable read (ws ++ ws')) : Viable read ws := by
  obtain ⟨more, h⟩ := h
  exact ⟨ws' ++ more, by rwa [← List.append_assoc]⟩

theorem spelled_sample (k : Token) : Spelled (Lexeme.sample k).word := by
  refine ⟨.sample k, ?_, rfl⟩
  cases k <;> decide +kernel

/-- The lexemes of the phrases `L` are read, and reading fails early on all others. -/
structure Recognises (read : Nat → List Lexeme → Except SyntaxError α) (L : List Lexeme → Prop) :
    Prop where
  ok_iff : ∀ {eof ts}, (∃ a, read eof ts = .ok a) ↔ L ts
  relocate : ∀ {ts ts'}, L ts → ts'.map Lexeme.word = ts.map Lexeme.word → L ts'
  early : ∀ {eof ts e}, read eof ts = .error e →
    FailsEarly eof (fun ts e => read eof ts = .error e) L ts e

namespace Recognises

variable {read : Nat → List Lexeme → Except SyntaxError α} {L : List Lexeme → Prop} {source : String}
  {ts : List Lexeme} {e : SyntaxError}

theorem accepts_iff (hr : Recognises read L) {ws : List Word} :
    Accepts read ws ↔ (∀ w ∈ ws, Spelled w) ∧ ∃ ts, L ts ∧ ts.map Lexeme.word = ws := by
  constructor
  · rintro ⟨source, ts, a, hts, rfl, ha⟩
    refine ⟨fun w hw => ?_, ts, hr.ok_iff.mp ⟨a, ha⟩, rfl⟩
    obtain ⟨l, hl, rfl⟩ := List.mem_map.mp hw
    exact spelled_of_mem hts hl
  · rintro ⟨hspelled, ts, hL, rfl⟩
    obtain ⟨source, ts', hts', hwords⟩ := exists_scan hspelled
    obtain ⟨a, ha⟩ := hr.ok_iff.mpr (hr.relocate hL hwords)
    exact ⟨source, ts', a, hts', hwords, ha⟩

theorem viable_of_begins (hr : Recognises read L) (hspelled : ∀ l ∈ ts, Spelled l.word)
    (h : Begins L ts) : Viable read (ts.map Lexeme.word) := by
  obtain ⟨ks, hks⟩ := h
  refine ⟨(ks.map Lexeme.sample).map Lexeme.word, hr.accepts_iff.mpr ⟨fun w hw => ?_, _, hks, ?_⟩⟩
  · rw [← List.map_append] at hw
    obtain ⟨l, hl, rfl⟩ := List.mem_map.mp hw
    rcases List.mem_append.mp hl with hl | hl
    · exact hspelled l hl
    · obtain ⟨k, _, rfl⟩ := List.mem_map.mp hl
      exact spelled_sample k
  · rw [List.map_append]

theorem not_viable (hr : Recognises read L) {eof : Nat} {before : List Lexeme} {l : Lexeme}
    (h : ∀ r, read eof (before ++ l :: r) = .error e) :
    ¬ Viable read ((before ++ [l]).map Lexeme.word) := by
  rintro ⟨more, hmore⟩
  obtain ⟨_, ts, hL, hts⟩ := hr.accepts_iff.mp hmore
  have hwords : (before ++ l :: more.map fun w => ⟨w.1, w.2, 0⟩).map Lexeme.word = ts.map Lexeme.word := by
    rw [hts, List.map_append, List.map_append, List.map_cons, List.append_assoc, List.map_map]
    exact congrArg (fun ws => before.map Lexeme.word ++ l.word :: ws) (List.map_id more)
  obtain ⟨a, ha⟩ : ∃ a, read eof (before ++ l :: _) = .ok a := hr.ok_iff.mpr (hr.relocate hL hwords)
  rw [h] at ha
  cases ha

theorem extends_of_begins (hr : Recognises read L) {before : List Lexeme}
    (hspelled : ∀ l ∈ before, Spelled l.word) (h : ∀ l, Fits e l → Begins L (before ++ [l])) :
    Extends read (before.map Lexeme.word) e.expected := by
  intro k hk text htext hn
  have hall : ∀ l ∈ before ++ [⟨k, text, 0⟩], Spelled l.word := by
    intro l hl
    rcases List.mem_append.mp hl with hl | hl
    · exact hspelled l hl
    · cases List.mem_singleton.mp hl
      exact htext
  have hviable := hr.viable_of_begins hall (h ⟨k, text, 0⟩ ⟨hk, hn⟩)
  rwa [List.map_append] at hviable

theorem reportedEarliest (hr : Recognises read L) (h : lexSource source = .ok ts)
    (he : readSource read source = .error (.refused e)) : ReportedEarliest read source ts e := by
  rw [readSource_of_lexSource h, Run.ofExcept_eq_refused] at he
  obtain ⟨before, left, rfl, herror, hbegins, hfails⟩ := hr.early he
  have hspelled : ∀ l ∈ before, Spelled l.word := fun l hl =>
    spelled_of_mem (lexSource_eq_ok_iff.mp h).2 (List.mem_append_left left hl)
  have hextends := hr.extends_of_begins hspelled hbegins
  have hviable : ∀ k ∈ e.expected, Viable read (before.map Lexeme.word ++ [(k, k.sample)]) := fun k hk =>
    hextends k hk _ (spelled_sample k) fun hk => by subst hk; decide
  cases herror with
  | unexpected left k ks =>
    cases left with
    | nil =>
      obtain ⟨more, hmore⟩ := hviable k List.mem_cons_self
      rw [List.append_assoc] at hmore
      rw [List.append_nil]
      exact ⟨rfl, ⟨_, more, hmore⟩, hextends⟩
    | cons l after =>
      exact ⟨before, l, after, rfl, rfl, rfl, (hviable k List.mem_cons_self).of_append,
        hr.not_viable fun r => hfails l after r rfl, hextends⟩
  | numberTooLarge l after =>
    exact ⟨before, l, after, rfl, rfl, (hviable .number List.mem_cons_self).of_append,
      hr.not_viable fun r => hfails l after r rfl⟩

end Recognises

/-! ## The readers of sources -/

theorem recognises_term : Recognises term (Derived ExprTree.yield) where
  ok_iff := by
    intro eof ts
    simp only [term_eq_ok]
    constructor
    · rintro ⟨_, d, hd, _⟩
      exact ⟨d, hd⟩
    · rintro ⟨d, hd⟩
      exact ⟨_, d, hd, rfl⟩
  relocate := by
    rintro _ ts' ⟨d, rfl⟩ h
    exact d.relocate h
  early := term_early

theorem recognises_program : Recognises program (Derived programYield) where
  ok_iff := by
    intro eof ts
    simp only [program_eq_ok]
    constructor
    · rintro ⟨_, p, hp, _⟩
      exact ⟨p, hp⟩
    · rintro ⟨p, hp⟩
      exact ⟨_, p, hp, rfl⟩
  relocate := by
    rintro _ ts' ⟨p, rfl⟩ h
    exact program_relocate p h
  early := program_early

theorem input_ok_iff {eof : Nat} {ts : List Lexeme} : (∃ a, input eof ts = .ok a) ↔ IsInput ts := by
  constructor
  · rintro ⟨a, ha⟩
    by_cases hs : Stops Token.startsDecl ts
    · rw [input_of_stops hs] at ha
      cases hterm : term eof ts with
      | error e =>
        rw [hterm] at ha
        cases ha
      | ok e =>
        obtain ⟨d, hd, _⟩ := term_eq_ok.mp hterm
        exact .inr ⟨d, hd⟩
    · rw [input_of_not_stops hs] at ha
      obtain ⟨p, hp, _⟩ := program_eq_ok.mp ha
      refine .inl ⟨?_, p, hp⟩
      rintro rfl
      exact hs stops_nil
  · rintro (⟨hne, p, rfl⟩ | ⟨d, rfl⟩)
    · have hs : ¬ Stops Token.startsDecl (programYield p) := by
        cases p with
        | nil => exact (hne rfl).elim
        | cons d p =>
          obtain ⟨l, r, hl, hdecl⟩ := d.yield_eq
          rw [programYield, List.flatMap_cons, hl, List.cons_append, stops_cons, hdecl]
          exact Bool.noConfusion
      rw [input_of_not_stops hs]
      exact ⟨_, program_eq_ok.mpr ⟨p, rfl, rfl⟩⟩
    · have hterm : term eof d.yield = .ok d.denote := term_eq_ok.mpr ⟨d, rfl, rfl⟩
      rw [input_of_stops d.stops_startsDecl, hterm]
      exact ⟨_, rfl⟩

theorem recognises_input : Recognises input IsInput where
  ok_iff := input_ok_iff
  relocate := by
    rintro ts ts' (⟨hne, p, rfl⟩ | ⟨d, rfl⟩) h
    · refine .inl ⟨?_, program_relocate p h⟩
      rintro rfl
      exact hne (List.map_eq_nil_iff.mp h.symm)
    · exact .inr (d.relocate h)
  early := input_early

/-- If a source has no stray character but cannot be read, the error is at the earliest possible token:
what stands before it begins an accepted source, and what goes up to it does not. An error at the end says
that the source begins a longer one. Each of the tokens that the error asks for may stand at its place. -/
theorem errors_reported_earliest {source : String} {ts : List Lexeme} (h : lexSource source = .ok ts) :
    (∀ e, readTerm source = .error (.refused e) → ReportedEarliest term source ts e) ∧
      (∀ e, readProgram source = .error (.refused e) → ReportedEarliest program source ts e) ∧
      ∀ e, readInput source = .error (.refused e) → ReportedEarliest input source ts e :=
  ⟨fun _ => recognises_term.reportedEarliest h, fun _ => recognises_program.reportedEarliest h,
    fun _ => recognises_input.reportedEarliest h⟩

/-- `A -> B` -/
def arrowTree : ExprTree :=
  .mk (.fn (.mk (.name (.at .name "A" 0)) .nil) (.at .arrow "->" 2) (.app (.mk (.name (.at .name "B" 5)) .nil)))
    .nil

/-- In `A -> B )` nothing opens the parenthesis: a type or a codomain may follow, but no parenthesis. -/
theorem strayParen_reported_earliest :
    let ts := arrowTree.yield ++ [⟨.closeParen, ")", 7⟩]
    let e := SyntaxError.unexpectedToken ⟨7, 8⟩ ")" [.colon, .arrow]
    lexSource "A -> B )" = .ok ts ∧ readTerm "A -> B )" = .error (.refused e) ∧
      ReportedEarliest term "A -> B )" ts e := by
  intro ts e
  have hlex : lexSource "A -> B )" = .ok ts := by
    rw [lexSource_eq_ok_iff]
    decide +kernel
  have hread : readTerm "A -> B )" = .error (.refused e) := by
    rw [readTerm, readSource_of_lexSource hlex, Run.ofExcept_eq_refused]
    exact term_eq_error.mpr (.inr ⟨_, _, [], reads_expr_iff.mpr ⟨arrowTree, rfl, rfl, stops_cons.mpr rfl⟩, rfl⟩)
  exact ⟨hlex, hread, (errors_reported_earliest hlex).1 e hread⟩

end TypeInType
