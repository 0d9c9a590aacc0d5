import TypeInType.Proofs.Expr.Failing

/-!
# Where reading fails

A reader fails at the first lexeme with which no phrase goes on. The lexemes before it begin a phrase, any
of the tokens that the error asks for would go on with it, and the failure does not depend on what
follows.
-/

namespace TypeInType

/-- The tokens that may stand at the place of the error: in that of a number, a smaller one. -/
def SyntaxError.expected : SyntaxError → List Token
  | unexpectedToken _ _ ks | unexpectedEnd _ ks => ks
  | numberTooLarge _ => [.number]
  | unexpectedCharacter _ => []

/-! ## Beginnings of phrases -/

/-- A text of the token. -/
def Token.sample : Token → String
  | .number => "0"
  | k => k.describe

/-- A lexeme with the token. -/
def Lexeme.sample (k : Token) : Lexeme :=
  ⟨k, k.sample, 0⟩

namespace Grammar

/-- The lexemes are those of a tree. -/
def Derived {τ : Type} (yield : τ → List Lexeme) (ts : List Lexeme) : Prop :=
  ∃ d, yield d = ts

/-- The lexemes begin a phrase, which further tokens complete. -/
def Begins (L : List Lexeme → Prop) (ts : List Lexeme) : Prop :=
  ∃ ks : List Token, L (ts ++ ks.map .sample)

def Lex.sample (k : Token) : Lex k :=
  ⟨.sample k, rfl⟩

def AppTree.sample : AppTree :=
  .mk (.star (.sample .star)) .nil

def ArrowTree.sample : ArrowTree :=
  .app .sample

def ExprTree.sample : ExprTree :=
  .mk .sample .nil

@[simp] theorem Lex.val_sample (k : Token) : (Lex.sample k).1 = .sample k := rfl

@[simp] theorem AppTree.yield_sample : AppTree.sample.yield = [.sample .star] := rfl

@[simp] theorem ArrowTree.yield_sample : ArrowTree.sample.yield = [.sample .star] := rfl

@[simp] theorem ExprTree.yield_sample : ExprTree.sample.yield = [.sample .star] := rfl

/-- An arrow expression is the domain of another one, if its last part is. -/
theorem ArrowTree.exists_arrow (a : Lex .arrow) (c : ArrowTree) : ∀ d : ArrowTree,
    ∃ d' : ArrowTree, d'.yield = d.yield ++ a.1 :: c.yield
  | .piName sign name colon domain arrow body => by
    obtain ⟨body', h⟩ := exists_arrow a c body
    exact ⟨.piName sign name colon domain arrow body', by simp [ArrowTree.yield, h]⟩
  | .piGroups sign first more arrow body => by
    obtain ⟨body', h⟩ := exists_arrow a c body
    exact ⟨.piGroups sign first more arrow body', by simp [ArrowTree.yield, h]⟩
  | .lam sign first more arrow body => by
    obtain ⟨body', h⟩ := exists_arrow a c body
    exact ⟨.lam sign first more arrow body', by simp [ArrowTree.yield, h]⟩
  | .fn domain arrow codomain => by
    obtain ⟨codomain', h⟩ := exists_arrow a c codomain
    exact ⟨.fn domain arrow codomain', by simp [ArrowTree.yield, h]⟩
  | .app tree => ⟨.fn tree a c, rfl⟩

theorem TypesTree.exists_arrow (a : Lex .arrow) (c : ArrowTree) : ∀ (first : ArrowTree)
    (types : TypesTree), ∃ (first' : ArrowTree) (types' : TypesTree),
      first'.yield ++ types'.yield = first.yield ++ types.yield ++ a.1 :: c.yield
  | first, .nil => by
    obtain ⟨first', h⟩ := ArrowTree.exists_arrow a c first
    exact ⟨first', .nil, by simp [TypesTree.yield, h]⟩
  | first, .cons colon type more => by
    obtain ⟨type', more', h⟩ := exists_arrow a c type more
    exact ⟨first, .cons colon type' more', by simp [TypesTree.yield, h]⟩

theorem ExprTree.exists_arrow (a : Lex .arrow) (c : ArrowTree) (d : ExprTree) :
    ∃ d' : ExprTree, d'.yield = d.yield ++ a.1 :: c.yield := by
  obtain ⟨first, types⟩ := d
  obtain ⟨first', types', h⟩ := types.exists_arrow a c first
  exact ⟨.mk first' types', h⟩

theorem TypesTree.exists_colon (colon : Lex .colon) (c : ArrowTree) : ∀ d : TypesTree,
    ∃ d' : TypesTree, d'.yield = d.yield ++ colon.1 :: c.yield
  | .nil => ⟨.cons colon c .nil, by simp [TypesTree.yield]⟩
  | .cons colon' type more => by
    obtain ⟨more', h⟩ := exists_colon colon c more
    exact ⟨.cons colon' type more', by simp [TypesTree.yield, h]⟩

theorem ExprTree.exists_colon (colon : Lex .colon) (c : ArrowTree) (d : ExprTree) :
    ∃ d' : ExprTree, d'.yield = d.yield ++ colon.1 :: c.yield := by
  obtain ⟨first, types⟩ := d
  obtain ⟨types', h⟩ := types.exists_colon colon c
  exact ⟨.mk first types', by simp [ExprTree.yield, h]⟩

/-- The binders of a function type. -/
inductive BindersTree where
  | name (name : Lex .name) (colon : Lex .colon) (domain : AppTree)
  | groups (first : GroupTree) (more : GroupsTree)

def BindersTree.yield : BindersTree → List Lexeme
  | name x colon domain => x.1 :: colon.1 :: domain.yield
  | groups first more => first.yield ++ more.yield

def BindersTree.pi (sign : Lex .forallSign) (arrow : PiArrow) (body : ArrowTree) : BindersTree → ArrowTree
  | name x colon domain => .piName sign x colon domain arrow body
  | groups first more => .piGroups sign first more arrow body

theorem BindersTree.yield_pi (sign : Lex .forallSign) (arrow : PiArrow) (body : ArrowTree)
    (bs : BindersTree) :
    (bs.pi sign arrow body).yield = sign.1 :: (bs.yield ++ arrow.1 :: body.yield) := by
  cases bs <;> simp only [pi, yield, ArrowTree.yield, List.cons_append, List.append_assoc]

/-- Names, and the type that is given to them. -/
structure TypedNames where
  names : Names
  colon : Lex .colon
  type : ExprTree

def TypedNames.yield (ns : TypedNames) : List Lexeme :=
  ns.names.yield ++ ns.colon.1 :: ns.type.yield

theorem AppTree.stops {p : Token → Bool} (hp : ∀ k : Token, k.startsAtom = true → p k = false)
    (d : AppTree) (r : List Lexeme) : Stops p (d.yield ++ r) := by
  obtain ⟨l, s, hl, hatom⟩ := d.yield_eq
  rw [hl, List.cons_append, stops_cons]
  exact hp l.token hatom

theorem Stops.of_head? {p : Token → Bool} {s s' : List Lexeme} (h : Stops p s)
    (hs : s'.head? = s.head?) : Stops p s' :=
  fun l hl => h l (hs ▸ hl)

end Grammar

namespace Read

open Grammar

variable {eof : Nat} {ts : List Lexeme} {e : SyntaxError}

/-! ## Failing at the earliest lexeme -/

/-- The error is at the first of the lexemes that are left, and asks for some token. -/
inductive ErrorAt (eof : Nat) : List Lexeme → SyntaxError → Prop where
  | unexpected (ts : List Lexeme) (k : Token) (ks : List Token) :
      ErrorAt eof ts (unexpected eof ts (k :: ks))
  | numberTooLarge (l : Lexeme) (ts : List Lexeme) : ErrorAt eof (l :: ts) (.numberTooLarge l.range)

/-- The error asks for the lexeme. -/
def Fits (e : SyntaxError) (l : Lexeme) : Prop :=
  l.token ∈ e.expected ∧ (l.token = .number → decimalValue l.text.toList ≤ maxNumber)

/-- The reader of the phrases `L` gets through the lexemes `before`, and fails at what is left. Only the first
lexeme of that matters. -/
structure FailsAfter (eof : Nat) (F : List Lexeme → SyntaxError → Prop) (L : List Lexeme → Prop)
    (before left : List Lexeme) (e : SyntaxError) : Prop where
  errorAt : ErrorAt eof left e
  begins : ∀ l, Fits e l → Begins L (before ++ [l])
  fails : ∀ l r r', left = l :: r → F (before ++ l :: r') e

/-- The reader `F` of the phrases `L` fails at the first lexeme with which no phrase goes on. -/
def FailsEarly (eof : Nat) (F : List Lexeme → SyntaxError → Prop) (L : List Lexeme → Prop)
    (ts : List Lexeme) (e : SyntaxError) : Prop :=
  ∃ before left, ts = before ++ left ∧ FailsAfter eof F L before left e

section FailsEarly

variable {F F' : List Lexeme → SyntaxError → Prop} {L L' : List Lexeme → Prop}

theorem head?_append_cons (before r r' : List Lexeme) (l : Lexeme) :
    (before ++ l :: r').head? = (before ++ l :: r).head? := by
  cases before <;> rfl

/-- A reader fails as the reader of a part fails, if it comes to that part after the lexemes `y` whenever the
next lexeme is the same, and if the tokens of `tail` complete what it has read. -/
theorem FailsEarly.seq {s : List Lexeme} (h : FailsEarly eof F' L' s e) (y : List Lexeme)
    (tail : List Token) (hts : ts = y ++ s)
    (hF : ∀ ts' s', ts' = y ++ s' → s'.head? = s.head? → F' s' e → F ts' e)
    (hL : ∀ p, p ≠ [] → L' p → L (y ++ (p ++ tail.map .sample))) : FailsEarly eof F L ts e := by
  obtain ⟨before, left, rfl, herror, hbegins, hfails⟩ := h
  refine ⟨y ++ before, left, by rw [hts, List.append_assoc], herror, fun l hl => ?_, ?_⟩
  · obtain ⟨ks, hks⟩ := hbegins l hl
    refine ⟨ks ++ tail, ?_⟩
    have hp := hL _ (by simp) hks
    simpa only [List.map_append, List.append_assoc] using hp
  · rintro l r r' rfl
    exact hF _ _ (List.append_assoc y before (l :: r')) (head?_append_cons before r r' l) (hfails l r r' rfl)

/-- A reader that fails as the reader of its first part does. -/
theorem FailsEarly.first (h : FailsEarly eof F' L' ts e) (tail : List Token)
    (hF : ∀ s, s.head? = ts.head? → F' s e → F s e)
    (hL : ∀ p, p ≠ [] → L' p → L (p ++ tail.map .sample)) : FailsEarly eof F L ts e :=
  h.seq [] tail rfl (fun _ _ hts => hts ▸ hF _) hL

/-- A reader that fails at the next lexeme. -/
theorem failsEarly_unexpected {k : Token} {ks : List Token} (he : unexpected eof ts (k :: ks) = e)
    (hF : ∀ s, s.head? = ts.head? → F s (unexpected eof s (k :: ks)))
    (hL : ∀ l : Lexeme, l.token ∈ k :: ks →
      (l.token = .number → decimalValue l.text.toList ≤ maxNumber) → Begins L [l]) :
    FailsEarly eof F L ts e := by
  subst he
  refine ⟨[], ts, rfl, .unexpected ts k ks, ?_, ?_⟩
  · rintro l ⟨hl, hn⟩
    refine hL l ?_ hn
    cases ts <;> exact hl
  · rintro l r r' rfl
    exact hF (l :: r') rfl

end FailsEarly

theorem expect_early {k : Token} (h : Fails (expect eof k ts) e) :
    FailsEarly eof (fun ts => Fails (expect eof k ts)) (Derived fun l : Lex k => [l.1]) ts e := by
  obtain ⟨hs, he⟩ := fails_expect.mp h
  refine failsEarly_unexpected he (fun s hs' => fails_expect.mpr ⟨hs.of_head? hs', rfl⟩) fun l hl _ => ?_
  exact ⟨[], ⟨l, List.mem_singleton.mp hl⟩, rfl⟩

theorem name_early (h : Fails (name eof ts) e) :
    FailsEarly eof (fun ts => Fails (name eof ts)) (Derived fun l : Lex .name => [l.1]) ts e :=
  (expect_early (fails_name.mp h)).first [] (fun _ _ h' => fails_name.mpr h')
    fun p _ hp => by rwa [List.map_nil, List.append_nil]

/-- The names that follow in a list of names. -/
def moreYield (more : List (Lex .comma × Lex .name)) : List Lexeme :=
  more.flatMap fun n => [n.1.1, n.2.1]

theorem moreNames_early (h : Fails (moreNames eof ts) e) :
    FailsEarly eof (fun ts => Fails (moreNames eof ts)) (Derived moreYield) ts e := by
  induction hn : ts.length using Nat.strongRecOn generalizing ts with
  | _ n ih =>
    subst hn
    by_cases hs : Stops (· == .comma) ts
    · exact (fails_moreNames_stop hs h).elim
    · obtain ⟨c, ts, rfl, hc⟩ := exists_of_not_stops hs
      have hc : c.token = .comma := by simpa using hc
      rcases (fails_moreNames_comma hc).mp h with hx | ⟨x, s, hx, hmore⟩
      · refine (name_early hx).seq [c] [] rfl ?_ ?_
        · rintro _ s' rfl _ h'
          exact (fails_moreNames_comma hc).mpr (.inl h')
        · rintro _ _ ⟨x, rfl⟩
          exact ⟨[(⟨c, hc⟩, x)], rfl⟩
      · have hlt := hx.shorter
        obtain ⟨x, rfl, rfl⟩ := reads_name.mp hx
        refine (ih _ (Nat.lt_succ_of_lt hlt) hmore rfl).seq [c, x.1] [] rfl ?_ ?_
        · rintro _ s' rfl _ h'
          exact (fails_moreNames_comma hc).mpr (.inr ⟨_, _, reads_name.mpr ⟨x, rfl, rfl⟩, h'⟩)
        · rintro _ _ ⟨more, rfl⟩
          exact ⟨(⟨c, hc⟩, x) :: more, by simp [moreYield]⟩

theorem names_early (h : Fails (names eof ts) e) :
    FailsEarly eof (fun ts => Fails (names eof ts)) (Derived Names.yield) ts e := by
  rcases fails_names.mp h with hx | ⟨x, s, hx, hmore⟩
  · refine (name_early hx).first [] (fun _ _ h' => fails_names.mpr (.inl h')) ?_
    rintro _ _ ⟨x, rfl⟩
    exact ⟨⟨x, []⟩, rfl⟩
  · obtain ⟨x, rfl, rfl⟩ := reads_name.mp hx
    refine (moreNames_early hmore).seq [x.1] [] rfl ?_ ?_
    · rintro _ s' rfl _ h'
      exact fails_names.mpr (.inr ⟨_, _, reads_name.mpr ⟨x, rfl, rfl⟩, h'⟩)
    · rintro _ _ ⟨more, rfl⟩
      exact ⟨⟨x, more⟩, by simp [Names.yield, moreYield]⟩

theorem piArrow_early (h : Fails (piArrow eof ts) e) :
    FailsEarly eof (fun ts => Fails (piArrow eof ts)) (Derived fun l : PiArrow => [l.1]) ts e := by
  obtain ⟨hs, he⟩ := fails_piArrow.mp h
  refine failsEarly_unexpected he (fun s hs' => fails_piArrow.mpr ⟨hs.of_head? hs', rfl⟩) fun l hl _ => ?_
  exact ⟨[], ⟨l, by simpa using hl⟩, rfl⟩

/-- Further names of a function literal, and its arrow. -/
def paramsYield (xs : List (Lex .name) × LamArrow) : List Lexeme :=
  xs.1.map Subtype.val ++ [xs.2.1]

theorem moreParams_stop_early (hs : Stops (· == .name) ts) (h : Fails (moreParams eof ts) e) :
    FailsEarly eof (fun ts => Fails (moreParams eof ts)) (Derived paramsYield) ts e := by
  obtain ⟨hs', he⟩ := (fails_moreParams_stop hs).mp h
  refine failsEarly_unexpected he (fun s hhead => ?_) fun l hl _ => ?_
  · exact (fails_moreParams_stop (hs.of_head? hhead)).mpr ⟨hs'.of_head? hhead, rfl⟩
  · simp only [List.mem_cons, List.not_mem_nil, or_false] at hl
    rcases hl with hl | hl | hl
    · exact ⟨[], ([], ⟨l, .inl hl⟩), rfl⟩
    · exact ⟨[], ([], ⟨l, .inr hl⟩), rfl⟩
    · exact ⟨[.dot], ([⟨l, hl⟩], ⟨.sample .dot, .inr rfl⟩), rfl⟩

theorem moreParams_early (h : Fails (moreParams eof ts) e) :
    FailsEarly eof (fun ts => Fails (moreParams eof ts)) (Derived paramsYield) ts e := by
  induction ts with
  | nil => exact moreParams_stop_early stops_nil h
  | cons t ts ih =>
    by_cases ht : t.token = .name
    · refine (ih ((fails_moreParams_name ht).mp h)).seq [t] [] rfl ?_ ?_
      · rintro _ s' rfl _ h'
        exact (fails_moreParams_name ht).mpr h'
      · rintro _ _ ⟨xs, rfl⟩
        exact ⟨(⟨t, ht⟩ :: xs.1, xs.2), by simp [paramsYield]⟩
    · exact moreParams_stop_early (by simpa [stops_cons] using ht) h

theorem params_early (h : Fails (params eof ts) e) :
    FailsEarly eof (fun ts => Fails (params eof ts))
      (Derived fun xs : Lex .name × (List (Lex .name) × LamArrow) => xs.1.1 :: paramsYield xs.2) ts e := by
  rcases fails_params.mp h with hx | ⟨x, s, hx, hmore⟩
  · refine (name_early hx).first [.dot] (fun _ _ h' => fails_params.mpr (.inl h')) ?_
    rintro _ _ ⟨x, rfl⟩
    exact ⟨(x, [], ⟨.sample .dot, .inr rfl⟩), rfl⟩
  · obtain ⟨x, rfl, rfl⟩ := reads_name.mp hx
    refine (moreParams_early hmore).seq [x.1] [] rfl ?_ ?_
    · rintro _ s' rfl _ h'
      exact fails_params.mpr (.inr ⟨_, _, reads_name.mpr ⟨x, rfl, rfl⟩, h'⟩)
    · rintro _ _ ⟨xs, rfl⟩
      exact ⟨(x, xs), by simp⟩

/-- Binders are read alike before every rest that begins with the same lexeme. -/
theorem binders_again {bs s} (h : Reads (binders eof ts) bs s) : ∃ d : BindersTree,
    ts = d.yield ++ s ∧ ∀ ts' s', ts' = d.yield ++ s' → s'.head? = s.head? →
      Reads (binders eof ts') bs s' := by
  cases ts with
  | nil =>
    rw [binders.eq_def] at h
    exact (reads_error.mp h).elim
  | cons t ts =>
    by_cases ht : t.token = .openParen
    · obtain ⟨gs, heq, rfl, hs⟩ := groups_sound _ (Nat.le_refl _) ((reads_binders_group ht).mp h)
      cases gs with
      | nil =>
        rw [← show t :: ts = s from heq, stops_cons, ht] at hs
        cases hs
      | cons first more =>
        refine ⟨.groups first more, heq, fun ts' s' hts' hs' => ?_⟩
        obtain ⟨left, r, hleft⟩ := first.yield_eq
        obtain ⟨us, rfl⟩ : ∃ us, ts' = left.1 :: us := by
          rw [hts', BindersTree.yield, hleft]
          exact ⟨_, rfl⟩
        exact (reads_binders_group left.2).mpr (groups_complete (.cons first more) hts' (hs.of_head? hs'))
    · obtain ⟨x, s₁, hx, c, s₂, hc, d, s₃, hd, rfl, rfl⟩ := (reads_binders_name ht).mp h
      obtain ⟨x, heq, rfl⟩ := reads_name.mp hx
      obtain ⟨colon, rfl, rfl⟩ := reads_lex.mp hc
      obtain ⟨domain, rfl, rfl, hs⟩ := appExpr_sound _ (Nat.le_refl _) hd
      refine ⟨.name x colon domain, heq, ?_⟩
      rintro _ s' rfl hs'
      have hname : x.1.token ≠ .openParen := by
        rw [x.2]
        exact Token.noConfusion
      exact (reads_binders_name hname).mpr ⟨_, _, reads_name.mpr ⟨x, rfl, rfl⟩,
        _, _, reads_lex.mpr ⟨colon, rfl, rfl⟩, _, _, appExpr_complete domain rfl (hs.of_head? hs'), rfl, rfl⟩

theorem readsTyped_iff {xs type r} : ReadsTyped eof ts xs type r ↔ ∃ ns : TypedNames,
    ts = ns.yield ++ r ∧ ns.names.idents = xs ∧ ns.type.denote = type ∧ Stops continuesExpr r := by
  constructor
  · rintro ⟨s₁, hxs, c, s₂, hc, htype⟩
    obtain ⟨names, rfl, rfl, _⟩ := reads_names.mp hxs
    obtain ⟨colon, rfl, rfl⟩ := reads_lex.mp hc
    obtain ⟨d, rfl, rfl, hr⟩ := reads_expr_iff.mp htype
    exact ⟨⟨names, colon, d⟩, by simp [TypedNames.yield], rfl, rfl, hr⟩
  · rintro ⟨⟨names, colon, d⟩, hts, rfl, rfl, hr⟩
    rw [TypedNames.yield, List.append_assoc] at hts
    exact ⟨_, reads_names.mpr ⟨names, hts, rfl, colon.stops rfl _⟩,
      _, _, reads_lex.mpr ⟨colon, rfl, rfl⟩, reads_expr_iff.mpr ⟨d, rfl, rfl, hr⟩⟩

theorem typed_early (hexpr : ∀ s : List Lexeme, s.length < ts.length → Fails (expr eof s) e →
      FailsEarly eof (fun ts => Fails (expr eof ts)) (Derived ExprTree.yield) s e)
    (h : FailsTyped eof ts e) :
    FailsEarly eof (FailsTyped eof) (Derived TypedNames.yield) ts e := by
  rcases h with hxs | ⟨xs, s₁, hxs, hrest⟩
  · refine (names_early hxs).first [.colon, .star] (fun _ _ h' => .inl h') ?_
    rintro _ _ ⟨names, rfl⟩
    exact ⟨⟨names, .sample .colon, .sample⟩, rfl⟩
  have hlt := hxs.shorter
  obtain ⟨names, rfl, rfl, hs⟩ := reads_names.mp hxs
  rcases hrest with hcolon | ⟨c, s₂, hcolon, htype⟩
  · refine (expect_early hcolon).seq names.yield [.star] rfl ?_ ?_
    · rintro _ s' rfl hs' h'
      exact .inr ⟨_, _, reads_names.mpr ⟨names, rfl, rfl, hs.of_head? hs'⟩, .inl h'⟩
    · rintro _ _ ⟨colon, rfl⟩
      exact ⟨⟨names, colon, .sample⟩, rfl⟩
  · have hlt' := Nat.lt_trans hcolon.shorter hlt
    obtain ⟨colon, rfl, rfl⟩ := reads_lex.mp hcolon
    refine (hexpr s₂ hlt' htype).seq (names.yield ++ [colon.1]) [] (by simp) ?_ ?_
    · intro ts' s' hts' _ h'
      rw [List.append_assoc] at hts'
      exact .inr ⟨_, _, reads_names.mpr ⟨names, hts', rfl, colon.stops rfl s'⟩,
        .inr ⟨_, s', reads_lex.mpr ⟨colon, rfl, rfl⟩, h'⟩⟩
    · rintro _ _ ⟨d, rfl⟩
      exact ⟨⟨names, colon, d⟩, by simp [TypedNames.yield]⟩

theorem isSign_of_startsAtom (k : Token) : k.startsAtom = true → isSign k = false := by
  cases k <;> decide

theorem atom_stop_early (hs : Stops Token.startsAtom ts) (h : Fails (atom eof ts) e) :
    FailsEarly eof (fun ts => Fails (atom eof ts)) (Derived AtomTree.yield) ts e := by
  refine failsEarly_unexpected ((fails_atom_stop hs).mp h)
    (fun s hs' => (fails_atom_stop (hs.of_head? hs')).mpr rfl) fun l hl hn => ?_
  simp only [List.mem_cons, List.not_mem_nil, or_false] at hl
  rcases hl with hl | hl | hl | hl
  · exact ⟨[.star, .closeParen], .paren ⟨l, hl⟩ .sample (.sample .closeParen), rfl⟩
  · exact ⟨[], .star ⟨l, hl⟩, rfl⟩
  · exact ⟨[], .name ⟨l, hl⟩, rfl⟩
  · exact ⟨[], .number ⟨l, hl, hn hl⟩, rfl⟩

theorem atom_number_early {t : Lexeme} (ht : t.token = .number) (h : Fails (atom eof (t :: ts)) e) :
    FailsEarly eof (fun ts => Fails (atom eof ts)) (Derived AtomTree.yield) (t :: ts) e := by
  obtain ⟨hlarge, rfl⟩ := (fails_atom_number ht).mp h
  refine ⟨[], t :: ts, rfl, .numberTooLarge t ts, ?_, ?_⟩
  · rintro l ⟨hl, hn⟩
    have hl : l.token = .number := List.mem_singleton.mp hl
    exact ⟨[], .number ⟨l, hl, hn hl⟩, rfl⟩
  · intro l r r' heq
    cases heq
    exact (fails_atom_number ht).mpr ⟨hlarge, rfl⟩

theorem forall_early {t : Lexeme} (ht : t.token = .forallSign)
    (hbinders : Fails (binders eof ts) e →
      FailsEarly eof (fun ts => Fails (binders eof ts)) (Derived BindersTree.yield) ts e)
    (hbody : ∀ s : List Lexeme, s.length < ts.length → Fails (arrowExpr eof s) e →
      FailsEarly eof (fun ts => Fails (arrowExpr eof ts)) (Derived ArrowTree.yield) s e)
    (h : Fails (arrowExpr eof (t :: ts)) e) :
    FailsEarly eof (fun ts => Fails (arrowExpr eof ts)) (Derived ArrowTree.yield) (t :: ts) e := by
  rcases (fails_arrowExpr_forall ht).mp h with hbs | ⟨bs, s, hbs, hrest⟩
  · refine (hbinders hbs).seq [t] [.dot, .star] rfl ?_ ?_
    · rintro _ s' rfl _ h'
      exact (fails_arrowExpr_forall ht).mpr (.inl h')
    · rintro _ _ ⟨d, rfl⟩
      exact ⟨d.pi ⟨t, ht⟩ ⟨.sample .dot, .inr (.inl rfl)⟩ .sample, by rw [BindersTree.yield_pi]; rfl⟩
  have hle := Nat.le_of_lt_succ hbs.shorter
  obtain ⟨d, rfl, hd⟩ := binders_again hbs
  rcases hrest with harrow | ⟨u, s', harrow, hrest⟩
  · refine (piArrow_early harrow).seq (t :: d.yield) [.star] rfl ?_ ?_
    · rintro _ s' rfl hs' h'
      exact (fails_arrowExpr_forall ht).mpr (.inr ⟨_, _, hd _ s' rfl hs', .inl h'⟩)
    · rintro _ _ ⟨arrow, rfl⟩
      exact ⟨d.pi ⟨t, ht⟩ arrow .sample, by rw [BindersTree.yield_pi]; rfl⟩
  · have hlt := Nat.lt_of_lt_of_le harrow.shorter hle
    obtain ⟨arrow, rfl⟩ := reads_piArrow.mp harrow
    refine (hbody s' hlt hrest).seq (t :: (d.yield ++ [arrow.1])) [] (by simp) ?_ ?_
    · intro ts' s' hts' _ h'
      rw [List.cons_append, List.append_assoc] at hts'
      subst hts'
      exact (fails_arrowExpr_forall ht).mpr
        (.inr ⟨_, _, hd _ _ rfl rfl, .inr ⟨(), s', reads_piArrow.mpr ⟨arrow, rfl⟩, h'⟩⟩)
    · rintro _ _ ⟨body, rfl⟩
      exact ⟨d.pi ⟨t, ht⟩ arrow body, by rw [BindersTree.yield_pi]; simp⟩

theorem lambda_early {t : Lexeme} (ht : t.token = .lambdaSign)
    (hbody : ∀ s : List Lexeme, s.length < ts.length → Fails (arrowExpr eof s) e →
      FailsEarly eof (fun ts => Fails (arrowExpr eof ts)) (Derived ArrowTree.yield) s e)
    (h : Fails (arrowExpr eof (t :: ts)) e) :
    FailsEarly eof (fun ts => Fails (arrowExpr eof ts)) (Derived ArrowTree.yield) (t :: ts) e := by
  rcases (fails_arrowExpr_lambda ht).mp h with hxs | ⟨xs, s, hxs, hrest⟩
  · refine (params_early hxs).seq [t] [.star] rfl ?_ ?_
    · rintro _ s' rfl _ h'
      exact (fails_arrowExpr_lambda ht).mpr (.inl h')
    · rintro _ _ ⟨⟨x, more, arrow⟩, rfl⟩
      exact ⟨.lam ⟨t, ht⟩ x more arrow .sample, by simp [ArrowTree.yield, paramsYield]⟩
  · have hlt := hxs.shorter
    obtain ⟨x, more, arrow, rfl, rfl⟩ := reads_params.mp hxs
    refine (hbody s hlt hrest).seq (t :: x.1 :: (more.map Subtype.val ++ [arrow.1])) [] (by simp) ?_ ?_
    · intro ts' s' hts' _ h'
      rw [List.cons_append, List.cons_append, List.append_assoc] at hts'
      subst hts'
      exact (fails_arrowExpr_lambda ht).mpr
        (.inr ⟨_, s', reads_params.mpr ⟨x, more, arrow, rfl, rfl⟩, h'⟩)
    · rintro _ _ ⟨body, rfl⟩
      exact ⟨.lam ⟨t, ht⟩ x more arrow body, by simp [ArrowTree.yield]⟩

-- The measure is that of the readers. Where a part fails, the parts before it have derivations, and by the
-- completeness lemmas these are read again in front of any rest with the same first lexeme.
mutual

theorem expr_early (n : Nat) {ts} (hn : ts.length ≤ n) (h : Fails (expr eof ts) e) :
    FailsEarly eof (fun ts => Fails (expr eof ts)) (Derived ExprTree.yield) ts e := by
  rcases fails_expr.mp h with hfirst | ⟨e₀, s, hfirst, htypes⟩
  · refine (arrowExpr_early n hn hfirst).first [] (fun _ _ h' => fails_expr.mpr (.inl h')) ?_
    rintro _ _ ⟨d, rfl⟩
    exact ⟨.mk d .nil, rfl⟩
  · have hlt : s.length < n := Nat.lt_of_lt_of_le hfirst.shorter hn
    obtain ⟨first, rfl, rfl, hs⟩ := arrowExpr_sound _ (Nat.le_refl _) hfirst
    refine (annotations_early _ (Nat.le_refl _) htypes).seq first.yield [] rfl ?_ ?_
    · rintro _ s' rfl hs' h'
      exact fails_expr.mpr (.inr ⟨_, _, arrowExpr_complete first rfl (hs.of_head? hs'), h'⟩)
    · rintro _ _ ⟨d, rfl⟩
      exact ⟨.mk first d, by simp [ExprTree.yield]⟩
termination_by 5 * n + 4

theorem annotations_early (n : Nat) {ts e₀} (hn : ts.length ≤ n)
    (h : Fails (annotations eof e₀ ts) e) :
    FailsEarly eof (fun ts => Fails (annotations eof e₀ ts)) (Derived TypesTree.yield) ts e := by
  by_cases hs : Stops (· == .colon) ts
  · exact (fails_annotations_stop hs h).elim
  · obtain ⟨t, ts, rfl, ht⟩ := exists_of_not_stops hs
    have ht : t.token = .colon := by simpa using ht
    have hlt : ts.length < n := hn
    rcases (fails_annotations_colon ht).mp h with htype | ⟨type, s, htype, hmore⟩
    · refine (arrowExpr_early _ (Nat.le_refl _) htype).seq [t] [] rfl ?_ ?_
      · rintro _ s' rfl _ h'
        exact (fails_annotations_colon ht).mpr (.inl h')
      · rintro _ _ ⟨d, rfl⟩
        exact ⟨.cons ⟨t, ht⟩ d .nil, by simp [TypesTree.yield]⟩
    · have hlt' : s.length < n := Nat.lt_trans htype.shorter hlt
      obtain ⟨type, rfl, rfl, hs⟩ := arrowExpr_sound _ (Nat.le_refl _) htype
      refine (annotations_early _ (Nat.le_refl _) hmore).seq (t :: type.yield) [] rfl ?_ ?_
      · rintro _ s' rfl hs' h'
        exact (fails_annotations_colon ht).mpr
          (.inr ⟨_, _, arrowExpr_complete type rfl (hs.of_head? hs'), h'⟩)
      · rintro _ _ ⟨d, rfl⟩
        exact ⟨.cons ⟨t, ht⟩ type d, by simp [TypesTree.yield]⟩
termination_by 5 * n

theorem arrowExpr_early (n : Nat) {ts} (hn : ts.length ≤ n) (h : Fails (arrowExpr eof ts) e) :
    FailsEarly eof (fun ts => Fails (arrowExpr eof ts)) (Derived ArrowTree.yield) ts e := by
  by_cases hsign : Stops isSign ts
  · rcases (fails_arrowExpr_stop hsign).mp h with hdomain | ⟨d, arrow, s, hdomain, hcodomain⟩
    · refine (appExpr_early n hn hdomain).first [] (fun s hs h' => ?_) ?_
      · exact (fails_arrowExpr_stop (hsign.of_head? hs)).mpr (.inl h')
      · rintro _ _ ⟨d, rfl⟩
        exact ⟨.app d, by simp [ArrowTree.yield]⟩
    · have hlt : s.length < n := Nat.lt_of_succ_lt (Nat.lt_of_lt_of_le hdomain.shorter hn)
      obtain ⟨domain, rfl, rfl, _⟩ := appExpr_sound _ (Nat.le_refl _) hdomain
      refine (arrowExpr_early _ (Nat.le_refl _) hcodomain).seq (domain.yield ++ [arrow.1]) [] (by simp) ?_ ?_
      · intro ts' s' hts' _ h'
        rw [List.append_assoc] at hts'
        subst hts'
        exact (fails_arrowExpr_stop (domain.stops isSign_of_startsAtom (arrow.1 :: s'))).mpr
          (.inr ⟨_, arrow, s', appExpr_complete domain rfl (arrow.stops rfl s'), h'⟩)
      · rintro _ _ ⟨d, rfl⟩
        exact ⟨.fn domain arrow d, by simp [ArrowTree.yield]⟩
  · obtain ⟨t, ts, rfl, ht⟩ := exists_of_not_stops hsign
    have hlt : ts.length < n := hn
    simp only [isSign, Bool.or_eq_true, beq_iff_eq] at ht
    rcases ht with ht | ht
    · exact forall_early ht (fun hs => binders_early ts.length (Nat.le_refl _) hs)
        (fun s hs hs' => arrowExpr_early s.length (Nat.le_refl _) hs') h
    · exact lambda_early ht (fun s hs hs' => arrowExpr_early s.length (Nat.le_refl _) hs') h
termination_by 5 * n + 3

theorem binders_early (n : Nat) {ts} (hn : ts.length ≤ n) (h : Fails (binders eof ts) e) :
    FailsEarly eof (fun ts => Fails (binders eof ts)) (Derived BindersTree.yield) ts e := by
  by_cases hs : Stops (· == .openParen) ts
  · rcases (fails_binders_stop hs).mp h with hx | ⟨x, s, hx, hrest⟩
    · refine (name_early hx).first [.colon, .star] (fun s hs' h' => ?_) ?_
      · exact (fails_binders_stop (hs.of_head? hs')).mpr (.inl h')
      · rintro _ _ ⟨x, rfl⟩
        exact ⟨.name x (.sample .colon) .sample, rfl⟩
    · have hlt : s.length < n := Nat.lt_of_lt_of_le hx.shorter hn
      obtain ⟨x, rfl, rfl⟩ := reads_name.mp hx
      have hname (s' : List Lexeme) : Reads (name eof (x.1 :: s')) x.ident s' :=
        reads_name.mpr ⟨x, rfl, rfl⟩
      rcases hrest with hcolon | ⟨c, s', hcolon, hdomain⟩
      · refine (expect_early hcolon).seq [x.1] [.star] rfl ?_ ?_
        · rintro _ s' rfl _ h'
          exact (fails_binders_stop (x.stops rfl s')).mpr (.inr ⟨_, _, hname s', .inl h'⟩)
        · rintro _ _ ⟨colon, rfl⟩
          exact ⟨.name x colon .sample, rfl⟩
      · have hlt' : s'.length < n := Nat.lt_trans hcolon.shorter hlt
        obtain ⟨colon, rfl, rfl⟩ := reads_lex.mp hcolon
        refine (appExpr_early _ (Nat.le_refl _) hdomain).seq [x.1, colon.1] [] rfl ?_ ?_
        · rintro _ s' rfl _ h'
          exact (fails_binders_stop (x.stops rfl _)).mpr
            (.inr ⟨_, _, hname _, .inr ⟨_, s', reads_lex.mpr ⟨colon, rfl, rfl⟩, h'⟩⟩)
        · rintro _ _ ⟨domain, rfl⟩
          exact ⟨.name x colon domain, by simp [BindersTree.yield]⟩
  · obtain ⟨t, ts, rfl, ht⟩ := exists_of_not_stops hs
    have ht : t.token = .openParen := by simpa using ht
    refine (groups_early n hn ((fails_binders_group ht).mp h)).first [] (fun s hs' h' => ?_) ?_
    · obtain ⟨s, rfl⟩ := List.head?_eq_some_iff.mp hs'
      exact (fails_binders_group ht).mpr h'
    · rintro _ hne ⟨d, rfl⟩
      cases d with
      | nil => exact (hne rfl).elim
      | cons first more => exact ⟨.groups first more, by simp [BindersTree.yield, GroupsTree.yield]⟩
termination_by 5 * n + 3

theorem groups_early (n : Nat) {ts} (hn : ts.length ≤ n) (h : Fails (groups eof ts) e) :
    FailsEarly eof (fun ts => Fails (groups eof ts)) (Derived GroupsTree.yield) ts e := by
  by_cases hs : Stops (· == .openParen) ts
  · exact (fails_groups_stop hs h).elim
  · obtain ⟨t, ts, rfl, ht⟩ := exists_of_not_stops hs
    have ht : t.token = .openParen := by simpa using ht
    have hlt : ts.length < n := hn
    rcases (fails_groups_group ht).mp h with htyped | ⟨xs, d, s, htyped, hrest⟩
    · have hearly := typed_early (fun s hs hs' => expr_early s.length (Nat.le_refl _) hs') htyped
      refine hearly.seq [t] [.closeParen] rfl ?_ ?_
      · rintro _ s' rfl _ h'
        exact (fails_groups_group ht).mpr (.inl h')
      · rintro _ _ ⟨ns, rfl⟩
        exact ⟨.cons (.mk ⟨t, ht⟩ ns.names ns.colon ns.type (.sample .closeParen)) .nil,
          by simp [GroupsTree.yield, GroupTree.yield, TypedNames.yield]⟩
    obtain ⟨ns, rfl, rfl, rfl, hs⟩ := readsTyped_iff.mp htyped
    rcases hrest with hright | ⟨c, s', hright, hmore⟩
    · refine (expect_early hright).seq (t :: ns.yield) [] rfl ?_ ?_
      · rintro _ s' rfl hs' h'
        exact (fails_groups_group ht).mpr
          (.inr ⟨_, _, _, readsTyped_iff.mpr ⟨ns, rfl, rfl, rfl, hs.of_head? hs'⟩, .inl h'⟩)
      · rintro _ _ ⟨right, rfl⟩
        exact ⟨.cons (.mk ⟨t, ht⟩ ns.names ns.colon ns.type right) .nil,
          by simp [GroupsTree.yield, GroupTree.yield, TypedNames.yield]⟩
    · obtain ⟨right, rfl, rfl⟩ := reads_lex.mp hright
      have hlt' : s'.length < n := by
        simp only [List.length_append, List.length_cons] at hlt
        omega
      refine (groups_early _ (Nat.le_refl _) hmore).seq (t :: (ns.yield ++ [right.1])) [] (by simp) ?_ ?_
      · intro ts' s' hts' _ h'
        rw [List.cons_append, List.append_assoc] at hts'
        subst hts'
        exact (fails_groups_group ht).mpr
          (.inr ⟨_, _, _, readsTyped_iff.mpr ⟨ns, rfl, rfl, rfl, right.stops rfl s'⟩,
            .inr ⟨_, s', reads_lex.mpr ⟨right, rfl, rfl⟩, h'⟩⟩)
      · rintro _ _ ⟨more, rfl⟩
        exact ⟨.cons (.mk ⟨t, ht⟩ ns.names ns.colon ns.type right) more,
          by simp [GroupsTree.yield, GroupTree.yield, TypedNames.yield]⟩
termination_by 5 * n + 2

theorem appExpr_early (n : Nat) {ts} (hn : ts.length ≤ n) (h : Fails (appExpr eof ts) e) :
    FailsEarly eof (fun ts => Fails (appExpr eof ts)) (Derived AppTree.yield) ts e := by
  rcases fails_appExpr.mp h with hhead | ⟨head, s, hhead, hargs⟩
  · refine (atom_early n hn hhead).first [] (fun _ _ h' => fails_appExpr.mpr (.inl h')) ?_
    rintro _ _ ⟨d, rfl⟩
    exact ⟨.mk d .nil, rfl⟩
  · have hlt : s.length < n := Nat.lt_of_lt_of_le hhead.shorter hn
    obtain ⟨head, rfl, rfl⟩ := atom_sound _ (Nat.le_refl _) hhead
    refine (arguments_early _ (Nat.le_refl _) hargs).seq head.yield [] rfl ?_ ?_
    · rintro _ s' rfl _ h'
      exact fails_appExpr.mpr (.inr ⟨_, _, atom_complete head rfl, h'⟩)
    · rintro _ _ ⟨d, rfl⟩
      exact ⟨.mk head d, by simp [AppTree.yield]⟩
termination_by 5 * n + 2

theorem arguments_early (n : Nat) {ts head} (hn : ts.length ≤ n)
    (h : Fails (arguments eof head ts) e) :
    FailsEarly eof (fun ts => Fails (arguments eof head ts)) (Derived ArgsTree.yield) ts e := by
  by_cases hs : Stops Token.startsAtom ts
  · exact (fails_arguments_stop hs h).elim
  · obtain ⟨t, ts, rfl, ht⟩ := exists_of_not_stops hs
    rcases (fails_arguments_atom ht).mp h with harg | ⟨arg, s, harg, hmore⟩
    · refine (atom_early n hn harg).first [] (fun s hs' h' => ?_) ?_
      · obtain ⟨s, rfl⟩ := List.head?_eq_some_iff.mp hs'
        exact (fails_arguments_atom ht).mpr (.inl h')
      · rintro _ _ ⟨d, rfl⟩
        exact ⟨.cons d .nil, by simp [ArgsTree.yield]⟩
    · have hlt : s.length < n := Nat.lt_of_lt_of_le harg.shorter hn
      obtain ⟨arg, heq, rfl⟩ := atom_sound _ (Nat.le_refl _) harg
      refine (arguments_early _ (Nat.le_refl _) hmore).seq arg.yield [] heq ?_ ?_
      · intro ts' s' hts' _ h'
        obtain ⟨l, r, hl, hatom⟩ := arg.yield_eq
        obtain ⟨us, rfl⟩ : ∃ us, ts' = l :: us := ⟨r ++ s', by rw [hts', hl]; rfl⟩
        exact (fails_arguments_atom hatom).mpr (.inr ⟨_, _, atom_complete arg hts', h'⟩)
      · rintro _ _ ⟨d, rfl⟩
        exact ⟨.cons arg d, by simp [ArgsTree.yield]⟩
termination_by 5 * n + 2

theorem atom_early (n : Nat) {ts} (hn : ts.length ≤ n) (h : Fails (atom eof ts) e) :
    FailsEarly eof (fun ts => Fails (atom eof ts)) (Derived AtomTree.yield) ts e := by
  rcases startsAtom_of_fails_atom h with hs | ⟨t, ts, rfl, ht | ht⟩
  · exact atom_stop_early hs h
  · have hlt : ts.length < n := hn
    rcases (fails_atom_paren ht).mp h with hexpr | ⟨e₀, s, hexpr, hright⟩
    · refine (expr_early _ (Nat.le_refl _) hexpr).seq [t] [.closeParen] rfl ?_ ?_
      · rintro _ s' rfl _ h'
        exact (fails_atom_paren ht).mpr (.inl h')
      · rintro _ _ ⟨d, rfl⟩
        exact ⟨.paren ⟨t, ht⟩ d (.sample .closeParen), rfl⟩
    · obtain ⟨d, rfl, rfl, hs⟩ := expr_sound _ (Nat.le_refl _) hexpr
      refine (expect_early hright).seq (t :: d.yield) [] rfl ?_ ?_
      · rintro _ s' rfl hs' h'
        exact (fails_atom_paren ht).mpr (.inr ⟨_, _, expr_complete d rfl (hs.of_head? hs'), h'⟩)
      · rintro _ _ ⟨right, rfl⟩
        exact ⟨.paren ⟨t, ht⟩ d right, rfl⟩
  · exact atom_number_early ht h
termination_by 5 * n + 1

end

/-! ## Declarations and whole sources -/

theorem decl_stop_early (hs : Stops Token.startsDecl ts) (h : Fails (decl eof ts) e) :
    FailsEarly eof (fun ts => Fails (decl eof ts)) (Derived DeclTree.yield) ts e := by
  refine failsEarly_unexpected ((fails_decl_stop hs).mp h)
    (fun s hs' => (fails_decl_stop (hs.of_head? hs')).mpr rfl) fun l hl _ => ?_
  simp only [List.mem_cons, List.not_mem_nil, or_false] at hl
  rcases hl with hl | hl | hl
  · exact ⟨[.name, .colon, .star], .postulate ⟨l, hl⟩ ⟨.sample .name, []⟩ (.sample .colon) .sample, rfl⟩
  · exact ⟨[.star], .check ⟨l, hl⟩ .sample, rfl⟩
  · exact ⟨[.name, .equals, .star], .define ⟨l, hl⟩ (.sample .name) (.sample .equals) .sample, rfl⟩

theorem postulate_early {t : Lexeme} (ht : t.token = .axiomWord) (h : Fails (decl eof (t :: ts)) e) :
    FailsEarly eof (fun ts => Fails (decl eof ts)) (Derived DeclTree.yield) (t :: ts) e := by
  have hearly := typed_early (fun s _ hs => expr_early s.length (Nat.le_refl _) hs)
    ((fails_decl_postulate ht).mp h)
  refine hearly.seq [t] [] rfl ?_ ?_
  · rintro _ s' rfl _ h'
    exact (fails_decl_postulate ht).mpr h'
  · rintro _ _ ⟨ns, rfl⟩
    exact ⟨.postulate ⟨t, ht⟩ ns.names ns.colon ns.type, by simp [DeclTree.yield, TypedNames.yield]⟩

theorem define_early {t : Lexeme} (ht : t.token = .defunWord) (h : Fails (decl eof (t :: ts)) e) :
    FailsEarly eof (fun ts => Fails (decl eof ts)) (Derived DeclTree.yield) (t :: ts) e := by
  rcases (fails_decl_define ht).mp h with hx | ⟨x, s₁, hx, hrest⟩
  · refine (name_early hx).seq [t] [.equals, .star] rfl ?_ ?_
    · rintro _ s' rfl _ h'
      exact (fails_decl_define ht).mpr (.inl h')
    · rintro _ _ ⟨x, rfl⟩
      exact ⟨.define ⟨t, ht⟩ x (.sample .equals) .sample, rfl⟩
  obtain ⟨x, rfl, rfl⟩ := reads_name.mp hx
  have hname (s' : List Lexeme) : Reads (name eof (x.1 :: s')) x.ident s' := reads_name.mpr ⟨x, rfl, rfl⟩
  rcases hrest with hsign | ⟨c, s₂, hsign, hexpr⟩
  · refine (expect_early hsign).seq [t, x.1] [.star] rfl ?_ ?_
    · rintro _ s' rfl _ h'
      exact (fails_decl_define ht).mpr (.inr ⟨_, _, hname s', .inl h'⟩)
    · rintro _ _ ⟨equals, rfl⟩
      exact ⟨.define ⟨t, ht⟩ x equals .sample, rfl⟩
  · obtain ⟨equals, rfl, rfl⟩ := reads_lex.mp hsign
    refine (expr_early _ (Nat.le_refl _) hexpr).seq [t, x.1, equals.1] [] rfl ?_ ?_
    · rintro _ s' rfl _ h'
      exact (fails_decl_define ht).mpr
        (.inr ⟨_, _, hname _, .inr ⟨_, s', reads_lex.mpr ⟨equals, rfl, rfl⟩, h'⟩⟩)
    · rintro _ _ ⟨d, rfl⟩
      exact ⟨.define ⟨t, ht⟩ x equals d, by simp [DeclTree.yield]⟩

theorem decl_early (h : Fails (decl eof ts) e) :
    FailsEarly eof (fun ts => Fails (decl eof ts)) (Derived DeclTree.yield) ts e := by
  by_cases hs : Stops Token.startsDecl ts
  · exact decl_stop_early hs h
  · obtain ⟨t, ts, rfl, hk⟩ := exists_of_not_stops hs
    cases ht : t.token <;> simp only [ht, Token.startsDecl, Bool.false_eq_true] at hk
    · exact postulate_early ht h
    · refine (expr_early _ (Nat.le_refl _) ((fails_decl_check ht).mp h)).seq [t] [] rfl ?_ ?_
      · rintro _ s' rfl _ h'
        exact (fails_decl_check ht).mpr h'
      · rintro _ _ ⟨d, rfl⟩
        exact ⟨.check ⟨t, ht⟩ d, by simp [DeclTree.yield]⟩
    · exact define_early ht h

theorem program_early (h : program eof ts = .error e) :
    FailsEarly eof (fun ts e => program eof ts = .error e) (Derived programYield) ts e := by
  induction hn : ts.length using Nat.strongRecOn generalizing ts with
  | _ n ih =>
    subst hn
    cases ts with
    | nil =>
      rw [program] at h
      cases h
    | cons t ts =>
      rcases program_cons_error.mp h with hdecl | ⟨c, s, hdecl, hmore⟩
      · refine (decl_early hdecl).first [] (fun s hs h' => ?_) ?_
        · obtain ⟨s, rfl⟩ := List.head?_eq_some_iff.mp hs
          exact program_cons_error.mpr (.inl h')
        · rintro _ _ ⟨d, rfl⟩
          exact ⟨[d], by simp [programYield]⟩
      · have hlt := hdecl.shorter
        obtain ⟨d, heq, rfl, hs⟩ := reads_decl.mp hdecl
        refine (ih _ hlt hmore rfl).seq d.yield [] heq ?_ ?_
        · intro ts' s' hts' hs' h'
          obtain ⟨l, r, hl, _⟩ := d.yield_eq
          obtain ⟨us, rfl⟩ : ∃ us, ts' = l :: us := ⟨r ++ s', by rw [hts', hl]; rfl⟩
          exact program_cons_error.mpr
            (.inr ⟨_, _, reads_decl.mpr ⟨d, hts', rfl, hs.of_head? hs'⟩, h'⟩)
        · rintro _ _ ⟨p, rfl⟩
          exact ⟨d :: p, by simp [programYield]⟩

theorem term_early (h : term eof ts = .error e) :
    FailsEarly eof (fun ts e => term eof ts = .error e) (Derived ExprTree.yield) ts e := by
  rcases term_eq_error.mp h with hexpr | ⟨d, t, s, hexpr, rfl⟩
  · refine (expr_early _ (Nat.le_refl _) hexpr).first [] (fun _ _ h' => term_eq_error.mpr (.inl h')) ?_
    rintro _ _ ⟨d, rfl⟩
    exact ⟨d, by simp⟩
  · obtain ⟨d, rfl, rfl, hs⟩ := reads_expr_iff.mp hexpr
    refine ⟨d.yield, t :: s, rfl, .unexpected _ _ _, ?_, ?_⟩
    · rintro l ⟨hl, _⟩
      have hl : l.token = .colon ∨ l.token = .arrow := by simpa [unexpected, SyntaxError.expected] using hl
      rcases hl with hl | hl
      · obtain ⟨d', hd'⟩ := d.exists_colon ⟨l, hl⟩ .sample
        exact ⟨[.star], d', by simp [hd']⟩
      · obtain ⟨d', hd'⟩ := d.exists_arrow ⟨l, hl⟩ .sample
        exact ⟨[.star], d', by simp [hd']⟩
    · intro l r r' heq
      cases heq
      exact term_eq_error.mpr (.inr ⟨_, t, r', reads_expr_iff.mpr ⟨d, rfl, rfl, hs.of_head? rfl⟩, rfl⟩)

/-- The lexemes of a line of input: declarations, of which there is one at least, or an expression. -/
def IsInput (ts : List Lexeme) : Prop :=
  ts ≠ [] ∧ Derived programYield ts ∨ Derived ExprTree.yield ts

theorem input_early (h : input eof ts = .error e) :
    FailsEarly eof (fun ts e => input eof ts = .error e) IsInput ts e := by
  by_cases hs : Stops Token.startsDecl ts
  · rw [input_of_stops hs, bind_pure_eq_error] at h
    refine (term_early h).first [] (fun s hs' h' => ?_) fun p _ hp => ?_
    · rwa [input_of_stops (hs.of_head? hs'), bind_pure_eq_error]
    · rw [List.map_nil, List.append_nil]
      exact .inr hp
  · rw [input_of_not_stops hs] at h
    refine (program_early h).first [] (fun s hs' h' => ?_) fun p hne hp => ?_
    · rwa [input_of_not_stops fun h' => hs (h'.of_head? hs'.symm)]
    · rw [List.map_nil, List.append_nil]
      exact .inl ⟨hne, hp⟩

end Read

end TypeInType
