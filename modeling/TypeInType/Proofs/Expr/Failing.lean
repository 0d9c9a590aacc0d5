import TypeInType.Proofs.Expr.Reading

/-!
# How reading fails

A reader fails where one of its parts fails, after it has read the parts before.
-/

namespace TypeInType.Read

open Grammar

/-! ## Steps -/

/-- The reader fails with the error `e`. -/
def Fails {α : Type} {n : Nat} (o : Outcome α n) (e : SyntaxError) : Prop :=
  o = .error e

section Steps

variable {α β : Type} {n m : Nat} {e : SyntaxError}

theorem fails_error {e' : SyntaxError} : Fails (.error e' : Outcome α n) e ↔ e' = e :=
  Except.error.injEq _ _ ▸ Iff.rfl

theorem fails_ok {a : Result α n} : Fails (.ok a : Outcome α n) e ↔ False :=
  ⟨nofun, False.elim⟩

theorem fails_pure {a : Result α n} : Fails (pure a : Outcome α n) e ↔ False :=
  fails_ok

theorem Reads.not_fails {o : Outcome α n} {a : α} {r : List Lexeme} : Reads o a r → ¬ Fails o e
  | ⟨_, h⟩, he => by
    rw [h] at he
    cases he

theorem bind_eq_error {x : Outcome α n} {f : Result α n → Except SyntaxError β} :
    x >>= f = .error e ↔ Fails x e ∨ ∃ a s h, x = .ok ⟨a, s, h⟩ ∧ f ⟨a, s, h⟩ = .error e := by
  cases x with
  | error e' =>
    constructor
    · intro h
      cases h
      exact .inl rfl
    · rintro (h | ⟨_, _, _, h, _⟩)
      · cases h
        rfl
      · cases h
  | ok a =>
    constructor
    · intro h
      exact .inr ⟨a.value, a.rest, a.shorter, rfl, h⟩
    · rintro (h | ⟨_, _, _, h, hf⟩)
      · cases h
      · cases h
        exact hf

theorem fails_bind {x : Outcome α n} {f : Result α n → Outcome β m} : Fails (x >>= f) e ↔
    Fails x e ∨ ∃ a s h, x = .ok ⟨a, s, h⟩ ∧ Fails (f ⟨a, s, h⟩) e :=
  bind_eq_error

end Steps

variable {eof : Nat} {ts : List Lexeme} {e : SyntaxError}

theorem fails_expect {k : Token} : Fails (expect eof k ts) e ↔
    Stops (· == k) ts ∧ unexpected eof ts [k] = e := by
  unfold expect
  cases ts with
  | nil => simp only [fails_error, stops_nil, true_and]
  | cons t ts =>
    by_cases ht : t.token = k
    · simp only [ht, if_true, fails_ok, stops_cons, beq_self_eq_true, reduceCtorEq, false_and]
    · simp only [ht, if_false, fails_error, stops_cons, beq_eq_false_iff_ne, ne_eq, not_false_eq_true,
        true_and]

theorem fails_name : Fails (name eof ts) e ↔ Fails (expect eof .name ts) e := by
  simp only [name, fails_bind, fails_pure, and_false, exists_false, or_false]

theorem fails_moreNames_comma {c : Lexeme} (hc : c.token = .comma) :
    Fails (moreNames eof (c :: ts)) e ↔ Fails (name eof ts) e ∨
      ∃ x s, Reads (name eof ts) x s ∧ Fails (moreNames eof s) e := by
  rw [moreNames.eq_def]
  simp only [hc, if_true, fails_bind, fails_pure, and_false, exists_false, or_false, reads_and]

theorem fails_moreNames_stop (h : Stops (· == .comma) ts) : ¬ Fails (moreNames eof ts) e :=
  ((reads_moreNames_stop h).mpr ⟨rfl, rfl⟩).not_fails

theorem fails_names : Fails (names eof ts) e ↔ Fails (name eof ts) e ∨
    ∃ x s, Reads (name eof ts) x s ∧ Fails (moreNames eof s) e := by
  simp only [names, fails_bind, fails_pure, and_false, exists_false, or_false, reads_and]

theorem fails_piArrow : Fails (piArrow eof ts) e ↔
    Stops (fun k => k == .arrow || k == .dot || k == .comma) ts ∧
      unexpected eof ts [.arrow, .dot, .comma] = e := by
  unfold piArrow
  cases ts with
  | nil => simp only [fails_error, stops_nil, true_and]
  | cons t ts =>
    by_cases ht : t.token = .arrow ∨ t.token = .dot ∨ t.token = .comma
    · simp only [ht, if_true, fails_ok, stops_cons, false_iff, not_and]
      rcases ht with h | h | h <;> simp [h]
    · simp only [ht, if_false, fails_error, stops_cons]
      simp only [not_or] at ht
      simp [ht]

theorem fails_moreParams_name {x : Lexeme} (hx : x.token = .name) :
    Fails (moreParams eof (x :: ts)) e ↔ Fails (moreParams eof ts) e := by
  simp only [moreParams, hx, if_true, fails_bind, fails_pure, and_false, exists_false, or_false]

theorem fails_moreParams_stop (h : Stops (· == .name) ts) : Fails (moreParams eof ts) e ↔
    Stops (fun k => k == .arrow || k == .dot) ts ∧ unexpected eof ts [.arrow, .dot, .name] = e := by
  cases ts with
  | nil => simp only [moreParams, fails_error, stops_nil, true_and]
  | cons t ts =>
    have hx : t.token ≠ .name := by simpa [stops_cons] using h
    by_cases ht : t.token = .arrow ∨ t.token = .dot
    · simp only [moreParams, hx, ht, if_true, if_false, fails_ok, stops_cons, false_iff, not_and]
      rcases ht with h | h <;> simp [h]
    · simp only [moreParams, hx, ht, if_false, fails_error, stops_cons]
      simp only [not_or] at ht
      simp [ht]

theorem fails_params : Fails (params eof ts) e ↔ Fails (name eof ts) e ∨
    ∃ x s, Reads (name eof ts) x s ∧ Fails (moreParams eof s) e := by
  simp only [params, fails_bind, fails_pure, and_false, exists_false, or_false, reads_and]

theorem fails_expr : Fails (expr eof ts) e ↔ Fails (arrowExpr eof ts) e ∨
    ∃ e₀ s, Reads (arrowExpr eof ts) e₀ s ∧ Fails (annotations eof e₀ s) e := by
  rw [expr]
  simp only [fails_bind, fails_pure, and_false, exists_false, or_false, reads_and]

theorem fails_annotations_colon {t : Lexeme} (ht : t.token = .colon) {e₀ : Expr} :
    Fails (annotations eof e₀ (t :: ts)) e ↔ Fails (arrowExpr eof ts) e ∨
      ∃ type s, Reads (arrowExpr eof ts) type s ∧
        Fails (annotations eof (.ann (e₀.range.merge type.range) e₀ type) s) e := by
  rw [annotations.eq_def]
  simp only [ht, if_true, fails_bind, fails_pure, and_false, exists_false, or_false, reads_and]

theorem fails_annotations_stop (h : Stops (· == .colon) ts) {e₀ : Expr} :
    ¬ Fails (annotations eof e₀ ts) e :=
  ((reads_annotations_stop h).mpr ⟨rfl, rfl⟩).not_fails

theorem fails_appExpr : Fails (appExpr eof ts) e ↔ Fails (atom eof ts) e ∨
    ∃ head s, Reads (atom eof ts) head s ∧ Fails (arguments eof head s) e := by
  rw [appExpr]
  simp only [fails_bind, fails_pure, and_false, exists_false, or_false, reads_and]

theorem fails_atom_stop (h : Stops Token.startsAtom ts) : Fails (atom eof ts) e ↔
    unexpected eof ts [.openParen, .star, .name, .number] = e := by
  rw [atom.eq_def]
  cases ts with
  | nil => exact fails_error
  | cons t ts =>
    rw [stops_cons] at h
    cases ht : t.token <;> simp only [ht, Token.startsAtom, reduceCtorEq] at h
    all_goals simp only [ht]; exact fails_error

theorem fails_arrowExpr_forall {t : Lexeme} (ht : t.token = .forallSign) :
    Fails (arrowExpr eof (t :: ts)) e ↔ Fails (binders eof ts) e ∨
      ∃ bs s, Reads (binders eof ts) bs s ∧ (Fails (piArrow eof s) e ∨
        ∃ u s', Reads (piArrow eof s) u s' ∧ Fails (arrowExpr eof s') e) := by
  rw [arrowExpr.eq_def]
  simp only [ht, if_true, fails_bind, fails_pure, and_false, exists_false, or_false, reads_and]

theorem fails_arrowExpr_lambda {t : Lexeme} (ht : t.token = .lambdaSign) :
    Fails (arrowExpr eof (t :: ts)) e ↔ Fails (params eof ts) e ∨
      ∃ xs s, Reads (params eof ts) xs s ∧ Fails (arrowExpr eof s) e := by
  rw [arrowExpr.eq_def]
  simp only [ht, reduceCtorEq, if_true, if_false, fails_bind, fails_pure, and_false, exists_false,
    or_false, reads_and]

/-- The tokens that begin an arrow expression and no application. -/
def isSign (k : Token) : Bool :=
  k == .forallSign || k == .lambdaSign

/-- What may follow the application at the front of an arrow expression. -/
theorem fails_arrowExpr_stop (h : Stops isSign ts) :
    Fails (arrowExpr eof ts) e ↔ Fails (appExpr eof ts) e ∨
      ∃ d, ∃ (a : Lex .arrow) (s : List Lexeme), Reads (appExpr eof ts) d (a.1 :: s) ∧
        Fails (arrowExpr eof s) e := by
  rw [arrowExpr.eq_def]
  cases ts with
  | nil =>
    rw [fails_error, fails_appExpr, fails_atom_stop stops_nil]
    constructor
    · exact fun h => .inl (.inl h)
    · rintro ((h | ⟨_, _, h, _⟩) | ⟨_, _, _, h, _⟩)
      · exact h
      · exact (Nat.not_lt_zero _ h.shorter).elim
      · exact (Nat.not_lt_zero _ h.shorter).elim
  | cons t ts =>
    simp only [stops_cons, isSign, Bool.or_eq_false_iff, beq_eq_false_iff_ne] at h
    simp only [h.1, h.2, if_false, fails_bind]
    constructor
    · rintro (h | ⟨d, s, h, hd, hs⟩)
      · exact .inl h
      · cases s with
        | nil => exact (fails_pure.mp hs).elim
        | cons a s =>
          by_cases ha : a.token = .arrow
          · simp only [ha, if_true, fails_bind, fails_pure, and_false, exists_false, or_false] at hs
            exact .inr ⟨d, ⟨a, ha⟩, s, ⟨h, hd⟩, hs⟩
          · simp only [ha, if_false, fails_pure] at hs
    · rintro (h | ⟨d, a, s, ⟨h, hd⟩, hs⟩)
      · exact .inl h
      · refine .inr ⟨d, a.1 :: s, h, hd, ?_⟩
        simp only [a.2, if_true, fails_bind, fails_pure, and_false, exists_false, or_false]
        exact hs

theorem fails_binders_group {t : Lexeme} (ht : t.token = .openParen) :
    Fails (binders eof (t :: ts)) e ↔ Fails (groups eof (t :: ts)) e := by
  rw [binders.eq_def]
  simp only [ht, if_true]

theorem fails_binders_stop (h : Stops (· == .openParen) ts) : Fails (binders eof ts) e ↔
    Fails (name eof ts) e ∨ ∃ x s, Reads (name eof ts) x s ∧ (Fails (expect eof .colon s) e ∨
      ∃ c s', Reads (expect eof .colon s) c s' ∧ Fails (appExpr eof s') e) := by
  rw [binders.eq_def]
  cases ts with
  | nil =>
    rw [fails_error, fails_name, fails_expect]
    constructor
    · exact fun h => .inl ⟨stops_nil, h⟩
    · rintro (h | ⟨_, _, h, _⟩)
      · exact h.2
      · exact (Nat.not_lt_zero _ h.shorter).elim
  | cons t ts =>
    have ht : t.token ≠ .openParen := by simpa [stops_cons] using h
    simp only [ht, if_false, fails_bind, fails_pure, and_false, exists_false, or_false, reads_and]

/-- Names, a colon and an expression are read. -/
def ReadsTyped (eof : Nat) (ts : List Lexeme) (xs : List Ident) (type : Expr) (r : List Lexeme) : Prop :=
  ∃ s₁, Reads (names eof ts) xs s₁ ∧ ∃ c s₂, Reads (expect eof .colon s₁) c s₂ ∧ Reads (expr eof s₂) type r

/-- One of the readers of names, a colon and an expression fails. -/
def FailsTyped (eof : Nat) (ts : List Lexeme) (e : SyntaxError) : Prop :=
  Fails (names eof ts) e ∨ ∃ xs s₁, Reads (names eof ts) xs s₁ ∧ (Fails (expect eof .colon s₁) e ∨
    ∃ c s₂, Reads (expect eof .colon s₁) c s₂ ∧ Fails (expr eof s₂) e)

theorem fails_groups_group {t : Lexeme} (ht : t.token = .openParen) :
    Fails (groups eof (t :: ts)) e ↔ FailsTyped eof ts e ∨
      ∃ xs d s, ReadsTyped eof ts xs d s ∧ (Fails (expect eof .closeParen s) e ∨
        ∃ c s', Reads (expect eof .closeParen s) c s' ∧ Fails (groups eof s') e) := by
  rw [groups.eq_def]
  simp only [ht, if_true, fails_bind, fails_pure, and_false, exists_false, or_false, reads_and]
  constructor
  · rintro (h | ⟨xs, s₁, hxs, h | ⟨c, s₂, hc, h | ⟨d, s₃, hd, h⟩⟩⟩)
    · exact .inl (.inl h)
    · exact .inl (.inr ⟨xs, s₁, hxs, .inl h⟩)
    · exact .inl (.inr ⟨xs, s₁, hxs, .inr ⟨c, s₂, hc, h⟩⟩)
    · exact .inr ⟨xs, d, s₃, ⟨s₁, hxs, c, s₂, hc, hd⟩, h⟩
  · rintro ((h | ⟨xs, s₁, hxs, h | ⟨c, s₂, hc, h⟩⟩) | ⟨xs, d, s₃, ⟨s₁, hxs, c, s₂, hc, hd⟩, h⟩)
    · exact .inl h
    · exact .inr ⟨xs, s₁, hxs, .inl h⟩
    · exact .inr ⟨xs, s₁, hxs, .inr ⟨c, s₂, hc, .inl h⟩⟩
    · exact .inr ⟨xs, s₁, hxs, .inr ⟨c, s₂, hc, .inr ⟨d, s₃, hd, h⟩⟩⟩

theorem fails_groups_stop (h : Stops (· == .openParen) ts) : ¬ Fails (groups eof ts) e :=
  ((reads_groups_stop h).mpr ⟨rfl, rfl⟩).not_fails

theorem fails_arguments_atom {t : Lexeme} (ht : t.token.startsAtom = true) {head : Expr} :
    Fails (arguments eof head (t :: ts)) e ↔ Fails (atom eof (t :: ts)) e ∨
      ∃ arg s, Reads (atom eof (t :: ts)) arg s ∧
        Fails (arguments eof (.app (head.range.merge arg.range) head arg) s) e := by
  rw [arguments.eq_def]
  simp only [ht, if_true, fails_bind, fails_pure, and_false, exists_false, or_false, reads_and]

theorem fails_arguments_stop (h : Stops Token.startsAtom ts) {head : Expr} :
    ¬ Fails (arguments eof head ts) e :=
  ((reads_arguments_stop h).mpr ⟨rfl, rfl⟩).not_fails

theorem fails_atom_paren {t : Lexeme} (ht : t.token = .openParen) :
    Fails (atom eof (t :: ts)) e ↔ Fails (expr eof ts) e ∨
      ∃ e₀ s, Reads (expr eof ts) e₀ s ∧ Fails (expect eof .closeParen s) e := by
  rw [atom.eq_def]
  simp only [ht, fails_bind, fails_pure, and_false, exists_false, or_false, reads_and]

theorem fails_atom_number {t : Lexeme} (ht : t.token = .number) : Fails (atom eof (t :: ts)) e ↔
    maxNumber < decimalValue t.text.toList ∧ .numberTooLarge t.range = e := by
  rw [atom.eq_def]
  by_cases hn : decimalValue t.text.toList ≤ maxNumber
  · simp only [ht, hn, if_true, fails_pure, Nat.not_lt.mpr hn, false_and]
  · simp only [ht, hn, if_false, fails_error, Nat.lt_of_not_le hn, true_and]

/-- Only a parenthesis or a number begins an atom that is not read. -/
theorem startsAtom_of_fails_atom (h : Fails (atom eof ts) e) : Stops Token.startsAtom ts ∨
    ∃ t ts', ts = t :: ts' ∧ (t.token = .openParen ∨ t.token = .number) := by
  by_cases hs : Stops Token.startsAtom ts
  · exact .inl hs
  · obtain ⟨t, ts, rfl, ht⟩ := exists_of_not_stops hs
    refine .inr ⟨t, ts, rfl, ?_⟩
    rw [atom.eq_def] at h
    cases hk : t.token <;> simp only [hk, Token.startsAtom, Bool.false_eq_true] at ht
    · simp only [hk, fails_pure] at h
    · exact .inr rfl
    · simp only [hk, fails_pure] at h
    · exact .inl rfl

/-! ## Declarations and whole sources -/

theorem fails_decl_stop (h : Stops Token.startsDecl ts) : Fails (decl eof ts) e ↔
    unexpected eof ts [.axiomWord, .checkWord, .defunWord] = e := by
  cases ts with
  | nil => exact fails_error
  | cons t ts =>
    rw [stops_cons] at h
    cases ht : t.token <;> simp only [ht, Token.startsDecl, reduceCtorEq] at h
    all_goals simp only [decl, ht]; exact fails_error

theorem fails_decl_postulate {t : Lexeme} (ht : t.token = .axiomWord) :
    Fails (decl eof (t :: ts)) e ↔ FailsTyped eof ts e := by
  simp only [decl, FailsTyped, ht, fails_bind, fails_pure, and_false, exists_false, or_false, reads_and]

theorem fails_decl_define {t : Lexeme} (ht : t.token = .defunWord) :
    Fails (decl eof (t :: ts)) e ↔ Fails (name eof ts) e ∨
      ∃ x s₁, Reads (name eof ts) x s₁ ∧ (Fails (expect eof .equals s₁) e ∨
        ∃ c s₂, Reads (expect eof .equals s₁) c s₂ ∧ Fails (expr eof s₂) e) := by
  simp only [decl, ht, fails_bind, fails_pure, and_false, exists_false, or_false, reads_and]

theorem fails_decl_check {t : Lexeme} (ht : t.token = .checkWord) :
    Fails (decl eof (t :: ts)) e ↔ Fails (expr eof ts) e := by
  simp only [decl, ht, fails_bind, fails_pure, and_false, exists_false, or_false]

theorem bind_pure_eq_error {α β : Type} {x : Except SyntaxError α} {f : α → β} :
    (x >>= fun a => pure (f a)) = .error e ↔ x = .error e := by
  cases x with
  | error e' =>
    constructor
    · intro h
      cases h
      rfl
    · intro h
      cases h
      rfl
  | ok a => exact ⟨nofun, nofun⟩

theorem program_cons_error {t : Lexeme} : program eof (t :: ts) = .error e ↔
    Fails (decl eof (t :: ts)) e ∨ ∃ c s, Reads (decl eof (t :: ts)) c s ∧ program eof s = .error e := by
  rw [program, bind_eq_error]
  simp only [bind_pure_eq_error, reads_and]

theorem term_eq_error : term eof ts = .error e ↔ Fails (expr eof ts) e ∨
    ∃ d t s, Reads (expr eof ts) d (t :: s) ∧ unexpected eof (t :: s) [.colon, .arrow] = e := by
  rw [term, bind_eq_error]
  constructor
  · rintro (h | ⟨d, s, h, hd, hs⟩)
    · exact .inl h
    · cases s with
      | nil => cases hs
      | cons t s => exact .inr ⟨d, t, s, ⟨h, hd⟩, Except.error.inj hs⟩
  · rintro (h | ⟨d, t, s, ⟨h, hd⟩, rfl⟩)
    · exact .inl h
    · exact .inr ⟨d, t :: s, h, hd, rfl⟩

theorem input_of_stops (h : Stops Token.startsDecl ts) :
    input eof ts = term eof ts >>= fun e => pure [.expr e] := by
  have hany : (ts.head?.any fun t => t.token.startsDecl) = false := by
    cases ts with
    | nil => rfl
    | cons t ts => exact stops_cons.mp h
  rw [input, hany, if_neg Bool.false_ne_true]

theorem input_of_not_stops (h : ¬ Stops Token.startsDecl ts) : input eof ts = program eof ts := by
  obtain ⟨t, ts, rfl, ht⟩ := exists_of_not_stops h
  have hany : ((t :: ts).head?.any fun t => t.token.startsDecl) = true := ht
  rw [input, if_pos hany]

end TypeInType.Read
