import TypeInType.Proofs.Expr.Grammar
import TypeInType.Proofs.Run

/-!
# Reading follows the grammar

Every reader reads what the derivation trees of its phrase denote and leaves the lexemes after the
phrase: it reads nothing else (soundness), and it reads every derivation whose phrase ends there
(completeness).
-/

namespace TypeInType.Read

open Grammar

/-! ## Readers step by step -/

/-- The reader reads `a` and leaves the lexemes `r`. -/
def Reads {α : Type} {n : Nat} (o : Outcome α n) (a : α) (r : List Lexeme) : Prop :=
  ∃ h, o = .ok ⟨a, r, h⟩

theorem Reads.shorter {α : Type} {n : Nat} {o : Outcome α n} {a r} : Reads o a r → r.length < n
  | ⟨h, _⟩ => h

section Steps

variable {α β : Type} {n m : Nat} {a b : α} {r s : List Lexeme}

theorem reads_ok {h : s.length < n} : Reads (.ok ⟨b, s, h⟩ : Outcome α n) a r ↔ b = a ∧ s = r := by
  constructor
  · rintro ⟨_, h⟩
    cases h
    exact ⟨rfl, rfl⟩
  · rintro ⟨rfl, rfl⟩
    exact ⟨h, rfl⟩

theorem reads_pure {h : s.length < n} :
    Reads (pure ⟨b, s, h⟩ : Outcome α n) a r ↔ b = a ∧ s = r :=
  reads_ok

theorem reads_error {e : SyntaxError} : Reads (.error e : Outcome α n) a r ↔ False := by
  constructor
  · rintro ⟨_, h⟩
    cases h
  · exact False.elim

theorem reads_bind {x : Outcome α n} {f : Result α n → Outcome β m} {b : β} :
    Reads (x >>= f) b r ↔ ∃ a s h, x = .ok ⟨a, s, h⟩ ∧ Reads (f ⟨a, s, h⟩) b r := by
  cases x with
  | error e =>
    constructor
    · rintro ⟨_, h⟩
      cases h
    · rintro ⟨_, _, _, h, _⟩
      cases h
  | ok a =>
    constructor
    · intro h
      exact ⟨a.value, a.rest, a.shorter, rfl, h⟩
    · rintro ⟨_, _, _, h, hf⟩
      cases h
      exact hf

/-- The next reader does not look at how much has been read. -/
theorem reads_and {x : Outcome α n} {p : Prop} :
    (∃ h, x = .ok ⟨a, r, h⟩ ∧ p) ↔ Reads x a r ∧ p := by
  simp only [Reads, exists_and_right]

end Steps

variable {eof : Nat} {ts : List Lexeme}

theorem exists_of_not_stops {p : Token → Bool} (h : ¬ Stops p ts) :
    ∃ t ts', ts = t :: ts' ∧ p t.token = true := by
  cases ts with
  | nil => exact (h stops_nil).elim
  | cons t ts' => exact ⟨t, ts', rfl, by simpa [stops_cons] using h⟩

/-! ## Names and arrows -/

theorem reads_expect {k t r} : Reads (expect eof k ts) t r ↔ ts = t :: r ∧ t.token = k := by
  unfold expect
  cases ts with
  | nil => simp only [reads_error, reduceCtorEq, false_and]
  | cons l ts =>
    by_cases hl : l.token = k
    · simp only [hl, if_true, reads_ok, List.cons.injEq]
      constructor
      · rintro ⟨rfl, rfl⟩
        exact ⟨⟨rfl, rfl⟩, hl⟩
      · rintro ⟨h, _⟩
        exact h
    · simp only [hl, if_false, reads_error, List.cons.injEq, false_iff, not_and]
      rintro ⟨rfl, _⟩
      exact hl

theorem reads_lex {k t r} : Reads (expect eof k ts) t r ↔ ∃ l : Lex k, ts = l.1 :: r ∧ l.1 = t := by
  rw [reads_expect]
  constructor
  · rintro ⟨rfl, ht⟩
    exact ⟨⟨t, ht⟩, rfl, rfl⟩
  · rintro ⟨l, rfl, rfl⟩
    exact ⟨rfl, l.2⟩

theorem reads_name {x r} : Reads (name eof ts) x r ↔
    ∃ l : Lex .name, ts = l.1 :: r ∧ l.ident = x := by
  simp only [name, reads_bind, reads_pure, reads_and, reads_lex]
  constructor
  · rintro ⟨t, s, ⟨l, rfl, rfl⟩, rfl, rfl⟩
    exact ⟨l, rfl, rfl⟩
  · rintro ⟨l, rfl, rfl⟩
    exact ⟨l.1, r, ⟨l, rfl, rfl⟩, rfl, rfl⟩

theorem reads_moreNames_comma {c : Lexeme} (hc : c.token = .comma) {xs r} :
    Reads (moreNames eof (c :: ts)) xs r ↔ ∃ x s, Reads (name eof ts) x s ∧
      ∃ xs' s', Reads (moreNames eof s) xs' s' ∧ x :: xs' = xs ∧ s' = r := by
  rw [moreNames.eq_def]
  simp only [hc, if_true, reads_bind, reads_pure, reads_and]

theorem reads_moreNames_stop (h : Stops (· == .comma) ts) {xs r} :
    Reads (moreNames eof ts) xs r ↔ [] = xs ∧ ts = r := by
  rw [moreNames.eq_def]
  cases ts with
  | nil => exact reads_pure
  | cons c ts =>
    have hc : c.token ≠ .comma := by simpa [stops_cons] using h
    simp only [hc, if_false, reads_pure]

theorem reads_moreNames {xs r} : Reads (moreNames eof ts) xs r ↔
    ∃ more : List (Lex .comma × Lex .name), ts = (more.flatMap fun n => [n.1.1, n.2.1]) ++ r ∧
      (more.map fun n => n.2.ident) = xs ∧ Stops (· == .comma) r := by
  constructor
  · intro h
    induction hn : ts.length using Nat.strongRecOn generalizing ts xs with
    | _ n ih =>
      subst hn
      by_cases hs : Stops (· == .comma) ts
      · obtain ⟨rfl, rfl⟩ := (reads_moreNames_stop hs).mp h
        exact ⟨[], rfl, rfl, hs⟩
      · obtain ⟨c, ts, rfl, hc⟩ := exists_of_not_stops hs
        obtain ⟨x, s, hx, xs, s', hxs, rfl, rfl⟩ := (reads_moreNames_comma (by simpa using hc)).mp h
        have hlt := hx.shorter
        obtain ⟨l, rfl, rfl⟩ := reads_name.mp hx
        obtain ⟨more, rfl, rfl, hr⟩ := ih _ (Nat.lt_succ_of_lt hlt) hxs rfl
        exact ⟨(⟨c, by simpa using hc⟩, l) :: more, rfl, rfl, hr⟩
  · rintro ⟨more, rfl, rfl, hr⟩
    induction more with
    | nil => exact (reads_moreNames_stop hr).mpr ⟨rfl, rfl⟩
    | cons n more ih =>
      exact (reads_moreNames_comma n.1.2).mpr ⟨_, _, reads_name.mpr ⟨n.2, rfl, rfl⟩, _, _, ih, rfl, rfl⟩

theorem reads_names {xs r} : Reads (names eof ts) xs r ↔
    ∃ ns : Names, ts = ns.yield ++ r ∧ ns.idents = xs ∧ Stops (· == .comma) r := by
  simp only [names, reads_bind, reads_pure, reads_and, reads_name, reads_moreNames]
  constructor
  · rintro ⟨_, _, ⟨l, rfl, rfl⟩, _, _, ⟨more, rfl, rfl, hr⟩, rfl, rfl⟩
    exact ⟨⟨l, more⟩, rfl, rfl, hr⟩
  · rintro ⟨⟨l, more⟩, rfl, rfl, hr⟩
    exact ⟨_, _, ⟨l, rfl, rfl⟩, _, _, ⟨more, rfl, rfl, hr⟩, rfl, rfl⟩

theorem reads_piArrow {u r} : Reads (piArrow eof ts) u r ↔ ∃ l : PiArrow, ts = l.1 :: r := by
  unfold piArrow
  cases ts with
  | nil => simp only [reads_error, reduceCtorEq, exists_false]
  | cons l ts =>
    by_cases hl : l.token = .arrow ∨ l.token = .dot ∨ l.token = .comma
    · simp only [hl, if_true, reads_ok, true_and, List.cons.injEq]
      constructor
      · rintro rfl
        exact ⟨⟨l, hl⟩, rfl, rfl⟩
      · rintro ⟨_, _, h⟩
        exact h
    · simp only [hl, if_false, reads_error, List.cons.injEq, false_iff, not_exists, not_and]
      rintro ⟨l', hl'⟩ rfl
      exact (hl hl').elim

theorem reads_moreParams_name {x : Lexeme} (hx : x.token = .name) {xs r} :
    Reads (moreParams eof (x :: ts)) xs r ↔
      ∃ xs' s, Reads (moreParams eof ts) xs' s ∧ ⟨x.range, x.text⟩ :: xs' = xs ∧ s = r := by
  simp only [moreParams, hx, if_true, reads_bind, reads_pure, reads_and]

theorem reads_moreParams_arrow {l : Lexeme} (hl : l.token = .arrow ∨ l.token = .dot) {xs r} :
    Reads (moreParams eof (l :: ts)) xs r ↔ [] = xs ∧ ts = r := by
  have hx : l.token ≠ .name := by rcases hl with h | h <;> rw [h] <;> nofun
  simp only [moreParams, hx, hl, if_true, if_false, reads_ok]

theorem reads_moreParams {xs r} : Reads (moreParams eof ts) xs r ↔
    ∃ (more : List (Lex .name)) (l : LamArrow), ts = more.map Subtype.val ++ l.1 :: r ∧
      more.map Lex.ident = xs := by
  constructor
  · intro h
    induction ts generalizing xs with
    | nil => exact (reads_error.mp h).elim
    | cons t ts ih =>
      by_cases hx : t.token = .name
      · obtain ⟨xs, s, hxs, rfl, rfl⟩ := (reads_moreParams_name hx).mp h
        obtain ⟨more, l, rfl, rfl⟩ := ih hxs
        exact ⟨⟨t, hx⟩ :: more, l, rfl, rfl⟩
      · by_cases hl : t.token = .arrow ∨ t.token = .dot
        · obtain ⟨rfl, rfl⟩ := (reads_moreParams_arrow hl).mp h
          exact ⟨[], ⟨t, hl⟩, rfl, rfl⟩
        · simp only [moreParams, hx, hl, if_false, reads_error] at h
  · rintro ⟨more, l, rfl, rfl⟩
    induction more with
    | nil => exact (reads_moreParams_arrow l.2).mpr ⟨rfl, rfl⟩
    | cons x more ih => exact (reads_moreParams_name x.2).mpr ⟨_, _, ih, rfl, rfl⟩

theorem reads_params {xs r} : Reads (params eof ts) xs r ↔
    ∃ (x : Lex .name) (more : List (Lex .name)) (l : LamArrow),
      ts = x.1 :: (more.map Subtype.val ++ l.1 :: r) ∧ x.ident :: more.map Lex.ident = xs := by
  simp only [params, reads_bind, reads_pure, reads_and, reads_name, reads_moreParams]
  constructor
  · rintro ⟨_, _, ⟨x, rfl, rfl⟩, _, _, ⟨more, l, rfl, rfl⟩, rfl, rfl⟩
    exact ⟨x, more, l, rfl, rfl⟩
  · rintro ⟨x, more, l, rfl, rfl⟩
    exact ⟨_, _, ⟨x, rfl, rfl⟩, _, _, ⟨more, l, rfl, rfl⟩, rfl, rfl⟩

/-! ## Expressions, one step -/

theorem reads_expr {e r} : Reads (expr eof ts) e r ↔
    ∃ e₀ s, Reads (arrowExpr eof ts) e₀ s ∧
      ∃ e₁ s', Reads (annotations eof e₀ s) e₁ s' ∧ e₁ = e ∧ s' = r := by
  rw [expr]
  simp only [reads_bind, reads_pure, reads_and]

theorem reads_annotations_colon {t : Lexeme} (ht : t.token = .colon) {e e' r} :
    Reads (annotations eof e (t :: ts)) e' r ↔ ∃ type s, Reads (arrowExpr eof ts) type s ∧
      ∃ e₁ s', Reads (annotations eof (.ann (e.range.merge type.range) e type) s) e₁ s' ∧
        e₁ = e' ∧ s' = r := by
  rw [annotations.eq_def]
  simp only [ht, if_true, reads_bind, reads_pure, reads_and]

theorem reads_annotations_stop (h : Stops (· == .colon) ts) {e e' r} :
    Reads (annotations eof e ts) e' r ↔ e = e' ∧ ts = r := by
  rw [annotations.eq_def]
  cases ts with
  | nil => exact reads_pure
  | cons t ts =>
    have ht : t.token ≠ .colon := by simpa [stops_cons] using h
    simp only [ht, if_false, reads_pure]

theorem reads_arrowExpr_forall {t : Lexeme} (ht : t.token = .forallSign) {e r} :
    Reads (arrowExpr eof (t :: ts)) e r ↔ ∃ bs s, Reads (binders eof ts) bs s ∧
      ∃ u s', Reads (piArrow eof s) u s' ∧ ∃ body s'', Reads (arrowExpr eof s') body s'' ∧
        .pis (t.range.merge body.range) bs body = e ∧ s'' = r := by
  rw [arrowExpr.eq_def]
  simp only [ht, if_true, reads_bind, reads_pure, reads_and]

theorem reads_arrowExpr_lambda {t : Lexeme} (ht : t.token = .lambdaSign) {e r} :
    Reads (arrowExpr eof (t :: ts)) e r ↔ ∃ xs s, Reads (params eof ts) xs s ∧
      ∃ body s', Reads (arrowExpr eof s) body s' ∧
        .lams (t.range.merge body.range) xs body = e ∧ s' = r := by
  rw [arrowExpr.eq_def]
  simp only [ht, reduceCtorEq, if_true, if_false, reads_bind, reads_pure, reads_and]

/-- What may follow the application at the front of an arrow expression. -/
theorem reads_arrowExpr_app {t : Lexeme} (h₁ : t.token ≠ .forallSign) (h₂ : t.token ≠ .lambdaSign)
    {e r} : Reads (arrowExpr eof (t :: ts)) e r ↔ ∃ d s, Reads (appExpr eof (t :: ts)) d s ∧
      (Stops (· == .arrow) s ∧ d = e ∧ s = r ∨
        ∃ (a : Lex .arrow) (s' : List Lexeme), s = a.1 :: s' ∧
          ∃ c s'', Reads (arrowExpr eof s') c s'' ∧
            .pi (d.range.merge c.range) none d c = e ∧ s'' = r) := by
  rw [arrowExpr.eq_def]
  simp only [h₁, h₂, if_false, reads_bind]
  constructor
  · rintro ⟨d, s, h, hd, hr⟩
    refine ⟨d, s, ⟨h, hd⟩, ?_⟩
    cases s with
    | nil => exact .inl ⟨stops_nil, reads_pure.mp hr⟩
    | cons a s' =>
      by_cases ha : a.token = .arrow
      · simp only [ha, if_true, reads_bind, reads_pure, reads_and] at hr
        exact .inr ⟨⟨a, ha⟩, s', rfl, hr⟩
      · simp only [ha, if_false, reads_pure] at hr
        exact .inl ⟨by simpa [stops_cons] using ha, hr⟩
  · rintro ⟨d, s, ⟨h, hd⟩, ⟨hs, rfl, rfl⟩ | ⟨a, s', rfl, hr⟩⟩
    · refine ⟨d, s, h, hd, ?_⟩
      cases s with
      | nil => exact reads_pure.mpr ⟨rfl, rfl⟩
      | cons a s' =>
        have ha : a.token ≠ .arrow := by simpa [stops_cons] using hs
        simp only [ha, if_false, reads_pure, and_self]
    · refine ⟨d, a.1 :: s', h, hd, ?_⟩
      simp only [a.2, if_true, reads_bind, reads_pure, reads_and]
      exact hr

theorem reads_binders_group {t : Lexeme} (ht : t.token = .openParen) {bs r} :
    Reads (binders eof (t :: ts)) bs r ↔ Reads (groups eof (t :: ts)) bs r := by
  rw [binders.eq_def]
  simp only [ht, if_true]

theorem reads_binders_name {t : Lexeme} (ht : t.token ≠ .openParen) {bs r} :
    Reads (binders eof (t :: ts)) bs r ↔ ∃ x s, Reads (name eof (t :: ts)) x s ∧
      ∃ c s', Reads (expect eof .colon s) c s' ∧ ∃ d s'', Reads (appExpr eof s') d s'' ∧
        [(x, d)] = bs ∧ s'' = r := by
  rw [binders.eq_def]
  simp only [ht, if_false, reads_bind, reads_pure, reads_and]

theorem reads_groups_group {t : Lexeme} (ht : t.token = .openParen) {bs r} :
    Reads (groups eof (t :: ts)) bs r ↔ ∃ xs s₁, Reads (names eof ts) xs s₁ ∧
      ∃ c s₂, Reads (expect eof .colon s₁) c s₂ ∧ ∃ d s₃, Reads (expr eof s₂) d s₃ ∧
        ∃ c' s₄, Reads (expect eof .closeParen s₃) c' s₄ ∧
          ∃ bs' s₅, Reads (groups eof s₄) bs' s₅ ∧ xs.map (·, d) ++ bs' = bs ∧ s₅ = r := by
  rw [groups.eq_def]
  simp only [ht, if_true, reads_bind, reads_pure, reads_and]

theorem reads_groups_stop (h : Stops (· == .openParen) ts) {bs r} :
    Reads (groups eof ts) bs r ↔ [] = bs ∧ ts = r := by
  rw [groups.eq_def]
  cases ts with
  | nil => exact reads_pure
  | cons t ts =>
    have ht : t.token ≠ .openParen := by simpa [stops_cons] using h
    simp only [ht, if_false, reads_pure]

theorem reads_appExpr {e r} : Reads (appExpr eof ts) e r ↔
    ∃ head s, Reads (atom eof ts) head s ∧
      ∃ e₁ s', Reads (arguments eof head s) e₁ s' ∧ e₁ = e ∧ s' = r := by
  rw [appExpr]
  simp only [reads_bind, reads_pure, reads_and]

theorem reads_arguments_atom {t : Lexeme} (ht : t.token.startsAtom = true) {head e r} :
    Reads (arguments eof head (t :: ts)) e r ↔ ∃ arg s, Reads (atom eof (t :: ts)) arg s ∧
      ∃ e₁ s', Reads (arguments eof (.app (head.range.merge arg.range) head arg) s) e₁ s' ∧
        e₁ = e ∧ s' = r := by
  rw [arguments.eq_def]
  simp only [ht, if_true, reads_bind, reads_pure, reads_and]

theorem reads_arguments_stop (h : Stops Token.startsAtom ts) {head e r} :
    Reads (arguments eof head ts) e r ↔ head = e ∧ ts = r := by
  rw [arguments.eq_def]
  cases ts with
  | nil => exact reads_pure
  | cons t ts =>
    rw [stops_cons] at h
    simp only [h, Bool.false_eq_true, if_false, reads_pure]

theorem reads_atom_paren {t : Lexeme} (ht : t.token = .openParen) {e r} :
    Reads (atom eof (t :: ts)) e r ↔ ∃ e₀ s, Reads (expr eof ts) e₀ s ∧
      ∃ c s', Reads (expect eof .closeParen s) c s' ∧ e₀ = e ∧ s' = r := by
  rw [atom.eq_def]
  simp only [ht, reads_bind, reads_pure, reads_and]

theorem reads_atom_name {t : Lexeme} (ht : t.token = .name) {e r} :
    Reads (atom eof (t :: ts)) e r ↔ .var t.range t.text = e ∧ ts = r := by
  rw [atom.eq_def]
  simp only [ht, reads_pure]

theorem reads_atom_star {t : Lexeme} (ht : t.token = .star) {e r} :
    Reads (atom eof (t :: ts)) e r ↔ .star t.range = e ∧ ts = r := by
  rw [atom.eq_def]
  simp only [ht, reads_pure]

theorem reads_atom_number {t : Lexeme} (ht : t.token = .number) {e r} :
    Reads (atom eof (t :: ts)) e r ↔ decimalValue t.text.toList ≤ maxNumber ∧
      .number t.range (decimalValue t.text.toList) = e ∧ ts = r := by
  rw [atom.eq_def]
  by_cases hn : decimalValue t.text.toList ≤ maxNumber
  · simp only [ht, hn, if_true, reads_pure, true_and]
  · simp only [ht, hn, if_false, reads_error, false_and]

theorem startsAtom_of_reads_atom {e r} (h : Reads (atom eof ts) e r) :
    ∃ t ts', ts = t :: ts' ∧ (t.token = .openParen ∨ t.token = .name ∨ t.token = .star ∨
      t.token = .number) := by
  rw [atom.eq_def] at h
  cases ts with
  | nil => exact (reads_error.mp h).elim
  | cons t ts =>
    refine ⟨t, ts, rfl, ?_⟩
    cases ht : t.token with
    | openParen => exact .inl rfl
    | name => exact .inr (.inl rfl)
    | star => exact .inr (.inr (.inl rfl))
    | number => exact .inr (.inr (.inr rfl))
    | _ => simp only [ht, reads_error] at h

/-! ## What is read has a derivation -/

mutual

theorem expr_sound (n : Nat) {ts e r} (hn : ts.length ≤ n) (h : Reads (expr eof ts) e r) :
    ∃ d : ExprTree, ts = d.yield ++ r ∧ d.denote = e ∧ Stops continuesExpr r := by
  obtain ⟨e₀, s, h₀, e₁, s', h₁, rfl, rfl⟩ := reads_expr.mp h
  have hlt : s.length < n := Nat.lt_of_lt_of_le h₀.shorter hn
  obtain ⟨first, rfl, rfl, hs⟩ := arrowExpr_sound n hn h₀
  obtain ⟨types, rfl, rfl, hr⟩ := annotations_sound _ (Nat.le_refl _) hs h₁
  exact ⟨.mk first types, by simp only [ExprTree.yield, List.append_assoc], rfl, hr⟩
termination_by 5 * n + 4

theorem annotations_sound (n : Nat) {ts e e' r} (hn : ts.length ≤ n)
    (hts : Stops continuesArrow ts) (h : Reads (annotations eof e ts) e' r) :
    ∃ d : TypesTree, ts = d.yield ++ r ∧ d.annotate e = e' ∧ Stops continuesExpr r := by
  by_cases hs : Stops (· == .colon) ts
  · obtain ⟨rfl, rfl⟩ := (reads_annotations_stop hs).mp h
    exact ⟨.nil, rfl, rfl, hts.expr hs⟩
  · obtain ⟨t, ts, rfl, ht⟩ := exists_of_not_stops hs
    have ht : t.token = .colon := by simpa using ht
    have hlt : ts.length < n := hn
    obtain ⟨type, s, h₀, e₁, s', h₁, rfl, rfl⟩ := (reads_annotations_colon ht).mp h
    have hlt' : s.length < n := Nat.lt_trans h₀.shorter hlt
    obtain ⟨type, rfl, rfl, hs⟩ := arrowExpr_sound _ (Nat.le_refl _) h₀
    obtain ⟨more, rfl, rfl, hr⟩ := annotations_sound _ (Nat.le_refl _) hs h₁
    exact ⟨.cons ⟨t, ht⟩ type more, by simp only [TypesTree.yield, List.cons_append,
      List.append_assoc], rfl, hr⟩
termination_by 5 * n

theorem arrowExpr_sound (n : Nat) {ts e r} (hn : ts.length ≤ n)
    (h : Reads (arrowExpr eof ts) e r) :
    ∃ d : ArrowTree, ts = d.yield ++ r ∧ d.denote = e ∧ Stops continuesArrow r := by
  cases ts with
  | nil =>
    rw [arrowExpr.eq_def] at h
    exact (reads_error.mp h).elim
  | cons t ts =>
    have hlt : ts.length < n := hn
    by_cases h₁ : t.token = .forallSign
    · obtain ⟨bs, s, hbs, u, s', hu, body, s'', hbody, rfl, rfl⟩ := (reads_arrowExpr_forall h₁).mp h
      have hlt₁ : s.length < n := Nat.lt_of_le_of_lt (Nat.le_of_lt_succ hbs.shorter) hlt
      have hlt₂ : s'.length < n := Nat.lt_trans hu.shorter hlt₁
      obtain ⟨arrow, rfl⟩ := reads_piArrow.mp hu
      obtain ⟨body, rfl, rfl, hr⟩ := arrowExpr_sound _ (Nat.le_refl _) hbody
      rcases binders_sound _ (Nat.le_refl _) hbs with
        ⟨x, colon, domain, rfl, rfl⟩ | ⟨first, more, rfl, rfl⟩
      · exact ⟨.piName ⟨t, h₁⟩ x colon domain arrow body, by simp only [ArrowTree.yield,
          List.cons_append, List.append_assoc], rfl, hr⟩
      · exact ⟨.piGroups ⟨t, h₁⟩ first more arrow body, by simp only [ArrowTree.yield,
          List.cons_append, List.append_assoc], rfl, hr⟩
    · by_cases h₂ : t.token = .lambdaSign
      · obtain ⟨xs, s, hxs, body, s', hbody, rfl, rfl⟩ := (reads_arrowExpr_lambda h₂).mp h
        have hlt₁ : s.length < n := Nat.lt_trans hxs.shorter hlt
        obtain ⟨x, more, arrow, rfl, rfl⟩ := reads_params.mp hxs
        obtain ⟨body, rfl, rfl, hr⟩ := arrowExpr_sound _ (Nat.le_refl _) hbody
        exact ⟨.lam ⟨t, h₂⟩ x more arrow body, by simp only [ArrowTree.yield, List.cons_append,
          List.append_assoc], rfl, hr⟩
      · obtain ⟨d, s, hd, hs⟩ := (reads_arrowExpr_app h₁ h₂).mp h
        have hlt₁ : s.length < n := Nat.lt_of_lt_of_le hd.shorter hn
        obtain ⟨domain, heq, rfl, hstop⟩ := appExpr_sound n hn hd
        rcases hs with ⟨hs, rfl, rfl⟩ | ⟨arrow, s', rfl, c, s'', hc, rfl, rfl⟩
        · exact ⟨.app domain, heq, rfl, hstop.arrow hs⟩
        · have hlt₂ : s'.length < n := Nat.lt_of_succ_lt hlt₁
          obtain ⟨codomain, rfl, rfl, hr⟩ := arrowExpr_sound _ (Nat.le_refl _) hc
          exact ⟨.fn domain arrow codomain, by rw [heq]; simp only [ArrowTree.yield,
            List.cons_append, List.append_assoc], rfl, hr⟩
termination_by 5 * n + 3

theorem binders_sound (n : Nat) {ts bs r} (hn : ts.length ≤ n) (h : Reads (binders eof ts) bs r) :
    (∃ (x : Lex .name) (colon : Lex .colon) (d : AppTree),
      ts = x.1 :: colon.1 :: (d.yield ++ r) ∧ [(x.ident, d.denote)] = bs) ∨
    ∃ (first : GroupTree) (more : GroupsTree),
      ts = first.yield ++ (more.yield ++ r) ∧ first.binders ++ more.binders = bs := by
  cases ts with
  | nil =>
    rw [binders.eq_def] at h
    exact (reads_error.mp h).elim
  | cons t ts =>
    by_cases ht : t.token = .openParen
    · obtain ⟨gs, heq, rfl, hr⟩ := groups_sound n hn ((reads_binders_group ht).mp h)
      cases gs with
      | nil =>
        rw [← show t :: ts = r from heq, stops_cons, ht] at hr
        cases hr
      | cons first more =>
        exact .inr ⟨first, more, by rw [heq]; simp only [GroupsTree.yield, List.append_assoc], rfl⟩
    · obtain ⟨x, s, hx, c, s', hc, d, s'', hd, rfl, rfl⟩ := (reads_binders_name ht).mp h
      have hlt : s.length < n := Nat.lt_of_lt_of_le hx.shorter hn
      obtain ⟨x, heq, rfl⟩ := reads_name.mp hx
      obtain ⟨colon, rfl, rfl⟩ := reads_lex.mp hc
      have hlt' : s'.length < n := Nat.lt_of_succ_lt hlt
      obtain ⟨d, rfl, rfl, _⟩ := appExpr_sound _ (Nat.le_refl _) hd
      exact .inl ⟨x, colon, d, heq, rfl⟩
termination_by 5 * n + 3

theorem groups_sound (n : Nat) {ts bs r} (hn : ts.length ≤ n) (h : Reads (groups eof ts) bs r) :
    ∃ d : GroupsTree, ts = d.yield ++ r ∧ d.binders = bs ∧ Stops (· == .openParen) r := by
  by_cases hs : Stops (· == .openParen) ts
  · obtain ⟨rfl, rfl⟩ := (reads_groups_stop hs).mp h
    exact ⟨.nil, rfl, rfl, hs⟩
  · obtain ⟨t, ts, rfl, ht⟩ := exists_of_not_stops hs
    have ht : t.token = .openParen := by simpa using ht
    obtain ⟨xs, s₁, hxs, c, s₂, hc, d, s₃, hd, c', s₄, hc', bs', s₅, hbs, rfl, rfl⟩ :=
      (reads_groups_group ht).mp h
    have hlt₁ : s₁.length < n := Nat.lt_trans hxs.shorter hn
    have hlt₂ : s₂.length < n := Nat.lt_trans hc.shorter hlt₁
    have hlt₄ : s₄.length < n := Nat.lt_trans hc'.shorter (Nat.lt_trans hd.shorter hlt₂)
    obtain ⟨names, rfl, rfl, _⟩ := reads_names.mp hxs
    obtain ⟨colon, rfl, rfl⟩ := reads_lex.mp hc
    obtain ⟨right, rfl, rfl⟩ := reads_lex.mp hc'
    obtain ⟨domain, rfl, rfl, _⟩ := expr_sound _ (Nat.le_refl _) hd
    obtain ⟨more, rfl, rfl, hr⟩ := groups_sound _ (Nat.le_refl _) hbs
    exact ⟨.cons (.mk ⟨t, ht⟩ names colon domain right) more, by simp only [GroupsTree.yield,
      GroupTree.yield, List.cons_append, List.append_assoc, List.nil_append], rfl, hr⟩
termination_by 5 * n + 2

theorem appExpr_sound (n : Nat) {ts e r} (hn : ts.length ≤ n) (h : Reads (appExpr eof ts) e r) :
    ∃ d : AppTree, ts = d.yield ++ r ∧ d.denote = e ∧ Stops Token.startsAtom r := by
  obtain ⟨head, s, h₀, e₁, s', h₁, rfl, rfl⟩ := reads_appExpr.mp h
  have hlt : s.length < n := Nat.lt_of_lt_of_le h₀.shorter hn
  obtain ⟨head, rfl, rfl⟩ := atom_sound n hn h₀
  obtain ⟨args, rfl, rfl, hr⟩ := arguments_sound _ (Nat.le_refl _) h₁
  exact ⟨.mk head args, by simp only [AppTree.yield, List.append_assoc], rfl, hr⟩
termination_by 5 * n + 2

theorem arguments_sound (n : Nat) {ts head e r} (hn : ts.length ≤ n)
    (h : Reads (arguments eof head ts) e r) :
    ∃ d : ArgsTree, ts = d.yield ++ r ∧ d.apply head = e ∧ Stops Token.startsAtom r := by
  by_cases hs : Stops Token.startsAtom ts
  · obtain ⟨rfl, rfl⟩ := (reads_arguments_stop hs).mp h
    exact ⟨.nil, rfl, rfl, hs⟩
  · obtain ⟨t, ts, rfl, ht⟩ := exists_of_not_stops hs
    obtain ⟨arg, s, h₀, e₁, s', h₁, rfl, rfl⟩ := (reads_arguments_atom ht).mp h
    have hlt : s.length < n := Nat.lt_of_lt_of_le h₀.shorter hn
    obtain ⟨arg, heq, rfl⟩ := atom_sound n hn h₀
    obtain ⟨more, rfl, rfl, hr⟩ := arguments_sound _ (Nat.le_refl _) h₁
    exact ⟨.cons arg more, by rw [heq]; simp only [ArgsTree.yield, List.append_assoc], rfl, hr⟩
termination_by 5 * n + 2

theorem atom_sound (n : Nat) {ts e r} (hn : ts.length ≤ n) (h : Reads (atom eof ts) e r) :
    ∃ d : AtomTree, ts = d.yield ++ r ∧ d.denote = e := by
  obtain ⟨t, ts, rfl, ht | ht | ht | ht⟩ := startsAtom_of_reads_atom h
  · obtain ⟨e₀, s, h₀, c, s', hc, rfl, rfl⟩ := (reads_atom_paren ht).mp h
    have hlt : ts.length < n := hn
    obtain ⟨right, rfl, rfl⟩ := reads_lex.mp hc
    obtain ⟨expr, rfl, rfl, _⟩ := expr_sound _ (Nat.le_refl _) h₀
    exact ⟨.paren ⟨t, ht⟩ expr right, by simp only [AtomTree.yield, List.cons_append,
      List.append_assoc, List.nil_append], rfl⟩
  · obtain ⟨rfl, rfl⟩ := (reads_atom_name ht).mp h
    exact ⟨.name ⟨t, ht⟩, rfl, rfl⟩
  · obtain ⟨rfl, rfl⟩ := (reads_atom_star ht).mp h
    exact ⟨.star ⟨t, ht⟩, rfl, rfl⟩
  · obtain ⟨hle, rfl, rfl⟩ := (reads_atom_number ht).mp h
    exact ⟨.number ⟨t, ht, hle⟩, rfl, rfl⟩
termination_by 5 * n + 1

end

/-! ## Every derivation is read -/

-- The lexemes are given up to an equation: the bound in the type of an outcome depends on them.
mutual

theorem expr_complete : ∀ (d : ExprTree) {ts r : List Lexeme}, ts = d.yield ++ r →
    Stops continuesExpr r → Reads (expr eof ts) d.denote r
  | .mk first types, ts, r, hts, hr => by
    rw [ExprTree.yield, List.append_assoc] at hts
    exact reads_expr.mpr ⟨_, _, arrowExpr_complete first hts (TypesTree.stops hr.arrow_of_expr),
      _, _, annotations_complete types _ rfl hr, rfl, rfl⟩

theorem annotations_complete : ∀ (d : TypesTree) (e : Expr) {ts r : List Lexeme},
    ts = d.yield ++ r → Stops continuesExpr r → Reads (annotations eof e ts) (d.annotate e) r
  | .nil, e, ts, r, hts, hr => by
    subst hts
    exact (reads_annotations_stop hr.colon_of_expr).mpr ⟨rfl, rfl⟩
  | .cons colon type more, e, ts, r, hts, hr => by
    simp only [TypesTree.yield, List.cons_append, List.append_assoc] at hts
    subst hts
    exact (reads_annotations_colon colon.2).mpr
      ⟨_, _, arrowExpr_complete type rfl (TypesTree.stops hr.arrow_of_expr),
        _, _, annotations_complete more _ rfl hr, rfl, rfl⟩

theorem arrowExpr_complete : ∀ (d : ArrowTree) {ts r : List Lexeme}, ts = d.yield ++ r →
    Stops continuesArrow r → Reads (arrowExpr eof ts) d.denote r
  | .piName sign name colon domain arrow body, ts, r, hts, hr => by
    simp only [ArrowTree.yield, List.cons_append, List.append_assoc] at hts
    subst hts
    have hname : name.1.token ≠ .openParen := by rw [name.2]; nofun
    have hbinders := (reads_binders_name hname).mpr ⟨_, _, reads_name.mpr ⟨name, rfl, rfl⟩,
      _, _, reads_lex.mpr ⟨colon, rfl, rfl⟩,
      _, _, appExpr_complete domain rfl (arrow.stops rfl rfl rfl (body.yield ++ r)), rfl, rfl⟩
    exact (reads_arrowExpr_forall sign.2).mpr ⟨_, _, hbinders,
      (), _, reads_piArrow.mpr ⟨arrow, rfl⟩, _, _, arrowExpr_complete body rfl hr, rfl, rfl⟩
  | .piGroups sign first more arrow body, ts, r, hts, hr => by
    obtain ⟨left, s, hleft⟩ := first.yield_eq
    simp only [ArrowTree.yield, hleft, List.cons_append, List.append_assoc] at hts
    subst hts
    have hmore := groups_complete more rfl (arrow.stops rfl rfl rfl (body.yield ++ r))
    have hgroups := group_complete first (by rw [hleft]) hmore
    exact (reads_arrowExpr_forall sign.2).mpr ⟨_, _, (reads_binders_group left.2).mpr hgroups,
      (), _, reads_piArrow.mpr ⟨arrow, rfl⟩, _, _, arrowExpr_complete body rfl hr, rfl, rfl⟩
  | .lam sign first more arrow body, ts, r, hts, hr => by
    simp only [ArrowTree.yield, List.cons_append, List.append_assoc] at hts
    subst hts
    exact (reads_arrowExpr_lambda sign.2).mpr
      ⟨_, _, reads_params.mpr ⟨first, more, arrow, rfl, rfl⟩,
        _, _, arrowExpr_complete body rfl hr, rfl, rfl⟩
  | .fn domain arrow codomain, ts, r, hts, hr => by
    obtain ⟨l, s, hl, hatom⟩ := domain.yield_eq
    simp only [ArrowTree.yield, hl, List.cons_append, List.append_assoc] at hts
    subst hts
    have hdomain := appExpr_complete domain (by rw [hl]) (arrow.stops rfl (codomain.yield ++ r))
    exact (reads_arrowExpr_app (ne_sign hatom rfl) (ne_sign hatom rfl)).mpr ⟨_, _, hdomain,
      .inr ⟨arrow, _, rfl, _, _, arrowExpr_complete codomain rfl hr, rfl, rfl⟩⟩
  | .app tree, ts, r, hts, hr => by
    obtain ⟨l, s, hl, hatom⟩ := tree.yield_eq
    simp only [ArrowTree.yield, hl, List.cons_append] at hts
    subst hts
    have htree := appExpr_complete tree (by rw [hl]) hr.atom_of_arrow
    exact (reads_arrowExpr_app (ne_sign hatom rfl) (ne_sign hatom rfl)).mpr ⟨_, _, htree,
      .inl ⟨hr.sign_of_arrow, rfl, rfl⟩⟩

theorem group_complete : ∀ (d : GroupTree) {ts s r : List Lexeme} {bs : List (Ident × Expr)},
    ts = d.yield ++ s → Reads (groups eof s) bs r → Reads (groups eof ts) (d.binders ++ bs) r
  | .mk left names colon domain right, ts, s, r, bs, hts, h => by
    simp only [GroupTree.yield, List.cons_append, List.append_assoc, List.nil_append] at hts
    subst hts
    exact (reads_groups_group left.2).mpr
      ⟨_, _, reads_names.mpr ⟨names, rfl, rfl, colon.stops rfl _⟩,
      _, _, reads_lex.mpr ⟨colon, rfl, rfl⟩, _, _, expr_complete domain rfl (right.stops rfl _),
      _, _, reads_lex.mpr ⟨right, rfl, rfl⟩, _, _, h, rfl, rfl⟩

theorem groups_complete : ∀ (d : GroupsTree) {ts r : List Lexeme}, ts = d.yield ++ r →
    Stops (· == .openParen) r → Reads (groups eof ts) d.binders r
  | .nil, ts, r, hts, hr => by
    subst hts
    exact (reads_groups_stop hr).mpr ⟨rfl, rfl⟩
  | .cons group more, ts, r, hts, hr => by
    rw [GroupsTree.yield, List.append_assoc] at hts
    exact group_complete group hts (groups_complete more rfl hr)

theorem appExpr_complete : ∀ (d : AppTree) {ts r : List Lexeme}, ts = d.yield ++ r →
    Stops Token.startsAtom r → Reads (appExpr eof ts) d.denote r
  | .mk head args, ts, r, hts, hr => by
    rw [AppTree.yield, List.append_assoc] at hts
    exact reads_appExpr.mpr ⟨_, _, atom_complete head hts,
      _, _, arguments_complete args _ rfl hr, rfl, rfl⟩

theorem arguments_complete : ∀ (d : ArgsTree) (head : Expr) {ts r : List Lexeme},
    ts = d.yield ++ r → Stops Token.startsAtom r → Reads (arguments eof head ts) (d.apply head) r
  | .nil, head, ts, r, hts, hr => by
    subst hts
    exact (reads_arguments_stop hr).mpr ⟨rfl, rfl⟩
  | .cons arg more, head, ts, r, hts, hr => by
    obtain ⟨l, s, hl, hatom⟩ := arg.yield_eq
    simp only [ArgsTree.yield, hl, List.cons_append, List.append_assoc] at hts
    subst hts
    have harg := atom_complete arg (r := more.yield ++ r) (by rw [hl])
    exact (reads_arguments_atom hatom).mpr ⟨_, _, harg,
      _, _, arguments_complete more _ rfl hr, rfl, rfl⟩

theorem atom_complete : ∀ (d : AtomTree) {ts r : List Lexeme}, ts = d.yield ++ r →
    Reads (atom eof ts) d.denote r
  | .paren left expr right, ts, r, hts => by
    simp only [AtomTree.yield, List.cons_append, List.append_assoc, List.nil_append] at hts
    subst hts
    exact (reads_atom_paren left.2).mpr ⟨_, _, expr_complete expr rfl (right.stops rfl _),
      _, _, reads_lex.mpr ⟨right, rfl, rfl⟩, rfl, rfl⟩
  | .name name, ts, r, hts => by
    subst hts
    exact (reads_atom_name name.2).mpr ⟨rfl, rfl⟩
  | .star star, ts, r, hts => by
    subst hts
    exact (reads_atom_star star.2).mpr ⟨rfl, rfl⟩
  | .number number, ts, r, hts => by
    subst hts
    exact (reads_atom_number number.2.1).mpr ⟨number.2.2, rfl, rfl⟩

end

/-! ## Declarations and whole sources -/

theorem reads_expr_iff {e r} : Reads (expr eof ts) e r ↔
    ∃ d : ExprTree, ts = d.yield ++ r ∧ d.denote = e ∧ Stops continuesExpr r := by
  constructor
  · exact expr_sound _ (Nat.le_refl _)
  · rintro ⟨d, hts, rfl, hr⟩
    exact expr_complete d hts hr

theorem reads_decl_postulate {t : Lexeme} (ht : t.token = .axiomWord) {c r} :
    Reads (decl eof (t :: ts)) c r ↔ ∃ xs s₁, Reads (names eof ts) xs s₁ ∧
      ∃ l s₂, Reads (expect eof .colon s₁) l s₂ ∧ ∃ e s₃, Reads (expr eof s₂) e s₃ ∧
        .postulate (t.range.merge e.range) xs e = c ∧ s₃ = r := by
  simp only [decl, ht, reads_bind, reads_pure, reads_and]

theorem reads_decl_define {t : Lexeme} (ht : t.token = .defunWord) {c r} :
    Reads (decl eof (t :: ts)) c r ↔ ∃ x s₁, Reads (name eof ts) x s₁ ∧
      ∃ l s₂, Reads (expect eof .equals s₁) l s₂ ∧ ∃ e s₃, Reads (expr eof s₂) e s₃ ∧
        .define (t.range.merge e.range) x e = c ∧ s₃ = r := by
  simp only [decl, ht, reads_bind, reads_pure, reads_and]

theorem reads_decl_check {t : Lexeme} (ht : t.token = .checkWord) {c r} :
    Reads (decl eof (t :: ts)) c r ↔ ∃ e s, Reads (expr eof ts) e s ∧
      .check (t.range.merge e.range) e = c ∧ s = r := by
  simp only [decl, ht, reads_bind, reads_pure, reads_and]

theorem startsDecl_of_reads_decl {c r} (h : Reads (decl eof ts) c r) :
    ∃ t ts', ts = t :: ts' ∧ (t.token = .axiomWord ∨ t.token = .defunWord ∨ t.token = .checkWord) := by
  rw [decl.eq_def] at h
  cases ts with
  | nil => exact (reads_error.mp h).elim
  | cons t ts =>
    refine ⟨t, ts, rfl, ?_⟩
    cases ht : t.token with
    | axiomWord => exact .inl rfl
    | defunWord => exact .inr (.inl rfl)
    | checkWord => exact .inr (.inr rfl)
    | _ => simp only [ht, reads_error] at h

theorem reads_decl {c r} : Reads (decl eof ts) c r ↔
    ∃ d : DeclTree, ts = d.yield ++ r ∧ d.denote = c ∧ Stops continuesExpr r := by
  constructor
  · intro h
    obtain ⟨t, ts, rfl, ht | ht | ht⟩ := startsDecl_of_reads_decl h
    · obtain ⟨_, _, hxs, _, _, hl, _, _, he, rfl, rfl⟩ := (reads_decl_postulate ht).mp h
      obtain ⟨ns, rfl, rfl, _⟩ := reads_names.mp hxs
      obtain ⟨l, rfl, rfl⟩ := reads_lex.mp hl
      obtain ⟨d, rfl, rfl, hr⟩ := reads_expr_iff.mp he
      exact ⟨.postulate ⟨t, ht⟩ ns l d, by simp [DeclTree.yield], rfl, hr⟩
    · obtain ⟨_, _, hx, _, _, hl, _, _, he, rfl, rfl⟩ := (reads_decl_define ht).mp h
      obtain ⟨x, rfl, rfl⟩ := reads_name.mp hx
      obtain ⟨l, rfl, rfl⟩ := reads_lex.mp hl
      obtain ⟨d, rfl, rfl, hr⟩ := reads_expr_iff.mp he
      exact ⟨.define ⟨t, ht⟩ x l d, by simp [DeclTree.yield], rfl, hr⟩
    · obtain ⟨_, _, he, rfl, rfl⟩ := (reads_decl_check ht).mp h
      obtain ⟨d, rfl, rfl, hr⟩ := reads_expr_iff.mp he
      exact ⟨.check ⟨t, ht⟩ d, by simp [DeclTree.yield], rfl, hr⟩
  · rintro ⟨d, hts, rfl, hr⟩
    cases d with
    | postulate word ns colon type =>
      simp only [DeclTree.yield, List.cons_append, List.append_assoc] at hts
      subst hts
      exact (reads_decl_postulate word.2).mpr ⟨_, _, reads_names.mpr ⟨ns, rfl, rfl, colon.stops rfl _⟩,
        _, _, reads_lex.mpr ⟨colon, rfl, rfl⟩, _, _, expr_complete type rfl hr, rfl, rfl⟩
    | define word x equals e =>
      subst hts
      exact (reads_decl_define word.2).mpr ⟨_, _, reads_name.mpr ⟨x, rfl, rfl⟩,
        _, _, reads_lex.mpr ⟨equals, rfl, rfl⟩, _, _, expr_complete e rfl hr, rfl, rfl⟩
    | check word e =>
      subst hts
      exact (reads_decl_check word.2).mpr ⟨_, _, expr_complete e rfl hr, rfl, rfl⟩

theorem bind_eq_ok {α β : Type} {n : Nat} {x : Outcome α n} {f : Result α n → Except SyntaxError β}
    {b : β} : x >>= f = .ok b ↔ ∃ a s h, x = .ok ⟨a, s, h⟩ ∧ f ⟨a, s, h⟩ = .ok b := by
  cases x with
  | error e => simp [bind, Except.bind]
  | ok a =>
    constructor
    · intro h
      exact ⟨a.value, a.rest, a.shorter, rfl, h⟩
    · rintro ⟨_, _, _, h, hf⟩
      cases h
      exact hf

theorem program_cons {t : Lexeme} {cs : List Decl} : program eof (t :: ts) = .ok cs ↔
    ∃ c s, Reads (decl eof (t :: ts)) c s ∧ ∃ cs', program eof s = .ok cs' ∧ c :: cs' = cs := by
  rw [program, bind_eq_ok]
  simp only [Reads]
  constructor
  · rintro ⟨c, s, h, hc, hcs⟩
    cases hp : program eof s with
    | error e => simp [hp, bind, Except.bind] at hcs
    | ok cs' =>
      simp only [hp, bind, Except.bind, pure, Except.pure, Except.ok.injEq] at hcs
      exact ⟨c, s, ⟨h, hc⟩, cs', hp, hcs⟩
  · rintro ⟨c, s, ⟨h, hc⟩, cs', hp, rfl⟩
    refine ⟨c, s, h, hc, ?_⟩
    simp only [hp, bind, Except.bind, pure, Except.pure]

theorem program_eq_ok {cs : List Decl} : program eof ts = .ok cs ↔
    ∃ p : List DeclTree, programYield p = ts ∧ p.map DeclTree.denote = cs := by
  constructor
  · intro h
    induction hn : ts.length using Nat.strongRecOn generalizing ts cs with
    | _ n ih =>
      subst hn
      cases ts with
      | nil =>
        rw [program] at h
        cases h
        exact ⟨[], rfl, rfl⟩
      | cons t ts =>
        obtain ⟨c, s, hc, cs, hcs, rfl⟩ := program_cons.mp h
        have hlt := hc.shorter
        obtain ⟨d, hd, rfl, _⟩ := reads_decl.mp hc
        obtain ⟨p, rfl, rfl⟩ := ih _ hlt hcs rfl
        exact ⟨d :: p, hd.symm, rfl⟩
  · rintro ⟨p, rfl, rfl⟩
    induction p with
    | nil =>
      show program eof [] = _
      rw [program]
      rfl
    | cons d p ih =>
      have hd : Reads (decl eof (d.yield ++ programYield p)) d.denote (programYield p) :=
        reads_decl.mpr ⟨d, rfl, rfl, programYield_stops p⟩
      obtain ⟨l, r, hl, _⟩ := d.yield_eq
      have hts : programYield (d :: p) = l :: (r ++ programYield p) := by
        rw [programYield, List.flatMap_cons, hl]; rfl
      rw [hl] at hd
      rw [hts]
      exact program_cons.mpr ⟨_, _, hd, _, ih, rfl⟩

theorem term_eq_ok {e : Expr} : term eof ts = .ok e ↔
    ∃ d : ExprTree, d.yield = ts ∧ d.denote = e := by
  rw [term, bind_eq_ok]
  constructor
  · rintro ⟨e', s, h, he, hs⟩
    cases s with
    | nil =>
      cases hs
      obtain ⟨d, rfl, rfl, _⟩ := reads_expr_iff.mp ⟨h, he⟩
      exact ⟨d, (List.append_nil _).symm, rfl⟩
    | cons t s => cases hs
  · rintro ⟨d, rfl, rfl⟩
    have hd : Reads (expr eof d.yield) d.denote [] :=
      expr_complete d (List.append_nil _).symm stops_nil
    obtain ⟨h, he⟩ := hd
    exact ⟨_, _, h, he, rfl⟩

end TypeInType.Read

namespace TypeInType

open Grammar

/-- A source is read just when the grammar derives its lexemes; there is one derivation, and what is
read is what it denotes. -/
theorem reads_exactly_derivable {source : String} {ts : List Lexeme} (h : lexSource source = .ok ts) :
    (∀ e, readTerm source = .ok e ↔ ∃ d : ExprTree, d.yield = ts ∧ d.denote = e) ∧
    (∀ d d' : ExprTree, d.yield = ts → d'.yield = ts → d = d') ∧
    (∀ cs, readProgram source = .ok cs ↔
      ∃ p : List DeclTree, programYield p = ts ∧ p.map DeclTree.denote = cs) ∧
    (∀ p p' : List DeclTree, programYield p = ts → programYield p' = ts → p = p') := by
  refine ⟨fun e => ?_, fun d d' hd hd' => ?_, fun cs => ?_, fun p p' hp hp' => ?_⟩
  · rw [readTerm, readSource_of_lexSource h, Run.ofExcept_eq_ok]
    exact Read.term_eq_ok
  · have := ExprTree.unique stops_nil stops_nil
      (congrArg (· ++ []) (hd.trans hd'.symm))
    exact this.1
  · rw [readProgram, readSource_of_lexSource h, Run.ofExcept_eq_ok]
    exact Read.program_eq_ok
  · exact programYield_injective (hp.trans hp'.symm)

/-- The lexeme with the given text and place. -/
def Grammar.Lex.at (k : Token) (text : String) (start : Nat) : Lex k :=
  ⟨⟨k, text, start⟩, rfl⟩

def firstOfTwo : ExprTree :=
  .mk (.lam (.at .lambdaSign "λ" 0) (.at .name "x" 2) [.at .name "y" 4] ⟨⟨.dot, ".", 5⟩, .inr rfl⟩
      (.app (.mk (.name (.at .name "x" 7)) .nil)))
    (.cons (.at .colon ":" 9)
      (.piGroups (.at .forallSign "∀" 11)
        (.mk (.at .openParen "(" 15)
          ⟨.at .name "A" 16, [(.at .comma "," 17, .at .name "B" 19)]⟩ (.at .colon ":" 21)
          (.mk (.app (.mk (.star (.at .star "*" 23)) .nil)) .nil) (.at .closeParen ")" 24))
        .nil ⟨⟨.comma, ",", 25⟩, .inr (.inr rfl)⟩
        (.fn (.mk (.name (.at .name "A" 27)) .nil) (.at .arrow "->" 29)
          (.app (.mk (.name (.at .name "B" 32)) .nil))))
      .nil)

theorem readTerm_firstOfTwo : lexSource "λx y. x : ∀ (A, B : *), A -> B" = .ok firstOfTwo.yield ∧
    readTerm "λx y. x : ∀ (A, B : *), A -> B" = .ok firstOfTwo.denote := by
  have hscan : scan "λx y. x : ∀ (A, B : *), A -> B" = firstOfTwo.yield.map .lexeme := by
    decide +kernel
  have hlex : lexSource "λx y. x : ∀ (A, B : *), A -> B" = .ok firstOfTwo.yield := by
    rw [lexSource_of_countable (by decide +kernel), hscan]
    rfl
  exact ⟨hlex, ((reads_exactly_derivable hlex).1 _).mpr ⟨firstOfTwo, rfl, rfl⟩⟩

end TypeInType
