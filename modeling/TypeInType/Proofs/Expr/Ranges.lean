import Mathlib.Data.List.Induction
import TypeInType.Proofs.Expr.Viability
import TypeInType.Proofs.Token.Tokenisation

/-!
# Ranges of what is read

The ranges of an expression or a declaration that is read go from the start of a token to the end of a token,
and the range of a node contains those of its parts. Where a name or a number is said to stand, its text is
found in the source. An error is at a token or at the end of the source.
-/

namespace TypeInType

/-! ## Ranges of a source -/

def ScanItem.lexeme? : ScanItem → Option Lexeme
  | lexeme l => some l
  | stray _ => none

/-- The tokens of a source, without the stray characters. -/
def tokens (source : String) : List Lexeme :=
  (scan source).filterMap ScanItem.lexeme?

namespace Range

/-- The range is not empty. It starts with one of the lexemes and stops with one of them. -/
structure Spans (ts : List Lexeme) (r : Range) : Prop where
  nonempty : r.start < r.stop
  first : ∃ l ∈ ts, r.start = l.range.start
  last : ∃ l ∈ ts, r.stop = l.range.stop

/-- The text is what the source has at the range, which does not cut a character in two. -/
def Slices (source : String) (r : Range) (text : List Char) : Prop :=
  ∃ before after, r.Cuts source.toList before text after

/-- The range goes from the start of a token to the end of a token. -/
structure Delimited (source : String) (r : Range) : Prop where
  spans : r.Spans (tokens source)
  slices : ∃ text, r.Slices source text

/-- The range lies in the other one. -/
def Within (r r' : Range) : Prop :=
  r'.start ≤ r.start ∧ r.stop ≤ r'.stop

end Range

/-- The text is the number in decimal digits, perhaps with zeros before it. -/
def IsNumeral (n : Nat) (text : List Char) : Prop :=
  ∃ zeros, text = List.replicate zeros '0' ++ Nat.toDigits 10 n

/-- The name stands in the source where it is bound. -/
def Ident.Faithful (source : String) (x : Ident) : Prop :=
  x.range.Delimited source ∧ x.range.Slices source x.name.toList

/-- The ranges of the expression are right: each contains those of the parts and of the bound name, and the
text of a leaf stands there. -/
def Expr.Faithful (source : String) : Expr → Prop
  | .ann r e t => r.Delimited source ∧ (e.range.Within r ∧ e.Faithful source) ∧
      t.range.Within r ∧ t.Faithful source
  | .star r => r.Delimited source
  | .pi r x d c => r.Delimited source ∧ (∀ y ∈ x, y.range.Within r ∧ y.Faithful source) ∧
      (d.range.Within r ∧ d.Faithful source) ∧ c.range.Within r ∧ c.Faithful source
  | .var r x => r.Delimited source ∧ r.Slices source x.toList
  | .app r h a => r.Delimited source ∧ (h.range.Within r ∧ h.Faithful source) ∧
      a.range.Within r ∧ a.Faithful source
  | .lam r x b => r.Delimited source ∧ (x.range.Within r ∧ x.Faithful source) ∧
      b.range.Within r ∧ b.Faithful source
  | .number r n => r.Delimited source ∧ ∃ text, r.Slices source text ∧ IsNumeral n text

/-- The ranges of the declaration are right. -/
def Decl.Faithful (source : String) : Decl → Prop
  | .postulate r xs t => r.Delimited source ∧ (∀ x ∈ xs, x.range.Within r ∧ x.Faithful source) ∧
      t.range.Within r ∧ t.Faithful source
  | .define r x e => r.Delimited source ∧ (x.range.Within r ∧ x.Faithful source) ∧
      e.range.Within r ∧ e.Faithful source
  | .check r e => r.Delimited source ∧ e.range.Within r ∧ e.Faithful source
  | .expr e => e.Faithful source

/-- The error is at a token or at the end of the source, and shows the text that stands there. A stray
character is a token by itself. -/
def SyntaxError.Located (source : String) : SyntaxError → Prop
  | .unexpectedCharacter r => .stray r ∈ scan source
  | .unexpectedToken r found _ => (∃ l ∈ tokens source, r = l.range) ∧ r.Slices source found.toList
  | .unexpectedEnd r _ => r = ⟨byteLength source.toList, byteLength source.toList⟩
  | .numberTooLarge r => ∃ l ∈ tokens source, r = l.range

/-! ## Tokens of a source -/

theorem mem_tokens {source : String} {l : Lexeme} : l ∈ tokens source ↔ .lexeme l ∈ scan source := by
  rw [tokens, List.mem_filterMap]
  constructor
  · rintro ⟨i, hi, hl⟩
    cases i with
    | lexeme l' =>
      cases hl
      exact hi
    | stray r => cases hl
  · exact fun h => ⟨_, h, rfl⟩

theorem tokens_eq {source : String} {ts : List Lexeme} (h : lexSource source = .ok ts) :
    tokens source = ts := by
  rw [tokens, (lexSource_eq_ok_iff.mp h).2, List.filterMap_map]
  exact List.filterMap_some

theorem ordered_tokens (source : String) :
    (tokens source).Pairwise fun l l' => l.range.stop ≤ l'.range.start := by
  refine List.Pairwise.filterMap _ (fun i j hij l hl l' hl' => ?_) (tokenises_place source.toList 0).ordered.2
  cases i with
  | stray r => cases hl
  | lexeme i =>
    cases j with
    | stray r => cases hl'
    | lexeme j =>
      cases hl
      cases hl'
      exact hij

/-- A token stands in the source at its range, and has the spelling of its kind. -/
theorem exists_cuts {source : String} {l : Lexeme} (h : l ∈ tokens source) : ∃ before after,
    l.range.Cuts source.toList before l.text.toList after ∧ (Rule.token l.token).Matches l.text.toList := by
  obtain ⟨before, text, after, hcuts, rfl, hlongest⟩ :=
    (tokenises_place source.toList 0).fits [] rfl _ (mem_tokens.mp h)
  exact ⟨before, after, hcuts, hlongest.matches_front⟩

theorem slices_token {source : String} {l : Lexeme} (h : l ∈ tokens source) :
    l.range.Slices source l.text.toList := by
  obtain ⟨before, after, hcuts, _⟩ := exists_cuts h
  exact ⟨before, after, hcuts⟩

/-! ## Numerals -/

theorem decimalValue_concat (ds : List Char) (c : Char) :
    decimalValue (ds ++ [c]) = 10 * decimalValue ds + (c.toNat - '0'.toNat) := by
  simp [decimalValue]

theorem toDigits_digit {c : Char} (h : c.isDigit = true) :
    c.toNat - '0'.toNat < 10 ∧ Nat.toDigits 10 (c.toNat - '0'.toNat) = [c] := by
  obtain ⟨hlow, hhigh⟩ := Char.isDigit_iff_toNat.mp h
  have hzero : '0'.toNat = 48 := rfl
  have hnine : '9'.toNat = 57 := rfl
  have hlt : c.toNat - '0'.toNat < 10 := by omega
  refine ⟨hlt, ?_⟩
  rw [Nat.toDigits_of_lt_base hlt]
  congr 1
  apply Char.toNat_inj.mp
  rw [Nat.toNat_digitChar_of_lt_ten hlt]
  omega

theorem IsNumeral.concat {n : Nat} {ds : List Char} {c : Char} (h : IsNumeral n ds)
    (hc : c.isDigit = true) : IsNumeral (10 * n + (c.toNat - '0'.toNat)) (ds ++ [c]) := by
  obtain ⟨zeros, rfl⟩ := h
  obtain ⟨hlt, hdigit⟩ := toDigits_digit hc
  by_cases hn : n = 0
  · -- The digits so far are all zeros.
    subst hn
    refine ⟨zeros + 1, ?_⟩
    rw [Nat.mul_zero, Nat.zero_add, hdigit, List.replicate_succ']
    rfl
  · refine ⟨zeros, ?_⟩
    rw [← Nat.toDigits_append_toDigits (by decide) (Nat.pos_of_ne_zero hn) hlt, hdigit,
      List.append_assoc]

theorem isNumeral_decimalValue {c : Char} (hc : c.isDigit = true) {w : List Char}
    (hw : ∀ d ∈ w, d.isDigit = true) : IsNumeral (decimalValue (c :: w)) (c :: w) := by
  induction w using List.reverseRecOn with
  | nil =>
    refine ⟨0, ?_⟩
    show [c] = Nat.toDigits 10 (10 * 0 + (c.toNat - '0'.toNat))
    rw [Nat.mul_zero, Nat.zero_add, (toDigits_digit hc).2]
  | append_singleton w d ih =>
    rw [List.forall_mem_append] at hw
    rw [← List.cons_append, decimalValue_concat]
    exact (ih hw.1).concat (hw.2 d List.mem_cons_self)

theorem isNumeral_token {source : String} {l : Lexeme} (h : l ∈ tokens source)
    (hl : l.token = .number) : IsNumeral (decimalValue l.text.toList) l.text.toList := by
  obtain ⟨_, _, _, hmatches⟩ := exists_cuts h
  rw [hl] at hmatches
  generalize l.text.toList = text at hmatches
  cases hmatches with
  | number hc hw => exact isNumeral_decimalValue hc hw
  | literal hmem =>
    have hliterals : ∀ p ∈ literals, p.1 ≠ .number := by decide
    exact absurd rfl (hliterals _ hmem)

/-! ## Merging ranges -/

namespace Range

variable {source : String} {ts : List Lexeme} {r r' : Range}

theorem within_merge_left : r.Within (r.merge r') :=
  ⟨Nat.min_le_left _ _, Nat.le_max_left _ _⟩

theorem within_merge_right : r'.Within (r.merge r') :=
  ⟨Nat.min_le_right _ _, Nat.le_max_right _ _⟩

theorem within_refl : r.Within r :=
  ⟨Nat.le_refl _, Nat.le_refl _⟩

theorem Spans.mono {us : List Lexeme} (h : r.Spans ts) (hsub : ts ⊆ us) : r.Spans us := by
  obtain ⟨hlt, ⟨l, hl, hstart⟩, l', hl', hstop⟩ := h
  exact ⟨hlt, ⟨l, hsub hl, hstart⟩, l', hsub hl', hstop⟩

theorem Spans.merge (h : r.Spans ts) (h' : r'.Spans ts) : (r.merge r').Spans ts where
  nonempty := by
    have hlt := h.nonempty
    have hstart := (@within_merge_left r r').1
    have hstop := (@within_merge_left r r').2
    omega
  first := by
    rcases Nat.le_total r.start r'.start with hle | hle
    · rw [Range.merge, Nat.min_eq_left hle]
      exact h.first
    · rw [Range.merge, Nat.min_eq_right hle]
      exact h'.first
  last := by
    rcases Nat.le_total r.stop r'.stop with hle | hle
    · rw [Range.merge, Nat.max_eq_right hle]
      exact h'.last
    · rw [Range.merge, Nat.max_eq_left hle]
      exact h.last

theorem spans_token {l : Lexeme} (hl : l ∈ ts) (hts : ts ⊆ tokens source) : l.range.Spans ts where
  nonempty := by
    obtain ⟨before, after, hcuts, hmatches⟩ := exists_cuts (hts hl)
    rw [hcuts.start, hcuts.stop]
    exact Nat.lt_add_of_pos_right (byteLength_pos hmatches.ne_nil)
  first := ⟨l, hl, rfl⟩
  last := ⟨l, hl, rfl⟩

/-- Of two places in a text, the text before the earlier one begins the text before the later one. -/
theorem exists_append_of_byteLength_le {before before' after after' : List Char}
    (h : before ++ after = before' ++ after') (hle : byteLength before ≤ byteLength before') :
    ∃ text, before' = before ++ text := by
  rcases List.append_eq_append_iff.mp h with ⟨text, hbefore, _⟩ | ⟨text, hbefore, _⟩
  · exact ⟨text, hbefore⟩
  · have hle' : byteLength before' ≤ byteLength before := by
      rw [hbefore, byteLength_append]
      exact Nat.le_add_right _ _
    obtain ⟨rfl, _⟩ := eq_of_byteLength_eq h (Nat.le_antisymm hle hle')
    exact ⟨[], (List.append_nil _).symm⟩

theorem Spans.delimited (h : r.Spans ts) (hts : ts ⊆ tokens source) : r.Delimited source where
  spans := h.mono hts
  slices := by
    obtain ⟨hlt, ⟨l, hl, hstart⟩, l', hl', hstop⟩ := h.mono hts
    obtain ⟨before, after, hcuts, _⟩ := exists_cuts hl
    obtain ⟨before', after', hcuts', _⟩ := exists_cuts hl'
    have hlast : r.stop = byteLength (before' ++ l'.text.toList) := by
      rw [hstop, hcuts'.stop, byteLength_append]
    have hsource : before ++ (l.text.toList ++ after) = before' ++ l'.text.toList ++ after' := by
      rw [hcuts.eq, List.append_assoc, hcuts'.eq]
    have hle : byteLength before ≤ byteLength (before' ++ l'.text.toList) := by
      rw [← hcuts.start, ← hstart, ← hlast]
      exact Nat.le_of_lt hlt
    obtain ⟨text, htext⟩ := exists_append_of_byteLength_le hsource hle
    refine ⟨text, before, after', ?_, hstart.trans hcuts.start, ?_⟩
    · rw [← List.append_assoc, ← htext, List.append_assoc, hcuts'.eq]
    · rw [hlast, htext, byteLength_append]

section Sign

variable {l : Lexeme} {us : List Lexeme} (hl : (l :: (ts ++ us)).Sublist (tokens source))

include hl

/-- What goes from a sign to the end of a phrase. -/
theorem Spans.sign (h : r.Spans us) : (l.range.merge r).Spans (l :: (ts ++ us)) := by
  have hus : us ⊆ l :: (ts ++ us) := List.subset_cons_of_subset l (List.subset_append_right ts us)
  exact (spans_token List.mem_cons_self hl.subset).merge (h.mono hus)

/-- What stands between a sign and the end of a phrase. -/
theorem Spans.within (h : r.Spans ts) (h' : r'.Spans us) : r.Within (l.range.merge r') := by
  have hordered := (ordered_tokens source).sublist hl
  rw [List.pairwise_cons, List.pairwise_append] at hordered
  obtain ⟨hfirst, _, _, hbefore⟩ := hordered
  obtain ⟨a, ha, hstart⟩ := h.first
  obtain ⟨b, hb, hstop⟩ := h.last
  obtain ⟨c, hc, hstop'⟩ := h'.last
  constructor
  · calc (l.range.merge r').start
      _ ≤ l.range.start := Nat.min_le_left _ _
      _ ≤ l.range.stop := Nat.le_add_right _ _
      _ ≤ a.range.start := hfirst a (List.mem_append_left _ ha)
      _ = r.start := hstart.symm
  · calc r.stop
      _ = b.range.stop := hstop
      _ ≤ c.range.start := hbefore b hb c hc
      _ ≤ c.range.stop := Nat.le_add_right _ _
      _ = r'.stop := hstop'.symm
      _ ≤ (l.range.merge r').stop := Nat.le_max_right _ _

end Sign

end Range

/-! ## Expressions that are read -/

/-- The name is one of the lexemes, and it stands in the source. -/
def Ident.Drawn (source : String) (ts : List Lexeme) (x : Ident) : Prop :=
  x.range.Spans ts ∧ x.Faithful source

/-- The expression is made from some of the lexemes, and its ranges are right. -/
def Expr.Drawn (source : String) (ts : List Lexeme) (e : Expr) : Prop :=
  e.range.Spans ts ∧ e.Faithful source

section Drawn

variable {source : String} {ts us : List Lexeme} {l : Lexeme}

theorem Grammar.Lex.drawn (l : Grammar.Lex .name) (hl : l.1 ∈ ts) (hts : ts ⊆ tokens source) :
    l.ident.Drawn source ts := by
  have hspans : l.1.range.Spans ts := Range.spans_token hl hts
  exact ⟨hspans, hspans.delimited hts, slices_token (hts hl)⟩

theorem Grammar.Names.drawn (ns : Grammar.Names) (hns : ns.yield ⊆ ts) (hts : ts ⊆ tokens source) :
    ∀ x ∈ ns.idents, x.Drawn source ts := by
  intro x hx
  rcases List.mem_cons.mp hx with rfl | hx
  · exact ns.first.drawn (hns List.mem_cons_self) hts
  · obtain ⟨n, hn, rfl⟩ := List.mem_map.mp hx
    have hmem : n.2.1 ∈ ns.more.flatMap fun n => [n.1.1, n.2.1] :=
      List.mem_flatMap.mpr ⟨n, hn, List.mem_cons_of_mem _ List.mem_cons_self⟩
    exact n.2.drawn (hns (List.mem_cons_of_mem _ hmem)) hts

namespace Expr

theorem Drawn.mono {e : Expr} (h : e.Drawn source ts) (hsub : ts ⊆ us) : e.Drawn source us :=
  ⟨h.1.mono hsub, h.2⟩

/-- A node whose range is merged from those of its two parts. -/
theorem Drawn.merge {e e' : Expr} (h : e.Drawn source ts) (h' : e'.Drawn source ts)
    (hts : ts ⊆ tokens source) :
    (e.range.merge e'.range).Spans ts ∧ (e.range.merge e'.range).Delimited source ∧
      (e.range.Within (e.range.merge e'.range) ∧ e.Faithful source) ∧
        e'.range.Within (e.range.merge e'.range) ∧ e'.Faithful source := by
  have hspans := h.1.merge h'.1
  exact ⟨hspans, hspans.delimited hts, ⟨Range.within_merge_left, h.2⟩, Range.within_merge_right, h'.2⟩

section Binders

variable {r : Range} {body : Expr}

/-- All function types of a telescope have the range `r`. -/
theorem Drawn.pis_of_within (hr : r.Spans ts) (hts : ts ⊆ tokens source) (hbody : body.Drawn source ts)
    (hwithin : body.range.Within r) : ∀ {bs : List (Ident × Expr)},
      (∀ b ∈ bs, (b.1.range.Within r ∧ b.1.Faithful source) ∧ b.2.range.Within r ∧ b.2.Faithful source) →
        (pis r bs body).Drawn source ts ∧ (pis r bs body).range.Within r
  | [], _ => ⟨hbody, hwithin⟩
  | b :: bs, h => by
    obtain ⟨⟨hname, hdomain⟩, hbs⟩ := List.forall_mem_cons.mp h
    obtain ⟨⟨_, hrest⟩, hrest'⟩ := Drawn.pis_of_within hr hts hbody hwithin hbs
    refine ⟨⟨hr, hr.delimited hts, fun y hy => ?_, hdomain, hrest', hrest⟩, Range.within_refl⟩
    cases hy
    exact hname

theorem Drawn.lams_of_within (hr : r.Spans ts) (hts : ts ⊆ tokens source) (hbody : body.Drawn source ts)
    (hwithin : body.range.Within r) : ∀ {xs : List Ident},
      (∀ x ∈ xs, x.range.Within r ∧ x.Faithful source) →
        (lams r xs body).Drawn source ts ∧ (lams r xs body).range.Within r
  | [], _ => ⟨hbody, hwithin⟩
  | x :: xs, h => by
    obtain ⟨hname, hxs⟩ := List.forall_mem_cons.mp h
    obtain ⟨⟨_, hrest⟩, hrest'⟩ := Drawn.lams_of_within hr hts hbody hwithin hxs
    exact ⟨⟨hr, hr.delimited hts, hname, hrest', hrest⟩, Range.within_refl⟩

variable (hl : (l :: (ts ++ us)).Sublist (tokens source)) (hbody : body.Drawn source us)

include hl hbody

/-- The binders `ts` stand between the sign `l` and the body `us`. -/
theorem Drawn.pis {bs : List (Ident × Expr)}
    (hbs : ∀ b ∈ bs, b.1.Drawn source ts ∧ b.2.Drawn source ts) :
    (pis (l.range.merge body.range) bs body).Drawn source (l :: (ts ++ us)) := by
  have hus : us ⊆ l :: (ts ++ us) := List.subset_cons_of_subset l (List.subset_append_right ts us)
  refine (Drawn.pis_of_within (hbody.1.sign hl) hl.subset (hbody.mono hus) Range.within_merge_right
    fun b hb => ?_).1
  obtain ⟨⟨hx, hx'⟩, hd, hd'⟩ := hbs b hb
  exact ⟨⟨hx.within hl hbody.1, hx'⟩, hd.within hl hbody.1, hd'⟩

theorem Drawn.lams {xs : List Ident} (hxs : ∀ x ∈ xs, x.Drawn source ts) :
    (lams (l.range.merge body.range) xs body).Drawn source (l :: (ts ++ us)) := by
  have hus : us ⊆ l :: (ts ++ us) := List.subset_cons_of_subset l (List.subset_append_right ts us)
  refine (Drawn.lams_of_within (hbody.1.sign hl) hl.subset (hbody.mono hus) Range.within_merge_right
    fun x hx => ?_).1
  obtain ⟨hx, hx'⟩ := hxs x hx
  exact ⟨hx.within hl hbody.1, hx'⟩

end Binders

end Expr

namespace Grammar

/-- What follows a sign: the lexemes `ts`, and then those of `us`. -/
theorem parts_sublist {vs : List Lexeme} (ts : List Lexeme) (h : (l :: (ts ++ us)).Sublist vs) :
    ts.Sublist vs ∧ us.Sublist vs := by
  have hrest := List.sublist_of_cons_sublist h
  exact ⟨.trans (List.sublist_append_left ts us) hrest, .trans (List.sublist_append_right ts us) hrest⟩

mutual

theorem ExprTree.drawn : ∀ (d : ExprTree) {ts : List Lexeme}, d.yield.Sublist ts →
    ts.Sublist (tokens source) → d.denote.Drawn source ts
  | .mk first types, ts, h, hts => by
    have hfirst := first.drawn (.trans (List.sublist_append_left _ _) h) hts
    exact types.drawn (.trans (List.sublist_append_right _ _) h) hts hfirst

theorem TypesTree.drawn : ∀ (d : TypesTree) {ts : List Lexeme} {e : Expr}, d.yield.Sublist ts →
    ts.Sublist (tokens source) → e.Drawn source ts → (d.annotate e).Drawn source ts
  | .nil, _, _, _, _, he => he
  | .cons colon type more, ts, e, h, hts, he => by
    obtain ⟨htype, hmore⟩ := parts_sublist type.yield h
    exact more.drawn hmore hts (he.merge (type.drawn htype hts) hts.subset)

theorem ArrowTree.drawn : ∀ (d : ArrowTree) {ts : List Lexeme}, d.yield.Sublist ts →
    ts.Sublist (tokens source) → d.denote.Drawn source ts
  | .piName sign name colon domain arrow body, ts, h, hts => by
    have hall : (sign.1 :: (name.1 :: colon.1 :: domain.yield ++ arrow.1 :: body.yield)).Sublist
        (tokens source) := h.trans hts
    obtain ⟨hbinder, hrest⟩ := parts_sublist _ hall
    have hbody := body.drawn (List.sublist_cons_self arrow.1 body.yield) hrest
    have hname := name.drawn List.mem_cons_self hbinder.subset
    have hdomain := domain.drawn (.trans (List.sublist_cons_self _ _) (List.sublist_cons_self _ _)) hbinder
    have hbinders : ∀ b ∈ [(name.ident, domain.denote)], b.1.Drawn source _ ∧ b.2.Drawn source _ :=
      List.forall_mem_singleton.mpr ⟨hname, hdomain⟩
    exact (Expr.Drawn.pis hall hbody hbinders).mono h.subset
  | .piGroups sign first more arrow body, ts, h, hts => by
    have hyield : (ArrowTree.piGroups sign first more arrow body).yield =
        sign.1 :: (first.yield ++ more.yield ++ arrow.1 :: body.yield) := by
      rw [ArrowTree.yield, List.append_assoc]
    rw [hyield] at h
    have hall := h.trans hts
    obtain ⟨hbinders, hrest⟩ := parts_sublist _ hall
    have hbody := body.drawn (List.sublist_cons_self arrow.1 body.yield) hrest
    have hfirst := first.drawn (List.sublist_append_left _ _) hbinders
    have hmore := more.drawn (List.sublist_append_right _ _) hbinders
    exact (Expr.Drawn.pis hall hbody (List.forall_mem_append.mpr ⟨hfirst, hmore⟩)).mono h.subset
  | .lam sign first more arrow body, ts, h, hts => by
    have hall : (sign.1 :: ((first :: more).map Subtype.val ++ arrow.1 :: body.yield)).Sublist
        (tokens source) := h.trans hts
    obtain ⟨hnames, hrest⟩ := parts_sublist _ hall
    have hbody := body.drawn (List.sublist_cons_self arrow.1 body.yield) hrest
    have hparams : ∀ x ∈ (first :: more).map Lex.ident,
        x.Drawn source ((first :: more).map Subtype.val) := by
      intro x hx
      obtain ⟨name, hname, rfl⟩ := List.mem_map.mp hx
      exact name.drawn (List.mem_map_of_mem hname) hnames.subset
    exact (Expr.Drawn.lams hall hbody hparams).mono h.subset
  | .fn domain arrow codomain, ts, h, hts => by
    have hdomain := domain.drawn (.trans (List.sublist_append_left _ _) h) hts
    have hcodomain := codomain.drawn
      (List.sublist_of_cons_sublist (.trans (List.sublist_append_right _ _) h)) hts
    obtain ⟨hspans, hdelimited, hparts⟩ := hdomain.merge hcodomain hts.subset
    refine ⟨hspans, hdelimited, fun y hy => ?_, hparts⟩
    cases hy
  | .app tree, ts, h, hts => tree.drawn h hts

theorem GroupTree.drawn : ∀ (d : GroupTree) {ts : List Lexeme}, d.yield.Sublist ts →
    ts.Sublist (tokens source) → ∀ b ∈ d.binders, b.1.Drawn source ts ∧ b.2.Drawn source ts
  | .mk left names colon domain right, ts, h, hts => by
    obtain ⟨hnames, hrest⟩ := parts_sublist names.yield h
    obtain ⟨hdomain, _⟩ := parts_sublist domain.yield hrest
    intro b hb
    obtain ⟨x, hx, rfl⟩ := List.mem_map.mp hb
    exact ⟨names.drawn hnames.subset hts.subset x hx, domain.drawn hdomain hts⟩

theorem GroupsTree.drawn : ∀ (d : GroupsTree) {ts : List Lexeme}, d.yield.Sublist ts →
    ts.Sublist (tokens source) → ∀ b ∈ d.binders, b.1.Drawn source ts ∧ b.2.Drawn source ts
  | .nil, _, _, _ => by
    intro b hb
    cases hb
  | .cons group more, ts, h, hts => by
    have hgroup := group.drawn (.trans (List.sublist_append_left _ _) h) hts
    have hmore := more.drawn (.trans (List.sublist_append_right _ _) h) hts
    exact List.forall_mem_append.mpr ⟨hgroup, hmore⟩

theorem AppTree.drawn : ∀ (d : AppTree) {ts : List Lexeme}, d.yield.Sublist ts →
    ts.Sublist (tokens source) → d.denote.Drawn source ts
  | .mk head args, ts, h, hts => by
    have hhead := head.drawn (.trans (List.sublist_append_left _ _) h) hts
    exact args.drawn (.trans (List.sublist_append_right _ _) h) hts hhead

theorem ArgsTree.drawn : ∀ (d : ArgsTree) {ts : List Lexeme} {e : Expr}, d.yield.Sublist ts →
    ts.Sublist (tokens source) → e.Drawn source ts → (d.apply e).Drawn source ts
  | .nil, _, _, _, _, he => he
  | .cons arg more, ts, e, h, hts, he => by
    have harg := arg.drawn (.trans (List.sublist_append_left _ _) h) hts
    exact more.drawn (.trans (List.sublist_append_right _ _) h) hts (he.merge harg hts.subset)

/-- Parentheses are not part of the range of what they enclose. -/
theorem AtomTree.drawn : ∀ (d : AtomTree) {ts : List Lexeme}, d.yield.Sublist ts →
    ts.Sublist (tokens source) → d.denote.Drawn source ts
  | .paren left expr right, ts, h, hts => expr.drawn (parts_sublist expr.yield h).1 hts
  | .name name, ts, h, hts => name.drawn (h.subset List.mem_cons_self) hts.subset
  | .star star, ts, h, hts => by
    have hspans := Range.spans_token (h.subset List.mem_cons_self) hts.subset
    exact ⟨hspans, hspans.delimited hts.subset⟩
  | .number number, ts, h, hts => by
    have hmem := h.subset (List.mem_cons_self : number.1 ∈ [number.1])
    have hspans := Range.spans_token hmem hts.subset
    have htoken := hts.subset hmem
    exact ⟨hspans, hspans.delimited hts.subset, _, slices_token htoken, isNumeral_token htoken number.2.1⟩

end

/-- The declaration has the range that goes from its keyword to the end of its expression. -/
theorem DeclTree.faithful (d : DeclTree) (h : d.yield.Sublist (tokens source)) :
    d.denote.Faithful source := by
  cases d with
  | postulate word names colon type =>
    have hall : (word.1 :: (names.yield ++ colon.1 :: type.yield)).Sublist (tokens source) := h
    obtain ⟨hnames, hrest⟩ := parts_sublist _ hall
    obtain ⟨hspans, htype⟩ := type.drawn (List.sublist_cons_self colon.1 type.yield) hrest
    have hr := hspans.sign hall
    refine ⟨hr.delimited h.subset, fun x hx => ?_, Range.within_merge_right, htype⟩
    obtain ⟨hx, hx'⟩ := names.drawn (List.Subset.refl _) hnames.subset x hx
    exact ⟨hx.within hall hspans, hx'⟩
  | define word name equals expr =>
    have hall : (word.1 :: ([name.1] ++ equals.1 :: expr.yield)).Sublist (tokens source) := h
    obtain ⟨hname, hrest⟩ := parts_sublist _ hall
    obtain ⟨hspans, hexpr⟩ := expr.drawn (List.sublist_cons_self equals.1 expr.yield) hrest
    have hr := hspans.sign hall
    obtain ⟨hx, hx'⟩ := name.drawn List.mem_cons_self hname.subset
    exact ⟨hr.delimited h.subset, ⟨hx.within hall hspans, hx'⟩, Range.within_merge_right, hexpr⟩
  | check word expr =>
    have hall : (word.1 :: ([] ++ expr.yield)).Sublist (tokens source) := h
    obtain ⟨hspans, hexpr⟩ := expr.drawn (List.Sublist.refl _) (parts_sublist _ hall).2
    have hr := hspans.sign hall
    exact ⟨hr.delimited h.subset, Range.within_merge_right, hexpr⟩

end Grammar

end Drawn

/-! ## Sources that are read -/

section Sources

open Grammar Read

variable {source : String}

theorem faithful_of_term {eof : Nat} {e : Expr} (h : term eof (tokens source) = .ok e) :
    e.Faithful source := by
  obtain ⟨d, hd, rfl⟩ := term_eq_ok.mp h
  have hyield : d.yield.Sublist (tokens source) := hd ▸ List.Sublist.refl d.yield
  exact (d.drawn (List.Sublist.refl _) hyield).2

theorem faithful_of_program {eof : Nat} {ds : List Decl} (h : program eof (tokens source) = .ok ds) :
    ∀ d ∈ ds, d.Faithful source := by
  obtain ⟨p, hp, rfl⟩ := program_eq_ok.mp h
  intro _ hmem
  obtain ⟨d, hd, rfl⟩ := List.mem_map.mp hmem
  apply d.faithful
  rw [← hp, programYield, List.flatMap_def]
  exact List.sublist_flatten_of_mem (List.mem_map_of_mem hd)

theorem faithful_of_input {eof : Nat} {ds : List Decl} (h : input eof (tokens source) = .ok ds) :
    ∀ d ∈ ds, d.Faithful source := by
  by_cases hs : Stops Token.startsDecl (tokens source)
  · rw [input_of_stops hs] at h
    cases hterm : term eof (tokens source) with
    | error e =>
      rw [hterm] at h
      cases h
    | ok e =>
      rw [hterm] at h
      cases h
      exact List.forall_mem_singleton.mpr (faithful_of_term hterm)
  · rw [input_of_not_stops hs] at h
    exact faithful_of_program h

theorem stray_mem_of_lexemes {r : Range} : ∀ {items : List ScanItem}, lexemes items = .error r →
    .stray r ∈ items
  | [], h => by cases h
  | .stray r' :: items, h => by
    cases h
    exact List.mem_cons_self
  | .lexeme l :: items, h => by
    rw [lexemes_cons] at h
    cases hitems : lexemes items with
    | error r' =>
      rw [hitems] at h
      cases h
      exact List.mem_cons_of_mem _ (stray_mem_of_lexemes hitems)
    | ok ts =>
      rw [hitems] at h
      cases h

theorem located_of_lexSource {e : SyntaxError} (hsource : Countable source)
    (h : lexSource source = .error (.refused e)) : e.Located source := by
  rw [lexSource_of_countable hsource, Run.ofExcept_eq_refused] at h
  cases hitems : lexemes (scan source) with
  | error r =>
    rw [hitems] at h
    cases h
    exact stray_mem_of_lexemes hitems
  | ok ts =>
    rw [hitems] at h
    cases h

/-- An error is at the next token, or at the end of the source if there is none. -/
theorem Read.ErrorAt.located {ts : List Lexeme} {e : SyntaxError}
    (h : ErrorAt (byteLength source.toList) ts e) (hts : ts ⊆ tokens source) : e.Located source := by
  cases h with
  | unexpected _ k ks =>
    cases ts with
    | nil => exact rfl
    | cons l ts =>
      have hl := hts List.mem_cons_self
      exact ⟨⟨l, hl, rfl⟩, slices_token hl⟩
  | numberTooLarge l ts => exact ⟨l, hts List.mem_cons_self, rfl⟩

/-- What is read satisfies `P`, an error is where it is said to be, and only a source that cannot be
counted stops the reader. -/
def Reports {α : Type} (source : String) (P : α → Prop) : Run SyntaxError α → Prop
  | .ok a => P a
  | .error (.refused e) => e.Located source
  | .error (.fault x) => x = .sourceTooLong ∧ ¬Countable source
  | .error .outOfFuel => False

theorem Recognises.reports {α : Type} {read : Nat → List Lexeme → Except SyntaxError α}
    {L : List Lexeme → Prop} (hr : Recognises read L) {P : α → Prop}
    (hok : ∀ {a}, read (byteLength source.toList) (tokens source) = .ok a → P a) :
    Reports source P (readSource read source) := by
  by_cases hsource : Countable source
  · cases hlex : lexemes (scan source) with
    | error r =>
      have hstray : lexSource source = .error (.refused (.unexpectedCharacter r)) := by
        rw [lexSource_of_countable hsource, hlex]
        rfl
      rw [readSource, hstray]
      exact located_of_lexSource hsource hstray
    | ok ts =>
      have hts : lexSource source = .ok ts := by
        rw [lexSource_of_countable hsource, hlex]
        rfl
      rw [readSource_of_lexSource hts, ← tokens_eq hts]
      cases hread : read (byteLength source.toList) (tokens source) with
      | ok a => exact hok hread
      | error e =>
        obtain ⟨before, left, hsplit, hfails⟩ := hr.early hread
        refine hfails.errorAt.located ?_
        rw [hsplit]
        exact List.subset_append_right before left
  · rw [readSource_of_not_countable hsource]
    exact ⟨rfl, hsource⟩

/-- Whatever the source: the ranges of an expression, of declarations or of an input that is read are those
of tokens, contain the ranges of their parts, and have the names and numbers for text; and an error is at a
token or at the end of the source, and shows the text of that token. -/
theorem ranges_are_faithful (source : String) :
    Reports source (fun e => e.Faithful source) (readTerm source) ∧
      Reports source (fun ds => ∀ d ∈ ds, d.Faithful source) (readProgram source) ∧
        Reports source (fun ds => ∀ d ∈ ds, d.Faithful source) (readInput source) :=
  ⟨recognises_term.reports faithful_of_term, recognises_program.reports faithful_of_program,
    recognises_input.reports faithful_of_input⟩

end Sources

end TypeInType
