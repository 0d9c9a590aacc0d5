import TypeInType.Proofs.Token.Words

/-!
# Longest matches

The rules of scanning say which texts are tokens, white space and comments. The first piece of a source is
the longest text at its front that a rule matches, or one character if no rule matches there.
-/

namespace TypeInType

/-! ## Rules -/

/-- The texts that spell a token other than a name or a number. -/
def literals : List (Token × String) :=
  [(.axiomWord, "axiom"), (.checkWord, "check"), (.defunWord, "defun"), (.forallSign, "forall"),
    (.forallSign, "Π"), (.forallSign, "∀"), (.lambdaSign, "lambda"), (.lambdaSign, "λ"),
    (.lambdaSign, "\\"), (.colon, ":"), (.comma, ","), (.equals, "="), (.dot, "."), (.arrow, "->"),
    (.arrow, "→"), (.star, "*"), (.openParen, "("), (.closeParen, ")")]

/-- What a piece of a source may be. -/
inductive Rule where
  | token (k : Token)
  | blank
  | comment

/-- The texts that a rule matches. -/
inductive Rule.Matches : Rule → List Char → Prop where
  | name {c : Char} {w : List Char} : isNameStart c = true → (∀ d ∈ w, isNameRest d = true) →
      Matches (.token .name) (c :: w)
  | number {c : Char} {w : List Char} : c.isDigit = true → (∀ d ∈ w, d.isDigit = true) →
      Matches (.token .number) (c :: w)
  | literal {k : Token} {s : String} : (k, s) ∈ literals → Matches (.token k) s.toList
  | blank {c : Char} : isBlank c = true → Matches .blank [c]
  | comment {w : List Char} : '\n' ∉ w → Matches .comment ('/' :: '/' :: w)

/-- The rule matches at the front of the text, and no rule matches more of it. If another rule matches as
much, it is the rule for names: a keyword is not a name. -/
structure LongestMatch (cs : List Char) (r : Rule) (w : List Char) : Prop where
  matches_front : r.Matches w
  front : w <+: cs
  longest : ∀ r' w', Rule.Matches r' w' → w' <+: cs → w'.length ≤ w.length
  unrivalled : ∀ r', Rule.Matches r' w → r' = r ∨ r' = .token .name

/-- No rule matches at the front of the text. -/
def NoMatch (cs : List Char) : Prop :=
  ∀ r w, Rule.Matches r w → ¬ w <+: cs

theorem Rule.Matches.ne_nil {r : Rule} {w : List Char} (h : r.Matches w) : w ≠ [] := by
  cases h with
  | literal hmem =>
    have hspelled : ∀ p ∈ literals, p.2.toList ≠ [] := by decide
    exact hspelled _ hmem
  | _ => exact List.cons_ne_nil _ _

theorem LongestMatch.unique {cs w w' : List Char} {r r' : Rule} (h : LongestMatch cs r w)
    (h' : LongestMatch cs r' w') : r = r' ∧ w = w' := by
  have hlength : w.length = w'.length :=
    Nat.le_antisymm (h'.longest r w h.matches_front h.front) (h.longest r' w' h'.matches_front h'.front)
  have hw : w = w' :=
    (List.prefix_of_prefix_length_le h.front h'.front (Nat.le_of_eq hlength)).eq_of_length hlength
  subst hw
  refine ⟨?_, rfl⟩
  rcases h.unrivalled r' h'.matches_front with hr | hr
  · exact hr.symm
  · rcases h'.unrivalled r h.matches_front with hr' | hr'
    · exact hr'
    · rw [hr, hr']

/-! ## What matches at a character -/

/-- A keyword is a word, and any other literal is one sign, apart from the arrow of two characters. -/
theorem literals_shape : ∀ p ∈ literals,
    (p.2.toList.head?.any isNameStart = true ∧ p.2.toList.tail.all isNameRest = true ∧
      Token.ofWord p.2.toList = p.1) ∨
    (p.2.toList.head?.bind Token.ofChar? = some p.1 ∧ p.2.toList.tail = []) ∨
    (p.2.toList = ['-', '>'] ∧ p.1 = .arrow) := by
  decide

theorem literal_cons {k : Token} {s : String} {c : Char} {w : List Char} (h : (k, s) ∈ literals)
    (hs : s.toList = c :: w) :
    (isNameStart c = true ∧ (∀ d ∈ w, isNameRest d = true) ∧ Token.ofWord (c :: w) = k) ∨
    (Token.ofChar? c = some k ∧ w = []) ∨ (c = '-' ∧ w = ['>'] ∧ k = .arrow) := by
  have hshape := literals_shape _ h
  simp only [hs, List.head?_cons, List.tail_cons, Option.any_some, Option.bind_some, List.all_eq_true,
    List.cons.injEq, and_assoc] at hshape
  exact hshape

/-- A sign is a character of no other class. -/
theorem Token.classes_of_ofChar? {c : Char} {k : Token} (h : ofChar? c = some k) :
    isBlank c = false ∧ isNameStart c = false ∧ c.isDigit = false := by
  unfold ofChar? at h
  split at h
  case h_13 => cases h
  all_goals decide

/-- What a rule may match at the character `c`. The classes of characters are told apart in the order in
which scanning tests for them. -/
inductive MatchesAt (c : Char) : Rule → List Char → Prop where
  | blank : isBlank c = true → MatchesAt c .blank []
  | word {k : Token} {w : List Char} : isBlank c = false → isNameStart c = true →
      (∀ d ∈ w, isNameRest d = true) → k = .name ∨ k = .ofWord (c :: w) → MatchesAt c (.token k) w
  | number {w : List Char} : isBlank c = false → isNameStart c = false → c.isDigit = true →
      (∀ d ∈ w, d.isDigit = true) → MatchesAt c (.token .number) w
  | sign {k : Token} : isBlank c = false → isNameStart c = false → c.isDigit = false →
      Token.ofChar? c = some k → MatchesAt c (.token k) []
  | arrow : c = '-' → MatchesAt c (.token .arrow) ['>']
  | comment {w : List Char} : c = '/' → '\n' ∉ w → MatchesAt c .comment ('/' :: w)

theorem isBlank_of_isNameStart {c : Char} (h : isNameStart c = true) : isBlank c = false :=
  isBlank_eq_false (Nat.le_trans (by decide) (bounds_of_isNameStart h).1) (bounds_of_isNameStart h).2

theorem isBlank_of_isDigit {c : Char} (h : c.isDigit = true) : isBlank c = false :=
  isBlank_eq_false (Nat.le_trans (by decide) (bounds_of_isDigit h).1)
    (Nat.le_trans (bounds_of_isDigit h).2 (by decide))

theorem Rule.Matches.matchesAt {r : Rule} {c : Char} {w : List Char} (h : r.Matches (c :: w)) :
    MatchesAt c r w := by
  generalize hcs : c :: w = cs at h
  cases h with
  | name hc hw =>
    cases hcs
    exact .word (isBlank_of_isNameStart hc) hc hw (.inl rfl)
  | number hc hw =>
    cases hcs
    exact .number (isBlank_of_isDigit hc) (isNameStart_of_isDigit hc) hc hw
  | literal hmem =>
    rcases literal_cons hmem hcs.symm with ⟨hc, hw, hk⟩ | ⟨hk, rfl⟩ | ⟨rfl, rfl, rfl⟩
    · exact .word (isBlank_of_isNameStart hc) hc hw (.inr hk.symm)
    · obtain ⟨hblank, hstart, hdigit⟩ := Token.classes_of_ofChar? hk
      exact .sign hblank hstart hdigit hk
    · exact .arrow rfl
  | blank hc =>
    cases hcs
    exact .blank hc
  | comment hw =>
    cases hcs
    exact .comment rfl hw

/-! ## The longest match at a character -/

section Longest

variable {c : Char} {cs : List Char}

/-- A longest match at a character, from what may match there. -/
theorem longestMatch_cons {r : Rule} {w : List Char} (hr : r.Matches (c :: w)) (hw : w <+: cs)
    (h : ∀ r' w', MatchesAt c r' w' → w' <+: cs →
      w'.length ≤ w.length ∧ (w' = w → r' = r ∨ r' = .token .name)) :
    LongestMatch (c :: cs) r (c :: w) where
  matches_front := hr
  front := List.cons_prefix_cons.mpr ⟨rfl, hw⟩
  longest r' w' hr' hw' := by
    cases w' with
    | nil => exact Nat.zero_le _
    | cons d w' =>
      obtain ⟨rfl, hfront⟩ := List.cons_prefix_cons.mp hw'
      exact Nat.succ_le_succ (h r' w' hr'.matchesAt hfront).1
  unrivalled r' hr' := (h r' w hr'.matchesAt hw).2 rfl

theorem longestMatch_blank (hc : isBlank c = true) : LongestMatch (c :: cs) .blank [c] := by
  refine longestMatch_cons (.blank hc) List.nil_prefix fun r w h _ => ?_
  cases h with
  | blank => exact ⟨Nat.le_refl _, fun _ => .inl rfl⟩
  | word h | number h | sign h => rw [h] at hc; cases hc
  | arrow h | comment h => subst h; cases hc

theorem length_le_takeWhile {p : Char → Bool} {w : List Char} (hw : w <+: cs)
    (hp : ∀ d ∈ w, p d = true) : w.length ≤ (cs.takeWhile p).length := by
  obtain ⟨rest, rfl⟩ := hw
  rw [List.takeWhile_append_of_pos hp, List.length_append]
  exact Nat.le_add_right _ _

/-- A word spells the token that it is read as. -/
theorem matches_ofWord {w : List Char} (hc : isNameStart c = true) (hw : ∀ d ∈ w, isNameRest d = true) :
    Rule.Matches (.token (.ofWord (c :: w))) (c :: w) := by
  have hkeyword : ∀ {k : Token} {s : String}, (k, s) ∈ literals → c :: w = s.toList →
      Rule.Matches (.token k) (c :: w) := by
    intro k s hs h
    rw [h]
    exact .literal hs
  unfold Token.ofWord
  split
  · rename_i h
    exact hkeyword (s := "axiom") (by decide) h
  split
  · rename_i h
    exact hkeyword (s := "check") (by decide) h
  split
  · rename_i h
    exact hkeyword (s := "defun") (by decide) h
  split
  · rename_i h
    exact hkeyword (s := "forall") (by decide) h
  split
  · rename_i h
    exact hkeyword (s := "lambda") (by decide) h
  · exact .name hc hw

theorem mem_takeWhile {p : Char → Bool} : ∀ d ∈ cs.takeWhile p, p d = true :=
  List.all_eq_true.mp List.all_takeWhile

theorem longestMatch_word (hc : isNameStart c = true) :
    LongestMatch (c :: cs) (.token (.ofWord (c :: cs.takeWhile isNameRest)))
      (c :: cs.takeWhile isNameRest) := by
  refine longestMatch_cons (matches_ofWord hc mem_takeWhile) (List.takeWhile_prefix _) fun r w h hw => ?_
  cases h with
  | blank h => rw [isBlank_of_isNameStart hc] at h; cases h
  | word _ _ hrest hk =>
    refine ⟨length_le_takeWhile hw hrest, ?_⟩
    rintro rfl
    rcases hk with rfl | rfl
    · exact .inr rfl
    · exact .inl rfl
  | number _ h | sign _ h => rw [hc] at h; cases h
  | arrow h | comment h => subst h; cases hc

theorem longestMatch_number (hc : c.isDigit = true) :
    LongestMatch (c :: cs) (.token .number) (c :: cs.takeWhile Char.isDigit) := by
  refine longestMatch_cons (.number hc mem_takeWhile) (List.takeWhile_prefix _) fun r w h hw => ?_
  cases h with
  | blank h => rw [isBlank_of_isDigit hc] at h; cases h
  | word _ h => rw [isNameStart_of_isDigit hc] at h; cases h
  | number _ _ _ hdigits => exact ⟨length_le_takeWhile hw hdigits, fun _ => .inl rfl⟩
  | sign _ _ h => rw [hc] at h; cases h
  | arrow h | comment h => subst h; cases hc

/-- A sign spells its token. -/
theorem matches_ofChar? {k : Token} (hk : Token.ofChar? c = some k) : Rule.Matches (.token k) [c] := by
  have hmem : (k, String.ofList [c]) ∈ literals := by
    unfold Token.ofChar? at hk
    split at hk <;> cases hk <;> decide
  rw [← String.toList_ofList (l := [c])]
  exact .literal hmem

theorem longestMatch_sign {k : Token} (hk : Token.ofChar? c = some k) :
    LongestMatch (c :: cs) (.token k) [c] := by
  obtain ⟨hblank, hstart, hdigit⟩ := Token.classes_of_ofChar? hk
  refine longestMatch_cons (matches_ofChar? hk) List.nil_prefix fun r w h _ => ?_
  cases h with
  | blank h => rw [hblank] at h; cases h
  | word _ h => rw [hstart] at h; cases h
  | number _ _ h => rw [hdigit] at h; cases h
  | sign _ _ _ h =>
    cases hk.symm.trans h
    exact ⟨Nat.le_refl _, fun _ => .inl rfl⟩
  | arrow h | comment h => subst h; cases hk

theorem longestMatch_arrow : LongestMatch ('-' :: '>' :: cs) (.token .arrow) ['-', '>'] := by
  refine longestMatch_cons (.literal (s := "->") (by decide)) (List.prefix_append ['>'] cs) fun r w h _ => ?_
  cases h with
  | arrow => exact ⟨Nat.le_refl _, fun _ => .inl rfl⟩
  | blank h | word _ h | number _ _ h | sign _ _ _ h => cases h
  | comment h => cases h

theorem longestMatch_comment :
    LongestMatch ('/' :: '/' :: cs) .comment ('/' :: '/' :: cs.takeWhile (· != '\n')) := by
  have hline : '\n' ∉ cs.takeWhile (· != '\n') := fun h => by simpa using mem_takeWhile _ h
  have hfront : '/' :: cs.takeWhile (· != '\n') <+: '/' :: cs :=
    List.cons_prefix_cons.mpr ⟨rfl, List.takeWhile_prefix _⟩
  refine longestMatch_cons (.comment hline) hfront fun r w h hw => ?_
  cases h with
  | comment _ hw' =>
    have hle := length_le_takeWhile (p := (· != '\n')) (List.cons_prefix_cons.mp hw).2 fun d hd => by
      rw [bne_iff_ne]
      rintro rfl
      exact hw' hd
    exact ⟨Nat.succ_le_succ hle, fun _ => .inl rfl⟩
  | blank h | word _ h | number _ _ h | sign _ _ _ h => cases h
  | arrow h => cases h

/-- A comment that goes up to the end of its line is the longest. -/
theorem longestMatch_line {w : List Char} (hw : '\n' ∉ w) (hend : ∀ c ∈ cs.head?, c = '\n') :
    LongestMatch ('/' :: '/' :: w ++ cs) .comment ('/' :: '/' :: w) := by
  have htake : (w ++ cs).takeWhile (· != '\n') = w := by
    have hline : ∀ d ∈ w, (d != '\n') = true := by
      intro d hd
      rw [bne_iff_ne]
      rintro rfl
      exact hw hd
    rw [List.takeWhile_append_of_pos hline]
    cases cs with
    | nil => exact List.append_nil w
    | cons c cs =>
      cases hend c rfl
      exact List.append_nil w
  have hlongest := @longestMatch_comment (w ++ cs)
  rwa [htake] at hlongest

theorem noMatch_cons (hblank : isBlank c = false) (hstart : isNameStart c = false)
    (hdigit : c.isDigit = false) (hsign : Token.ofChar? c = none)
    (harrow : ∀ rest, c = '-' → cs ≠ '>' :: rest) (hcomment : ∀ rest, c = '/' → cs ≠ '/' :: rest) :
    NoMatch (c :: cs) := by
  intro r w hr hw
  cases w with
  | nil => exact hr.ne_nil rfl
  | cons d w =>
    obtain ⟨rfl, rest, rfl⟩ := List.cons_prefix_cons.mp hw
    cases hr.matchesAt with
    | blank h => rw [hblank] at h; cases h
    | word _ h => rw [hstart] at h; cases h
    | number _ _ h => rw [hdigit] at h; cases h
    | sign _ _ _ h => rw [hsign] at h; cases h
    | arrow h => exact harrow _ h rfl
    | comment h => exact hcomment _ h rfl

end Longest

/-! ## Pieces of a source -/

/-- The rule that a piece matches; a stray character matches none. -/
def Piece.rule? : Piece → Option Rule
  | token k _ => some (.token k)
  | blank _ => some .blank
  | comment _ => some .comment
  | stray _ => none

/-- What stands at the front of a text: its longest match, or one character at which nothing matches. -/
def Piece.Leads (cs : List Char) (p : Piece) : Prop :=
  match p.rule? with
  | some r => LongestMatch cs r p.text
  | none => NoMatch cs

theorem Piece.leads_front (c : Char) (cs : List Char) : (front c cs).1.Leads (c :: cs) := by
  unfold front
  split
  · rename_i hblank
    exact longestMatch_blank hblank
  split
  · rename_i hstart
    exact longestMatch_word hstart
  split
  · rename_i hdigit
    exact longestMatch_number hdigit
  split
  · rename_i hsign
    exact longestMatch_sign hsign
  rename_i hblank hstart hdigit _ hsign
  split
  · exact longestMatch_arrow
  · exact longestMatch_comment
  · rename_i harrow hcomment
    rw [Bool.not_eq_true] at hblank hstart hdigit
    exact noMatch_cons hblank hstart hdigit hsign (fun rest hc hcs => harrow rest hc hcs)
      fun rest hc hcs => hcomment rest hc hcs

/-- A longest match is the first piece. -/
theorem LongestMatch.pieces_eq {text after : List Char} {r : Rule} (h : LongestMatch (text ++ after) r text) :
    ∃ p : Piece, p.rule? = some r ∧ p.text = text ∧ pieces (text ++ after) = p :: pieces after := by
  obtain ⟨c, w, rfl⟩ := List.exists_cons_of_ne_nil h.matches_front.ne_nil
  rw [List.cons_append] at h ⊢
  have hleads := Piece.leads_front c (w ++ after)
  have htext := Piece.text_front c (w ++ after)
  rw [pieces]
  generalize Piece.front c (w ++ after) = p at hleads htext ⊢
  unfold Piece.Leads at hleads
  split at hleads
  · rename_i r' hr'
    obtain ⟨rfl, hw⟩ := h.unique hleads
    rw [← hw, List.cons_append] at htext
    injection htext with _ hrest
    exact ⟨p.1, hr', hw.symm, by rw [List.append_cancel_left hrest]⟩
  · exact absurd h.front (hleads r _ h.matches_front)

/-- A character at which nothing matches is a piece by itself. -/
theorem NoMatch.pieces_eq {c : Char} {after : List Char} (h : NoMatch (c :: after)) :
    pieces (c :: after) = .stray c :: pieces after := by
  have hleads := Piece.leads_front c after
  have htext := Piece.text_front c after
  rw [pieces]
  generalize Piece.front c after = p at hleads htext ⊢
  obtain ⟨p, rest⟩ := p
  cases p with
  | stray d =>
    cases htext
    rfl
  | token k text => exact absurd hleads.front (h _ _ hleads.matches_front)
  | blank d => exact absurd hleads.front (h _ _ hleads.matches_front)
  | comment text => exact absurd hleads.front (h _ _ hleads.matches_front)

/-- The longest comment goes up to the end of its line. -/
theorem LongestMatch.line {text after : List Char} (h : LongestMatch (text ++ after) .comment text) :
    ∃ w, text = '/' :: '/' :: w ∧ '\n' ∉ w ∧ ∀ c ∈ after.head?, c = '\n' := by
  cases h.matches_front with
  | @comment w hw =>
    refine ⟨w, rfl, hw, fun c hc => ?_⟩
    obtain ⟨after, rfl⟩ := List.head?_eq_some_iff.mp hc
    -- A character other than a line feed would belong to the comment.
    refine Decidable.byContradiction fun hne => ?_
    have hlonger : '\n' ∉ w ++ [c] := by
      rw [List.mem_append, List.mem_singleton]
      exact not_or.mpr ⟨hw, Ne.symm hne⟩
    have hle := h.longest _ _ (.comment hlonger) ⟨after, by simp⟩
    simp only [List.length_cons, List.length_append, List.length_nil] at hle
    omega

end TypeInType
