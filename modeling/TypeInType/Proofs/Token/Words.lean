import TypeInType.Expr.Read

/-!
# Scanning word by word

What a text contributes to the lexemes of a source that it is a part of. A name or a number ends where
no character follows that could continue it; a symbol ends anywhere.
-/

namespace TypeInType

/-! ## Characters -/

theorem bounds_of_isNameStart {c : Char} (h : isNameStart c = true) :
    65 ≤ c.toNat ∧ c.toNat ≤ 122 := by
  change (decide (c.val ≥ 'A'.val ∧ c.val ≤ 'Z'.val) ||
    (decide (c.val ≥ 'a'.val) && decide (c.val ≤ 'z'.val)) || c == '_') = true at h
  simp only [Bool.or_eq_true, Bool.and_eq_true, decide_eq_true_eq, beq_iff_eq,
    UInt32.le_iff_toNat_le, ge_iff_le] at h
  rcases h with (⟨h₁, h₂⟩ | ⟨h₁, h₂⟩) | rfl
  · change 65 ≤ c.toNat at h₁
    change c.toNat ≤ 90 at h₂
    omega
  · change 97 ≤ c.toNat at h₁
    change c.toNat ≤ 122 at h₂
    omega
  · decide

theorem bounds_of_isDigit {c : Char} (h : c.isDigit = true) : 48 ≤ c.toNat ∧ c.toNat ≤ 57 := by
  simp only [Char.isDigit, Bool.and_eq_true, decide_eq_true_eq, UInt32.le_iff_toNat_le,
    ge_iff_le] at h
  exact h

theorem isBlank_eq_false {c : Char} (h₁ : 33 ≤ c.toNat) (h₂ : c.toNat ≤ 122) :
    isBlank c = false := by
  simp only [isBlank, Bool.or_eq_false_iff, Bool.and_eq_false_iff, decide_eq_false_iff_not,
    beq_eq_false_iff_ne]
  omega

theorem isNameStart_of_isDigit {c : Char} (h : c.isDigit = true) : isNameStart c = false := by
  cases hc : isNameStart c with
  | false => rfl
  | true =>
    have h₁ := bounds_of_isNameStart hc
    have h₂ := bounds_of_isDigit h
    omega

theorem isNameRest_of_isDigit {c : Char} (h : c.isDigit = true) : isNameRest c = true := by
  simp [isNameRest, Char.isAlphanum, h]

/-! ## The front of a source -/

/-- No character follows that continues a name or a number. -/
def Boundary (cs : List Char) : Prop :=
  ∀ c ∈ cs.head?, isNameRest c = false

theorem boundary_nil : Boundary [] := nofun

theorem boundary_cons {c : Char} {cs : List Char} : Boundary (c :: cs) ↔ isNameRest c = false := by
  simp [Boundary]

/-- A run of characters ends at a boundary. -/
theorem run_append {p : Char → Bool} {w cs : List Char} (hp : ∀ c, p c = true → isNameRest c = true)
    (hw : ∀ c ∈ w, p c = true) (hcs : Boundary cs) : run p (w ++ cs) = (w, cs) := by
  induction w with
  | nil =>
    cases cs with
    | nil => rfl
    | cons c cs =>
      have hc : p c = false := by
        cases h : p c with
        | false => rfl
        | true => exact (hp c h).symm.trans (boundary_cons.mp hcs)
      simp [run, hc]
  | cons c w ih =>
    have hc := hw c List.mem_cons_self
    have hrun := ih fun d hd => hw d (List.mem_cons_of_mem _ hd)
    simp only [run, Prod.mk.injEq] at hrun
    simp [run, hc, hrun.1, hrun.2]

namespace Piece

theorem front_blank {c : Char} (hc : isBlank c = true) (cs : List Char) :
    front c cs = (blank c, cs) := by
  unfold front
  rw [if_pos hc]

theorem front_word {c : Char} {w cs : List Char} (hc : isNameStart c = true)
    (hw : ∀ d ∈ w, isNameRest d = true) (hcs : Boundary cs) :
    front c (w ++ cs) = (token (Token.ofWord (c :: w)) (c :: w), cs) := by
  have hbounds := bounds_of_isNameStart hc
  have hblank : isBlank c = false := isBlank_eq_false (by omega) hbounds.2
  unfold front
  rw [hblank, if_neg Bool.false_ne_true, if_pos hc, run_append (fun _ h => h) hw hcs]

theorem front_number {c : Char} {w cs : List Char} (hc : c.isDigit = true)
    (hw : ∀ d ∈ w, d.isDigit = true) (hcs : Boundary cs) :
    front c (w ++ cs) = (token .number (c :: w), cs) := by
  have hbounds := bounds_of_isDigit hc
  have hblank : isBlank c = false := isBlank_eq_false (by omega) (by omega)
  unfold front
  rw [hblank, if_neg Bool.false_ne_true, isNameStart_of_isDigit hc, if_neg Bool.false_ne_true,
    if_pos hc, run_append (fun _ h => isNameRest_of_isDigit h) hw hcs]

/-- Only a word of name characters is a name. -/
theorem front_eq_name {c : Char} {cs text rest : List Char}
    (h : front c cs = (token .name text, rest)) :
    isNameStart c = true ∧ text = c :: cs.takeWhile isNameRest ∧ Token.ofWord text = .name := by
  unfold front at h
  split at h
  · cases h
  split at h
  · rename_i hc
    simp only [run, Prod.mk.injEq, token.injEq] at h
    obtain ⟨⟨hname, rfl⟩, _⟩ := h
    exact ⟨hc, rfl, hname⟩
  split at h
  · cases h
  split at h
  · rename_i t ht
    cases h
    unfold Token.ofChar? at ht
    split at ht <;> cases ht
  · split at h <;> cases h

end Piece

/-! ## Names -/

/-- The text is scanned as one name. -/
def IsName (x : String) : Prop :=
  pieces x.toList = [.token .name x.toList]

theorem isName_iff {x : String} : IsName x ↔ ∃ c w, x.toList = c :: w ∧ isNameStart c = true ∧
    (∀ d ∈ w, isNameRest d = true) ∧ Token.ofWord (c :: w) = .name := by
  constructor
  · intro h
    unfold IsName at h
    cases hx : x.toList with
    | nil => rw [hx, pieces] at h; cases h
    | cons c w =>
      rw [hx, pieces] at h
      injection h with hfront hrest
      have hfront : Piece.front c w = (.token .name (c :: w), (Piece.front c w).2) :=
        Prod.ext hfront rfl
      obtain ⟨hc, hw, hname⟩ := Piece.front_eq_name hfront
      injection hw with _ hw
      refine ⟨c, w, rfl, hc, fun d hd => ?_, hname⟩
      rw [hw] at hd
      exact List.all_eq_true.mp List.all_takeWhile d hd
  · rintro ⟨c, w, hx, hc, hw, hname⟩
    have hfront : Piece.front c (w ++ []) = _ := Piece.front_word hc hw boundary_nil
    rw [List.append_nil] at hfront
    unfold IsName
    rw [hx, pieces, hfront, hname]
    simp only
    rw [pieces]

/-! ## Marks -/

abbrev Word := Token × String

def Lexeme.word (l : Lexeme) : Word :=
  (l.token, l.text)

def Piece.ofWord (w : Word) : Piece :=
  token w.1 w.2.toList

/-- The piece is a token or a stray character. -/
def Piece.isMark : Piece → Bool
  | token _ _ | stray _ => true
  | _ => false

/-- The tokens and stray characters of a source. -/
def marks (cs : List Char) : List Piece :=
  (pieces cs).filter Piece.isMark

theorem marks_front {c : Char} {cs rest : List Char} {p : Piece} (h : Piece.front c cs = (p, rest)) :
    marks (c :: cs) = [p].filter Piece.isMark ++ marks rest := by
  rw [marks, pieces, h, marks, ← List.filter_append]
  rfl

theorem marks_blank {c : Char} (hc : isBlank c = true) (cs : List Char) :
    marks (c :: cs) = marks cs :=
  marks_front (Piece.front_blank hc cs)

theorem marks_spaces (n : Nat) (cs : List Char) : marks (List.replicate n ' ' ++ cs) = marks cs := by
  induction n with
  | zero => rfl
  | succ n ih => rw [List.replicate_succ, List.cons_append, marks_blank rfl, ih]

theorem IsName.marks_append {x : String} (hx : IsName x) {cs : List Char} (hcs : Boundary cs) :
    marks (x.toList ++ cs) = .ofWord (.name, x) :: marks cs := by
  obtain ⟨c, w, hx, hc, hw, hname⟩ := isName_iff.mp hx
  rw [hx, List.cons_append, marks_front (Piece.front_word hc hw hcs), hname, Piece.ofWord, hx]
  rfl

theorem marks_number {n : Nat} {cs : List Char} (hcs : Boundary cs) :
    marks ((toString n).toList ++ cs) = .ofWord (.number, toString n) :: marks cs := by
  have hdigits : ∀ c ∈ (toString n).toList, c.isDigit = true := by
    rw [Nat.toString_eq_ofList_toDigits, String.toList_ofList]
    exact fun c hc => Nat.isDigit_of_mem_toDigits (by decide) (by decide) hc
  cases hn : (toString n).toList with
  | nil =>
    rw [Nat.toString_eq_ofList_toDigits, String.toList_ofList] at hn
    exact (Nat.toDigits_ne_nil hn).elim
  | cons c w =>
    rw [hn] at hdigits
    have hfront := Piece.front_number (hdigits c List.mem_cons_self)
      (fun d hd => hdigits d (List.mem_cons_of_mem _ hd)) hcs
    rw [List.cons_append, marks_front hfront, Piece.ofWord, hn]
    rfl

theorem decimalValue_toString (n : Nat) : decimalValue (toString n).toList = n := by
  rw [decimalValue, Nat.toString_eq_ofList_toDigits, String.toList_ofList,
    ← Nat.ofDigitChars_eq_foldl, Nat.ofDigitChars_ten_toDigits]

/-! ## Lexemes -/

theorem lexemes_cons (l : Lexeme) (items : List ScanItem) :
    lexemes (.lexeme l :: items) = (lexemes items).map (l :: ·) := by
  rw [lexemes, List.mapM_cons]
  change (lexemes items >>= fun ls => pure (l :: ls)) = _
  cases lexemes items <;> rfl

theorem lexemes_place : ∀ (ps : List Piece) {ws : List Word} (start : Nat),
    ps.filter Piece.isMark = ws.map Piece.ofWord →
      ∃ ts, lexemes (place start ps) = .ok ts ∧ ts.map Lexeme.word = ws
  | [], ws, start, h => by
    cases ws with
    | nil => exact ⟨[], rfl, rfl⟩
    | cons w ws => cases h
  | .blank c :: ps, ws, start, h => lexemes_place ps (start + byteLength [c]) h
  | .comment text :: ps, ws, start, h => lexemes_place ps (start + byteLength text) h
  | .stray c :: ps, ws, start, h => by
    cases ws with
    | nil => cases h
    | cons w ws => injection h with h _; cases h
  | .token k text :: ps, ws, start, h => by
    cases ws with
    | nil => cases h
    | cons w ws =>
      injection h with hw hws
      obtain ⟨ts, hts, rfl⟩ := lexemes_place ps (start + byteLength text) hws
      injection hw with hk htext
      refine ⟨⟨k, String.ofList text, start⟩ :: ts, ?_, ?_⟩
      · rw [place, lexemes_cons]
        change (lexemes (place (start + byteLength text) ps)).map _ = _
        rw [hts]
        rfl
      · rw [List.map_cons, Lexeme.word, hk, htext, String.ofList_toList]

theorem countable_spaces {n : Nat} :
    Countable (String.ofList (List.replicate n ' ')) ↔ n ≤ maxPosition := by
  have hspace : ' '.utf8Size = 1 := by decide
  rw [Countable, String.toList_ofList, byteLength_replicate, hspace, Nat.mul_one]

/-- A countable source whose marks are words has the lexemes of these words. -/
theorem lexSource_eq_ok {source : String} {ws : List Word} (hsource : Countable source)
    (h : marks source.toList = ws.map Piece.ofWord) :
    ∃ ts, lexSource source = .ok ts ∧ ts.map Lexeme.word = ws := by
  obtain ⟨ts, hts, hws⟩ := lexemes_place _ 0 h
  refine ⟨ts, ?_, hws⟩
  rw [lexSource_of_countable hsource, scan, hts]
  rfl

end TypeInType
