import TypeInType.Proofs.Expr.Concatenation

/-!
# Spelling

The text of a token is scanned as that token wherever it stands between line feeds. So the tokens of one
source, and any others that can be spelled, are the tokens of another source.
-/

namespace TypeInType

/-- Scanned by itself, the text of the word is its token. -/
def Spelled (w : Word) : Prop :=
  ∃ l, scan w.2 = [.lexeme l] ∧ l.word = w

/-! ## Tokens by themselves -/

/-- A token does not depend on what follows its text. -/
theorem Piece.front_token {c : Char} {cs rest text : List Char} {k : Token}
    (h : front c cs = (token k text, rest)) : ∃ w, text = c :: w ∧ front c w = (token k text, []) := by
  unfold front at h
  split at h
  · cases h
  split at h
  · rename_i hc
    cases h
    refine ⟨cs.takeWhile isNameRest, rfl, ?_⟩
    have hw := front_word hc (List.all_eq_true.mp List.all_takeWhile) (w := cs.takeWhile isNameRest) boundary_nil
    rwa [List.append_nil] at hw
  split at h
  · rename_i hc
    cases h
    refine ⟨cs.takeWhile Char.isDigit, rfl, ?_⟩
    have hw := front_number hc (List.all_eq_true.mp List.all_takeWhile) (w := cs.takeWhile Char.isDigit) boundary_nil
    rwa [List.append_nil] at hw
  split at h
  · rename_i hblank hname hdigit _ t ht
    cases h
    refine ⟨[], rfl, ?_⟩
    unfold front
    rw [if_neg hblank, if_neg hname, if_neg hdigit, ht]
  split at h
  · cases h
    exact ⟨['>'], rfl, rfl⟩
  · cases h
  · cases h

theorem pieces_of_mem {cs text : List Char} {k : Token} (h : .token k text ∈ pieces cs) :
    pieces text = [.token k text] := by
  fun_induction pieces cs with
  | case1 => cases h
  | case2 c cs p ih =>
    rcases List.mem_cons.mp h with hp | h
    · have hfront : Piece.front c cs = (.token k text, p.2) := Prod.ext hp.symm rfl
      obtain ⟨w, rfl, hw⟩ := Piece.front_token hfront
      rw [pieces, hw]
      simp only
      rw [pieces]
    · exact ih h

theorem mem_of_mem_place {l : Lexeme} {start : Nat} {ps : List Piece} (h : .lexeme l ∈ place start ps) :
    .token l.token l.text.toList ∈ ps := by
  induction ps generalizing start with
  | nil => cases h
  | cons p ps ih =>
    cases p with
    | token k text =>
      rcases List.mem_cons.mp h with hl | h
      · cases hl
        simp
      · exact List.mem_cons_of_mem _ (ih h)
    | blank c => exact List.mem_cons_of_mem _ (ih h)
    | comment text => exact List.mem_cons_of_mem _ (ih h)
    | stray c =>
      rcases List.mem_cons.mp h with hl | h
      · cases hl
      · exact List.mem_cons_of_mem _ (ih h)

theorem spelled_of_pieces {k : Token} {text : String} (h : pieces text.toList = [.token k text.toList]) :
    Spelled (k, text) := by
  refine ⟨⟨k, text, 0⟩, ?_, rfl⟩
  rw [scan, h]
  simp [place]

theorem spelled_of_mem {source : String} {ts : List Lexeme} {l : Lexeme}
    (h : scan source = ts.map .lexeme) (hl : l ∈ ts) : Spelled l.word := by
  have hmem : ScanItem.lexeme l ∈ scan source := h ▸ List.mem_map_of_mem hl
  exact spelled_of_pieces (pieces_of_mem (mem_of_mem_place hmem))

/-! ## Texts of given words -/

/-- Each word on a line of its own. -/
theorem exists_scan {ws : List Word} (h : ∀ w ∈ ws, Spelled w) :
    ∃ (source : String) (ts : List Lexeme), scan source = ts.map .lexeme ∧ ts.map Lexeme.word = ws := by
  induction ws with
  | nil => exact ⟨"", [], by decide +kernel, rfl⟩
  | cons w ws ih =>
    obtain ⟨l, hl, rfl⟩ := h w List.mem_cons_self
    obtain ⟨source, ts, hts, rfl⟩ := ih fun v hv => h v (List.mem_cons_of_mem _ hv)
    refine ⟨_, _, @scan_lexemes_lines _ _ [l] _ hl hts, ?_⟩
    simp [Lexeme.word, Lexeme.shift]

end TypeInType
