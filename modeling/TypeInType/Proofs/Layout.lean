import TypeInType.Layout
import TypeInType.Proofs.Token.Words

/-!
# What a document is read as

A document is laid out on lines in one of many ways. However that is done, the text scans as the same
words, because a line break stands where a space would.
-/

namespace TypeInType.Doc

/-! ## Layouts -/

/-- The text is a layout of the document: every `line` is a space or a line break. -/
inductive Lays : Doc → List Char → Prop
  | nil : Lays nil []
  | text (s : String) : Lays (text s) s.toList
  | append {a b cs ds} : Lays a cs → Lays b ds → Lays (append a b) (cs ++ ds)
  | space : Lays line [' ']
  | break (n : Nat) : Lays line ('\n' :: List.replicate n ' ')
  | nest {n d cs} : Lays d cs → Lays (nest n d) cs
  | group {d cs} : Lays d cs → Lays (group d) cs

theorem set_lays (width : Nat) : ∀ (d : Doc) (indent : Nat) (mode : Mode) (rest : Nat → Bool)
    (page : Page), ∃ cs, d.Lays cs ∧
      (d.set width indent mode rest page).text.toList = page.text.toList ++ cs
  | nil, _, _, _, page => ⟨[], .nil, by simp [set]⟩
  | text s, _, _, _, page => ⟨s.toList, .text s, by simp [set]⟩
  | append a b, indent, mode, rest, page => by
    obtain ⟨cs, ha, hcs⟩ := set_lays width a indent mode (fun col => b.fits width .broken rest col) page
    obtain ⟨ds, hb, hds⟩ := set_lays width b indent mode rest
      (a.set width indent mode (fun col => b.fits width .broken rest col) page)
    exact ⟨cs ++ ds, .append ha hb, by rw [set, hds, hcs, List.append_assoc]⟩
  | line, indent, mode, _, page => by
    cases mode with
    | flat => exact ⟨[' '], .space, by simp [set]⟩
    | broken => exact ⟨'\n' :: List.replicate indent ' ', .break indent, by simp [set]⟩
  | nest n d, indent, mode, rest, page => by
    obtain ⟨cs, hd, hcs⟩ := set_lays width d (indent + n) mode rest page
    exact ⟨cs, .nest hd, hcs⟩
  | group d, indent, mode, rest, page => by
    cases mode with
    | flat =>
      obtain ⟨cs, hd, hcs⟩ := set_lays width d indent .flat rest page
      exact ⟨cs, .group hd, hcs⟩
    | broken =>
      obtain ⟨cs, hd, hcs⟩ := set_lays width d indent
        (if d.fits width .flat rest page.column then .flat else .broken) rest page
      exact ⟨cs, .group hd, hcs⟩

theorem render_lays (width : Nat) (d : Doc) : d.Lays (d.render width).toList := by
  obtain ⟨cs, hd, hcs⟩ := d.set_lays width 0 .broken (fun _ => true) ⟨"", 0⟩
  rw [render, hcs]
  exact hd

/-! ## Words -/

/-- In every layout the document is scanned as the words, if no character follows that continues a
name or a number. -/
def Scans (d : Doc) (ws : List Word) : Prop :=
  ∀ cs, d.Lays cs → ∀ ds, Boundary ds → marks (cs ++ ds) = ws.map Piece.ofWord ++ marks ds

/-- The document is scanned as the words, whatever follows. -/
def Closes (d : Doc) (ws : List Word) : Prop :=
  ∀ cs, d.Lays cs → ∀ ds, marks (cs ++ ds) = ws.map Piece.ofWord ++ marks ds

/-- The document begins with a character that continues no name and no number. -/
def Opens (d : Doc) : Prop :=
  ∀ cs, d.Lays cs → ∀ ds, Boundary (cs ++ ds)

/-- The document begins with no character that continues a name or a number: it may be empty. -/
def Follows (d : Doc) : Prop :=
  ∀ cs, d.Lays cs → ∀ ds, Boundary ds → Boundary (cs ++ ds)

section

variable {a b d : Doc} {ws ws' : List Word} {n : Nat}

theorem lays_append {cs : List Char} :
    (a ++ b).Lays cs ↔ ∃ ds ds', a.Lays ds ∧ b.Lays ds' ∧ cs = ds ++ ds' := by
  constructor
  · intro h
    cases h with
    | append ha hb => exact ⟨_, _, ha, hb, rfl⟩
  · rintro ⟨ds, ds', ha, hb, rfl⟩
    exact .append ha hb

theorem Closes.scans (h : d.Closes ws) : d.Scans ws :=
  fun cs hcs ds _ => h cs hcs ds

theorem Opens.follows (h : d.Opens) : d.Follows :=
  fun cs hcs ds _ => h cs hcs ds

theorem Scans.append (ha : a.Scans ws) (hb : b.Scans ws') (ho : b.Follows) :
    (a ++ b).Scans (ws ++ ws') := by
  intro _ h ds hds
  obtain ⟨cs, cs', hcs, hcs', rfl⟩ := lays_append.mp h
  rw [List.append_assoc, ha cs hcs _ (ho cs' hcs' ds hds), hb cs' hcs' ds hds, List.map_append,
    List.append_assoc]

theorem Scans.append_closes (ha : a.Scans ws) (hb : b.Closes ws') (ho : b.Opens) :
    (a ++ b).Closes (ws ++ ws') := by
  intro _ h ds
  obtain ⟨cs, cs', hcs, hcs', rfl⟩ := lays_append.mp h
  rw [List.append_assoc, ha cs hcs _ (ho cs' hcs' ds), hb cs' hcs' ds, List.map_append,
    List.append_assoc]

theorem Closes.append_scans (ha : a.Closes ws) (hb : b.Scans ws') : (a ++ b).Scans (ws ++ ws') := by
  intro _ h ds hds
  obtain ⟨cs, cs', hcs, hcs', rfl⟩ := lays_append.mp h
  rw [List.append_assoc, ha cs hcs, hb cs' hcs' ds hds, List.map_append, List.append_assoc]

theorem Closes.append (ha : a.Closes ws) (hb : b.Closes ws') : (a ++ b).Closes (ws ++ ws') := by
  intro _ h ds
  obtain ⟨cs, cs', hcs, hcs', rfl⟩ := lays_append.mp h
  rw [List.append_assoc, ha cs hcs, hb cs' hcs' ds, List.map_append, List.append_assoc]

theorem Opens.append (ha : a.Opens) : (a ++ b).Opens := by
  intro _ h ds
  obtain ⟨cs, cs', hcs, _, rfl⟩ := lays_append.mp h
  rw [List.append_assoc]
  exact ha cs hcs _

theorem Follows.append (ha : a.Follows) (hb : b.Follows) : (a ++ b).Follows := by
  intro _ h ds hds
  obtain ⟨cs, cs', hcs, hcs', rfl⟩ := lays_append.mp h
  rw [List.append_assoc]
  exact ha cs hcs _ (hb cs' hcs' ds hds)

theorem Scans.nest (h : d.Scans ws) : (nest n d).Scans ws := by
  intro cs hcs
  cases hcs with
  | nest hcs => exact h cs hcs

theorem Opens.nest (h : d.Opens) : (nest n d).Opens := by
  intro cs hcs
  cases hcs with
  | nest hcs => exact h cs hcs

theorem Scans.group (h : d.Scans ws) : (group d).Scans ws := by
  intro cs hcs
  cases hcs with
  | group hcs => exact h cs hcs

theorem Closes.group (h : d.Closes ws) : (group d).Closes ws := by
  intro cs hcs
  cases hcs with
  | group hcs => exact h cs hcs

end

/-! ## Texts and lines -/

section

variable {s : String} {ws : List Word}

theorem scans_text (h : ∀ ds, Boundary ds → marks (s.toList ++ ds) = ws.map Piece.ofWord ++ marks ds) :
    (text s).Scans ws := by
  rintro cs ⟨⟩
  exact h

theorem closes_text (h : ∀ ds, marks (s.toList ++ ds) = ws.map Piece.ofWord ++ marks ds) :
    (text s).Closes ws := by
  rintro cs ⟨⟩
  exact h

theorem opens_text {c : Char} {cs : List Char} (hs : s.toList = c :: cs)
    (hc : isNameRest c = false) : (text s).Opens := by
  rintro cs ⟨⟩ ds
  rw [hs]
  exact boundary_cons.mpr hc

theorem closes_nil : nil.Closes [] := by
  rintro cs ⟨⟩ ds
  rfl

theorem follows_nil : nil.Follows := by
  rintro cs ⟨⟩ ds hds
  exact hds

theorem follows_concat {docs : List Doc} (h : ∀ d ∈ docs, d.Follows) : (concat docs).Follows := by
  induction docs with
  | nil => exact follows_nil
  | cons d docs ih =>
    have hdocs : ∀ d' ∈ docs, d'.Follows := fun d' hd' => h d' (List.mem_cons_of_mem d hd')
    exact (h d List.mem_cons_self).append (ih hdocs)

theorem opens_line : line.Opens := by
  intro cs hcs ds
  cases hcs with
  | space => exact boundary_cons.mpr rfl
  | «break» n => exact boundary_cons.mpr rfl

theorem closes_line : line.Closes [] := by
  intro cs hcs ds
  cases hcs with
  | space => exact marks_blank rfl ds
  | «break» n => exact (marks_blank rfl _).trans (marks_spaces n ds)

theorem scans_name {x : String} (hx : IsName x) : (text x).Scans [(.name, x)] :=
  scans_text fun _ hds => hx.marks_append hds

theorem scans_number (n : Nat) : (text (toString n)).Scans [(.number, toString n)] :=
  scans_text fun _ hds => marks_number hds

end

theorem closes_space : (text " ").Closes [] :=
  closes_text fun ds => marks_blank rfl ds

theorem opens_space : (text " ").Opens :=
  opens_text rfl rfl

theorem closes_openParen : (text "(").Closes [(.openParen, "(")] :=
  closes_text fun _ => marks_front rfl

theorem closes_closeParen : (text ")").Closes [(.closeParen, ")")] :=
  closes_text fun _ => marks_front rfl

theorem Scans.parens {d : Doc} {ws : List Word} (h : d.Scans ws) :
    (text "(" ++ d ++ text ")").Scans ((.openParen, "(") :: (ws ++ [(.closeParen, ")")])) :=
  (closes_openParen.append_scans h).append closes_closeParen.scans (opens_text rfl rfl).follows

/-! ## Sources -/

/-- A document that scans as words is laid out, in whatever way, as a source with these words. -/
theorem Scans.lexSource_lays {d : Doc} {ws : List Word} (h : d.Scans ws) {source : String}
    (hlays : d.Lays source.toList) (hsource : Countable source) :
    ∃ ts, lexSource source = .ok ts ∧ ts.map Lexeme.word = ws := by
  apply lexSource_eq_ok hsource
  have hmarks := h _ hlays [] boundary_nil
  rw [List.append_nil, show marks [] = [] by rw [marks, pieces]; rfl, List.append_nil] at hmarks
  exact hmarks

end TypeInType.Doc
