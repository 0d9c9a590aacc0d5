import TypeInType.Proofs.Token.LongestMatch

/-!
# Tokenisation

The items of a source are its longest matches, read from the left, and the characters at which no rule
matches; what lies between them is white space and comments. There is one list of such items, and it is the
one that scanning gives.
-/

namespace TypeInType

/-! ## Items of a source -/

/-- The bytes of an item. -/
def ScanItem.range : ScanItem → Range
  | lexeme l => l.range
  | stray r => r

/-- White space and comments, before the text `after`. A comment goes up to the end of its line. -/
inductive Skipped : List Char → List Char → Prop where
  | nil {after : List Char} : Skipped [] after
  | blank {c : Char} {skipped after : List Char} : isBlank c = true → Skipped skipped after →
      Skipped (c :: skipped) after
  | comment {w skipped after : List Char} : '\n' ∉ w → (∀ c ∈ (skipped ++ after).head?, c = '\n') →
      Skipped skipped after → Skipped ('/' :: '/' :: w ++ skipped) after

/-- The item is rightly read from the text at the front, where `after` follows. -/
def ScanItem.Fits (text after : List Char) : ScanItem → Prop
  | lexeme l => l.text.toList = text ∧ LongestMatch (text ++ after) (.token l.token) text
  | stray _ => (∃ c, text = [c]) ∧ NoMatch (text ++ after)

/-- The items of a text whose first byte has the number `n`, one after another. -/
inductive Tokenises : Nat → List Char → List ScanItem → Prop where
  | done {n : Nat} {skipped : List Char} : Skipped skipped [] → Tokenises n skipped []
  | item {n : Nat} {skipped text after : List Char} {i : ScanItem} {items : List ScanItem} :
      Skipped skipped (text ++ after) → i.Fits text after →
      i.range = ⟨n + byteLength skipped, n + byteLength skipped + byteLength text⟩ →
      Tokenises (n + byteLength skipped + byteLength text) after items →
      Tokenises n (skipped ++ (text ++ after)) (i :: items)

/-- Text that is skipped before the items of what follows. -/
theorem Tokenises.skip {n : Nat} {w cs : List Char} {items : List ScanItem}
    (hw : ∀ skipped after, skipped ++ after = cs → Skipped skipped after → Skipped (w ++ skipped) after)
    (h : Tokenises (n + byteLength w) cs items) : Tokenises n (w ++ cs) items := by
  cases h with
  | done hskipped => exact .done (hw _ [] (List.append_nil _) hskipped)
  | @item _ skipped text after _ _ hskipped hfits hrange hitems =>
    have hlength : n + byteLength w + byteLength skipped = n + byteLength (w ++ skipped) := by
      rw [byteLength_append, Nat.add_assoc]
    rw [hlength] at hrange hitems
    rw [← List.append_assoc]
    exact .item (hw _ _ rfl hskipped) hfits hrange hitems

/-- Scanning gives the items of the text. -/
theorem tokenises_place (cs : List Char) : ∀ n, Tokenises n cs (place n (pieces cs)) := by
  fun_induction pieces cs with
  | case1 => exact fun n => .done .nil
  | case2 c cs p ih =>
    intro n
    have hleads : p.1.Leads (c :: cs) := Piece.leads_front c cs
    have htext : p.1.text ++ p.2 = c :: cs := Piece.text_front c cs
    rw [← htext] at hleads ⊢
    clear_value p
    obtain ⟨p, rest⟩ := p
    cases p with
    | blank d =>
      cases hleads.matches_front with
      | blank hd => exact .skip (fun _ _ _ h => .blank hd h) (ih _)
    | comment text =>
      obtain ⟨w, rfl, hw, hend⟩ := LongestMatch.line hleads
      refine .skip (fun skipped after hcs h => ?_) (ih _)
      subst hcs
      exact .comment hw hend h
    | token k text =>
      have hfits : ScanItem.Fits text rest (.lexeme ⟨k, .ofList text, n⟩) := ⟨String.toList_ofList, hleads⟩
      refine .item .nil hfits ?_ (ih _)
      rw [ScanItem.range, Lexeme.range, String.toList_ofList]
      rfl
    | stray d =>
      have hfits : ScanItem.Fits [d] rest (.stray ⟨n, n + byteLength [d]⟩) := ⟨⟨d, rfl⟩, hleads⟩
      exact .item .nil hfits rfl (ih _)

/-- What is skipped adds no item. -/
theorem Skipped.place_eq {skipped after : List Char} (h : Skipped skipped after) : ∀ n,
    place n (pieces (skipped ++ after)) = place (n + byteLength skipped) (pieces after) := by
  induction h with
  | nil => exact fun n => rfl
  | @blank c skipped after hc _ ih =>
    intro n
    rw [List.cons_append, pieces, Piece.front_blank hc, byteLength_cons, ← Nat.add_assoc]
    exact ih _
  | @comment w skipped after hw hend _ ih =>
    intro n
    obtain ⟨p, hp, htext, hpieces⟩ := (longestMatch_line hw hend).pieces_eq
    rw [List.append_assoc, hpieces]
    cases p with
    | comment text =>
      cases htext
      rw [byteLength_append, ← Nat.add_assoc]
      exact ih _
    | token k text => cases hp
    | blank c => cases hp
    | stray c => cases hp

theorem Tokenises.eq_place {n : Nat} {cs : List Char} {items : List ScanItem} (h : Tokenises n cs items) :
    items = place n (pieces cs) := by
  induction h with
  | @done n skipped hskipped =>
    have hplace := hskipped.place_eq n
    rw [List.append_nil] at hplace
    rw [hplace, pieces]
    rfl
  | @item n skipped text after i items hskipped hfits hrange _ ih =>
    rw [hskipped.place_eq, ih]
    cases i with
    | lexeme l =>
      obtain ⟨hl, hlongest⟩ := hfits
      obtain ⟨p, hp, htext, hpieces⟩ := hlongest.pieces_eq
      rw [hpieces]
      cases p with
      | token k w =>
        cases hp
        obtain rfl : w = l.text.toList := htext.trans hl.symm
        cases htext
        injection hrange with hstart _
        rw [place, String.ofList_toList, ← hstart]
      | blank c => cases hp
      | comment w => cases hp
      | stray c => cases hp
    | stray r =>
      obtain ⟨⟨c, rfl⟩, hno⟩ := hfits
      have hpieces : pieces ([c] ++ after) = .stray c :: pieces after := NoMatch.pieces_eq hno
      cases hrange
      rw [hpieces]
      rfl

/-! ## Ranges of items -/

/-- In the text `cs` the range covers `text`, between `before` and `after`. -/
structure Range.Cuts (r : Range) (cs before text after : List Char) : Prop where
  eq : before ++ (text ++ after) = cs
  start : r.start = byteLength before
  stop : r.stop = byteLength before + byteLength text

/-- The ranges between `start` and `stop` that the given ones leave out, also those that are empty. -/
def gaps (start stop : Nat) : List Range → List Range
  | [] => [⟨start, stop⟩]
  | r :: rs => ⟨start, r.start⟩ :: gaps r.stop stop rs

/-- The source is cut into the items and what is skipped between them. -/
structure Tokenisation (source : String) (items : List ScanItem) : Prop where
  nonempty : ∀ i ∈ items, i.range.start < i.range.stop
  ordered : items.Pairwise fun i j => i.range.stop ≤ j.range.start
  skipped : ∀ g ∈ gaps 0 (byteLength source.toList) (items.map ScanItem.range), ∃ before text after,
    g.Cuts source.toList before text after ∧ Skipped text after
  fits : ∀ i ∈ items, ∃ before text after,
    i.range.Cuts source.toList before text after ∧ i.Fits text after

theorem ScanItem.Fits.ne_nil {i : ScanItem} {text after : List Char} (h : i.Fits text after) : text ≠ [] := by
  cases i with
  | lexeme l => exact h.2.matches_front.ne_nil
  | stray r =>
    obtain ⟨⟨c, rfl⟩, _⟩ := h
    exact List.cons_ne_nil c []

namespace Tokenises

theorem fits {n : Nat} {cs : List Char} {items : List ScanItem} (h : Tokenises n cs items) :
    ∀ before, byteLength before = n → ∀ i ∈ items, ∃ b text after,
      i.range.Cuts (before ++ cs) b text after ∧ i.Fits text after := by
  induction h with
  | done => exact fun _ _ i hi => absurd hi List.not_mem_nil
  | @item n skipped text after i items _ hfits hrange _ ih =>
    intro before hn j hj
    rcases List.mem_cons.mp hj with rfl | hj
    · refine ⟨before ++ skipped, text, after, ⟨?_, ?_, ?_⟩, hfits⟩ <;> simp [hrange, hn]
    · have hmore := ih (before ++ skipped ++ text) (by simp [hn, Nat.add_assoc]) j hj
      simpa only [List.append_assoc] using hmore

theorem ordered {n : Nat} {cs : List Char} {items : List ScanItem} (h : Tokenises n cs items) :
    (∀ i ∈ items, n ≤ i.range.start) ∧ items.Pairwise fun i j => i.range.stop ≤ j.range.start := by
  induction h with
  | done => exact ⟨fun i hi => absurd hi List.not_mem_nil, .nil⟩
  | @item n skipped text after i items _ _ hrange _ ih =>
    have hstart : i.range.start = n + byteLength skipped := by rw [hrange]
    have hstop : i.range.stop = n + byteLength skipped + byteLength text := by rw [hrange]
    refine ⟨fun j hj => ?_, .cons (fun j hj => ?_) ih.2⟩
    · rcases List.mem_cons.mp hj with rfl | hj
      · omega
      · have hj := ih.1 j hj
        omega
    · rw [hstop]
      exact ih.1 j hj

theorem skipped {n : Nat} {cs : List Char} {items : List ScanItem} (h : Tokenises n cs items) :
    ∀ before, byteLength before = n →
      ∀ g ∈ gaps n (byteLength (before ++ cs)) (items.map ScanItem.range), ∃ b text after,
        g.Cuts (before ++ cs) b text after ∧ Skipped text after := by
  induction h with
  | @done n skipped hskipped =>
    intro before hn g hg
    cases List.mem_singleton.mp hg
    exact ⟨before, skipped, [], ⟨by simp, hn.symm, by simp⟩, hskipped⟩
  | @item n skipped text after i items hskipped _ hrange _ ih =>
    intro before hn g hg
    rw [List.map_cons, gaps] at hg
    rcases List.mem_cons.mp hg with rfl | hg
    · exact ⟨before, skipped, text ++ after, ⟨rfl, hn.symm, by rw [hrange, hn]⟩, hskipped⟩
    · have hmore := ih (before ++ skipped ++ text) (by simp [hn, Nat.add_assoc]) g
      rw [hrange] at hg
      simpa only [List.append_assoc, hg, forall_const] using hmore

theorem tokenisation {source : String} {items : List ScanItem} (h : Tokenises 0 source.toList items) :
    Tokenisation source items where
  nonempty i hi := by
    obtain ⟨before, text, after, hcuts, hfits⟩ := h.fits [] rfl i hi
    rw [hcuts.start, hcuts.stop]
    exact Nat.lt_add_of_pos_right (byteLength_pos hfits.ne_nil)
  ordered := h.ordered.2
  skipped := h.skipped [] rfl
  fits := h.fits [] rfl

end Tokenises

/-- A place in a text is given by the number of bytes before it. -/
theorem eq_of_byteLength_eq : ∀ {before before' after after' : List Char},
    before ++ after = before' ++ after' → byteLength before = byteLength before' →
      before = before' ∧ after = after'
  | [], [], _, _, h, _ => ⟨rfl, h⟩
  | [], c :: _, _, _, _, hlength => absurd hlength (Nat.ne_of_lt (byteLength_pos (List.cons_ne_nil c _)))
  | c :: _, [], _, _, _, hlength =>
    absurd hlength.symm (Nat.ne_of_lt (byteLength_pos (List.cons_ne_nil c _)))
  | c :: before, d :: before', _, _, h, hlength => by
    injection h with hc h
    subst hc
    obtain ⟨rfl, hafter⟩ := eq_of_byteLength_eq h (Nat.add_left_cancel hlength)
    exact ⟨rfl, hafter⟩

theorem Range.Cuts.place {r : Range} {cs rest b text after : List Char} (h : r.Cuts cs b text after)
    (before : List Char) (hcs : before ++ rest = cs) (hr : r.start = byteLength before) :
    b = before ∧ text ++ after = rest :=
  eq_of_byteLength_eq (h.eq.trans hcs.symm) (h.start.symm.trans hr)

/-- The items are determined from the left: each begins where what is skipped before it ends. -/
theorem tokenises_of_cuts {cs : List Char} : ∀ {items : List ScanItem} (before : List Char) {rest : List Char},
    before ++ rest = cs →
      (∀ g ∈ gaps (byteLength before) (byteLength cs) (items.map ScanItem.range), ∃ b text after,
        g.Cuts cs b text after ∧ Skipped text after) →
      (∀ i ∈ items, ∃ b text after, i.range.Cuts cs b text after ∧ i.Fits text after) →
      Tokenises (byteLength before) rest items
  | [], before, rest, hcs, hskipped, _ => by
    obtain ⟨b, text, after, hcuts, htext⟩ := hskipped _ List.mem_cons_self
    obtain ⟨rfl, rfl⟩ := hcuts.place before hcs rfl
    have hstop : byteLength cs = byteLength b + byteLength text := hcuts.stop
    have hafter : after = [] := by
      refine Decidable.byContradiction fun hne => ?_
      have hpos := byteLength_pos hne
      rw [← hcs, byteLength_append, byteLength_append] at hstop
      omega
    subst hafter
    rw [List.append_nil]
    exact .done htext
  | i :: items, before, rest, hcs, hskipped, hfits => by
    rw [List.map_cons, gaps, List.forall_mem_cons] at hskipped
    rw [List.forall_mem_cons] at hfits
    obtain ⟨⟨b, skipped, r, hcuts, hskip⟩, hskipped⟩ := hskipped
    obtain ⟨⟨b', text, after, hcuts', hfit⟩, hfits⟩ := hfits
    obtain ⟨rfl, rfl⟩ := hcuts.place before hcs rfl
    have hstart : i.range.start = byteLength b + byteLength skipped := hcuts.stop
    obtain ⟨rfl, rfl⟩ := hcuts'.place (b ++ skipped) (by rw [List.append_assoc, hcs])
      (by rw [hstart, byteLength_append])
    have hstop : i.range.stop = byteLength b + byteLength skipped + byteLength text := by
      rw [hcuts'.stop, byteLength_append]
    have hlength : byteLength (b ++ skipped ++ text) = byteLength b + byteLength skipped + byteLength text := by
      rw [byteLength_append, byteLength_append]
    have hitems : Tokenises (byteLength (b ++ skipped ++ text)) after items :=
      tokenises_of_cuts _ (by simpa only [List.append_assoc] using hcs) (by rwa [hlength, ← hstop]) hfits
    rw [hlength] at hitems
    exact .item hskip hfit (by rw [← hstop, ← hstart]) hitems

/-- The items of a text are the one way to cut it. -/
theorem tokenisation_iff {source : String} {items : List ScanItem} :
    Tokenisation source items ↔ items = scan source := by
  constructor
  · intro h
    exact (tokenises_of_cuts [] (List.nil_append _) h.skipped h.fits).eq_place
  · rintro rfl
    exact (tokenises_place source.toList 0).tokenisation

/-- Scanning gives the one way to cut the source, if its positions can be counted; otherwise it gives no
items at all. -/
theorem tokenisation_iff_scan (source : String) (items : List ScanItem) :
    (Tokenisation source items ↔ items = scan source) ∧
      (scanSource source = .ok items ↔ Countable source ∧ Tokenisation source items) ∧
      (¬Countable source → scanSource source = .abort .sourceTooLong) := by
  refine ⟨tokenisation_iff, ?_, scanSource_of_not_countable⟩
  by_cases hsource : Countable source
  · rw [scanSource_of_countable hsource, tokenisation_iff, and_iff_right hsource, Except.ok.injEq,
      eq_comm]
  · rw [scanSource_of_not_countable hsource]
    constructor
    · intro h
      cases h
    · intro h
      exact absurd h.1 hsource

/-- One space more than can be counted: scanning stops, and gives no items to cut the source by. -/
theorem spaces_not_scanned :
    let source := String.ofList (List.replicate 4294967296 ' ')
    scanSource source = .abort .sourceTooLong ∧
      ¬∃ items, scanSource source = .ok items ∧ Tokenisation source items := by
  intro source
  have hlong : ¬Countable source := by
    rw [countable_spaces]
    decide
  have habort := scanSource_of_not_countable hlong
  refine ⟨habort, ?_⟩
  rintro ⟨items, hitems, _⟩
  cases habort.symm.trans hitems

end TypeInType
