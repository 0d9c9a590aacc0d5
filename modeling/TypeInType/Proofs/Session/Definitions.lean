import Mathlib.Data.List.Flatten
import TypeInType.Proofs.Expr.Concatenation
import TypeInType.Proofs.Session.Declarations
import TypeInType.Proofs.Token.LongestMatch
import TypeInType.Proofs.Value.Fuel
import TypeInType.Session.Interact

/-!
# What a defined name means

The answer to a definition shows a normal form and a type. A request for the name shows the same two as
long as no later declaration takes the name, whatever else is declared, unless the name is that of a
former: then a source means the former by it.
-/

namespace TypeInType

open Grammar

/-! ## Names that are read -/

theorem isName_of_mem_pieces {text cs : List Char} (h : .token .name text ∈ pieces cs) :
    IsName (String.ofList text) := by
  fun_induction pieces cs with
  | case1 => cases h
  | case2 c cs p ih =>
    rcases List.mem_cons.mp h with h | h
    · have hfront : Piece.front c cs = (.token .name text, p.2) := Prod.ext h.symm rfl
      obtain ⟨hc, rfl, hname⟩ := Piece.front_eq_name hfront
      refine isName_iff.mpr ⟨c, cs.takeWhile isNameRest, String.toList_ofList, hc, ?_, hname⟩
      exact List.all_eq_true.mp List.all_takeWhile
    · exact ih h

theorem mem_of_lexeme_mem_place {l : Lexeme} {start : Nat} {ps : List Piece}
    (h : .lexeme l ∈ place start ps) : ∃ text, .token l.token text ∈ ps ∧ l.text = String.ofList text := by
  induction ps generalizing start with
  | nil => cases h
  | cons p ps ih =>
    have htail : ∀ {start}, .lexeme l ∈ place start ps →
        ∃ text, .token l.token text ∈ p :: ps ∧ l.text = String.ofList text := by
      intro start h
      obtain ⟨text, hmem, htext⟩ := ih h
      exact ⟨text, List.mem_cons_of_mem _ hmem, htext⟩
    cases p with
    | blank c => exact htail h
    | comment text => exact htail h
    | token k text =>
      rcases List.mem_cons.mp h with h | h
      · cases h
        exact ⟨text, List.mem_cons_self, rfl⟩
      · exact htail h
    | stray c =>
      rcases List.mem_cons.mp h with h | h
      · cases h
      · exact htail h

theorem isName_of_mem_lexSource {source : String} {ts : List Lexeme} (h : lexSource source = .ok ts)
    (l : Lex .name) (hl : l.1 ∈ ts) : IsName l.1.text := by
  have hmem : .lexeme l.1 ∈ scan source := by
    rw [(lexSource_eq_ok_iff.mp h).2]
    exact List.mem_map_of_mem hl
  obtain ⟨text, hpiece, htext⟩ := mem_of_lexeme_mem_place hmem
  rw [l.2] at hpiece
  rw [htext]
  exact isName_of_mem_pieces hpiece

/-- A name that a source defines is scanned as one name. -/
theorem isName_of_readProgram {source : String} {ds : List Decl} (h : readProgram source = .ok ds)
    {r : Range} {x : Ident} {e : Expr} (hd : .define r x e ∈ ds) : IsName x.name := by
  obtain ⟨p, hp, rfl⟩ := readProgram_eq_ok.mp h
  obtain ⟨d, hdp, hd⟩ := List.mem_map.mp hd
  cases d with
  | postulate _ _ _ _ => cases hd
  | check _ _ => cases hd
  | define word name equals expr =>
    cases hd
    refine isName_of_mem_lexSource hp name (List.mem_flatMap.mpr ⟨_, hdp, ?_⟩)
    exact List.mem_cons_of_mem _ List.mem_cons_self

/-- Interactive input with more than one expression is a source. -/
theorem readProgram_of_readInput {source : String} {ds : List Decl} (h : readInput source = .ok ds) :
    readProgram source = .ok ds ∨ ∃ e, ds = [.expr e] := by
  obtain ⟨ts, hts, h⟩ := Run.bind_eq_ok.mp h
  rw [Run.ofExcept_eq_ok, Read.input] at h
  split at h
  · rw [readProgram, readSource_of_lexSource hts, Run.ofExcept_eq_ok]
    exact .inl h
  · cases hterm : Read.term (byteLength source.toList) ts with
    | error e =>
      rw [hterm] at h
      cases h
    | ok e =>
      rw [hterm] at h
      cases h
      exact .inr ⟨e, rfl⟩

/-! ## The length of a name that is read -/

/-- The texts of lexemes, one after another. -/
def texts (ts : List Lexeme) : List Char :=
  ts.flatMap fun l => l.text.toList

theorem texts_sublist_place {ps : List Piece} {start : Nat} {ts : List Lexeme}
    (h : place start ps = ts.map .lexeme) : (texts ts).Sublist (ps.map Piece.text).flatten := by
  induction ps generalizing start ts with
  | nil =>
    cases ts with
    | nil => exact .slnil
    | cons t ts => cases h
  | cons p ps ih =>
    rw [List.map_cons, List.flatten_cons]
    cases p with
    | blank c => exact (ih h).trans (List.sublist_append_right _ _)
    | comment text => exact (ih h).trans (List.sublist_append_right _ _)
    | stray c =>
      cases ts with
      | nil => cases h
      | cons t ts => cases List.head_eq_of_cons_eq h
    | token k text =>
      cases ts with
      | nil => cases h
      | cons t ts =>
        cases List.head_eq_of_cons_eq h
        rw [texts, List.flatMap_cons, String.toList_ofList]
        exact (ih (List.tail_eq_of_cons_eq h)).append_left text

theorem texts_sublist {source : String} {ts : List Lexeme} (h : scan source = ts.map .lexeme) :
    (texts ts).Sublist source.toList := by
  have hplace := texts_sublist_place h
  rwa [flatten_pieces] at hplace

theorem matches_of_mem_pieces {k : Token} {text cs : List Char} (h : .token k text ∈ pieces cs) :
    Rule.Matches (.token k) text := by
  fun_induction pieces cs with
  | case1 => cases h
  | case2 c cs p ih =>
    rcases List.mem_cons.mp h with h | h
    · have hleads : p.1.Leads (c :: cs) := Piece.leads_front c cs
      rw [← h] at hleads
      exact hleads.matches_front
    · exact ih h

theorem matches_of_mem_scan {source : String} {l : Lexeme} (h : .lexeme l ∈ scan source) :
    Rule.Matches (.token l.token) l.text.toList := by
  obtain ⟨text, hpiece, htext⟩ := mem_of_lexeme_mem_place h
  rw [htext, String.toList_ofList]
  exact matches_of_mem_pieces hpiece

/-- The word of a definition has as many bytes as that of a request. -/
theorem byteLength_of_defunWord {w : List Char} (h : Rule.Matches (.token .defunWord) w) :
    byteLength w = 5 := by
  cases h with
  | @literal _ s hmem =>
    have hliterals : ∀ p ∈ literals, p.1 = .defunWord → byteLength p.2.toList = 5 := by decide
    exact hliterals _ hmem rfl

/-- A source that defines a name is longer than a request for it. -/
theorem countable_check_of_readProgram {source : String} {ds : List Decl}
    (h : readProgram source = .ok ds) {r : Range} {x : Ident} {e : Expr} (hd : .define r x e ∈ ds) :
    Countable ("check " ++ x.name) := by
  obtain ⟨p, hp, rfl⟩ := readProgram_eq_ok.mp h
  obtain ⟨d, hdp, hd⟩ := List.mem_map.mp hd
  cases d with
  | postulate _ _ _ _ => cases hd
  | check _ _ => cases hd
  | define word name equals expr =>
    cases hd
    obtain ⟨hsource, hscan⟩ := lexSource_eq_ok_iff.mp hp
    have hyield : (word.1 :: name.1 :: equals.1 :: expr.yield).Sublist (programYield p) :=
      List.sublist_flatten_of_mem (List.mem_map_of_mem hdp)
    have hmatches : ∀ l ∈ word.1 :: name.1 :: equals.1 :: expr.yield,
        Rule.Matches (.token l.token) l.text.toList := by
      intro l hl
      have hmem : .lexeme l ∈ scan source := by
        rw [hscan]
        exact List.mem_map_of_mem (hyield.subset hl)
      exact matches_of_mem_scan hmem
    have hword : byteLength word.1.text.toList = 5 := by
      refine byteLength_of_defunWord ?_
      have h := hmatches word.1 List.mem_cons_self
      rwa [word.2] at h
    have hequals : 0 < byteLength equals.1.text.toList := by
      refine byteLength_pos ?_
      exact (hmatches equals.1
        (List.mem_cons_of_mem _ (List.mem_cons_of_mem _ List.mem_cons_self))).ne_nil
    have htexts := byteLength_le_of_sublist ((hyield.flatMap _).trans (texts_sublist hscan))
    have hcheck : byteLength ("check " : String).toList = 6 := by decide
    simp only [List.flatMap_cons, byteLength_append] at htexts
    simp only [Countable, String.toList_append, byteLength_append] at hsource ⊢
    show _ + byteLength name.1.text.toList ≤ _
    omega

/-- The declaration stands in a source, or in an interactive input. -/
def Decl.Written (d : Decl) : Prop :=
  ∃ text ds, (readProgram text = .ok ds ∨ readInput text = .ok ds) ∧ d ∈ ds

theorem Decl.Written.readProgram {r : Range} {x : Ident} {e : Expr}
    (h : (Decl.define r x e).Written) :
    ∃ text ds, readProgram text = .ok ds ∧ .define r x e ∈ ds := by
  obtain ⟨text, ds, hread | hread, hd⟩ := h
  · exact ⟨text, ds, hread, hd⟩
  · rcases readProgram_of_readInput hread with hread | ⟨e', rfl⟩
    · exact ⟨text, ds, hread, hd⟩
    · cases List.mem_singleton.mp hd

/-! ## Requests for a name -/

theorem lexSource_check {x : String} (hx : IsName x) (hcheck : Countable ("check " ++ x)) :
    ∃ (word : Lex .checkWord) (name : Lex .name), lexSource ("check " ++ x) = .ok [word.1, name.1] ∧ name.1.text = x := by
  have hmarks : marks ("check " ++ x).toList =
      [(Token.checkWord, "check"), (Token.name, x)].map Piece.ofWord := by
    have hlist : ("check " ++ x).toList = 'c' :: (['h', 'e', 'c', 'k'] ++ ' ' :: (x.toList ++ [])) := by
      simp
    have hword := @Piece.front_word 'c' ['h', 'e', 'c', 'k'] (' ' :: (x.toList ++ [])) rfl
      (List.all_eq_true.mp rfl) (boundary_cons.mpr rfl)
    have hnil : marks [] = [] := by
      rw [marks, pieces]
      rfl
    rw [hlist, marks_front hword, marks_blank rfl, hx.marks_append boundary_nil, hnil]
    rfl
  obtain ⟨ts, hts, hwords⟩ := lexSource_eq_ok hcheck hmarks
  obtain ⟨word, ts, rfl, hword, hwords⟩ := List.map_eq_cons_iff.mp hwords
  obtain ⟨name, ts, rfl, hname, hwords⟩ := List.map_eq_cons_iff.mp hwords
  rw [List.map_eq_nil_iff] at hwords
  subst hwords
  injection hword with hword _
  injection hname with hname htext
  exact ⟨⟨word, hword⟩, ⟨name, hname⟩, hts, htext⟩

/-- A request for a name reads as such. -/
theorem readProgram_check {x : String} (hx : IsName x) (hcheck : Countable ("check " ++ x)) :
    ∃ r r', readProgram ("check " ++ x) = .ok [.check r (.var r' x)] ∧
      readInput ("check " ++ x) = .ok [.check r (.var r' x)] := by
  obtain ⟨word, name, hts, rfl⟩ := lexSource_check hx hcheck
  let d : DeclTree := .check word (.mk (.app (.mk (.name name) .nil)) .nil)
  have hread : readProgram ("check " ++ name.1.text) = .ok [d.denote] :=
    readProgram_eq_ok.mpr ⟨[d], hts, rfl⟩
  refine ⟨_, _, hread, ?_⟩
  have hstarts : ([word.1, name.1].head?.any fun t => t.token.startsDecl) = true := by
    show word.1.token.startsDecl = true
    rw [word.2]
    rfl
  refine Eq.trans ?_ hread
  rw [readInput, readProgram, readSource_of_lexSource hts, readSource_of_lexSource hts]
  exact congrArg Run.ofExcept (if_pos hstarts)

namespace Session

/-- The session answers a request for the name with the term and the type, however it is put. -/
structure Shows (s : Session) (x : String) (term type : Check) : Prop where
  declaration : ∀ file r r', s.declare file (.check r (.var r' x)) =
    .ok (s.signature, s.layout (typedDoc term type))
  source : ∀ name, ∃ s', s.checkSource name ("check " ++ x) =
    .ok ⟨s', s.layout (typedDoc term type), ""⟩
  input : ∃ s', s.processInput ("check " ++ x) = .ok ⟨s', s.layout (typedDoc term type), ""⟩

/-- The request is put in a source after the source has been loaded. -/
theorem declareAll_check {s : Session} {d : Decl} {out : String} {keepGoing : Bool} {file : Nat}
    (h : s.declare file d = .ok (s.signature, out)) :
    declareAll keepGoing file s [d] = .ok ⟨s, out, ""⟩ := by
  simp only [declareAll, h]
  show Except.ok (Reply.mk s (out ++ "") ("" ++ "")) = _
  rw [String.append_empty, String.append_empty]

section Names

variable {s : Session} {x : String} {e : Entry} {term type : Check}

/-- A name of the signature that no former has elaborates to itself. -/
theorem elaborate_name (hvoc : Vocabulary.builtin.find? x = none) (file : Nat) (r : Range) :
    elaborate file (.var r x) = .ok (.free (Elaborate.span file r) (.global x)) := by
  have hname : Elaborate.name file .builtin [] r 0 r x =
      .ok (.term (.synth (.free (Elaborate.span file r) (.global x)))) := by
    simp only [Elaborate.name, List.findIdx?_nil, hvoc]
    rfl
  show ((Elaborate.name file .builtin [] r 0 r x >>= Head.finish) >>= Check.inferable).mapRefused
    Complaint.elaboration = _
  rw [hname]
  rfl

/-- A name of the signature has the value and the type of its entry. -/
theorem infer_name (hvoc : Vocabulary.builtin.find? x = none) (hx : s.signature.find? x = some e)
    (hfuel : 0 < s.fuel) (file : Nat) (r : Range) :
    s.infer file (.var r x) = .ok (e.value, e.type) := by
  obtain ⟨fuel, hfuel⟩ := Nat.exists_eq_succ_of_ne_zero (Nat.ne_of_gt hfuel)
  have htype : (Synth.free (Elaborate.span file r) (.global x)).infer s.fuel s.context =
      .ok e.type := by
    have hfind : s.context.signature.type? x = some e.type := congrArg (Option.map Entry.type) hx
    rw [hfuel]
    simp only [Synth.infer, Context.lookup, hfind]
    rfl
  have hvalue : (Synth.free (Elaborate.span file r) (.global x)).eval s.fuel (s.context.env []) =
      .ok e.value := by
    have hfind : (s.context.env []).global? x = some e.value := by
      show s.signature.values.lookup x = _
      rw [Signature.lookup_values, hx]
      rfl
    rw [hfuel]
    simp only [Synth.eval, hfind]
    rfl
  apply Run.bind_eq_ok.mpr
  refine ⟨_, elaborate_name hvoc file r, Run.bind_eq_ok.mpr ?_⟩
  refine ⟨_, Run.mapRefused_eq_ok.mpr htype, Run.bind_eq_ok.mpr ?_⟩
  exact ⟨_, Run.widen_eq_ok.mpr hvalue, rfl⟩

/-- A name of the signature is answered with the normal forms of its value and its type. -/
theorem declare_name (hvoc : Vocabulary.builtin.find? x = none) (hx : s.signature.find? x = some e)
    (hterm : s.context.quote s.fuel e.value = .ok term)
    (htype : s.context.quote s.fuel e.type = .ok type) (file : Nat) (r r' : Range) :
    s.declare file (.check r (.var r' x)) = .ok (s.signature, s.layout (typedDoc term type)) := by
  have hfuel : 0 < s.fuel := by
    apply Nat.pos_of_ne_zero
    intro hzero
    rw [hzero] at hterm
    cases hterm
  have hevaluate : s.evaluate file (.var r' x) = .ok (s.layout (typedDoc term type)) := by
    apply Run.bind_eq_ok.mpr
    refine ⟨_, infer_name hvoc hx hfuel file r', Run.bind_eq_ok.mpr ?_⟩
    refine ⟨_, Run.widen_eq_ok.mpr hterm, Run.bind_eq_ok.mpr ?_⟩
    exact ⟨_, Run.widen_eq_ok.mpr htype, rfl⟩
  exact Run.bind_eq_ok.mpr ⟨_, hevaluate, rfl⟩

/-- A name that sources can spell is answered in every way of asking. -/
theorem shows_name (hname : IsName x) (hcheck : Countable ("check " ++ x))
    (hvoc : Vocabulary.builtin.find? x = none)
    (hx : s.signature.find? x = some e) (hterm : s.context.quote s.fuel e.value = .ok term)
    (htype : s.context.quote s.fuel e.type = .ok type) : s.Shows x term type := by
  obtain ⟨r, r', hread, hinput⟩ := readProgram_check hname hcheck
  refine ⟨declare_name hvoc hx hterm htype, fun name => ?_, ?_⟩
  · let loaded := s.load name ("check " ++ x)
    have hdeclare := declare_name (s := loaded.1) hvoc hx hterm htype loaded.2 r r'
    simp only [checkSource, hread]
    exact ⟨_, declareAll_check hdeclare⟩
  · let loaded := load { s with inputs := s.inputs + 1 }
      ("<repl:" ++ toString (s.inputs + 1) ++ ">") ("check " ++ x)
    have hdeclare := declare_name (s := loaded.1) hvoc hx hterm htype loaded.2 r r'
    simp only [processInput, hinput]
    exact ⟨_, declareAll_check hdeclare⟩

end Names

/-! ## Definitions -/

/-- The session goes on from the first state to the second. All declarations that it accepts on the way
leave `x` alone; in between, anything may change but the signature, and the fuel may only grow. -/
inductive Proceeds (x : String) (s : Session) : Session → Prop where
  | start : Proceeds x s s
  | declare {s' : Session} {file : Nat} {d : Decl} {sig : Signature} {out : String} :
      Proceeds x s s' → s'.declare file d = .ok (sig, out) → x ∉ d.names →
      Proceeds x s { s' with signature := sig }
  | adjust {s' s'' : Session} : Proceeds x s s' → s''.signature = s'.signature →
      s'.fuel ≤ s''.fuel → Proceeds x s s''

/-- The name keeps its entry. -/
theorem Proceeds.keeps {x : String} {s s' : Session} (h : Proceeds x s s') :
    s'.signature.find? x = s.signature.find? x ∧ s.fuel ≤ s'.fuel := by
  induction h with
  | start => exact ⟨rfl, Nat.le_refl _⟩
  | declare _ hd hx ih => exact ⟨((declare_commits hd).frame hx).trans ih.1, ih.2⟩
  | adjust _ hsig hfuel ih =>
    rw [hsig]
    exact ⟨ih.1, Nat.le_trans ih.2 hfuel⟩

/-- What the answer to a definition shows is the normal form of the value that is declared, and of its
type. -/
theorem declare_define {s : Session} {file : Nat} {r : Range} {x : Ident} {e : Expr}
    {sig : Signature} {out : String} (h : s.declare file (.define r x e) = .ok (sig, out)) :
    ∃ v T term type, sig = s.signature.define x.name v T ∧ s.context.quote s.fuel v = .ok term ∧
      s.context.quote s.fuel T = .ok type ∧
      out = s.layout (introduce ("defined " ++ x.name ++ " =") (typedDoc term type)) := by
  simp only [Session.declare] at h
  obtain ⟨⟨v, T⟩, _, h⟩ := Run.bind_eq_ok.mp h
  obtain ⟨term, hterm, h⟩ := Run.bind_eq_ok.mp h
  obtain ⟨type, htype, h⟩ := Run.bind_eq_ok.mp h
  cases h
  exact ⟨v, T, term, type, rfl, Run.widen_eq_ok.mp hterm, Run.widen_eq_ok.mp htype, rfl⟩

/-- A definition that a session accepts shows a normal form and a type. As long as the name is not
declared again, a request for it shows the same two, unless it is the name of a former. -/
theorem declare_define_shows {s : Session} {file : Nat} {r : Range} {x : Ident} {e : Expr}
    {sig : Signature} {out : String} (hwritten : (Decl.define r x e).Written)
    (hvoc : Vocabulary.builtin.find? x.name = none)
    (h : s.declare file (.define r x e) = .ok (sig, out)) :
    ∃ term type,
      out = s.layout (introduce ("defined " ++ x.name ++ " =") (typedDoc term type)) ∧
      ∀ s', Proceeds x.name { s with signature := sig } s' → s'.Shows x.name term type := by
  obtain ⟨v, T, term, type, rfl, hterm, htype, hout⟩ := declare_define h
  refine ⟨term, type, hout, fun s' hs' => ?_⟩
  obtain ⟨hfind, hfuel⟩ := hs'.keeps
  have hentry : s'.signature.find? x.name = some ⟨x.name, v, T⟩ := by
    rw [hfind, Signature.find?_define, if_pos rfl]
  obtain ⟨text, ds, hread, hd⟩ := hwritten.readProgram
  exact shows_name (isName_of_readProgram hread hd) (countable_check_of_readProgram hread hd) hvoc
    hentry (Value.quote_mono hfuel hterm) (Value.quote_mono hfuel htype)

/-- `one` is shown as it has been defined after an axiom. -/
theorem define_one_shows :
    let s := { initial with fuel := 20 }
    let d := Decl.define ⟨0, 13⟩ ⟨⟨6, 9⟩, "one"⟩ (.number ⟨12, 13⟩ 1)
    let d' := Decl.postulate ⟨0, 11⟩ [⟨⟨6, 7⟩, "A"⟩] (.star ⟨10, 11⟩)
    ∃ sig sig' out out' term type, d.Written ∧ s.declare 1 d = .ok (sig, out) ∧
      { s with signature := sig }.declare 2 d' = .ok (sig', out') ∧
      out = s.layout (introduce ("defined " ++ "one" ++ " =") (typedDoc term type)) ∧
      { s with signature := sig' }.Shows "one" term type := by
  intro s d d'
  let one : Grammar.ExprTree := .mk (.app (.mk (.number ⟨⟨.number, "1", 12⟩, rfl, by decide⟩) .nil)) .nil
  have hread : readProgram "defun one = 1" = .ok [d] :=
    readProgram_eq_ok.mpr ⟨[.define (.at .defunWord "defun" 0) (.at .name "one" 6)
      (.at .equals "=" 10) one], lexSource_eq_ok_iff.mpr (by decide +kernel), by decide +kernel⟩
  have hwritten : d.Written := ⟨_, _, .inl hread, List.mem_singleton.mpr rfl⟩
  have hd : s.declare 1 d = .ok (_, _) := rfl
  let s₁ := { s with signature := s.signature.define "one" (.succ .zero) .nat }
  have hd' : s₁.declare 2 d' = .ok (_, _) := rfl
  have hnext : Proceeds "one" s₁ _ := .declare .start hd' (by decide)
  obtain ⟨term, type, hout, hshows⟩ := declare_define_shows hwritten rfl hd
  exact ⟨_, _, _, _, term, type, hwritten, hd, hd', hout, hshows _ hnext⟩

/-- A definition of `Nat` is accepted, but a request for `Nat` shows the former. -/
theorem define_nat_not_shows :
    let d := Decl.define ⟨0, 13⟩ ⟨⟨6, 9⟩, "Nat"⟩ (.number ⟨12, 13⟩ 0)
    ∃ sig term type, d.Written ∧ initial.declare 1 d =
        .ok (sig, initial.layout (introduce ("defined " ++ "Nat" ++ " =") (typedDoc term type))) ∧
      ¬ { initial with signature := sig }.Shows "Nat" term type := by
  intro d
  let zero : Grammar.ExprTree := .mk (.app (.mk (.number ⟨⟨.number, "0", 12⟩, rfl, by decide⟩) .nil)) .nil
  have hread : readProgram "defun Nat = 0" = .ok [d] :=
    readProgram_eq_ok.mpr ⟨[.define (.at .defunWord "defun" 0) (.at .name "Nat" 6)
      (.at .equals "=" 10) zero], lexSource_eq_ok_iff.mpr (by decide +kernel), by decide +kernel⟩
  refine ⟨_, _, _, ⟨_, _, .inl hread, List.mem_singleton.mpr rfl⟩, rfl, fun h => ?_⟩
  have hanswer := h.declaration 2 ⟨0, 9⟩ ⟨6, 9⟩
  injection hanswer with hanswer
  injection hanswer with _ hanswer
  revert hanswer
  decide +kernel

end Session

end TypeInType
