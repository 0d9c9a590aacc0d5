import TypeInType.Proofs.Expr.Reading
import TypeInType.Proofs.Layout
import TypeInType.Proofs.Term.FreshName
import TypeInType.Proofs.Term.Identification
import TypeInType.Term.Print

/-!
# Phrases that read back

How the documents of the parts of a term combine: in every layout a document is scanned as the same
words, these are a phrase of the grammar, and the expression of the phrase elaborates to the term.
-/

namespace TypeInType

open Grammar

/-! ## Phrases -/

/-- The lexemes are a phrase that may stand in the place, and denote the expression. -/
def Prec.Derives : Prec → List Lexeme → Expr → Prop
  | .top, ts, e => ∃ d : ExprTree, d.yield = ts ∧ d.denote = e
  | .arrow, ts, e => ∃ d : ArrowTree, d.yield = ts ∧ d.denote = e
  | .app, ts, e => ∃ d : AppTree, d.yield = ts ∧ d.denote = e
  | .atom, ts, e => ∃ d : AtomTree, d.yield = ts ∧ d.denote = e

namespace Prec.Derives

variable {ts : List Lexeme} {e : Expr}

theorem app_of_atom : Derives .atom ts e → Derives .app ts e
  | ⟨d, hts, he⟩ => ⟨.mk d .nil, by rw [AppTree.yield, ArgsTree.yield, List.append_nil, hts], he⟩

theorem arrow_of_app : Derives .app ts e → Derives .arrow ts e
  | ⟨d, hts, he⟩ => ⟨.app d, hts, he⟩

theorem top_of_arrow : Derives .arrow ts e → Derives .top ts e
  | ⟨d, hts, he⟩ => ⟨.mk d .nil, by rw [ExprTree.yield, TypesTree.yield, List.append_nil, hts], he⟩

/-- A phrase may stand where a looser one may. -/
theorem loosen {p q : Prec} (hpq : p.level ≤ q.level) (h : q.Derives ts e) : p.Derives ts e := by
  cases q with
  | top =>
    cases p with
    | top => exact h
    | _ => exact absurd hpq (by decide)
  | arrow =>
    cases p with
    | top => exact h.top_of_arrow
    | arrow => exact h
    | _ => exact absurd hpq (by decide)
  | app =>
    cases p with
    | top => exact h.arrow_of_app.top_of_arrow
    | arrow => exact h.arrow_of_app
    | app => exact h
    | atom => exact absurd hpq (by decide)
  | atom =>
    cases p with
    | top => exact h.app_of_atom.arrow_of_app.top_of_arrow
    | arrow => exact h.app_of_atom.arrow_of_app
    | app => exact h.app_of_atom
    | atom => exact h

theorem parens (left : Lex .openParen) (right : Lex .closeParen) (h : Derives .top ts e) :
    Derives .atom (left.1 :: (ts ++ [right.1])) e := by
  obtain ⟨d, rfl, rfl⟩ := h
  exact ⟨.paren left d right, rfl, rfl⟩

end Prec.Derives

/-! ## Elaboration of phrases -/

namespace Expr

variable (file : Nat) (scope : List (Option String))

/-- The expression elaborates to the term, whatever it is applied to. -/
def Elaborates (e : Expr) (t : Check) : Prop :=
  ∀ whole args, Elaborate.head file .builtin scope whole args e = .ok (.term t)

/-- The expression is a former with some operands, if it is applied to as many arguments as the former
waits for. -/
def Awaits (e : Expr) (spec : FormerSpec) (operands : List Operand) (kinds : List OperandKind) :
    Prop :=
  ∃ span, ∀ whole args, kinds.length ≤ args →
    Elaborate.head file .builtin scope whole args e = Head.ofFormer spec span operands kinds

variable {file scope} {r : Range} {e f a d c b : Expr} {e' t' d' c' b' a' : Check} {u : Synth}

theorem elaborates_star : Elaborates file scope (.star r) (.synth (.star (Elaborate.span file r))) :=
  fun _ _ => rfl

theorem Elaborates.ann {t : Expr} (he : Elaborates file scope e e') (ht : Elaborates file scope t t') :
    Elaborates file scope (.ann r e t) (.synth (.ann (Elaborate.span file r) e' t')) := by
  intro whole args
  simp only [Elaborate.head, he e.range 0, ht t.range 0]
  rfl

theorem Elaborates.pi {x : Option Ident} (hd : Elaborates file scope d d')
    (hc : Elaborates file (x.map Ident.name :: scope) c c') : Elaborates file scope (.pi r x d c)
      (.synth (.pi (Elaborate.span file r) (x.map Ident.name) d' c')) := by
  intro whole args
  simp only [Elaborate.head, hd d.range 0, hc c.range 0]
  rfl

theorem Elaborates.lam {x : Ident} (hb : Elaborates file (some x.name :: scope) b b') :
    Elaborates file scope (.lam r x b) (.lam (Elaborate.span file r) (some x.name) b') := by
  intro whole args
  simp only [Elaborate.head, hb b.range 0]
  rfl

theorem Elaborates.app (hf : Elaborates file scope f (.synth u)) (ha : Elaborates file scope a a') :
    Elaborates file scope (.app r f a) (.synth (.app (Elaborate.span file r) u a')) := by
  intro whole args
  simp only [Elaborate.head, hf whole (args + 1), ha a.range 0]
  rfl

theorem elaborates_bound {x : String} {i : Nat} (hx : scope.findIdx? (· == some x) = some i) :
    Elaborates file scope (.var r x) (.synth (.bound (Elaborate.span file r) i)) := by
  intro whole args
  simp only [Elaborate.head, Elaborate.name, hx]
  rfl

theorem findIdx?_of_notMem {x : String} (hx : some x ∉ scope) :
    scope.findIdx? (· == some x) = none := by
  rw [List.findIdx?_eq_none_iff]
  intro b hb
  exact beq_eq_false_iff_ne.mpr fun hbx => hx (hbx ▸ hb)

theorem elaborates_global {x : String} (hx : some x ∉ scope)
    (hfind : Vocabulary.builtin.find? x = none) :
    Elaborates file scope (.var r x) (.synth (.free (Elaborate.span file r) (.global x))) := by
  intro whole args
  simp only [Elaborate.head, Elaborate.name, findIdx?_of_notMem hx, hfind]
  rfl

theorem elaborates_number {n : Nat} {t : Check} (ht : Elaborate.number file .builtin r n = .ok t) :
    Elaborates file scope (.number r n) t := by
  intro whole args
  simp only [Elaborate.head, ht]
  rfl

theorem awaits_former {x : String} {spec : FormerSpec} (hx : some x ∉ scope)
    (hfind : Vocabulary.builtin.find? x = some spec) :
    Awaits file scope (.var r x) spec [] spec.kinds := by
  refine ⟨Elaborate.span file r, fun whole args hargs => ?_⟩
  simp only [Elaborate.head, Elaborate.name, findIdx?_of_notMem hx, hfind]
  exact if_neg (Nat.not_lt.mpr hargs)

theorem Awaits.app {spec : FormerSpec} {operands : List Operand} {kinds : List OperandKind}
    (hf : Awaits file scope f spec operands (.check :: kinds)) (ha : Elaborates file scope a a') :
    Awaits file scope (.app r f a) spec (.check a' :: operands) kinds := by
  obtain ⟨span, hf⟩ := hf
  refine ⟨Elaborate.span file r, fun whole args hargs => ?_⟩
  simp only [Elaborate.head, hf whole (args + 1) (Nat.succ_le_succ hargs), ha a.range 0]
  rfl

theorem Awaits.elaborates {spec : FormerSpec} {F : Former} {operands : List Operand}
    (he : Awaits file scope e spec operands []) (hF : spec.Makes F)
    (hlen : operands.length = spec.arity)
    (hbuild : ∀ span, ∃ t, spec.build span operands.reverse = some t) :
    ∃ t', Elaborates file scope e t' ∧
      t'.nameless = .apps (.former F) (operands.reverse.map Operand.nameless) := by
  obtain ⟨span, he⟩ := he
  obtain ⟨t', ht'⟩ := hbuild span
  refine ⟨t', fun whole args => ?_, hF span _ _ (by rw [List.length_reverse, hlen]) ht'⟩
  simp only [he whole args (Nat.zero_le _), Head.ofFormer, FormerSpec.make, ht']
  rfl

end Expr

/-- The specification is that of a former whose operands are all checked, and which is made of any. -/
structure Former.IsSpec (F : Former) (spec : FormerSpec) : Prop where
  isName : IsName F.name
  find : Vocabulary.builtin.find? F.name = some spec
  makes : spec.Makes F
  kinds : spec.kinds = List.replicate F.arity .check
  builds : ∀ (span : Span) (as : List Check), as.length = F.arity →
    ∃ t, spec.build span (as.map .check) = some t

namespace FormerSpec

theorem isSpec_nat : Former.nat.IsSpec .nat where
  isName := isName_iff.mpr ⟨'N', ['a', 't'], rfl, rfl, List.all_eq_true.mp rfl, rfl⟩
  find := rfl
  makes := constant_makes fun _ => rfl
  kinds := rfl
  builds _ _ _ := ⟨_, rfl⟩

theorem isSpec_succ : Former.succ.IsSpec .succ where
  isName := isName_iff.mpr ⟨'S', ['u', 'c', 'c'], rfl, rfl, List.all_eq_true.mp rfl, rfl⟩
  find := rfl
  makes := succ_makes
  kinds := rfl
  builds
    | _, [_], _ => ⟨_, rfl⟩

theorem isSpec_natElim : Former.natElim.IsSpec .natElim where
  isName := isName_iff.mpr ⟨'n', ['a', 't', 'E', 'l', 'i', 'm'], rfl, rfl, List.all_eq_true.mp rfl, rfl⟩
  find := rfl
  makes := natElim_makes
  kinds := rfl
  builds
    | _, [_, _, _, _], _ => ⟨_, rfl⟩

theorem isSpec_vec : Former.vec.IsSpec .vec where
  isName := isName_iff.mpr ⟨'V', ['e', 'c'], rfl, rfl, List.all_eq_true.mp rfl, rfl⟩
  find := rfl
  makes := vec_makes
  kinds := rfl
  builds
    | _, [_, _], _ => ⟨_, rfl⟩

theorem isSpec_nil : Former.nil.IsSpec .nil where
  isName := isName_iff.mpr ⟨'N', ['i', 'l'], rfl, rfl, List.all_eq_true.mp rfl, rfl⟩
  find := rfl
  makes := nil_makes
  kinds := rfl
  builds
    | _, [_], _ => ⟨_, rfl⟩

theorem isSpec_cons : Former.cons.IsSpec .cons where
  isName := isName_iff.mpr ⟨'C', ['o', 'n', 's'], rfl, rfl, List.all_eq_true.mp rfl, rfl⟩
  find := rfl
  makes := cons_makes
  kinds := rfl
  builds
    | _, [_, _, _, _], _ => ⟨_, rfl⟩

theorem isSpec_vecElim : Former.vecElim.IsSpec .vecElim where
  isName := isName_iff.mpr ⟨'v', ['e', 'c', 'E', 'l', 'i', 'm'], rfl, rfl, List.all_eq_true.mp rfl, rfl⟩
  find := rfl
  makes := vecElim_makes
  kinds := rfl
  builds
    | _, [_, _, _, _, _, _], _ => ⟨_, rfl⟩

end FormerSpec

/-! ## Documents that read back -/

/-- In every layout the document is read, in the place, as an expression that elaborates to the term. -/
def Doc.Prints (file : Nat) (scope : List (Option String)) (prec : Prec) (d : Doc) (t : Check) :
    Prop :=
  ∃ ws, d.Scans ws ∧ ∀ ts, ts.map Lexeme.word = ws → ∃ e t', prec.Derives ts e ∧
    e.Elaborates file scope t' ∧ t'.nameless = t.nameless

namespace Doc

variable {file : Nat} {scope : List (Option String)} {prec : Prec}

theorem exists_lex {l : Lexeme} {k : Token} {x : String} (h : l.word = (k, x)) :
    ∃ l' : Lex k, l = l'.1 ∧ l'.1.text = x := by
  injection h with hk hx
  exact ⟨⟨l, hk⟩, rfl, hx⟩

theorem exists_cons {ts : List Lexeme} {k : Token} {x : String} {ws : List Word}
    (h : ts.map Lexeme.word = (k, x) :: ws) :
    ∃ (l : Lex k) (ts' : List Lexeme), ts = l.1 :: ts' ∧ ts'.map Lexeme.word = ws := by
  obtain ⟨l, ts', rfl, hl, hts'⟩ := List.map_eq_cons_iff.mp h
  obtain ⟨l, rfl, _⟩ := exists_lex hl
  exact ⟨l, ts', rfl, hts'⟩

theorem Prints.parens {q : Prec} {d : Doc} {t : Check} (h : d.Prints file scope q t) :
    (Doc.parens (prec.exceeds q) d).Prints file scope prec t := by
  obtain ⟨ws, hscans, hreads⟩ := h
  cases hp : prec.exceeds q with
  | false =>
    refine ⟨ws, hscans, fun ts hts => ?_⟩
    obtain ⟨e, t', hd, he, ht'⟩ := hreads ts hts
    exact ⟨e, t', hd.loosen (by simpa [Prec.exceeds] using hp), he, ht'⟩
  | true =>
    refine ⟨_, hscans.parens, fun ts hts => ?_⟩
    obtain ⟨left, rest, rfl, h₁⟩ := exists_cons hts
    obtain ⟨body, rest', rfl, hbody, h₂⟩ := List.map_eq_append_iff.mp h₁
    obtain ⟨right, rest'', rfl, h₃⟩ := exists_cons h₂
    cases List.map_eq_nil_iff.mp h₃
    obtain ⟨e, t', hd, he, ht'⟩ := hreads body hbody
    have htop : Prec.Derives .top body e := hd.loosen (Nat.zero_le _)
    exact ⟨e, t', (htop.parens left right).loosen (by cases prec <;> decide), he, ht'⟩

/-- One lexeme that is an atom by itself. -/
theorem prints_atom {s : String} {w : Word} {t : Check} (hs : (text s).Scans [w])
    (h : ∀ l : Lexeme, l.word = w → ∃ e t', Prec.Derives .atom [l] e ∧
      e.Elaborates file scope t' ∧ t'.nameless = t.nameless) :
    (text s).Prints file scope prec t := by
  refine ⟨[w], hs, fun ts hts => ?_⟩
  obtain ⟨l, _, rfl, hl, hnil⟩ := List.map_eq_cons_iff.mp hts
  cases List.map_eq_nil_iff.mp hnil
  obtain ⟨e, t', hd, he, ht'⟩ := h l hl
  exact ⟨e, t', hd.loosen (by cases prec <;> decide), he, ht'⟩

theorem prints_star {s : Span} : (text "*").Prints file scope prec (.synth (.star s)) := by
  refine prints_atom (closes_text fun _ => marks_front rfl : (text "*").Closes [(.star, "*")]).scans
    fun l hl => ?_
  obtain ⟨l, rfl, _⟩ := exists_lex hl
  exact ⟨_, _, ⟨.star l, rfl, rfl⟩, Expr.elaborates_star, rfl⟩

theorem prints_name {x : String} {t : Check} (hx : IsName x)
    (h : ∀ r, ∃ t', Expr.Elaborates file scope (.var r x) t' ∧ t'.nameless = t.nameless) :
    (text x).Prints file scope prec t := by
  refine prints_atom (scans_name hx) fun l hl => ?_
  obtain ⟨l, rfl, rfl⟩ := exists_lex hl
  obtain ⟨t', he, ht'⟩ := h l.1.range
  exact ⟨_, t', ⟨.name l, rfl, rfl⟩, he, ht'⟩

/-! ### Numbers -/

theorem number_eq_ok (file : Nat) (r : Range) (n : Nat) : ∃ t, Elaborate.number file .builtin r n = .ok t := by
  change ∃ t, Elaborate.successors .zero .succ .check (Elaborate.span file r) n = .ok t
  induction n with
  | zero => exact ⟨_, rfl⟩
  | succ n ih =>
    obtain ⟨t, ht⟩ := ih
    simp only [Elaborate.successors, ht]
    exact ⟨_, rfl⟩

theorem nameless_of_numeral? : ∀ {t : Synth} {n : Nat}, t.numeral? = some n →
    t.nameless = .numeral n
  | .zero _, n, h => by
    cases h
    rfl
  | .succ _ (.synth t), n, h => by
    obtain ⟨m, hm, rfl⟩ := Option.map_eq_some_iff.mp h
    exact congrArg (Nameless.app (.former .succ)) (nameless_of_numeral? hm)

theorem prints_numeral {t : Synth} {n : Nat} (ht : t.numeral? = some n) (hn : n ≤ maxNumber) :
    (text (toString n)).Prints file scope prec (.synth t) := by
  refine prints_atom (scans_number n) fun l hl => ?_
  injection hl with hk hx
  have hvalue : decimalValue l.text.toList = n := by rw [hx, decimalValue_toString]
  obtain ⟨t', ht'⟩ := number_eq_ok file l.range (decimalValue l.text.toList)
  refine ⟨_, t', ⟨.number ⟨l, hk, hvalue ▸ hn⟩, rfl, rfl⟩, Expr.elaborates_number ht', ?_⟩
  rw [Elaborate.nameless_number ht', hvalue, Check.nameless, nameless_of_numeral? ht]

/-! ### Applications -/

theorem scans_argument {d : Doc} {ws : List Word} (h : d.Scans ws) : (Print.argument d).Scans ws :=
  (closes_line.append_scans h).nest

theorem opens_argument {d : Doc} : (Print.argument d).Opens :=
  opens_line.append.nest

theorem exists_concat (arg : AtomTree) : ∀ args : ArgsTree, ∃ args' : ArgsTree,
    args'.yield = args.yield ++ arg.yield ∧ ∀ e, ∃ r, args'.apply e = .app r (args.apply e) arg.denote
  | .nil => ⟨.cons arg .nil, List.append_nil _, fun e => ⟨_, rfl⟩⟩
  | .cons first more => by
    obtain ⟨more', hyield, happly⟩ := exists_concat arg more
    exact ⟨.cons first more', by rw [ArgsTree.yield, hyield, ArgsTree.yield, List.append_assoc],
      fun e => happly _⟩

theorem derives_app {ts ts' : List Lexeme} {f a : Expr} (hf : Prec.Derives .app ts f)
    (ha : Prec.Derives .atom ts' a) : ∃ r, Prec.Derives .app (ts ++ ts') (.app r f a) := by
  obtain ⟨⟨head, args⟩, rfl, rfl⟩ := hf
  obtain ⟨arg, rfl, rfl⟩ := ha
  obtain ⟨args', hyield, happly⟩ := exists_concat arg args
  obtain ⟨r, hr⟩ := happly head.denote
  exact ⟨r, .mk head args', by rw [AppTree.yield, hyield, AppTree.yield, List.append_assoc], hr⟩

theorem eq_synth_of_nameless {t : Check} {u : Synth} (h : t.nameless = u.nameless) :
    ∃ v, t = .synth v := by
  have halpha : t.alphaEq (.synth u) = true := Check.alphaEq_iff.mpr h
  cases t with
  | synth v => exact ⟨v, rfl⟩
  | _ => cases halpha

theorem Prints.app {f a : Doc} {s : Span} {u : Synth} {x : Check}
    (hf : f.Prints file scope .app (.synth u)) (ha : a.Prints file scope .atom x) :
    (Print.app prec f a).Prints file scope prec (.synth (.app s u x)) := by
  obtain ⟨ws, hfs, hf⟩ := hf
  obtain ⟨ws', has, ha⟩ := ha
  refine Prints.parens ⟨ws ++ ws', (hfs.append (scans_argument has) opens_argument.follows).group,
    fun ts hts => ?_⟩
  obtain ⟨ts₁, ts₂, rfl, h₁, h₂⟩ := List.map_eq_append_iff.mp hts
  obtain ⟨f', u', hdf, hef, hu'⟩ := hf ts₁ h₁
  obtain ⟨a', x', hda, hea, hx'⟩ := ha ts₂ h₂
  obtain ⟨v, rfl⟩ := eq_synth_of_nameless hu'
  obtain ⟨r, hd⟩ := derives_app hdf hda
  exact ⟨_, _, hd, hef.app hea, congrArg₂ Nameless.app hu' hx'⟩

theorem Prints.annotation {e t : Doc} {s : Span} {e' t' : Check} (he : e.Prints file scope .arrow e')
    (ht : t.Prints file scope .arrow t') :
    (Print.annotation prec e t).Prints file scope prec (.synth (.ann s e' t')) := by
  obtain ⟨ws, hes, he⟩ := he
  obtain ⟨ws', hts, ht⟩ := ht
  have hcolon : (text ":").Closes [(.colon, ":")] := closes_text fun _ => marks_front rfl
  have hfront := ((hes.append_closes closes_space opens_space).append hcolon).group
  have hscans := ((hfront.append closes_line.group).append_scans hts).group
  refine Prints.parens ⟨_, hscans, fun ts hts => ?_⟩
  simp only [List.append_nil, List.append_assoc, List.cons_append, List.nil_append] at hts
  obtain ⟨ts₁, rest, rfl, h₁, hrest⟩ := List.map_eq_append_iff.mp hts
  obtain ⟨colon, ts₂, rfl, h₂⟩ := exists_cons hrest
  obtain ⟨f, f', ⟨first, rfl, rfl⟩, hef, hf'⟩ := he ts₁ h₁
  obtain ⟨a, a', ⟨type, rfl, rfl⟩, hea, ha'⟩ := ht ts₂ h₂
  exact ⟨_, _, ⟨.mk first (.cons colon type .nil), by simp [ExprTree.yield, TypesTree.yield], rfl⟩,
    hef.ann hea, congrArg₂ Nameless.ann hf' ha'⟩

/-! ### Function types -/

theorem Prints.arrow {d c : Doc} {s : Span} {x : Option String} {d' c' : Check}
    (hd : d.Prints file scope .app d') (hc : c.Prints file (none :: scope) .arrow c') :
    (Print.arrow prec d c).Prints file scope prec (.synth (.pi s x d' c')) := by
  obtain ⟨ws, hds, hd⟩ := hd
  obtain ⟨ws', hcs, hc⟩ := hc
  have harrow : (text "->").Closes [(.arrow, "->")] := closes_text fun _ => marks_front rfl
  have hfront := ((hds.append_closes closes_space opens_space).append harrow).group
  have hscans := ((hfront.append closes_line.group).append_scans hcs).group
  refine Prints.parens ⟨_, hscans, fun ts hts => ?_⟩
  simp only [List.append_nil, List.append_assoc, List.cons_append, List.nil_append] at hts
  obtain ⟨ts₁, rest, rfl, h₁, hrest⟩ := List.map_eq_append_iff.mp hts
  obtain ⟨sign, ts₂, rfl, h₂⟩ := exists_cons hrest
  obtain ⟨f, f', ⟨domain, rfl, rfl⟩, hef, hf'⟩ := hd ts₁ h₁
  obtain ⟨a, a', ⟨codomain, rfl, rfl⟩, hea, ha'⟩ := hc ts₂ h₂
  exact ⟨_, _, ⟨.fn domain sign codomain, rfl, rfl⟩, Expr.Elaborates.pi hef hea,
    congrArg₂ Nameless.pi hf' ha'⟩

theorem Prints.binder {d c : Doc} {s : Span} {x : String} {y : Option String} {d' c' : Check}
    (hx : IsName x) (hd : d.Prints file scope .top d')
    (hc : c.Prints file (some x :: scope) .arrow c') :
    (Print.arrow prec (Print.binder x d) c).Prints file scope prec (.synth (.pi s y d' c')) := by
  obtain ⟨ws, hds, hd⟩ := hd
  obtain ⟨ws', hcs, hc⟩ := hc
  have harrow : (text "->").Closes [(.arrow, "->")] := closes_text fun _ => marks_front rfl
  have hcolon : (text ":").Closes [(.colon, ":")] := closes_text fun _ => marks_front rfl
  have hforall : (text "forall").Scans [(.forallSign, "forall")] :=
    scans_text fun ds hds => marks_front
      (Piece.front_word (w := ['o', 'r', 'a', 'l', 'l']) rfl (List.all_eq_true.mp rfl) hds)
  have hsign := ((hforall.append_closes closes_space opens_space).append closes_openParen)
  have hname := ((hsign.append_scans (scans_name hx)).append_closes closes_space opens_space)
  have hdomain := ((hname.append hcolon).append closes_space).append_scans hds
  have hbinder := hdomain.append_closes closes_closeParen (opens_text rfl rfl)
  have hfront := ((hbinder.append closes_space).append harrow).group
  have hscans := ((hfront.append closes_line.group).append_scans hcs).group
  refine Prints.parens ⟨_, hscans, fun ts hts => ?_⟩
  simp only [List.append_nil, List.append_assoc, List.cons_append, List.nil_append] at hts
  obtain ⟨sign, rest₁, rfl, h₁⟩ := exists_cons hts
  obtain ⟨left, rest₂, rfl, h₂⟩ := exists_cons h₁
  obtain ⟨l, rest₃, rfl, hl, h₃⟩ := List.map_eq_cons_iff.mp h₂
  obtain ⟨name, rfl, rfl⟩ := exists_lex hl
  obtain ⟨colon, rest₄, rfl, h₄⟩ := exists_cons h₃
  obtain ⟨ts₁, rest₅, rfl, h₅, h₆⟩ := List.map_eq_append_iff.mp h₄
  obtain ⟨right, rest₆, rfl, h₇⟩ := exists_cons h₆
  obtain ⟨arrow, ts₂, rfl, h₈⟩ := exists_cons h₇
  obtain ⟨f, f', ⟨domain, rfl, rfl⟩, hef, hf'⟩ := hd ts₁ h₅
  obtain ⟨a, a', ⟨codomain, rfl, rfl⟩, hea, ha'⟩ := hc ts₂ h₈
  refine ⟨_, _, ⟨.piGroups sign (.mk left ⟨name, []⟩ colon domain right) .nil ⟨arrow.1, .inl arrow.2⟩
    codomain, ?_, rfl⟩, Expr.Elaborates.pi (x := some name.ident) hef hea, congrArg₂ Nameless.pi hf' ha'⟩
  simp [ArrowTree.yield, GroupTree.yield, GroupsTree.yield, Names.yield]

/-! ### Function literals -/

/-- The names and the body, in every layout, make function literals that elaborate to the term. -/
def PrintsLam (file : Nat) (scope : List (Option String)) (xs : List String) (body : Doc) (t : Check) :
    Prop :=
  (∀ x ∈ xs, IsName x) ∧ ∃ ws, body.Scans ws ∧ ∀ ts, ts.map Lexeme.word = ws →
    ∃ e, Prec.Derives .arrow ts e ∧ ∀ (r : Range) (params : List Ident),
      params.map Ident.name = xs → ∃ t', (Expr.lams r params e).Elaborates file scope t' ∧
        t'.nameless = t.nameless

theorem Prints.printsLam {body : Doc} {t : Check} (h : body.Prints file scope .arrow t) :
    PrintsLam file scope [] body t := by
  obtain ⟨ws, hscans, hreads⟩ := h
  refine ⟨nofun, ws, hscans, fun ts hts => ?_⟩
  obtain ⟨e, t', hd, he, ht'⟩ := hreads ts hts
  refine ⟨e, hd, fun r params hparams => ?_⟩
  cases List.map_eq_nil_iff.mp hparams
  exact ⟨t', he, ht'⟩

theorem PrintsLam.cons {x : String} {xs : List String} {body : Doc} {s : Span} {y : Option String}
    {t : Check} (hx : IsName x) (h : PrintsLam file (some x :: scope) xs body t) :
    PrintsLam file scope (x :: xs) body (.lam s y t) := by
  obtain ⟨hxs, ws, hscans, hreads⟩ := h
  refine ⟨List.forall_mem_cons.mpr ⟨hx, hxs⟩, ws, hscans, fun ts hts => ?_⟩
  obtain ⟨e, hd, he⟩ := hreads ts hts
  refine ⟨e, hd, fun r params hparams => ?_⟩
  obtain ⟨param, params, rfl, rfl, hrest⟩ := List.map_eq_cons_iff.mp hparams
  obtain ⟨t', ht, ht'⟩ := he r params hrest
  exact ⟨_, Expr.Elaborates.lam ht, congrArg Nameless.lam ht'⟩

theorem scans_params : ∀ {x : String} {xs : List String}, (∀ y ∈ x :: xs, IsName y) →
    (concat (((x :: xs).map text).intersperse (text " "))).Scans ((x :: xs).map (Token.name, ·))
  | x, [], h => (scans_name (h x List.mem_cons_self)).append closes_nil.scans follows_nil
  | x, y :: xs, h => by
    have hrest := closes_space.append_scans
      (scans_params fun z hz => h z (List.mem_cons_of_mem x hz))
    exact (scans_name (h x List.mem_cons_self)).append hrest opens_space.append.follows

theorem exists_names : ∀ {ts : List Lexeme} {xs : List String},
    ts.map Lexeme.word = xs.map (Token.name, ·) →
      ∃ names : List (Lex .name), ts = names.map Subtype.val ∧
        (names.map Lex.ident).map Ident.name = xs
  | [], xs, h => by
    cases List.map_eq_nil_iff.mp h.symm
    exact ⟨[], rfl, rfl⟩
  | l :: ts, xs, h => by
    obtain ⟨x, xs, rfl, hl, hts⟩ := List.map_eq_cons_iff.mp h.symm
    obtain ⟨l, rfl, rfl⟩ := exists_lex hl.symm
    obtain ⟨names, rfl, rfl⟩ := exists_names hts.symm
    exact ⟨l :: names, rfl, rfl⟩

theorem PrintsLam.lambda {x : String} {xs : List String} {body : Doc} {t : Check}
    (h : PrintsLam file scope (x :: xs) body t) :
    (Print.lambda prec (x :: xs) body).Prints file scope prec t := by
  obtain ⟨hxs, ws, hscans, hreads⟩ := h
  have hlambda : (text "λ").Closes [(.lambdaSign, "λ")] := closes_text fun _ => marks_front rfl
  have hdot : (text ".").Closes [(.dot, ".")] := closes_text fun _ => marks_front rfl
  have hfront := ((hlambda.append_scans (scans_params hxs)).append_closes hdot
    (opens_text rfl rfl)).group
  refine Prints.parens ⟨_, (hfront.append_scans (scans_argument hscans)).group, fun ts hts => ?_⟩
  simp only [List.append_assoc, List.cons_append, List.nil_append] at hts
  obtain ⟨sign, rest₁, rfl, h₁⟩ := exists_cons hts
  obtain ⟨ts₁, rest₂, rfl, h₂, h₃⟩ := List.map_eq_append_iff.mp h₁
  obtain ⟨dot, ts₂, rfl, h₄⟩ := exists_cons h₃
  obtain ⟨names, rfl, hnames⟩ := exists_names h₂
  obtain ⟨e, ⟨tree, rfl, rfl⟩, he⟩ := hreads ts₂ h₄
  cases names with
  | nil => cases hnames
  | cons first more =>
    obtain ⟨t', ht, ht'⟩ := he _ _ hnames
    exact ⟨_, t', ⟨.lam sign first more ⟨dot.1, .inr dot.2⟩ tree, rfl, rfl⟩, ht, ht'⟩

/-! ### Formers -/

/-- Arguments that are added to a former. -/
theorem exists_args {docs : List Doc} {as : List Check}
    (h : List.Forall₂ (Doc.Prints file scope .atom) docs as) :
    ∃ ws, (concat (docs.map Print.argument)).Scans ws ∧ ∀ ts, ts.map Lexeme.word = ws →
      ∃ (args : ArgsTree) (as' : List Check), args.yield = ts ∧
        as'.map Check.nameless = as.map Check.nameless ∧
        ∀ (e : Expr) (spec : FormerSpec) (operands : List Operand),
          e.Awaits file scope spec operands (List.replicate as.length .check) →
            (args.apply e).Awaits file scope spec ((as'.map .check).reverse ++ operands) [] := by
  induction h with
  | nil =>
    refine ⟨[], closes_nil.scans, fun ts hts => ⟨.nil, [], ?_, rfl, fun e spec operands he => he⟩⟩
    exact (List.map_eq_nil_iff.mp hts).symm
  | @cons d a docs as hd _ ih =>
    obtain ⟨ws, hds, hd⟩ := hd
    obtain ⟨ws', hdocs, ih⟩ := ih
    have hfollows : (concat (docs.map Print.argument)).Follows := by
      refine follows_concat fun d' hd' => ?_
      obtain ⟨_, _, rfl⟩ := List.mem_map.mp hd'
      exact opens_argument.follows
    refine ⟨ws ++ ws', (scans_argument hds).append hdocs hfollows, fun ts hts => ?_⟩
    obtain ⟨ts₁, ts₂, rfl, h₁, h₂⟩ := List.map_eq_append_iff.mp hts
    obtain ⟨e₁, a', ⟨arg, rfl, rfl⟩, he₁, ha'⟩ := hd ts₁ h₁
    obtain ⟨args, as', rfl, has', hawaits⟩ := ih ts₂ h₂
    refine ⟨.cons arg args, a' :: as', rfl, by rw [List.map_cons, List.map_cons, ha', has'],
      fun e spec operands he => ?_⟩
    rw [List.length_cons, List.replicate_succ] at he
    rw [List.map_cons, List.reverse_cons, List.append_assoc]
    exact hawaits _ spec _ (he.app he₁)

theorem prints_former {F : Former} {spec : FormerSpec} {docs : List Doc} {as : List Check} {t : Check}
    (hspec : F.IsSpec spec) (hscope : some F.name ∉ scope) (hlen : as.length = F.arity)
    (h : List.Forall₂ (Doc.Prints file scope .atom) docs as)
    (ht : t.nameless = .apps (.former F) (as.map Check.nameless)) :
    (Print.former prec F.name docs).Prints file scope prec t := by
  -- A former without operands is a name, and one with operands is an application.
  have hfinish : ∀ (e : Expr) (as' : List Check), as'.map Check.nameless = as.map Check.nameless →
      e.Awaits file scope spec ((as'.map .check).reverse ++ []) [] →
        ∃ t', e.Elaborates file scope t' ∧ t'.nameless = t.nameless := by
    intro e as' has' he
    have hlen' : as'.length = F.arity := by
      rw [← hlen, ← List.length_map Check.nameless, has', List.length_map]
    rw [List.append_nil] at he
    obtain ⟨t', he', ht'⟩ := he.elaborates hspec.makes
      (by rw [List.length_reverse, List.length_map, hlen', FormerSpec.arity, hspec.kinds,
        List.length_replicate])
      (fun span => by rw [List.reverse_reverse]; exact hspec.builds span as' hlen')
    refine ⟨t', he', ?_⟩
    rw [ht', ht, List.reverse_reverse, List.map_map, ← has']
    rfl
  have hhead : ∀ r, Expr.Awaits file scope (.var r F.name) spec []
      (List.replicate as.length .check) := by
    intro r
    rw [hlen, ← hspec.kinds]
    exact Expr.awaits_former hscope hspec.find
  cases h with
  | nil => exact prints_name hspec.isName fun r => hfinish _ [] rfl (hhead r)
  | cons hd hds =>
    obtain ⟨ws, hscans, hargs⟩ := exists_args (.cons hd hds)
    have hname := (scans_name hspec.isName).append hscans opens_argument.append.follows
    refine Prints.parens ⟨_, hname.group, fun ts hts => ?_⟩
    obtain ⟨l, ts, rfl, hl, hrest⟩ := List.map_eq_cons_iff.mp hts
    obtain ⟨name, rfl, htext⟩ := exists_lex hl
    obtain ⟨args, as', rfl, has', hawaits⟩ := hargs ts hrest
    have he := hawaits (.var name.1.range name.1.text) spec [] (htext ▸ hhead name.1.range)
    obtain ⟨t', he', ht'⟩ := hfinish _ as' has' he
    exact ⟨_, t', ⟨.mk (.name name) args, rfl, rfl⟩, he', ht'⟩

end Doc

end TypeInType
