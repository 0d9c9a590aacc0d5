import TypeInType.Proofs.Term.FreshName
import TypeInType.Term.Print

/-!
# What a printed binder captures

The name of a printed binder differs from the names in scope and from the names of the signature that its
body mentions. It is the name of a former just when the binder has that name itself and nothing takes it
away. So in a printed body the name of the binder is written once for each use of its variable, and
besides these only where the body writes a former of that name.
-/

namespace TypeInType

/-! ## Texts of a document -/

namespace Doc

/-- How often the document writes the text. -/
def occurrences (y : String) : Doc → Nat
  | nil => 0
  | text s => if s == y then 1 else 0
  | append a b => a.occurrences y + b.occurrences y
  | line => 0
  | nest _ d => d.occurrences y
  | group d => d.occurrences y

variable (y : String)

@[simp]
theorem occurrences_append (a b : Doc) : (a ++ b).occurrences y = a.occurrences y + b.occurrences y :=
  rfl

@[simp]
theorem occurrences_group (d : Doc) : (group d).occurrences y = d.occurrences y :=
  rfl

@[simp]
theorem occurrences_softline : softline.occurrences y = 0 :=
  rfl

@[simp]
theorem occurrences_concat_nil : (concat []).occurrences y = 0 :=
  rfl

@[simp]
theorem occurrences_concat_cons (d : Doc) (ds : List Doc) :
    (concat (d :: ds)).occurrences y = d.occurrences y + (concat ds).occurrences y :=
  rfl

@[simp]
theorem occurrences_argument (d : Doc) : (Print.argument d).occurrences y = d.occurrences y :=
  Nat.zero_add _

theorem occurrences_text (s : String) : (text s).occurrences y = [s].count y := by
  rw [List.count_singleton]
  rfl

theorem occurrences_text_of_ne {y s : String} (h : s ≠ y) : (text s).occurrences y = 0 := by
  rw [occurrences_text, List.count_eq_zero]
  simpa using h.symm

end Doc

/-! ## Texts that are no names -/

section Names

variable {y : String} (hy : IsName y)

include hy

theorem IsName.ne_of_head {s : String} (h : s.toList.head?.any isNameStart = false) : s ≠ y := by
  rintro rfl
  obtain ⟨c, w, hs, hc, _⟩ := isName_iff.mp hy
  rw [hs] at h
  exact Bool.false_ne_true (h.symm.trans hc)

/-- A text that does not begin as a name does is not counted. -/
theorem IsName.occurrences_mark {s : String} (h : s.toList.head?.any isNameStart = false) :
    (Doc.text s).occurrences y = 0 :=
  Doc.occurrences_text_of_ne (hy.ne_of_head h)

/-- A number after a character that begins no name is not counted. -/
theorem IsName.occurrences_sigil {s : String} {c : Char} (hs : s.toList = [c])
    (hc : isNameStart c = false) (n : Nat) : (Doc.text (s ++ toString n)).occurrences y = 0 := by
  apply hy.occurrences_mark
  rw [String.toList_append, hs]
  exact hc

theorem IsName.forall_ne : "forall" ≠ y := by
  rintro rfl
  obtain ⟨c, w, hs, _, _, hname⟩ := isName_iff.mp hy
  rw [← hs] at hname
  revert hname
  decide

theorem IsName.toString_ne (n : Nat) : toString n ≠ y := by
  apply hy.ne_of_head
  cases hn : (toString n).toList with
  | nil => rfl
  | cons c w =>
    have hc : c ∈ (Nat.toDigits 10 n) := by
      rw [Nat.toString_eq_ofList_toDigits, String.toList_ofList] at hn
      rw [hn]
      exact List.mem_cons_self
    exact isNameStart_of_isDigit (Nat.isDigit_of_mem_toDigits (by decide) (by decide) hc)

/-! ## Shapes of printed terms -/

namespace Print

open Doc

variable {prec : Prec}

theorem occurrences_parens (needed : Bool) (d : Doc) :
    (Doc.parens needed d).occurrences y = d.occurrences y := by
  cases needed with
  | false => rfl
  | true =>
    show _ + _ + _ = _
    rw [hy.occurrences_mark (s := "(") rfl, hy.occurrences_mark (s := ")") rfl, Nat.zero_add,
      Nat.add_zero]

theorem occurrences_lambda (names : List String) (body : Doc) :
    (Print.lambda prec names body).occurrences y = names.count y + body.occurrences y := by
  have hparams : (Doc.concat ((names.map Doc.text).intersperse (.text " "))).occurrences y =
      names.count y := by
    induction names with
    | nil => rfl
    | cons x xs ih =>
      cases xs with
      | nil => simp [occurrences_text]
      | cons x' xs =>
        simp only [List.map_cons, List.intersperse, occurrences_concat_cons] at ih ⊢
        rw [ih, hy.occurrences_mark (s := " ") rfl, occurrences_text, Nat.zero_add,
          ← List.count_append]
        rfl
  simp only [Print.lambda, occurrences_parens hy, occurrences_group, occurrences_append, hparams,
    occurrences_argument, hy.occurrences_mark (s := "λ") (by decide),
    hy.occurrences_mark (s := ".") rfl, Nat.zero_add, Nat.add_zero]

theorem occurrences_annotation (term type : Doc) :
    (Print.annotation prec term type).occurrences y = term.occurrences y + type.occurrences y := by
  simp only [Print.annotation, occurrences_parens hy, occurrences_group, occurrences_append,
    occurrences_softline, hy.occurrences_mark (s := " ") rfl,
    hy.occurrences_mark (s := ":") rfl, Nat.add_zero]

theorem occurrences_binder (x : String) (domain : Doc) :
    (Print.binder x domain).occurrences y = [x].count y + domain.occurrences y := by
  simp only [Print.binder, occurrences_append, occurrences_text_of_ne hy.forall_ne,
    hy.occurrences_mark (s := " ") rfl,
    hy.occurrences_mark (s := "(") rfl,
    hy.occurrences_mark (s := ")") rfl,
    hy.occurrences_mark (s := ":") rfl, occurrences_text y x, Nat.zero_add,
    Nat.add_zero]

theorem occurrences_arrow (domain codomain : Doc) :
    (Print.arrow prec domain codomain).occurrences y =
      domain.occurrences y + codomain.occurrences y := by
  simp only [Print.arrow, occurrences_parens hy, occurrences_group, occurrences_append,
    occurrences_softline, hy.occurrences_mark (s := " ") rfl,
    hy.occurrences_mark (s := "->") rfl, Nat.add_zero]

theorem occurrences_app (head arg : Doc) :
    (Print.app prec head arg).occurrences y = head.occurrences y + arg.occurrences y := by
  simp only [Print.app, occurrences_parens hy, occurrences_group, occurrences_append,
    occurrences_argument]

theorem occurrences_former (x : String) (args : List Doc) :
    (Print.former prec x args).occurrences y = [x].count y + (Doc.concat args).occurrences y := by
  have hargs : ∀ args : List Doc,
      (Doc.concat (args.map argument)).occurrences y = (Doc.concat args).occurrences y := by
    intro args
    induction args with
    | nil => rfl
    | cons d ds ih => rw [List.map_cons, occurrences_concat_cons, ih, occurrences_argument]; rfl
  cases args with
  | nil => exact occurrences_text y x
  | cons d ds =>
    simp only [Print.former, List.isEmpty_cons, Bool.false_eq_true, if_false, occurrences_parens hy,
      occurrences_group, occurrences_append, occurrences_text, hargs]

end Print

end Names

/-! ## Uses of a variable and formers -/

mutual

/-- How often the bound variable with the given index occurs. -/
def Synth.uses : Synth → Nat → Nat
  | .ann _ e t, i => e.uses i + t.uses i
  | .star _, _ => 0
  | .pi _ _ d c, i => d.uses i + c.uses (i + 1)
  | .bound _ j, i => if j = i then 1 else 0
  | .free _ _, _ => 0
  | .app _ h a, i => h.uses i + a.uses i
  | .nat _, _ => 0
  | .zero _, _ => 0
  | .succ _ n, i => n.uses i
  | .natElim _ m b s n, i => m.uses i + b.uses i + s.uses i + n.uses i
  | .vec _ a n, i => a.uses i + n.uses i
  | .nil _ a, i => a.uses i
  | .cons _ a n x xs, i => a.uses i + n.uses i + x.uses i + xs.uses i
  | .vecElim _ a m b s n xs, i =>
    a.uses i + m.uses i + b.uses i + s.uses i + n.uses i + xs.uses i

/-- How often the bound variable with the given index occurs. -/
def Check.uses : Check → Nat → Nat
  | .synth t, i => t.uses i
  | .lam _ _ b, i => b.uses (i + 1)
  | .ascribe _ t e, i => t.uses i + e.uses i
  | .sealed _ e, i => e.uses i

end

mutual

/-- The formers that are printed by their names: those in a numeral are not. -/
def Synth.formers : Synth → List Former
  | .ann _ e t => e.formers ++ t.formers
  | .star _ => []
  | .pi _ _ d c => d.formers ++ c.formers
  | .bound _ _ => []
  | .free _ _ => []
  | .app _ h a => h.formers ++ a.formers
  | .nat _ => [.nat]
  | .zero _ => []
  | .succ s n => if (Synth.succ s n).numeral?.isSome then [] else .succ :: n.formers
  | .natElim _ m b s n => .natElim :: (m.formers ++ b.formers ++ s.formers ++ n.formers)
  | .vec _ a n => .vec :: (a.formers ++ n.formers)
  | .nil _ a => .nil :: a.formers
  | .cons _ a n x xs => .cons :: (a.formers ++ n.formers ++ x.formers ++ xs.formers)
  | .vecElim _ a m b s n xs => .vecElim ::
      (a.formers ++ m.formers ++ b.formers ++ s.formers ++ n.formers ++ xs.formers)

/-- The formers that are printed by their names: those in a numeral are not. -/
def Check.formers : Check → List Former
  | .synth t => t.formers
  | .lam _ _ b => b.formers
  | .ascribe _ t e => .ascribe :: (t.formers ++ e.formers)
  | .sealed _ e => .sealed :: e.formers

end

theorem Synth.uses_of_numeral? : ∀ {t : Synth} {k : Nat}, t.numeral? = some k → ∀ i, t.uses i = 0
  | .zero _, _, _, _ => rfl
  | .succ _ (.synth t), k, h, i => by
    obtain ⟨_, ht, _⟩ := Option.map_eq_some_iff.mp h
    exact uses_of_numeral? ht i

/-! ## Printed bodies -/

/-- In the scope the name stands for the variable with the index, and for no other. -/
def Stands (scope : List String) (y : String) (i : Nat) : Prop :=
  ∀ j, scope[j]? = some y ↔ j = i

theorem stands_zero {scope : List String} {y : String} (h : y ∉ scope) : Stands (y :: scope) y 0 := by
  intro j
  cases j with
  | zero => simp
  | succ j => simpa using fun hj => h (List.mem_of_getElem? hj)

theorem Stands.cons {scope : List String} {x y : String} {i : Nat} (h : Stands scope y i)
    (hx : x ∉ scope) : Stands (x :: scope) y (i + 1) := by
  have hy : y ∈ scope := List.mem_of_getElem? ((h i).mpr rfl)
  intro j
  cases j with
  | zero => simpa using fun hxy : x = y => hx (hxy ▸ hy)
  | succ j => simpa using h j

theorem freshName_notMem_scope {scope : List String} {x : Option String} {b : Check} :
    freshName scope x b ∉ scope :=
  fun h => freshName_notMem (List.mem_append_left _ h)

theorem Stands.count_freshName {scope : List String} {y : String} {i : Nat} (h : Stands scope y i)
    {x : Option String} {b : Check} : [freshName scope x b].count y = 0 := by
  rw [List.count_eq_zero, List.mem_singleton]
  rintro rfl
  exact freshName_notMem_scope (List.mem_of_getElem? ((h i).mpr rfl))

section Printed

variable {y : String} (hy : IsName y)

include hy

/-- Whether the function literals at its front are printed together or not, a term has the same texts. -/
theorem Check.occurrences_lamDoc (t : Check) (scope : List String) :
    (t.lamDoc scope).1.count y + (t.lamDoc scope).2.occurrences y =
      (t.doc scope .arrow).occurrences y := by
  cases t with
  | lam s x b => rw [Check.doc, Print.occurrences_lambda hy]; rfl
  | synth t => exact Nat.zero_add _
  | ascribe s t e => exact Nat.zero_add _
  | sealed s e => exact Nat.zero_add _

mutual

/-- A name of the scope is printed once for each use of its variable, and for each former that has it. -/
theorem Synth.occurrences_doc : ∀ (t : Synth) {scope : List String} {i : Nat} (prec : Prec),
    Stands scope y i → y ∉ t.globals →
      (t.doc scope prec).occurrences y = t.uses i + (t.formers.map Former.name).count y
  | .ann _ e t, scope, i, prec, h, hg => by
    simp only [Synth.globals, List.mem_append, not_or] at hg
    simp only [Synth.doc, Print.occurrences_annotation hy, Check.occurrences_doc e _ h hg.1,
      Check.occurrences_doc t _ h hg.2, Synth.uses, Synth.formers, List.map_append,
      List.count_append]
    omega
  | .star _, _, _, _, _, _ => hy.occurrences_mark (s := "*") rfl
  | .pi _ x d c, scope, i, prec, h, hg => by
    simp only [Synth.globals, List.mem_append, not_or] at hg
    have hc := Check.occurrences_doc c .arrow (h.cons (freshName_notMem_scope (x := x) (b := c))) hg.2
    have hd := fun prec => Check.occurrences_doc d prec h hg.1
    simp only [Synth.doc, Print.occurrences_arrow hy, hc, Synth.uses, Synth.formers,
      List.map_append, List.count_append]
    split
    · rw [Print.occurrences_binder hy, h.count_freshName, hd]
      omega
    · rw [hd]
      omega
  | .bound _ j, scope, i, _, h, _ => by
    simp only [Synth.doc, Synth.uses, Synth.formers, List.map_nil, List.count_nil, Nat.add_zero]
    split
    · rename_i x hx
      by_cases hxy : x = y
      · subst hxy
        rw [if_pos ((h j).mp hx), Doc.occurrences_text, List.count_singleton_self]
      · have hj : j ≠ i := by
          rintro rfl
          exact hxy (Option.some.inj (hx.symm.trans ((h j).mpr rfl)))
        rw [if_neg hj, Doc.occurrences_text_of_ne hxy]
    · rename_i hx
      have hj : j ≠ i := by
        rintro rfl
        cases hx.symm.trans ((h j).mpr rfl)
      rw [if_neg hj]
      exact hy.occurrences_sigil (s := "#") rfl rfl j
  | .free _ (.global x), _, _, _, _, hg => by
    simp only [Synth.globals, List.mem_singleton] at hg
    exact Doc.occurrences_text_of_ne (Ne.symm hg)
  | .free _ (.hyp l), _, _, _, _, _ => hy.occurrences_sigil (s := "%") rfl rfl l
  | .free _ (.quote l), _, _, _, _, _ => hy.occurrences_sigil (s := "'") rfl rfl l
  | .app _ f a, scope, i, prec, h, hg => by
    simp only [Synth.globals, List.mem_append, not_or] at hg
    simp only [Synth.doc, Print.occurrences_app hy, Synth.occurrences_doc f _ h hg.1,
      Check.occurrences_doc a _ h hg.2, Synth.uses, Synth.formers, List.map_append,
      List.count_append]
    omega
  | .nat _, _, _, prec, _, _ => by
    simp only [Synth.doc, Print.occurrences_former hy, Doc.occurrences_concat_nil, Synth.uses,
      Synth.formers, List.map_cons, List.map_nil, Nat.add_zero, Nat.zero_add]
  | .zero _, _, _, _, _, _ => hy.occurrences_mark (s := "0") rfl
  | .succ s n, scope, i, prec, h, hg => by
    have hn := Check.occurrences_doc n .atom h hg
    simp only [Synth.doc, Synth.formers]
    cases hk : (Synth.succ s n).numeral? with
    | some k =>
      have huses := Synth.uses_of_numeral? hk i
      rw [huses]
      exact Doc.occurrences_text_of_ne (hy.toString_ne k)
    | none =>
      simp only [Print.occurrences_former hy, Doc.occurrences_concat_cons,
        Doc.occurrences_concat_nil, hn, Synth.uses, Option.isSome_none, Bool.false_eq_true, if_false,
        List.map_cons, List.count_cons, List.count_nil]
      omega
  | .natElim _ m b s n, scope, i, prec, h, hg => by
    simp only [Synth.globals, List.mem_append, not_or] at hg
    simp only [Synth.doc, Print.occurrences_former hy, Doc.occurrences_concat_cons,
      Doc.occurrences_concat_nil, Check.occurrences_doc m _ h hg.1.1.1,
      Check.occurrences_doc b _ h hg.1.1.2, Check.occurrences_doc s _ h hg.1.2,
      Check.occurrences_doc n _ h hg.2,
      Synth.uses, Synth.formers, List.map_append, List.map_cons, List.count_append, List.count_cons,
      List.count_nil]
    omega
  | .vec _ a n, scope, i, prec, h, hg => by
    simp only [Synth.globals, List.mem_append, not_or] at hg
    simp only [Synth.doc, Print.occurrences_former hy, Doc.occurrences_concat_cons,
      Doc.occurrences_concat_nil, Check.occurrences_doc a _ h hg.1,
      Check.occurrences_doc n _ h hg.2,
      Synth.uses, Synth.formers, List.map_append, List.map_cons, List.count_append, List.count_cons,
      List.count_nil]
    omega
  | .nil _ a, scope, i, prec, h, hg => by
    simp only [Synth.doc, Print.occurrences_former hy, Doc.occurrences_concat_cons,
      Doc.occurrences_concat_nil, Check.occurrences_doc a _ h hg, Synth.uses, Synth.formers,
      List.map_cons, List.count_cons, List.count_nil]
    omega
  | .cons _ a n x xs, scope, i, prec, h, hg => by
    simp only [Synth.globals, List.mem_append, not_or] at hg
    simp only [Synth.doc, Print.occurrences_former hy, Doc.occurrences_concat_cons,
      Doc.occurrences_concat_nil, Check.occurrences_doc a _ h hg.1.1.1,
      Check.occurrences_doc n _ h hg.1.1.2, Check.occurrences_doc x _ h hg.1.2,
      Check.occurrences_doc xs _ h hg.2,
      Synth.uses, Synth.formers, List.map_append, List.map_cons, List.count_append, List.count_cons,
      List.count_nil]
    omega
  | .vecElim _ a m b s n xs, scope, i, prec, h, hg => by
    simp only [Synth.globals, List.mem_append, not_or] at hg
    simp only [Synth.doc, Print.occurrences_former hy, Doc.occurrences_concat_cons,
      Doc.occurrences_concat_nil, Check.occurrences_doc a _ h hg.1.1.1.1.1,
      Check.occurrences_doc m _ h hg.1.1.1.1.2, Check.occurrences_doc b _ h hg.1.1.1.2,
      Check.occurrences_doc s _ h hg.1.1.2, Check.occurrences_doc n _ h hg.1.2,
      Check.occurrences_doc xs _ h hg.2,
      Synth.uses, Synth.formers, List.map_append, List.map_cons, List.count_append, List.count_cons,
      List.count_nil]
    omega

theorem Check.occurrences_doc : ∀ (t : Check) {scope : List String} {i : Nat} (prec : Prec),
    Stands scope y i → y ∉ t.globals →
      (t.doc scope prec).occurrences y = t.uses i + (t.formers.map Former.name).count y
  | .synth t, _, _, prec, h, hg => Synth.occurrences_doc t prec h hg
  | .lam _ x b, scope, i, prec, h, hg => by
    have hb := Check.occurrences_doc b .arrow (h.cons (freshName_notMem_scope (x := x) (b := b))) hg
    have hcount : ∀ xs : List String, (freshName scope x b :: xs).count y = xs.count y := by
      intro xs
      rw [← List.singleton_append, List.count_append, h.count_freshName, Nat.zero_add]
    rw [Check.doc, Print.occurrences_lambda hy, hcount, Check.occurrences_lamDoc hy, hb]
    rfl
  | .ascribe _ t e, scope, i, prec, h, hg => by
    simp only [Check.globals, List.mem_append, not_or] at hg
    simp only [Check.doc, Print.occurrences_former hy, Doc.occurrences_concat_cons,
      Doc.occurrences_concat_nil, Check.occurrences_doc t _ h hg.1,
      Check.occurrences_doc e _ h hg.2,
      Check.uses, Check.formers, List.map_append, List.map_cons, List.count_append, List.count_cons,
      List.count_nil]
    omega
  | .sealed _ e, scope, i, prec, h, hg => by
    simp only [Check.doc, Print.occurrences_former hy, Doc.occurrences_concat_cons,
      Doc.occurrences_concat_nil, Synth.occurrences_doc e _ h hg, Check.uses, Check.formers,
      List.map_cons, List.count_cons, List.count_nil]
    omega

end

end Printed

/-! ## Names of formers -/

theorem firstFree_zero {candidate : Nat → String} {taken : List String} (h : candidate 0 ∉ taken) :
    firstFree candidate taken = candidate 0 := by
  have hfind : (List.range (taken.length + 1)).find? (fun i => !taken.contains (candidate i)) =
      some 0 := by
    rw [List.range_succ_eq_map]
    exact List.find?_cons_of_pos (by simpa using h)
  rw [firstFree, hfind, Option.getD_some]

/-- A binder is printed with the name of a former just when it has that name, and the name is free. -/
theorem freshName_eq_former_iff {scope : List String} {name : Option String} {body : Check}
    {F : Former} : freshName scope name body = F.name ↔
      name = some F.name ∧ F.name ∉ scope ++ body.globals := by
  constructor
  · intro h
    refine ⟨?_, h ▸ freshName_notMem⟩
    rcases @freshName_eq scope name body with ⟨_, i, hi⟩ | ⟨x, i, rfl, hi⟩
    · -- a letter is followed by digits alone
      obtain ⟨ds, hlist, hds, _⟩ := alphabeticName_toList i
      have htail : F.name.toList.tail.all Char.isDigit = false := by cases F <;> decide
      rw [← h, hi, hlist, List.tail_cons, List.all_eq_true.mpr hds] at htail
      cases htail
    · cases i with
      | zero => rw [← h, hi, primed_zero]
      | succ i =>
        have hquote : '\'' ∉ F.name.toList := by cases F <;> decide
        rw [← h, hi, primed_toList] at hquote
        exact (hquote (by simp)).elim
  · rintro ⟨rfl, hfree⟩
    rw [← primed_zero F.name] at hfree
    show firstFree (primed F.name) _ = _
    rw [firstFree_zero hfree, primed_zero]

/-- The name of a binder differs from the names in scope and from the names of the signature in its body.
The printed binder has it once, and once more for each use of its variable; it is written for something
else just where a former of that name is printed in the body, for which the binder must have the name
itself. -/
theorem freshName_captures_formers (scope : List String) (name : Option String) (body : Check) :
    let y := freshName scope name body
    let captured := (body.formers.map Former.name).count y
    y ∉ scope ∧ y ∉ body.globals ∧
    (∀ F ∈ body.formers, y = F.name ↔ name = some F.name ∧ F.name ∉ scope ++ body.globals) ∧
    ((∀ x ∈ name, IsName x) →
      (∀ s prec, ((Check.lam s name body).doc scope prec).occurrences y =
        1 + body.uses 0 + captured) ∧
      ∀ s d prec, body.binds 0 = true →
        ((Synth.pi s name d body).doc scope prec).occurrences y =
          1 + (d.doc scope .top).occurrences y + body.uses 0 + captured) := by
  intro y captured
  have hscope : y ∉ scope := freshName_notMem_scope
  have hglobals : y ∉ body.globals := fun h => freshName_notMem (List.mem_append_right _ h)
  refine ⟨hscope, hglobals, fun F _ => freshName_eq_former_iff, fun hname => ?_⟩
  have hy : IsName y := isName_freshName hname
  have hbody : (body.doc (y :: scope) .arrow).occurrences y = body.uses 0 + captured :=
    Check.occurrences_doc hy body .arrow (stands_zero hscope) hglobals
  constructor
  · intro s prec
    have hcons : ∀ xs : List String, (y :: xs).count y = 1 + xs.count y := by
      intro xs
      rw [List.count_cons_self, Nat.add_comm]
    rw [Check.doc, Print.occurrences_lambda hy, hcons, Nat.add_assoc, Check.occurrences_lamDoc hy,
      hbody, Nat.add_assoc]
  · intro s d prec hbinds
    rw [Synth.doc, Print.occurrences_arrow hy, hbinds, if_pos rfl, Print.occurrences_binder hy,
      List.count_singleton_self, hbody, Nat.add_assoc _ (body.uses 0)]

/-- The parameter of `λNat. Nat` is not used: the second name is that of the former. -/
theorem lambda_nat_captures :
    let body := Check.synth (.nat none)
    (Check.lam none (some "Nat") body).render 80 = "λNat. Nat" ∧
    freshName [] (some "Nat") body = Former.nat.name ∧ body.uses 0 = 0 ∧
      ((Check.lam none (some "Nat") body).doc [] .top).occurrences "Nat" = 2 := by
  intro body
  obtain ⟨_, _, hformer, hprinted⟩ := freshName_captures_formers [] (some "Nat") body
  have hname : ∀ x ∈ some "Nat", IsName x := by
    rintro _ ⟨⟩
    exact isName_iff.mpr ⟨'N', ['a', 't'], rfl, rfl, List.all_eq_true.mp rfl, rfl⟩
  have hy : freshName [] (some "Nat") body = Former.nat.name :=
    (hformer .nat List.mem_cons_self).mpr ⟨rfl, List.not_mem_nil⟩
  have hcount := (hprinted hname).1 none .top
  rw [hy] at hcount
  exact ⟨by decide +kernel, hy, rfl, hcount⟩

end TypeInType
