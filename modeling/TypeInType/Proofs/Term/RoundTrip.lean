import TypeInType.Proofs.Term.Phrase

/-!
# Printed terms read back

Every layout of a printed term reads back as the term, up to spans and names of binders. The printed
names matter here: a name that is printed for a binder must be found at that binder, and no binder may
hide a name of the signature or a former.
-/

namespace TypeInType

/-! ## Terms that can be printed -/

mutual

/-- The term has no hypotheses and no test formers, its names and those of its binders are variables,
and its numerals are not too large. -/
def Synth.Printable : Synth → Prop
  | .ann _ e t => e.Printable ∧ t.Printable
  | .star _ => True
  | .pi _ x d c => (∀ y ∈ x, IsVariable y) ∧ d.Printable ∧ c.Printable
  | .bound _ _ => True
  | .free _ (.global x) => IsVariable x
  | .free _ _ => False
  | .app _ h a => h.Printable ∧ a.Printable
  | .nat _ => True
  | .zero _ => True
  | .succ s n => n.Printable ∧ ∀ k, (Synth.succ s n).numeral? = some k → k ≤ maxNumber
  | .natElim _ m b s n => m.Printable ∧ b.Printable ∧ s.Printable ∧ n.Printable
  | .vec _ a n => a.Printable ∧ n.Printable
  | .nil _ a => a.Printable
  | .cons _ a n x xs => a.Printable ∧ n.Printable ∧ x.Printable ∧ xs.Printable
  | .vecElim _ a m b s n xs => a.Printable ∧ m.Printable ∧ b.Printable ∧ s.Printable ∧
      n.Printable ∧ xs.Printable

def Check.Printable : Check → Prop
  | .synth t => t.Printable
  | .lam _ x b => (∀ y ∈ x, IsVariable y) ∧ b.Printable
  | .ascribe _ _ _ => False
  | .sealed _ _ => False

end

/-! ## Names in scope -/

mutual

theorem Synth.Scoped.lt_of_binds {P : Name → Prop} : ∀ {t : Synth} {k i : Nat}, t.Scoped P k →
    t.binds i = true → i < k
  | .ann _ e t, k, i, h, hi => by
    simp only [Synth.binds, Bool.or_eq_true] at hi
    rcases hi with hi | hi
    · exact Check.Scoped.lt_of_binds h.1 hi
    · exact Check.Scoped.lt_of_binds h.2 hi
  | .pi _ x d c, k, i, h, hi => by
    simp only [Synth.binds, Bool.or_eq_true] at hi
    rcases hi with hi | hi
    · exact Check.Scoped.lt_of_binds h.1 hi
    · exact Nat.lt_of_succ_lt_succ (Check.Scoped.lt_of_binds h.2 hi)
  | .bound _ j, k, i, h, hi => by
    cases beq_iff_eq.mp hi
    exact h
  | .app _ f a, k, i, h, hi => by
    simp only [Synth.binds, Bool.or_eq_true] at hi
    rcases hi with hi | hi
    · exact Synth.Scoped.lt_of_binds h.1 hi
    · exact Check.Scoped.lt_of_binds h.2 hi
  | .succ _ n, k, i, h, hi => Check.Scoped.lt_of_binds (t := n) h hi
  | .natElim _ m b s n, k, i, h, hi => by
    simp only [Synth.binds, Bool.or_eq_true] at hi
    rcases hi with ((hi | hi) | hi) | hi
    · exact Check.Scoped.lt_of_binds h.1 hi
    · exact Check.Scoped.lt_of_binds h.2.1 hi
    · exact Check.Scoped.lt_of_binds h.2.2.1 hi
    · exact Check.Scoped.lt_of_binds h.2.2.2 hi
  | .vec _ a n, k, i, h, hi => by
    simp only [Synth.binds, Bool.or_eq_true] at hi
    rcases hi with hi | hi
    · exact Check.Scoped.lt_of_binds h.1 hi
    · exact Check.Scoped.lt_of_binds h.2 hi
  | .nil _ a, k, i, h, hi => Check.Scoped.lt_of_binds (t := a) h hi
  | .cons _ a n x xs, k, i, h, hi => by
    simp only [Synth.binds, Bool.or_eq_true] at hi
    rcases hi with ((hi | hi) | hi) | hi
    · exact Check.Scoped.lt_of_binds h.1 hi
    · exact Check.Scoped.lt_of_binds h.2.1 hi
    · exact Check.Scoped.lt_of_binds h.2.2.1 hi
    · exact Check.Scoped.lt_of_binds h.2.2.2 hi
  | .vecElim _ a m b s n xs, k, i, h, hi => by
    simp only [Synth.binds, Bool.or_eq_true] at hi
    rcases hi with ((((hi | hi) | hi) | hi) | hi) | hi
    · exact Check.Scoped.lt_of_binds h.1 hi
    · exact Check.Scoped.lt_of_binds h.2.1 hi
    · exact Check.Scoped.lt_of_binds h.2.2.1 hi
    · exact Check.Scoped.lt_of_binds h.2.2.2.1 hi
    · exact Check.Scoped.lt_of_binds h.2.2.2.2.1 hi
    · exact Check.Scoped.lt_of_binds h.2.2.2.2.2 hi

theorem Check.Scoped.lt_of_binds {P : Name → Prop} : ∀ {t : Check} {k i : Nat}, t.Scoped P k →
    t.binds i = true → i < k
  | .synth t, k, i, h, hi => Synth.Scoped.lt_of_binds (t := t) h hi
  | .lam _ _ b, k, i, h, hi => Nat.lt_of_succ_lt_succ (Check.Scoped.lt_of_binds (t := b) h hi)
  | .ascribe _ t e, k, i, h, hi => by
    simp only [Check.binds, Bool.or_eq_true] at hi
    rcases hi with hi | hi
    · exact Check.Scoped.lt_of_binds h.1 hi
    · exact Check.Scoped.lt_of_binds h.2 hi
  | .sealed _ e, k, i, h, hi => Synth.Scoped.lt_of_binds (t := e) h hi

end

/-- The names that are printed for the binders in scope, and the names that reading finds there. What
occurs in a term is found where it was bound, and a binder hides no name that occurs free. -/
structure Seen (scope : List String) (found : List (Option String)) (binds : Nat → Bool)
    (globals : List String) : Prop where
  bound : ∀ i, binds i = true →
    ∃ x, scope[i]? = some x ∧ IsName x ∧ found.findIdx? (· == some x) = some i
  free : ∀ x ∈ globals, some x ∉ found
  former : ∀ x, some x ∈ found → Vocabulary.builtin.find? x = none

namespace Seen

variable {scope : List String} {found : List (Option String)} {binds binds' : Nat → Bool}
  {globals globals' : List String}

theorem mono (h : Seen scope found binds globals) (hb : ∀ i, binds' i = true → binds i = true)
    (hg : ∀ x ∈ globals', x ∈ globals) : Seen scope found binds' globals' :=
  ⟨fun i hi => h.bound i (hb i hi), fun x hx => h.free x (hg x hx), h.former⟩

/-- Under one more binder, which reading finds unless nothing refers to it. -/
theorem bind {x : String} {b : Option String}
    (h : Seen scope found (fun i => binds (i + 1)) globals) (hx : IsVariable x) (hscope : x ∉ scope)
    (hglobals : x ∉ globals) (hb : b = some x ∨ b = none ∧ binds 0 = false) :
    Seen (x :: scope) (b :: found) binds globals := by
  have hne : ∀ y, y ≠ x → b ≠ some y := by
    rintro y hy rfl
    rcases hb with hb | ⟨hb, _⟩
    · exact hy (Option.some.inj hb)
    · cases hb
  constructor
  · intro i hi
    cases i with
    | zero =>
      rcases hb with rfl | ⟨_, hb⟩
      · exact ⟨x, rfl, hx.1, by simp [List.findIdx?_cons]⟩
      · rw [hb] at hi
        cases hi
    | succ i =>
      obtain ⟨y, hy, hname, hfound⟩ := h.bound i hi
      have hyx : y ≠ x := fun hyx => hscope (hyx ▸ List.mem_of_getElem? hy)
      refine ⟨y, hy, hname, ?_⟩
      rw [List.findIdx?_cons, beq_eq_false_iff_ne.mpr (hne y hyx), hfound]
      rfl
  · intro y hy hmem
    rcases List.mem_cons.mp hmem with hyb | hmem
    · exact hne y (fun hyx => hglobals (hyx ▸ hy)) hyb.symm
    · exact h.free y hy hmem
  · intro y hmem
    rcases List.mem_cons.mp hmem with hyb | hmem
    · by_cases hyx : y = x
      · rw [hyx]
        exact hx.2
      · exact (hne y hyx hyb.symm).elim
    · exact h.former y hmem

/-- Under a binder with a fresh name. -/
theorem fresh {x b : Option String} {c : Check}
    (h : Seen scope found (fun i => c.binds (i + 1)) c.globals) (hx : ∀ y ∈ x, IsVariable y)
    (hb : b = some (freshName scope x c) ∨ b = none ∧ c.binds 0 = false) :
    Seen (freshName scope x c :: scope) (b :: found) c.binds c.globals := by
  have hfresh : freshName scope x c ∉ scope ++ c.globals := freshName_notMem
  rw [List.mem_append, not_or] at hfresh
  exact h.bind (isVariable_freshName hx) hfresh.1 hfresh.2 hb

theorem former_notMem (h : Seen scope found binds globals) {F : Former} {spec : FormerSpec}
    (hspec : F.IsSpec spec) : some F.name ∉ found := by
  intro hmem
  have hnone := h.former _ hmem
  rw [hspec.find] at hnone
  cases hnone

end Seen

/-! ## Terms -/

section Terms

variable {file : Nat}

mutual

theorem Synth.doc_prints : ∀ (t : Synth) {scope : List String} {found : List (Option String)}
    (prec : Prec), t.Printable → Seen scope found t.binds t.globals →
      (t.doc scope prec).Prints file found prec (.synth t)
  | .ann _ e t, scope, found, prec, hp, hseen => by
    have he := e.doc_prints .arrow hp.1
      (hseen.mono (fun i hi => by simp [Synth.binds, hi]) fun x hx => by simp [Synth.globals, hx])
    have ht := t.doc_prints .arrow hp.2
      (hseen.mono (fun i hi => by simp [Synth.binds, hi]) fun x hx => by simp [Synth.globals, hx])
    exact he.annotation ht
  | .star _, scope, found, prec, hp, hseen => Doc.prints_star
  | .pi _ x d c, scope, found, prec, hp, hseen => by
    have hd : Seen scope found d.binds d.globals :=
      hseen.mono (fun i hi => by simp [Synth.binds, hi]) fun x hx => by simp [Synth.globals, hx]
    have hc : Seen scope found (fun i => c.binds (i + 1)) c.globals :=
      hseen.mono (fun i hi => by simp [Synth.binds, hi]) fun x hx => by simp [Synth.globals, hx]
    have hx : IsVariable (freshName scope x c) := isVariable_freshName hp.1
    rw [Synth.doc]
    cases hb : c.binds 0 with
    | true =>
      have hc' := c.doc_prints .arrow hp.2.2 (hc.fresh hp.1 (.inl rfl))
      exact (d.doc_prints .top hp.2.1 hd).binder hx.1 hc'
    | false =>
      have hc' := c.doc_prints .arrow hp.2.2 (hc.fresh hp.1 (.inr ⟨rfl, hb⟩))
      exact (d.doc_prints .app hp.2.1 hd).arrow hc'
  | .bound _ i, scope, found, prec, hp, hseen => by
    obtain ⟨x, hx, hname, hfound⟩ := hseen.bound i (by simp [Synth.binds])
    rw [Synth.doc, hx]
    exact Doc.prints_name hname fun r => ⟨_, Expr.elaborates_bound hfound, rfl⟩
  | .free _ (.global x), scope, found, prec, hp, hseen => by
    have hx := hseen.free x (by simp [Synth.globals])
    exact Doc.prints_name hp.1 fun r => ⟨_, Expr.elaborates_global hx hp.2, rfl⟩
  | .free _ (.hyp _), scope, found, prec, hp, hseen => hp.elim
  | .free _ (.quote _), scope, found, prec, hp, hseen => hp.elim
  | .app _ f a, scope, found, prec, hp, hseen => by
    have hf := f.doc_prints .app hp.1
      (hseen.mono (fun i hi => by simp [Synth.binds, hi]) fun x hx => by simp [Synth.globals, hx])
    have ha := a.doc_prints .atom hp.2
      (hseen.mono (fun i hi => by simp [Synth.binds, hi]) fun x hx => by simp [Synth.globals, hx])
    exact hf.app ha
  | .nat _, scope, found, prec, hp, hseen =>
    Doc.prints_former FormerSpec.isSpec_nat (hseen.former_notMem FormerSpec.isSpec_nat) rfl .nil rfl
  | .zero s, scope, found, prec, hp, hseen => Doc.prints_numeral (t := .zero s) rfl (Nat.zero_le _)
  | .succ s n, scope, found, prec, hp, hseen => by
    rw [Synth.doc]
    cases hk : (Synth.succ s n).numeral? with
    | some k => exact Doc.prints_numeral hk (hp.2 k hk)
    | none =>
      have hn := n.doc_prints .atom hp.1 hseen
      exact Doc.prints_former FormerSpec.isSpec_succ (hseen.former_notMem FormerSpec.isSpec_succ) rfl
        (.cons hn .nil) rfl
  | .natElim _ m b s n, scope, found, prec, hp, hseen => by
    have hm := m.doc_prints .atom hp.1
      (hseen.mono (fun i hi => by simp [Synth.binds, hi]) fun x hx => by simp [Synth.globals, hx])
    have hb := b.doc_prints .atom hp.2.1
      (hseen.mono (fun i hi => by simp [Synth.binds, hi]) fun x hx => by simp [Synth.globals, hx])
    have hs := s.doc_prints .atom hp.2.2.1
      (hseen.mono (fun i hi => by simp [Synth.binds, hi]) fun x hx => by simp [Synth.globals, hx])
    have hn := n.doc_prints .atom hp.2.2.2
      (hseen.mono (fun i hi => by simp [Synth.binds, hi]) fun x hx => by simp [Synth.globals, hx])
    exact Doc.prints_former FormerSpec.isSpec_natElim (hseen.former_notMem FormerSpec.isSpec_natElim) rfl
      (.cons hm (.cons hb (.cons hs (.cons hn .nil)))) rfl
  | .vec _ a n, scope, found, prec, hp, hseen => by
    have ha := a.doc_prints .atom hp.1
      (hseen.mono (fun i hi => by simp [Synth.binds, hi]) fun x hx => by simp [Synth.globals, hx])
    have hn := n.doc_prints .atom hp.2
      (hseen.mono (fun i hi => by simp [Synth.binds, hi]) fun x hx => by simp [Synth.globals, hx])
    exact Doc.prints_former FormerSpec.isSpec_vec (hseen.former_notMem FormerSpec.isSpec_vec) rfl
      (.cons ha (.cons hn .nil)) rfl
  | .nil _ a, scope, found, prec, hp, hseen => by
    have ha := a.doc_prints .atom hp
      (hseen.mono (fun i hi => by simp [Synth.binds, hi]) fun x hx => by simp [Synth.globals, hx])
    exact Doc.prints_former FormerSpec.isSpec_nil (hseen.former_notMem FormerSpec.isSpec_nil) rfl
      (.cons ha .nil) rfl
  | .cons _ a n x xs, scope, found, prec, hp, hseen => by
    have ha := a.doc_prints .atom hp.1
      (hseen.mono (fun i hi => by simp [Synth.binds, hi]) fun x hx => by simp [Synth.globals, hx])
    have hn := n.doc_prints .atom hp.2.1
      (hseen.mono (fun i hi => by simp [Synth.binds, hi]) fun x hx => by simp [Synth.globals, hx])
    have hx := x.doc_prints .atom hp.2.2.1
      (hseen.mono (fun i hi => by simp [Synth.binds, hi]) fun x hx => by simp [Synth.globals, hx])
    have hxs := xs.doc_prints .atom hp.2.2.2
      (hseen.mono (fun i hi => by simp [Synth.binds, hi]) fun x hx => by simp [Synth.globals, hx])
    exact Doc.prints_former FormerSpec.isSpec_cons (hseen.former_notMem FormerSpec.isSpec_cons) rfl
      (.cons ha (.cons hn (.cons hx (.cons hxs .nil)))) rfl
  | .vecElim _ a m b s n xs, scope, found, prec, hp, hseen => by
    have ha := a.doc_prints .atom hp.1
      (hseen.mono (fun i hi => by simp [Synth.binds, hi]) fun x hx => by simp [Synth.globals, hx])
    have hm := m.doc_prints .atom hp.2.1
      (hseen.mono (fun i hi => by simp [Synth.binds, hi]) fun x hx => by simp [Synth.globals, hx])
    have hb := b.doc_prints .atom hp.2.2.1
      (hseen.mono (fun i hi => by simp [Synth.binds, hi]) fun x hx => by simp [Synth.globals, hx])
    have hs := s.doc_prints .atom hp.2.2.2.1
      (hseen.mono (fun i hi => by simp [Synth.binds, hi]) fun x hx => by simp [Synth.globals, hx])
    have hn := n.doc_prints .atom hp.2.2.2.2.1
      (hseen.mono (fun i hi => by simp [Synth.binds, hi]) fun x hx => by simp [Synth.globals, hx])
    have hxs := xs.doc_prints .atom hp.2.2.2.2.2
      (hseen.mono (fun i hi => by simp [Synth.binds, hi]) fun x hx => by simp [Synth.globals, hx])
    exact Doc.prints_former FormerSpec.isSpec_vecElim (hseen.former_notMem FormerSpec.isSpec_vecElim) rfl
      (.cons ha (.cons hm (.cons hb (.cons hs (.cons hn (.cons hxs .nil)))))) rfl

theorem Check.doc_prints : ∀ (t : Check) {scope : List String} {found : List (Option String)}
    (prec : Prec), t.Printable → Seen scope found t.binds t.globals →
      (t.doc scope prec).Prints file found prec t
  | .synth t, scope, found, prec, hp, hseen => t.doc_prints prec hp hseen
  | .lam _ x b, scope, found, prec, hp, hseen => by
    have hx : IsVariable (freshName scope x b) := isVariable_freshName hp.1
    have hb := b.lamDoc_prints hp.2 (Seen.fresh hseen hp.1 (.inl rfl))
    exact (hb.cons hx.1).lambda
  | .ascribe _ _ _, scope, found, prec, hp, hseen => hp.elim
  | .sealed _ _, scope, found, prec, hp, hseen => hp.elim

theorem Check.lamDoc_prints : ∀ (t : Check) {scope : List String} {found : List (Option String)},
    t.Printable → Seen scope found t.binds t.globals →
      Doc.PrintsLam file found (t.lamDoc scope).1 (t.lamDoc scope).2 t
  | .synth t, scope, found, hp, hseen => (t.doc_prints .arrow hp hseen).printsLam
  | .lam _ x b, scope, found, hp, hseen => by
    have hx : IsVariable (freshName scope x b) := isVariable_freshName hp.1
    exact (b.lamDoc_prints hp.2 (Seen.fresh hseen hp.1 (.inl rfl))).cons hx.1
  | .ascribe _ _ _, scope, found, hp, hseen => hp.elim
  | .sealed _ _, scope, found, hp, hseen => hp.elim

end

end Terms

/-- Every layout of a closed term that can be printed, be it at some width or with other line breaks,
reads back as the term, up to spans and names of binders, if its positions can be counted. Otherwise it is
not read at all. -/
theorem Synth.elaborate_readTerm_lays {t : Synth} (ht : t.Scoped IsGlobal 0) (hp : t.Printable)
    (file : Nat) :
    (∀ width, (t.doc [] .top).Lays ((t.doc [] .top).render width).toList) ∧
      ∀ text : String, (t.doc [] .top).Lays text.toList →
        (Countable text → ∃ e t', readTerm text = .ok e ∧ e.elaborate file .builtin = .ok t' ∧
          t'.alphaEq t = true) ∧
        (¬Countable text → readTerm text = .abort .sourceTooLong) := by
  refine ⟨fun width => (t.doc [] .top).render_lays width, fun text hlays =>
    ⟨fun htext => ?_, readSource_of_not_countable⟩⟩
  have hseen : Seen [] [] t.binds t.globals :=
    ⟨fun i hi => absurd (ht.lt_of_binds hi) (Nat.not_lt_zero i), fun x _ => List.not_mem_nil, nofun⟩
  have hprints : (t.doc [] .top).Prints file [] .top (.synth t) := t.doc_prints .top hp hseen
  obtain ⟨ws, hscans, hreads⟩ := hprints
  obtain ⟨ts, hlex, hts⟩ := hscans.lexSource_lays hlays htext
  obtain ⟨e, t', hd, he, ht'⟩ := hreads ts hts
  obtain ⟨u, rfl⟩ := Doc.eq_synth_of_nameless ht'
  refine ⟨e, u, ?_, ?_, Synth.alphaEq_iff.mpr ht'⟩
  · rw [readTerm, readSource_of_lexSource hlex, Run.ofExcept_eq_ok]
    exact Read.term_eq_ok.mpr hd
  · rw [Expr.elaborate, Elaborate.check, he]
    rfl

/-- Printed as `λx' x''. x x' 2 : forall (a : *) -> Vec a 0 -> *`: no binder may hide the name `x`. -/
def shadowing : Synth :=
  .ann none (.lam none (some "x") (.lam none (some "x") (.synth (.app none (.app none
      (.free none (.global "x")) (.synth (.bound none 1)))
      (.synth (.succ none (.synth (.succ none (.synth (.zero none)))))))))) <|
    .synth (.pi none none (.synth (.star none)) (.synth (.pi none (some "y")
      (.synth (.vec none (.synth (.bound none 0)) (.synth (.zero none)))) (.synth (.star none)))))

theorem shadowing_reads_back : shadowing.Scoped IsGlobal 0 ∧ shadowing.Printable ∧
    Countable ((shadowing.doc [] .top).render 1) ∧
      ∃ e t', readTerm ((shadowing.doc [] .top).render 1) = .ok e ∧ e.elaborate 0 .builtin = .ok t' ∧
        t'.alphaEq shadowing = true := by
  have hx : IsVariable "x" := isVariable_of_notMem rfl rfl nofun (by decide)
  have hy : IsVariable "y" := isVariable_of_notMem rfl rfl nofun (by decide)
  have hscoped : shadowing.Scoped IsGlobal 0 := by
    simp [shadowing, Synth.Scoped, Check.Scoped, IsGlobal]
  have hprintable : shadowing.Printable := by
    simp [shadowing, Synth.Printable, Check.Printable, hx, hy, Synth.numeral?, maxNumber]
  have hcountable : Countable ((shadowing.doc [] .top).render 1) := by decide +kernel
  obtain ⟨hlays, hreads⟩ := Synth.elaborate_readTerm_lays hscoped hprintable 0
  exact ⟨hscoped, hprintable, hcountable, (hreads _ (hlays 1)).1 hcountable⟩

/-- A name applied to itself `n` times. -/
def selfApplied : Nat → Synth
  | 0 => .free none (.global "x")
  | n + 1 => .app none (selfApplied n) (.synth (.free none (.global "x")))

theorem scoped_selfApplied : ∀ n : Nat, (selfApplied n).Scoped IsGlobal 0
  | 0 => trivial
  | n + 1 => ⟨scoped_selfApplied n, trivial⟩

theorem printable_selfApplied : ∀ n : Nat, (selfApplied n).Printable
  | 0 => isVariable_of_notMem rfl rfl nofun (by decide)
  | n + 1 => ⟨printable_selfApplied n, printable_selfApplied 0⟩

/-- Each argument takes a byte at least. -/
theorem lt_byteLength_selfApplied {n : Nat} {prec : Prec} {cs : List Char}
    (hprec : prec.exceeds .app = false) (h : ((selfApplied n).doc [] prec).Lays cs) :
    n < byteLength cs := by
  induction n generalizing prec cs with
  | zero =>
    cases h
    decide
  | succ n ih =>
    simp only [selfApplied, Synth.doc, Check.doc, Print.app, Print.argument, hprec] at h
    cases h with
    | group h =>
      cases h with
      | @append _ _ cs ds hhead harg =>
        have hn : n < byteLength cs := ih rfl hhead
        have hds : ds ≠ [] := by
          cases harg with
          | nest harg =>
            cases harg with
            | append _ hname =>
              cases hname
              exact List.append_ne_nil_of_right_ne_nil _ (by decide)
        rw [byteLength_append]
        exact Nat.add_lt_add_of_lt_of_le hn (byteLength_pos hds)

/-- A name that is applied to itself often enough can be printed, but not read: the text has more bytes
than can be counted. -/
theorem selfApplied_not_read_back :
    let t := selfApplied maxPosition
    t.Scoped IsGlobal 0 ∧ t.Printable ∧
      ∀ width, readTerm ((t.doc [] .top).render width) = .abort .sourceTooLong := by
  refine ⟨scoped_selfApplied _, printable_selfApplied _, fun width => readSource_of_not_countable ?_⟩
  exact Nat.not_le_of_lt (lt_byteLength_selfApplied rfl (Doc.render_lays width _))

end TypeInType
