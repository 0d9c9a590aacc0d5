import TypeInType.Term.FreshName

/-!
# Terms that differ a little

Two terms are alike when they differ in spans, in the names of binders and in the places of their bound
variables only. Relations say which spans, which names and which variables of the two scopes correspond.
-/

namespace TypeInType

/-- Which variables correspond inside two binders. -/
inductive Under (V : Nat → Nat → Prop) : Nat → Nat → Prop where
  | here : Under V 0 0
  | there {i j : Nat} : V i j → Under V (i + 1) (j + 1)

/-- What may differ. -/
abbrev Any {α : Type} (_ _ : α) : Prop := True

mutual

/-- The spans correspond along `S`, the names of binders along `N` and the bound variables along `V`.
The names of the signature are the same, and satisfy `G`. -/
inductive Synth.Alike (S : Span → Span → Prop) (N : Option String → Option String → Prop)
    (G : String → Prop) : (Nat → Nat → Prop) → Synth → Synth → Prop where
  | ann {V s s' e e' t t'} : S s s' → Check.Alike S N G V e e' → Check.Alike S N G V t t' →
      Synth.Alike S N G V (.ann s e t) (.ann s' e' t')
  | star {V s s'} : S s s' → Synth.Alike S N G V (.star s) (.star s')
  | pi {V s s' x x' d d' c c'} : S s s' → N x x' → Check.Alike S N G V d d' →
      Check.Alike S N G (Under V) c c' → Synth.Alike S N G V (.pi s x d c) (.pi s' x' d' c')
  | bound {V s s' i i'} : S s s' → V i i' → Synth.Alike S N G V (.bound s i) (.bound s' i')
  | global {V s s' x} : S s s' → G x →
      Synth.Alike S N G V (.free s (.global x)) (.free s' (.global x))
  | hyp {V s s' l} : S s s' → Synth.Alike S N G V (.free s (.hyp l)) (.free s' (.hyp l))
  | quote {V s s' l} : S s s' → Synth.Alike S N G V (.free s (.quote l)) (.free s' (.quote l))
  | app {V s s' h h' a a'} : S s s' → Synth.Alike S N G V h h' → Check.Alike S N G V a a' →
      Synth.Alike S N G V (.app s h a) (.app s' h' a')
  | nat {V s s'} : S s s' → Synth.Alike S N G V (.nat s) (.nat s')
  | zero {V s s'} : S s s' → Synth.Alike S N G V (.zero s) (.zero s')
  | succ {V s s' n n'} : S s s' → Check.Alike S N G V n n' →
      Synth.Alike S N G V (.succ s n) (.succ s' n')
  | natElim {V s s' m m' b b' t t' n n'} : S s s' → Check.Alike S N G V m m' →
      Check.Alike S N G V b b' → Check.Alike S N G V t t' → Check.Alike S N G V n n' →
      Synth.Alike S N G V (.natElim s m b t n) (.natElim s' m' b' t' n')
  | vec {V s s' a a' n n'} : S s s' → Check.Alike S N G V a a' → Check.Alike S N G V n n' →
      Synth.Alike S N G V (.vec s a n) (.vec s' a' n')
  | nil {V s s' a a'} : S s s' → Check.Alike S N G V a a' →
      Synth.Alike S N G V (.nil s a) (.nil s' a')
  | cons {V s s' a a' n n' x x' xs xs'} : S s s' → Check.Alike S N G V a a' →
      Check.Alike S N G V n n' → Check.Alike S N G V x x' → Check.Alike S N G V xs xs' →
      Synth.Alike S N G V (.cons s a n x xs) (.cons s' a' n' x' xs')
  | vecElim {V s s' a a' m m' b b' t t' n n' xs xs'} : S s s' → Check.Alike S N G V a a' →
      Check.Alike S N G V m m' → Check.Alike S N G V b b' → Check.Alike S N G V t t' →
      Check.Alike S N G V n n' → Check.Alike S N G V xs xs' →
      Synth.Alike S N G V (.vecElim s a m b t n xs) (.vecElim s' a' m' b' t' n' xs')

inductive Check.Alike (S : Span → Span → Prop) (N : Option String → Option String → Prop)
    (G : String → Prop) : (Nat → Nat → Prop) → Check → Check → Prop where
  | synth {V t t'} : Synth.Alike S N G V t t' → Check.Alike S N G V (.synth t) (.synth t')
  | lam {V s s' x x' b b'} : S s s' → N x x' → Check.Alike S N G (Under V) b b' →
      Check.Alike S N G V (.lam s x b) (.lam s' x' b')
  | ascribe {V s s' t t' e e'} : S s s' → Check.Alike S N G V t t' → Check.Alike S N G V e e' →
      Check.Alike S N G V (.ascribe s t e) (.ascribe s' t' e')
  | sealed {V s s' e e'} : S s s' → Synth.Alike S N G V e e' →
      Check.Alike S N G V (.sealed s e) (.sealed s' e')

end

theorem Under.eq {i : Nat} : ∀ {V : Nat → Nat → Prop}, (∀ j, V j j) → Under V i i
  | _, h => by
    cases i with
    | zero => exact .here
    | succ i => exact .there (h i)

theorem under_eq : Under Eq = Eq := by
  funext i j
  apply propext
  constructor
  · intro h
    cases h with
    | here => rfl
    | there h => exact congrArg (· + 1) h
  · rintro rfl
    exact Under.eq fun _ => rfl

section Alike

variable {S : Span → Span → Prop} {N : Option String → Option String → Prop} {G : String → Prop}

theorem Check.alike_under {t t' : Check} :
    t.Alike S N G (Under Eq) t' ↔ t.Alike S N G Eq t' := by
  rw [under_eq]

theorem Synth.Alike.span {V : Nat → Nat → Prop} {t t' : Synth} (h : t.Alike S N G V t') :
    S t.span t'.span := by
  cases h <;> assumption

theorem Check.Alike.span {V : Nat → Nat → Prop} {t t' : Check} (h : t.Alike S N G V t') :
    S t.span t'.span := by
  cases h with
  | synth h => exact h.span
  | lam hs _ _ => exact hs
  | ascribe hs _ _ => exact hs
  | sealed hs _ => exact hs

/-! ## A term is like itself -/

mutual

theorem Synth.Alike.refl (hS : ∀ s, S s s) (hN : ∀ x, N x x) {V : Nat → Nat → Prop}
    (hV : ∀ i, V i i) : ∀ t : Synth, (∀ x ∈ t.globals, G x) → t.Alike S N G V t
  | .ann s e t, h => by
    simp only [Synth.globals, List.forall_mem_append] at h
    obtain ⟨he, ht⟩ := h
    exact .ann (hS s) (Check.Alike.refl hS hN hV e he) (Check.Alike.refl hS hN hV t ht)
  | .star s, _ => .star (hS s)
  | .pi s x d c, h => by
    simp only [Synth.globals, List.forall_mem_append] at h
    obtain ⟨hd, hc⟩ := h
    exact .pi (hS s) (hN x) (Check.Alike.refl hS hN hV d hd)
      (Check.Alike.refl hS hN (fun _ => Under.eq hV) c hc)
  | .bound s i, _ => .bound (hS s) (hV i)
  | .free s (.global x), h => .global (hS s) (h x List.mem_cons_self)
  | .free s (.hyp _), _ => .hyp (hS s)
  | .free s (.quote _), _ => .quote (hS s)
  | .app s f a, h => by
    simp only [Synth.globals, List.forall_mem_append] at h
    obtain ⟨hf, ha⟩ := h
    exact .app (hS s) (Synth.Alike.refl hS hN hV f hf) (Check.Alike.refl hS hN hV a ha)
  | .nat s, _ => .nat (hS s)
  | .zero s, _ => .zero (hS s)
  | .succ s n, h => .succ (hS s) (Check.Alike.refl hS hN hV n h)
  | .natElim s m b t n, h => by
    simp only [Synth.globals, List.forall_mem_append] at h
    obtain ⟨⟨⟨hm, hb⟩, ht⟩, hn⟩ := h
    exact .natElim (hS s) (Check.Alike.refl hS hN hV m hm) (Check.Alike.refl hS hN hV b hb)
      (Check.Alike.refl hS hN hV t ht) (Check.Alike.refl hS hN hV n hn)
  | .vec s a n, h => by
    simp only [Synth.globals, List.forall_mem_append] at h
    obtain ⟨ha, hn⟩ := h
    exact .vec (hS s) (Check.Alike.refl hS hN hV a ha) (Check.Alike.refl hS hN hV n hn)
  | .nil s a, h => .nil (hS s) (Check.Alike.refl hS hN hV a h)
  | .cons s a n x xs, h => by
    simp only [Synth.globals, List.forall_mem_append] at h
    obtain ⟨⟨⟨ha, hn⟩, hx⟩, hxs⟩ := h
    exact .cons (hS s) (Check.Alike.refl hS hN hV a ha) (Check.Alike.refl hS hN hV n hn)
      (Check.Alike.refl hS hN hV x hx) (Check.Alike.refl hS hN hV xs hxs)
  | .vecElim s a m b t n xs, h => by
    simp only [Synth.globals, List.forall_mem_append] at h
    obtain ⟨⟨⟨⟨⟨ha, hm⟩, hb⟩, ht⟩, hn⟩, hxs⟩ := h
    exact .vecElim (hS s) (Check.Alike.refl hS hN hV a ha) (Check.Alike.refl hS hN hV m hm)
      (Check.Alike.refl hS hN hV b hb) (Check.Alike.refl hS hN hV t ht)
      (Check.Alike.refl hS hN hV n hn) (Check.Alike.refl hS hN hV xs hxs)

theorem Check.Alike.refl (hS : ∀ s, S s s) (hN : ∀ x, N x x) {V : Nat → Nat → Prop}
    (hV : ∀ i, V i i) : ∀ t : Check, (∀ x ∈ t.globals, G x) → t.Alike S N G V t
  | .synth t, h => .synth (Synth.Alike.refl hS hN hV t h)
  | .lam s x b, h => .lam (hS s) (hN x) (Check.Alike.refl hS hN (fun _ => Under.eq hV) b h)
  | .ascribe s t e, h => by
    simp only [Check.globals, List.forall_mem_append] at h
    obtain ⟨ht, he⟩ := h
    exact .ascribe (hS s) (Check.Alike.refl hS hN hV t ht) (Check.Alike.refl hS hN hV e he)
  | .sealed s e, h => .sealed (hS s) (Synth.Alike.refl hS hN hV e h)

end

/-! ## Spans -/

mutual

theorem Synth.Alike.anySpan : ∀ {V : Nat → Nat → Prop} {t t' : Synth}, t.Alike S N G V t' →
    t.Alike Any N G V t'
  | _, _, _, .ann _ he ht => .ann trivial he.anySpan ht.anySpan
  | _, _, _, .star _ => .star trivial
  | _, _, _, .pi _ hx hd hc => .pi trivial hx hd.anySpan hc.anySpan
  | _, _, _, .bound _ hi => .bound trivial hi
  | _, _, _, .global _ hG => .global trivial hG
  | _, _, _, .hyp _ => .hyp trivial
  | _, _, _, .quote _ => .quote trivial
  | _, _, _, .app _ hh ha => .app trivial hh.anySpan ha.anySpan
  | _, _, _, .nat _ => .nat trivial
  | _, _, _, .zero _ => .zero trivial
  | _, _, _, .succ _ hn => .succ trivial hn.anySpan
  | _, _, _, .natElim _ hm hb ht hn => .natElim trivial hm.anySpan hb.anySpan ht.anySpan hn.anySpan
  | _, _, _, .vec _ ha hn => .vec trivial ha.anySpan hn.anySpan
  | _, _, _, .nil _ ha => .nil trivial ha.anySpan
  | _, _, _, .cons _ ha hn hx hxs => .cons trivial ha.anySpan hn.anySpan hx.anySpan hxs.anySpan
  | _, _, _, .vecElim _ ha hm hb ht hn hxs => .vecElim trivial ha.anySpan hm.anySpan hb.anySpan
      ht.anySpan hn.anySpan hxs.anySpan

theorem Check.Alike.anySpan : ∀ {V : Nat → Nat → Prop} {t t' : Check}, t.Alike S N G V t' →
    t.Alike Any N G V t'
  | _, _, _, .synth ht => .synth ht.anySpan
  | _, _, _, .lam _ hx hb => .lam trivial hx hb.anySpan
  | _, _, _, .ascribe _ ht he => .ascribe trivial ht.anySpan he.anySpan
  | _, _, _, .sealed _ he => .sealed trivial he.anySpan

end

/-! ## Substitution -/

mutual

theorem Synth.Alike.subst {r : Synth} (hr : r.Alike S N G Eq r) : ∀ {t t' : Synth} (i : Nat),
    t.Alike S N G Eq t' → (t.subst i r).Alike S N G Eq (t'.subst i r)
  | _, _, i, .ann hs he ht => .ann hs (Check.Alike.subst hr i he) (Check.Alike.subst hr i ht)
  | _, _, i, .star hs => .star hs
  | _, _, i, .pi hs hx hd hc => .pi hs hx (Check.Alike.subst hr i hd)
      (Check.alike_under.mpr (Check.Alike.subst hr (i + 1) (Check.alike_under.mp hc)))
  | .bound _ j, _, i, .bound hs rfl => by
    simp only [Synth.subst]
    split
    · exact hr
    · exact .bound hs rfl
  | _, _, i, .global hs hG => .global hs hG
  | _, _, i, .hyp hs => .hyp hs
  | _, _, i, .quote hs => .quote hs
  | _, _, i, .app hs hh ha => .app hs (Synth.Alike.subst hr i hh) (Check.Alike.subst hr i ha)
  | _, _, i, .nat hs => .nat hs
  | _, _, i, .zero hs => .zero hs
  | _, _, i, .succ hs hn => .succ hs (Check.Alike.subst hr i hn)
  | _, _, i, .natElim hs hm hb ht hn => .natElim hs (Check.Alike.subst hr i hm)
      (Check.Alike.subst hr i hb) (Check.Alike.subst hr i ht) (Check.Alike.subst hr i hn)
  | _, _, i, .vec hs ha hn => .vec hs (Check.Alike.subst hr i ha) (Check.Alike.subst hr i hn)
  | _, _, i, .nil hs ha => .nil hs (Check.Alike.subst hr i ha)
  | _, _, i, .cons hs ha hn hx hxs => .cons hs (Check.Alike.subst hr i ha)
      (Check.Alike.subst hr i hn) (Check.Alike.subst hr i hx) (Check.Alike.subst hr i hxs)
  | _, _, i, .vecElim hs ha hm hb ht hn hxs => .vecElim hs (Check.Alike.subst hr i ha)
      (Check.Alike.subst hr i hm) (Check.Alike.subst hr i hb) (Check.Alike.subst hr i ht)
      (Check.Alike.subst hr i hn) (Check.Alike.subst hr i hxs)

theorem Check.Alike.subst {r : Synth} (hr : r.Alike S N G Eq r) : ∀ {t t' : Check} (i : Nat),
    t.Alike S N G Eq t' → (t.subst i r).Alike S N G Eq (t'.subst i r)
  | _, _, i, .synth ht => .synth (Synth.Alike.subst hr i ht)
  | _, _, i, .lam hs hx hb =>
    .lam hs hx (Check.alike_under.mpr (Check.Alike.subst hr (i + 1) (Check.alike_under.mp hb)))
  | _, _, i, .ascribe hs ht he =>
    .ascribe hs (Check.Alike.subst hr i ht) (Check.Alike.subst hr i he)
  | _, _, i, .sealed hs he => .sealed hs (Synth.Alike.subst hr i he)

end

/-! ## Equality -/

mutual

theorem Synth.Alike.alphaEq : ∀ {t t' : Synth}, t.Alike S N G Eq t' → t.alphaEq t' = true
  | _, _, .ann _ he ht => by
    simp only [Synth.alphaEq, he.alphaEq, ht.alphaEq, Bool.and_self]
  | _, _, .star _ => rfl
  | _, _, .pi _ _ hd hc => by
    simp only [Synth.alphaEq, hd.alphaEq, (Check.alike_under.mp hc).alphaEq, Bool.and_self]
  | _, _, .bound _ rfl => by simp only [Synth.alphaEq, beq_self_eq_true]
  | _, _, .global _ _ => by simp only [Synth.alphaEq, beq_self_eq_true]
  | _, _, .hyp _ => by simp only [Synth.alphaEq, beq_self_eq_true]
  | _, _, .quote _ => by simp only [Synth.alphaEq, beq_self_eq_true]
  | _, _, .app _ hh ha => by
    simp only [Synth.alphaEq, hh.alphaEq, ha.alphaEq, Bool.and_self]
  | _, _, .nat _ => rfl
  | _, _, .zero _ => rfl
  | _, _, .succ _ hn => hn.alphaEq
  | _, _, .natElim _ hm hb ht hn => by
    simp only [Synth.alphaEq, hm.alphaEq, hb.alphaEq, ht.alphaEq, hn.alphaEq, Bool.and_self]
  | _, _, .vec _ ha hn => by
    simp only [Synth.alphaEq, ha.alphaEq, hn.alphaEq, Bool.and_self]
  | _, _, .nil _ ha => ha.alphaEq
  | _, _, .cons _ ha hn hx hxs => by
    simp only [Synth.alphaEq, ha.alphaEq, hn.alphaEq, hx.alphaEq, hxs.alphaEq, Bool.and_self]
  | _, _, .vecElim _ ha hm hb ht hn hxs => by
    simp only [Synth.alphaEq, ha.alphaEq, hm.alphaEq, hb.alphaEq, ht.alphaEq, hn.alphaEq,
      hxs.alphaEq, Bool.and_self]

theorem Check.Alike.alphaEq : ∀ {t t' : Check}, t.Alike S N G Eq t' → t.alphaEq t' = true
  | _, _, .synth ht => ht.alphaEq
  | _, _, .lam _ _ hb => (Check.alike_under.mp hb).alphaEq
  | _, _, .ascribe _ ht he => by simp only [Check.alphaEq, ht.alphaEq, he.alphaEq, Bool.and_self]
  | _, _, .sealed _ he => he.alphaEq

end

mutual

theorem Synth.Alike.eq : ∀ {t t' : Synth}, t.Alike Eq Eq G Eq t' → t = t'
  | _, _, .ann rfl he ht => by
    rw [he.eq, ht.eq]
  | _, _, .star rfl => rfl
  | _, _, .pi rfl rfl hd hc => by
    rw [hd.eq, (Check.alike_under.mp hc).eq]
  | _, _, .bound rfl rfl => rfl
  | _, _, .global rfl _ => rfl
  | _, _, .hyp rfl => rfl
  | _, _, .quote rfl => rfl
  | _, _, .app rfl hh ha => by
    rw [hh.eq, ha.eq]
  | _, _, .nat rfl => rfl
  | _, _, .zero rfl => rfl
  | _, _, .succ rfl hn => by
    rw [hn.eq]
  | _, _, .natElim rfl hm hb ht hn => by
    rw [hm.eq, hb.eq, ht.eq, hn.eq]
  | _, _, .vec rfl ha hn => by
    rw [ha.eq, hn.eq]
  | _, _, .nil rfl ha => by
    rw [ha.eq]
  | _, _, .cons rfl ha hn hx hxs => by
    rw [ha.eq, hn.eq, hx.eq, hxs.eq]
  | _, _, .vecElim rfl ha hm hb ht hn hxs => by
    rw [ha.eq, hm.eq, hb.eq, ht.eq, hn.eq, hxs.eq]

theorem Check.Alike.eq : ∀ {t t' : Check}, t.Alike Eq Eq G Eq t' → t = t'
  | _, _, .synth ht => by rw [ht.eq]
  | _, _, .lam rfl rfl hb => by rw [(Check.alike_under.mp hb).eq]
  | _, _, .ascribe rfl ht he => by rw [ht.eq, he.eq]
  | _, _, .sealed rfl he => by rw [he.eq]

end

/-- The terms are the same, but the names of binders correspond along `N`. -/
abbrev Synth.EqUpTo (N : Option String → Option String → Prop) (t t' : Synth) : Prop :=
  t.Alike Eq N (fun _ => True) Eq t'

/-- The terms are the same, but the names of binders correspond along `N`. -/
abbrev Check.EqUpTo (N : Option String → Option String → Prop) (t t' : Check) : Prop :=
  t.Alike Eq N (fun _ => True) Eq t'

end Alike

/-! ## Terms that are equal up to spans and names of binders -/

mutual

theorem Synth.Alike.congr {G : String → Prop} : ∀ {V : Nat → Nat → Prop} {t u u' : Synth},
    t.Alike Any Any G V u → u.alphaEq u' = true → t.Alike Any Any G V u'
  | _, _, _, u', .ann _ he ht, h => by
    cases u' with
    | ann _ e' t' =>
      rw [Synth.alphaEq, Bool.and_eq_true] at h
      exact .ann trivial (he.congr h.1) (ht.congr h.2)
    | _ => cases h
  | _, _, _, u', .star _, h => by
    cases u' with
    | star _ => exact .star trivial
    | _ => cases h
  | _, _, _, u', .pi _ _ hd hc, h => by
    cases u' with
    | pi _ _ d' c' =>
      rw [Synth.alphaEq, Bool.and_eq_true] at h
      exact .pi trivial trivial (hd.congr h.1) (hc.congr h.2)
    | _ => cases h
  | _, _, _, u', .bound _ hi, h => by
    cases u' with
    | bound _ i =>
      obtain rfl := eq_of_beq h
      exact .bound trivial hi
    | _ => cases h
  | _, _, _, u', .global _ hG, h => by
    cases u' with
    | free _ x =>
      obtain rfl := eq_of_beq h
      exact .global trivial hG
    | _ => cases h
  | _, _, _, u', .hyp _, h => by
    cases u' with
    | free _ x =>
      obtain rfl := eq_of_beq h
      exact .hyp trivial
    | _ => cases h
  | _, _, _, u', .quote _, h => by
    cases u' with
    | free _ x =>
      obtain rfl := eq_of_beq h
      exact .quote trivial
    | _ => cases h
  | _, _, _, u', .app _ hh ha, h => by
    cases u' with
    | app _ h' a' =>
      rw [Synth.alphaEq, Bool.and_eq_true] at h
      exact .app trivial (hh.congr h.1) (ha.congr h.2)
    | _ => cases h
  | _, _, _, u', .nat _, h => by
    cases u' with
    | nat _ => exact .nat trivial
    | _ => cases h
  | _, _, _, u', .zero _, h => by
    cases u' with
    | zero _ => exact .zero trivial
    | _ => cases h
  | _, _, _, u', .succ _ hn, h => by
    cases u' with
    | succ _ n' => exact .succ trivial (hn.congr h)
    | _ => cases h
  | _, _, _, u', .natElim _ hm hb hs hn, h => by
    cases u' with
    | natElim _ m' b' s' n' =>
      simp only [Synth.alphaEq, Bool.and_eq_true] at h
      obtain ⟨⟨⟨h₁, h₂⟩, h₃⟩, h₄⟩ := h
      exact .natElim trivial (hm.congr h₁) (hb.congr h₂) (hs.congr h₃) (hn.congr h₄)
    | _ => cases h
  | _, _, _, u', .vec _ ha hn, h => by
    cases u' with
    | vec _ a' n' =>
      rw [Synth.alphaEq, Bool.and_eq_true] at h
      exact .vec trivial (ha.congr h.1) (hn.congr h.2)
    | _ => cases h
  | _, _, _, u', .nil _ ha, h => by
    cases u' with
    | nil _ a' => exact .nil trivial (ha.congr h)
    | _ => cases h
  | _, _, _, u', .cons _ ha hn hx hxs, h => by
    cases u' with
    | cons _ a' n' x' xs' =>
      simp only [Synth.alphaEq, Bool.and_eq_true] at h
      obtain ⟨⟨⟨h₁, h₂⟩, h₃⟩, h₄⟩ := h
      exact .cons trivial (ha.congr h₁) (hn.congr h₂) (hx.congr h₃) (hxs.congr h₄)
    | _ => cases h
  | _, _, _, u', .vecElim _ ha hm hb hs hn hxs, h => by
    cases u' with
    | vecElim _ a' m' b' s' n' xs' =>
      simp only [Synth.alphaEq, Bool.and_eq_true] at h
      obtain ⟨⟨⟨⟨⟨h₁, h₂⟩, h₃⟩, h₄⟩, h₅⟩, h₆⟩ := h
      exact .vecElim trivial (ha.congr h₁) (hm.congr h₂) (hb.congr h₃) (hs.congr h₄) (hn.congr h₅)
        (hxs.congr h₆)
    | _ => cases h

theorem Check.Alike.congr {G : String → Prop} : ∀ {V : Nat → Nat → Prop} {t u u' : Check},
    t.Alike Any Any G V u → u.alphaEq u' = true → t.Alike Any Any G V u'
  | _, _, _, u', .synth ht, h => by
    cases u' with
    | synth t' => exact .synth (ht.congr h)
    | _ => cases h
  | _, _, _, u', .lam _ _ hb, h => by
    cases u' with
    | lam _ _ b' => exact .lam trivial trivial (hb.congr h)
    | _ => cases h
  | _, _, _, u', .ascribe _ ht he, h => by
    cases u' with
    | ascribe _ t' e' =>
      rw [Check.alphaEq, Bool.and_eq_true] at h
      exact .ascribe trivial (ht.congr h.1) (he.congr h.2)
    | _ => cases h
  | _, _, _, u', .sealed _ he, h => by
    cases u' with
    | sealed _ e' => exact .sealed trivial (he.congr h)
    | _ => cases h

end

end TypeInType
