import TypeInType.Proofs.Core.Reduction

/-!
# Confluence

Every parallel reduct of a term reduces in parallel to its complete development. So reduction is
confluent, terms are convertible exactly when they have a common reduct, and conversion tells the
constructors apart.
-/

namespace TypeInType

namespace Core

/-! ## Complete developments -/

/-- Contract every redex of the term. -/
def dev (Θ : Theory) : Core → Core
  | var i => var i
  | atom (.definition x) =>
    match Θ.definition x with
    | some d => d.body
    | none => atom (.definition x)
  | atom a => atom a
  | star => star
  | pi A B => pi (A.dev Θ) (B.dev Θ)
  | lam b => lam (b.dev Θ)
  | app (lam b) a => (b.dev Θ).inst (a.dev Θ)
  | app f a => app (f.dev Θ) (a.dev Θ)
  | nat => nat
  | zero => zero
  | succ n => succ (n.dev Θ)
  | natElim _ b _ zero => b.dev Θ
  | natElim m b s (succ n) =>
    app (app (s.dev Θ) (n.dev Θ)) (natElim (m.dev Θ) (b.dev Θ) (s.dev Θ) (n.dev Θ))
  | natElim m b s n => natElim (m.dev Θ) (b.dev Θ) (s.dev Θ) (n.dev Θ)
  | vec a n => vec (a.dev Θ) (n.dev Θ)
  | nil a => nil (a.dev Θ)
  | cons a n x xs => cons (a.dev Θ) (n.dev Θ) (x.dev Θ) (xs.dev Θ)
  | vecElim _ _ b _ _ (nil _) => b.dev Θ
  | vecElim a m b s _ (cons _ n x xs) =>
    app4 (s.dev Θ) (n.dev Θ) (x.dev Θ) (xs.dev Θ)
      (vecElim (a.dev Θ) (m.dev Θ) (b.dev Θ) (s.dev Θ) (n.dev Θ) (xs.dev Θ))
  | vecElim a m b s n xs =>
    vecElim (a.dev Θ) (m.dev Θ) (b.dev Θ) (s.dev Θ) (n.dev Θ) (xs.dev Θ)

variable {Θ : Theory}

theorem dev_app (f a : Core) :
    (∃ b, f = lam b) ∨ (app f a).dev Θ = app (f.dev Θ) (a.dev Θ) := by
  cases f with
  | lam b => exact .inl ⟨b, rfl⟩
  | _ => exact .inr (by simp only [dev])

theorem dev_natElim (m b s n : Core) :
    n = zero ∨ (∃ p, n = succ p) ∨
      (natElim m b s n).dev Θ = natElim (m.dev Θ) (b.dev Θ) (s.dev Θ) (n.dev Θ) := by
  cases n with
  | zero => exact .inl rfl
  | succ p => exact .inr (.inl ⟨p, rfl⟩)
  | _ => exact .inr (.inr (by simp only [dev]))

theorem dev_vecElim (a m b s n xs : Core) :
    (∃ e, xs = nil e) ∨ (∃ e l y ys, xs = cons e l y ys) ∨
      (vecElim a m b s n xs).dev Θ =
        vecElim (a.dev Θ) (m.dev Θ) (b.dev Θ) (s.dev Θ) (n.dev Θ) (xs.dev Θ) := by
  cases xs with
  | nil e => exact .inl ⟨e, rfl⟩
  | cons e l y ys => exact .inr (.inl ⟨e, l, y, ys, rfl⟩)
  | _ => exact .inr (.inr (by simp only [dev]))

theorem Par.atom_dev (a : Atom) : Par Θ (.atom a) ((Core.atom a).dev Θ) := by
  cases a with
  | definition x =>
    simp only [dev]
    split
    · rename_i d hd; exact .delta hd
    · exact .atom _
  | _ => exact .atom _

/-- Every parallel reduct of a term reduces in parallel to its complete development. -/
theorem Par.triangle {t u : Core} (h : Par Θ t u) : Par Θ u (t.dev Θ) := by
  induction h with
  | var i => exact .var i
  | atom a => exact .atom_dev a
  | star => exact .star
  | pi _ _ ihA ihB => exact .pi ihA ihB
  | lam _ ih => exact .lam ih
  | @app f f' a a' hf ha ihf iha =>
    -- A redex that the step leaves alone is contracted by the development.
    rcases dev_app (Θ := Θ) f a with ⟨b, rfl⟩ | hd
    · cases hf with
      | lam hb =>
        cases ihf with
        | lam ihb => exact .beta ihb iha
    · rw [hd]; exact .app ihf iha
  | nat => exact .nat
  | zero => exact .zero
  | succ _ ih => exact .succ ih
  | @natElim m _ b _ s _ n _ _ _ _ hn ihm ihb ihs ihn =>
    rcases dev_natElim (Θ := Θ) m b s n with rfl | ⟨p, rfl⟩ | hd
    · cases hn; exact .natZero ihb
    · cases hn with
      | succ hp =>
        cases ihn with
        | succ ihp => exact .natSucc ihm ihb ihs ihp
    · rw [hd]; exact .natElim ihm ihb ihs ihn
  | vec _ _ iha ihn => exact .vec iha ihn
  | nil _ ih => exact .nil ih
  | cons _ _ _ _ iha ihn ihx ihxs => exact .cons iha ihn ihx ihxs
  | @vecElim a _ m _ b _ s _ n _ xs _ _ _ _ _ _ hxs iha ihm ihb ihs ihn ihxs =>
    rcases dev_vecElim (Θ := Θ) a m b s n xs with ⟨e, rfl⟩ | ⟨e, l, y, ys, rfl⟩ | hd
    · cases hxs; exact .vecNil ihb
    · cases hxs with
      | cons he hl hy hys =>
        cases ihxs with
        | cons _ ihl ihy ihys => exact .vecCons iha ihm ihb ihs ihl ihy ihys
    · rw [hd]; exact .vecElim iha ihm ihb ihs ihn ihxs
  | beta _ _ ihb iha => exact ihb.inst iha
  | delta h => simp only [dev, h]; exact .refl _
  | natZero _ ih => exact ih
  | natSucc _ _ _ _ ihm ihb ihs ihn => exact .app (.app ihs ihn) (.natElim ihm ihb ihs ihn)
  | vecNil _ ih => exact ih
  | vecCons _ _ _ _ _ _ _ iha ihm ihb ihs ihl ihx ihxs =>
    exact .app4 ihs ihl ihx ihxs (.vecElim iha ihm ihb ihs ihl ihxs)

/-! ## Common reducts -/

/-- The terms have a common reduct. -/
def Joins (Θ : Theory) (t u : Core) : Prop :=
  ∃ v, Reds Θ t v ∧ Reds Θ u v

theorem Reds.confluent {t u v : Core} (hu : Reds Θ t u) (hv : Reds Θ t v) : Joins Θ u v := by
  refine Relation.church_rosser ?_ hu hv
  intro a b c hb hc
  exact ⟨a.dev Θ, .single hb.triangle, .single hc.triangle⟩

namespace Joins

theorem refl (t : Core) : Joins Θ t t := ⟨t, .refl, .refl⟩

theorem symm {t u : Core} : Joins Θ t u → Joins Θ u t
  | ⟨v, ht, hu⟩ => ⟨v, hu, ht⟩

theorem trans {t u v : Core} : Joins Θ t u → Joins Θ u v → Joins Θ t v
  | ⟨w, ht, hu⟩, ⟨w', hu', hv⟩ => by
    obtain ⟨z, hw, hw'⟩ := hu.confluent hu'
    exact ⟨z, ht.trans hw, hv.trans hw'⟩

theorem of_reds {t u : Core} (h : Reds Θ t u) : Joins Θ t u := ⟨u, h, .refl⟩

end Joins

theorem Conv.joins {t u : Core} (h : Conv Θ t u) : Joins Θ t u := by
  induction h with
  | refl t => exact .refl t
  | symm _ ih => exact ih.symm
  | trans _ _ ih ih' => exact ih.trans ih'
  | beta b a => exact .of_reds (.beta b a)
  | delta h => exact .of_reds (.delta h)
  | natZero m b s => exact .of_reds (.natZero m b s)
  | natSucc m b s n => exact .of_reds (.natSucc m b s n)
  | vecNil a m b s n a' => exact .of_reds (.vecNil a m b s n a')
  | vecCons a m b s n a' n' x xs => exact .of_reds (.vecCons a m b s n a' n' x xs)
  | pi _ _ ihA ihB =>
    obtain ⟨A, hA, hA'⟩ := ihA
    obtain ⟨B, hB, hB'⟩ := ihB
    exact ⟨_, hA.pi hB, hA'.pi hB'⟩
  | lam _ ih =>
    obtain ⟨b, hb, hb'⟩ := ih
    exact ⟨_, hb.lam, hb'.lam⟩
  | app _ _ ihf iha =>
    obtain ⟨f, hf, hf'⟩ := ihf
    obtain ⟨a, ha, ha'⟩ := iha
    exact ⟨_, hf.app ha, hf'.app ha'⟩
  | succ _ ih =>
    obtain ⟨n, hn, hn'⟩ := ih
    exact ⟨_, hn.succ, hn'.succ⟩
  | natElim _ _ _ _ ihm ihb ihs ihn =>
    obtain ⟨m, hm, hm'⟩ := ihm
    obtain ⟨b, hb, hb'⟩ := ihb
    obtain ⟨s, hs, hs'⟩ := ihs
    obtain ⟨n, hn, hn'⟩ := ihn
    exact ⟨_, hm.natElim hb hs hn, hm'.natElim hb' hs' hn'⟩
  | vec _ _ iha ihn =>
    obtain ⟨a, ha, ha'⟩ := iha
    obtain ⟨n, hn, hn'⟩ := ihn
    exact ⟨_, ha.vec hn, ha'.vec hn'⟩
  | nil _ ih =>
    obtain ⟨a, ha, ha'⟩ := ih
    exact ⟨_, ha.nil, ha'.nil⟩
  | cons _ _ _ _ iha ihn ihx ihxs =>
    obtain ⟨a, ha, ha'⟩ := iha
    obtain ⟨n, hn, hn'⟩ := ihn
    obtain ⟨x, hx, hx'⟩ := ihx
    obtain ⟨xs, hxs, hxs'⟩ := ihxs
    exact ⟨_, ha.cons hn hx hxs, ha'.cons hn' hx' hxs'⟩
  | vecElim _ _ _ _ _ _ iha ihm ihb ihs ihn ihxs =>
    obtain ⟨a, ha, ha'⟩ := iha
    obtain ⟨m, hm, hm'⟩ := ihm
    obtain ⟨b, hb, hb'⟩ := ihb
    obtain ⟨s, hs, hs'⟩ := ihs
    obtain ⟨n, hn, hn'⟩ := ihn
    obtain ⟨xs, hxs, hxs'⟩ := ihxs
    exact ⟨_, ha.vecElim hm hb hs hn hxs, ha'.vecElim hm' hb' hs' hn' hxs'⟩

/-! ## Injectivity -/

theorem Reds.pi_inv {A B t : Core} (h : Reds Θ (.pi A B) t) :
    ∃ A' B', t = .pi A' B' ∧ Reds Θ A A' ∧ Reds Θ B B' := by
  induction h with
  | refl => exact ⟨A, B, rfl, .refl, .refl⟩
  | tail _ hp ih =>
    obtain ⟨A', B', rfl, hA, hB⟩ := ih
    cases hp with
    | pi hA' hB' => exact ⟨_, _, rfl, hA.tail hA', hB.tail hB'⟩

theorem Reds.vec_inv {a n t : Core} (h : Reds Θ (.vec a n) t) :
    ∃ a' n', t = .vec a' n' ∧ Reds Θ a a' ∧ Reds Θ n n' := by
  induction h with
  | refl => exact ⟨a, n, rfl, .refl, .refl⟩
  | tail _ hp ih =>
    obtain ⟨a', n', rfl, ha, hn⟩ := ih
    cases hp with
    | vec ha' hn' => exact ⟨_, _, rfl, ha.tail ha', hn.tail hn'⟩

theorem Conv.pi_inj {A A' B B' : Core} (h : Conv Θ (.pi A B) (.pi A' B')) :
    Conv Θ A A' ∧ Conv Θ B B' := by
  obtain ⟨t, ht, ht'⟩ := h.joins
  obtain ⟨C, D, rfl, hC, hD⟩ := ht.pi_inv
  obtain ⟨_, _, heq, hC', hD'⟩ := ht'.pi_inv
  cases heq
  exact ⟨hC.conv.trans hC'.conv.symm, hD.conv.trans hD'.conv.symm⟩

theorem Conv.vec_inj {a a' n n' : Core} (h : Conv Θ (.vec a n) (.vec a' n')) :
    Conv Θ a a' ∧ Conv Θ n n' := by
  obtain ⟨t, ht, ht'⟩ := h.joins
  obtain ⟨c, d, rfl, hc, hd⟩ := ht.vec_inv
  obtain ⟨_, _, heq, hc', hd'⟩ := ht'.vec_inv
  cases heq
  exact ⟨hc.conv.trans hc'.conv.symm, hd.conv.trans hd'.conv.symm⟩

/-! ## Shapes -/

/-- What a weak head normal form looks like. -/
inductive Shape where
  | neutral
  | star
  | pi
  | lam
  | nat
  | zero
  | succ
  | vec
  | nil
  | cons
  deriving DecidableEq

/-- The shape of a weak head normal form. An elimination has one if what it eliminates is neutral. -/
def shape : Core → Option Shape
  | var _ => some .neutral
  | atom (.definition _) => none
  | atom _ => some .neutral
  | star => some .star
  | pi _ _ => some .pi
  | lam _ => some .lam
  | app f _ => if f.shape = some .neutral then some .neutral else none
  | nat => some .nat
  | zero => some .zero
  | succ _ => some .succ
  | natElim _ _ _ n => if n.shape = some .neutral then some .neutral else none
  | vec _ _ => some .vec
  | nil _ => some .nil
  | cons _ _ _ _ => some .cons
  | vecElim _ _ _ _ _ xs => if xs.shape = some .neutral then some .neutral else none

theorem Par.shape_eq {t u : Core} {s : Shape} (h : Par Θ t u) (hs : t.shape = some s) :
    u.shape = some s := by
  induction h generalizing s with
  | app _ _ ihf _ | natElim _ _ _ _ _ _ _ ihf | vecElim _ _ _ _ _ _ _ _ _ _ _ ihf =>
    simp only [shape, Option.ite_none_right_eq_some] at hs ⊢
    exact ⟨ihf hs.1, hs.2⟩
  | beta | delta | natZero | natSucc | vecNil | vecCons => simp [shape] at hs
  | _ => exact hs

theorem Reds.shape_eq {t u : Core} {s : Shape} (h : Reds Θ t u) (hs : t.shape = some s) :
    u.shape = some s := by
  induction h with
  | refl => exact hs
  | tail _ hp ih => exact hp.shape_eq ih

/-- Convertible weak head normal forms have the same shape. -/
theorem Conv.shape_eq {t u : Core} {s s' : Shape} (h : Conv Θ t u) (ht : t.shape = some s)
    (hu : u.shape = some s') : s = s' := by
  obtain ⟨v, hv, hv'⟩ := h.joins
  have hs := hv.shape_eq ht
  rw [hv'.shape_eq hu] at hs
  exact (Option.some.inj hs).symm

end Core

end TypeInType
