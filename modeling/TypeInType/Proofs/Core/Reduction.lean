import TypeInType.Proofs.Core.Conversion
import Mathlib.Logic.Relation

/-!
# Reduction

Parallel reduction contracts any number of redexes of a term at once. Reduction is parallel reduction
any number of times.
-/

namespace TypeInType

namespace Core

inductive Par (Θ : Theory) : Core → Core → Prop where
  | var (i) : Par Θ (.var i) (.var i)
  | atom (a) : Par Θ (.atom a) (.atom a)
  | star : Par Θ .star .star
  | pi {A A' B B'} : Par Θ A A' → Par Θ B B' → Par Θ (.pi A B) (.pi A' B')
  | lam {b b'} : Par Θ b b' → Par Θ (.lam b) (.lam b')
  | app {f f' a a'} : Par Θ f f' → Par Θ a a' → Par Θ (.app f a) (.app f' a')
  | nat : Par Θ .nat .nat
  | zero : Par Θ .zero .zero
  | succ {n n'} : Par Θ n n' → Par Θ (.succ n) (.succ n')
  | natElim {m m' b b' s s' n n'} : Par Θ m m' → Par Θ b b' → Par Θ s s' → Par Θ n n' →
      Par Θ (.natElim m b s n) (.natElim m' b' s' n')
  | vec {a a' n n'} : Par Θ a a' → Par Θ n n' → Par Θ (.vec a n) (.vec a' n')
  | nil {a a'} : Par Θ a a' → Par Θ (.nil a) (.nil a')
  | cons {a a' n n' x x' xs xs'} : Par Θ a a' → Par Θ n n' → Par Θ x x' → Par Θ xs xs' →
      Par Θ (.cons a n x xs) (.cons a' n' x' xs')
  | vecElim {a a' m m' b b' s s' n n' xs xs'} : Par Θ a a' → Par Θ m m' → Par Θ b b' →
      Par Θ s s' → Par Θ n n' → Par Θ xs xs' →
      Par Θ (.vecElim a m b s n xs) (.vecElim a' m' b' s' n' xs')
  | beta {b b' a a'} : Par Θ b b' → Par Θ a a' → Par Θ (.app (.lam b) a) (b'.inst a')
  | delta {x d} : Θ.definition x = some d → Par Θ (.atom (.definition x)) d.body
  | natZero {m b b' s} : Par Θ b b' → Par Θ (.natElim m b s .zero) b'
  | natSucc {m m' b b' s s' n n'} : Par Θ m m' → Par Θ b b' → Par Θ s s' → Par Θ n n' →
      Par Θ (.natElim m b s (.succ n)) (.app (.app s' n') (.natElim m' b' s' n'))
  | vecNil {a m b b' s n a'} : Par Θ b b' → Par Θ (.vecElim a m b s n (.nil a')) b'
  | vecCons {a a' m m' b b' s s' n l l' e x x' xs xs'} : Par Θ a a' → Par Θ m m' → Par Θ b b' →
      Par Θ s s' → Par Θ l l' → Par Θ x x' → Par Θ xs xs' →
      Par Θ (.vecElim a m b s n (.cons e l x xs)) (app4 s' l' x' xs' (.vecElim a' m' b' s' l' xs'))

variable {Θ : Theory}

namespace Par

theorem refl (t : Core) : Par Θ t t := by
  induction t with
  | var i => exact .var i
  | atom a => exact .atom a
  | star => exact .star
  | pi _ _ ihA ihB => exact .pi ihA ihB
  | lam _ ih => exact .lam ih
  | app _ _ ihf iha => exact .app ihf iha
  | nat => exact .nat
  | zero => exact .zero
  | succ _ ih => exact .succ ih
  | natElim _ _ _ _ ihm ihb ihs ihn => exact .natElim ihm ihb ihs ihn
  | vec _ _ iha ihn => exact .vec iha ihn
  | nil _ ih => exact .nil ih
  | cons _ _ _ _ iha ihn ihx ihxs => exact .cons iha ihn ihx ihxs
  | vecElim _ _ _ _ _ _ iha ihm ihb ihs ihn ihxs => exact .vecElim iha ihm ihb ihs ihn ihxs

theorem conv {t u : Core} (h : Par Θ t u) : Conv Θ t u := by
  induction h with
  | var i => exact .refl _
  | atom a => exact .refl _
  | star => exact .refl _
  | pi _ _ ihA ihB => exact .pi ihA ihB
  | lam _ ih => exact .lam ih
  | app _ _ ihf iha => exact .app ihf iha
  | nat => exact .refl _
  | zero => exact .refl _
  | succ _ ih => exact .succ ih
  | natElim _ _ _ _ ihm ihb ihs ihn => exact .natElim ihm ihb ihs ihn
  | vec _ _ iha ihn => exact .vec iha ihn
  | nil _ ih => exact .nil ih
  | cons _ _ _ _ iha ihn ihx ihxs => exact .cons iha ihn ihx ihxs
  | vecElim _ _ _ _ _ _ iha ihm ihb ihs ihn ihxs => exact .vecElim iha ihm ihb ihs ihn ihxs
  | beta _ _ ihb iha => exact (Conv.beta _ _).trans (ihb.inst iha)
  | delta h => exact .delta h
  | natZero _ ih => exact (Conv.natZero _ _ _).trans ih
  | natSucc _ _ _ _ ihm ihb ihs ihn =>
    exact (Conv.natSucc _ _ _ _).trans (.app (.app ihs ihn) (.natElim ihm ihb ihs ihn))
  | vecNil _ ih => exact (Conv.vecNil _ _ _ _ _ _).trans ih
  | vecCons _ _ _ _ _ _ _ iha ihm ihb ihs ihl ihx ihxs =>
    exact (Conv.vecCons _ _ _ _ _ _ _ _ _).trans
      (.app4 ihs ihl ihx ihxs (.vecElim iha ihm ihb ihs ihl ihxs))

/-! ## Substitution -/

theorem rename {t u : Core} (h : Par Θ t u) (ξ : Nat → Nat) : Par Θ (t.rename ξ) (u.rename ξ) := by
  induction h generalizing ξ with
  | var i => exact .var _
  | atom a => exact .atom a
  | star => exact .star
  | pi _ _ ihA ihB => exact .pi (ihA ξ) (ihB _)
  | lam _ ih => exact .lam (ih _)
  | app _ _ ihf iha => exact .app (ihf ξ) (iha ξ)
  | nat => exact .nat
  | zero => exact .zero
  | succ _ ih => exact .succ (ih ξ)
  | natElim _ _ _ _ ihm ihb ihs ihn => exact .natElim (ihm ξ) (ihb ξ) (ihs ξ) (ihn ξ)
  | vec _ _ iha ihn => exact .vec (iha ξ) (ihn ξ)
  | nil _ ih => exact .nil (ih ξ)
  | cons _ _ _ _ iha ihn ihx ihxs => exact .cons (iha ξ) (ihn ξ) (ihx ξ) (ihxs ξ)
  | vecElim _ _ _ _ _ _ iha ihm ihb ihs ihn ihxs =>
    exact .vecElim (iha ξ) (ihm ξ) (ihb ξ) (ihs ξ) (ihn ξ) (ihxs ξ)
  | beta _ _ ihb iha => rw [rename_inst]; exact .beta (ihb _) (iha ξ)
  | delta h => rw [(Θ.closed_definition h).2.rename_eq]; exact .delta h
  | natZero _ ih => exact .natZero (ih ξ)
  | natSucc _ _ _ _ ihm ihb ihs ihn => exact .natSucc (ihm ξ) (ihb ξ) (ihs ξ) (ihn ξ)
  | vecNil _ ih => exact .vecNil (ih ξ)
  | vecCons _ _ _ _ _ _ _ iha ihm ihb ihs ihl ihx ihxs =>
    exact .vecCons (iha ξ) (ihm ξ) (ihb ξ) (ihs ξ) (ihl ξ) (ihx ξ) (ihxs ξ)

theorem up {σ τ : Nat → Core} (h : ∀ i, Par Θ (σ i) (τ i)) : ∀ i, Par Θ (Core.up σ i) (Core.up τ i)
  | 0 => .var 0
  | i + 1 => (h i).rename _

theorem subst {t u : Core} (h : Par Θ t u) {σ τ : Nat → Core} (hσ : ∀ i, Par Θ (σ i) (τ i)) :
    Par Θ (t.subst σ) (u.subst τ) := by
  induction h generalizing σ τ with
  | var i => exact hσ i
  | atom a => exact .atom a
  | star => exact .star
  | pi _ _ ihA ihB => exact .pi (ihA hσ) (ihB (up hσ))
  | lam _ ih => exact .lam (ih (up hσ))
  | app _ _ ihf iha => exact .app (ihf hσ) (iha hσ)
  | nat => exact .nat
  | zero => exact .zero
  | succ _ ih => exact .succ (ih hσ)
  | natElim _ _ _ _ ihm ihb ihs ihn => exact .natElim (ihm hσ) (ihb hσ) (ihs hσ) (ihn hσ)
  | vec _ _ iha ihn => exact .vec (iha hσ) (ihn hσ)
  | nil _ ih => exact .nil (ih hσ)
  | cons _ _ _ _ iha ihn ihx ihxs => exact .cons (iha hσ) (ihn hσ) (ihx hσ) (ihxs hσ)
  | vecElim _ _ _ _ _ _ iha ihm ihb ihs ihn ihxs =>
    exact .vecElim (iha hσ) (ihm hσ) (ihb hσ) (ihs hσ) (ihn hσ) (ihxs hσ)
  | beta _ _ ihb iha => rw [subst_inst]; exact .beta (ihb (up hσ)) (iha hσ)
  | delta h => rw [(Θ.closed_definition h).2]; exact .delta h
  | natZero _ ih => exact .natZero (ih hσ)
  | natSucc _ _ _ _ ihm ihb ihs ihn => exact .natSucc (ihm hσ) (ihb hσ) (ihs hσ) (ihn hσ)
  | vecNil _ ih => exact .vecNil (ih hσ)
  | vecCons _ _ _ _ _ _ _ iha ihm ihb ihs ihl ihx ihxs =>
    exact .vecCons (iha hσ) (ihm hσ) (ihb hσ) (ihs hσ) (ihl hσ) (ihx hσ) (ihxs hσ)

theorem inst {b b' a a' : Core} (hb : Par Θ b b') (ha : Par Θ a a') :
    Par Θ (b.inst a) (b'.inst a') := by
  refine hb.subst ?_
  intro i
  cases i with
  | zero => exact ha
  | succ i => exact .var i

theorem app4 {s s' n n' x x' xs xs' r r' : Core} (hs : Par Θ s s') (hn : Par Θ n n')
    (hx : Par Θ x x') (hxs : Par Θ xs xs') (hr : Par Θ r r') :
    Par Θ (app4 s n x xs r) (app4 s' n' x' xs' r') :=
  .app (.app (.app (.app hs hn) hx) hxs) hr

end Par

/-! ## Reduction -/

/-- The term reduces to another. -/
abbrev Reds (Θ : Theory) : Core → Core → Prop :=
  Relation.ReflTransGen (Par Θ)

theorem Par.reds {t u : Core} (h : Par Θ t u) : Reds Θ t u := .single h

namespace Reds

theorem conv {t u : Core} (h : Reds Θ t u) : Conv Θ t u := by
  induction h with
  | refl => exact .refl _
  | tail _ hp ih => exact ih.trans hp.conv

theorem shift {t u : Core} (h : Reds Θ t u) : Reds Θ t.shift u.shift :=
  h.lift Core.shift fun _ _ h => h.rename Nat.succ

theorem pi {A A' B B' : Core} (hA : Reds Θ A A') (hB : Reds Θ B B') :
    Reds Θ (.pi A B) (.pi A' B') :=
  (hA.lift (Core.pi · B) fun _ _ h => .pi h (.refl _)).trans
    (hB.lift (Core.pi A' ·) fun _ _ h => .pi (.refl _) h)

theorem lam {b b' : Core} (h : Reds Θ b b') : Reds Θ (.lam b) (.lam b') :=
  h.lift Core.lam fun _ _ h => .lam h

theorem app {f f' a a' : Core} (hf : Reds Θ f f') (ha : Reds Θ a a') :
    Reds Θ (.app f a) (.app f' a') :=
  (hf.lift (Core.app · a) fun _ _ h => .app h (.refl _)).trans
    (ha.lift (Core.app f' ·) fun _ _ h => .app (.refl _) h)

theorem succ {n n' : Core} (h : Reds Θ n n') : Reds Θ (.succ n) (.succ n') :=
  h.lift Core.succ fun _ _ h => .succ h

theorem natElim {m m' b b' s s' n n' : Core} (hm : Reds Θ m m') (hb : Reds Θ b b')
    (hs : Reds Θ s s') (hn : Reds Θ n n') :
    Reds Θ (.natElim m b s n) (.natElim m' b' s' n') :=
  calc Reds Θ (.natElim m b s n) (.natElim m' b s n) :=
        hm.lift (Core.natElim · b s n) fun _ _ h => .natElim h (.refl _) (.refl _) (.refl _)
    Reds Θ _ (.natElim m' b' s n) :=
        hb.lift (Core.natElim m' · s n) fun _ _ h => .natElim (.refl _) h (.refl _) (.refl _)
    Reds Θ _ (.natElim m' b' s' n) :=
        hs.lift (Core.natElim m' b' · n) fun _ _ h => .natElim (.refl _) (.refl _) h (.refl _)
    Reds Θ _ (.natElim m' b' s' n') :=
        hn.lift (Core.natElim m' b' s' ·) fun _ _ h => .natElim (.refl _) (.refl _) (.refl _) h

theorem vec {a a' n n' : Core} (ha : Reds Θ a a') (hn : Reds Θ n n') :
    Reds Θ (.vec a n) (.vec a' n') :=
  (ha.lift (Core.vec · n) fun _ _ h => .vec h (.refl _)).trans
    (hn.lift (Core.vec a' ·) fun _ _ h => .vec (.refl _) h)

theorem nil {a a' : Core} (h : Reds Θ a a') : Reds Θ (.nil a) (.nil a') :=
  h.lift Core.nil fun _ _ h => .nil h

theorem cons {a a' n n' x x' xs xs' : Core} (ha : Reds Θ a a') (hn : Reds Θ n n')
    (hx : Reds Θ x x') (hxs : Reds Θ xs xs') :
    Reds Θ (.cons a n x xs) (.cons a' n' x' xs') :=
  calc Reds Θ (.cons a n x xs) (.cons a' n x xs) :=
        ha.lift (Core.cons · n x xs) fun _ _ h => .cons h (.refl _) (.refl _) (.refl _)
    Reds Θ _ (.cons a' n' x xs) :=
        hn.lift (Core.cons a' · x xs) fun _ _ h => .cons (.refl _) h (.refl _) (.refl _)
    Reds Θ _ (.cons a' n' x' xs) :=
        hx.lift (Core.cons a' n' · xs) fun _ _ h => .cons (.refl _) (.refl _) h (.refl _)
    Reds Θ _ (.cons a' n' x' xs') :=
        hxs.lift (Core.cons a' n' x' ·) fun _ _ h => .cons (.refl _) (.refl _) (.refl _) h

theorem vecElim {a a' m m' b b' s s' n n' xs xs' : Core} (ha : Reds Θ a a') (hm : Reds Θ m m')
    (hb : Reds Θ b b') (hs : Reds Θ s s') (hn : Reds Θ n n') (hxs : Reds Θ xs xs') :
    Reds Θ (.vecElim a m b s n xs) (.vecElim a' m' b' s' n' xs') :=
  calc Reds Θ (.vecElim a m b s n xs) (.vecElim a' m b s n xs) :=
        ha.lift (Core.vecElim · m b s n xs) fun _ _ h =>
          .vecElim h (.refl _) (.refl _) (.refl _) (.refl _) (.refl _)
    Reds Θ _ (.vecElim a' m' b s n xs) :=
        hm.lift (Core.vecElim a' · b s n xs) fun _ _ h =>
          .vecElim (.refl _) h (.refl _) (.refl _) (.refl _) (.refl _)
    Reds Θ _ (.vecElim a' m' b' s n xs) :=
        hb.lift (Core.vecElim a' m' · s n xs) fun _ _ h =>
          .vecElim (.refl _) (.refl _) h (.refl _) (.refl _) (.refl _)
    Reds Θ _ (.vecElim a' m' b' s' n xs) :=
        hs.lift (Core.vecElim a' m' b' · n xs) fun _ _ h =>
          .vecElim (.refl _) (.refl _) (.refl _) h (.refl _) (.refl _)
    Reds Θ _ (.vecElim a' m' b' s' n' xs) :=
        hn.lift (Core.vecElim a' m' b' s' · xs) fun _ _ h =>
          .vecElim (.refl _) (.refl _) (.refl _) (.refl _) h (.refl _)
    Reds Θ _ (.vecElim a' m' b' s' n' xs') :=
        hxs.lift (Core.vecElim a' m' b' s' n' ·) fun _ _ h =>
          .vecElim (.refl _) (.refl _) (.refl _) (.refl _) (.refl _) h

/-! ## The rules of computation -/

theorem beta (b a : Core) : Reds Θ (.app (.lam b) a) (b.inst a) :=
  (Par.beta (.refl b) (.refl a)).reds

theorem delta {x : String} {d : Definition} (h : Θ.definition x = some d) :
    Reds Θ (.atom (.definition x)) d.body :=
  (Par.delta h).reds

theorem natZero (m b s : Core) : Reds Θ (.natElim m b s .zero) b :=
  (Par.natZero (.refl b)).reds

theorem natSucc (m b s n : Core) :
    Reds Θ (.natElim m b s (.succ n)) (.app (.app s n) (.natElim m b s n)) :=
  (Par.natSucc (.refl m) (.refl b) (.refl s) (.refl n)).reds

theorem vecNil (a m b s n a' : Core) : Reds Θ (.vecElim a m b s n (.nil a')) b :=
  (Par.vecNil (.refl b)).reds

theorem vecCons (a m b s n a' n' x xs : Core) :
    Reds Θ (.vecElim a m b s n (.cons a' n' x xs)) (Core.app4 s n' x xs (.vecElim a m b s n' xs)) :=
  (Par.vecCons (.refl a) (.refl m) (.refl b) (.refl s) (.refl n') (.refl x) (.refl xs)).reds

end Reds

end Core

end TypeInType
