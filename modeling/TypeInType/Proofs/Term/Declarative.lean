import TypeInType.Proofs.Core.Preservation
import TypeInType.Proofs.Value.Embedding

/-!
# Declarative typing

The typing rules of terms, with their annotations. Types are core terms: two terms that differ in
annotations only are the same type. A term that has a type has it as a core term too.
-/

namespace TypeInType

open TypeInType.Core (up shift Lookup HasType Conv natMotive natStep vecMotive vecStep)

/-! ## Names -/

/-- What the names of the signature stand for, and their types. -/
structure Naming where
  term : String → Core
  type : String → Core → Prop
  closed_term : ∀ x, (term x).Closed
  closed_type : ∀ {x A}, type x A → A.Closed

/-- The names have the types that they are given. -/
def Naming.Ok (Θ : Theory) (N : Naming) : Prop :=
  ∀ ⦃x A⦄, N.type x A → HasType Θ [] (N.term x) A

/-- What a name stands for. -/
def Naming.name (N : Naming) : Name → Core
  | .global x => N.term x
  | x => .atom x.atom

/-- The core term of a term, the indices of which are variables. -/
def Synth.core (N : Naming) (t : Synth) : Core :=
  t.erase N.name .var

/-- The core term of a term, the indices of which are variables. -/
def Check.core (N : Naming) (t : Check) : Core :=
  t.erase N.name .var

theorem Naming.closed_name (N : Naming) : ∀ x, (N.name x).Closed
  | .global x => N.closed_term x
  | .hyp l => Core.closed_atom (.hyp l)
  | .quote l => Core.closed_atom (.quote l)

theorem Naming.shift_name (N : Naming) : shift ∘ N.name = N.name := by
  funext x
  exact (N.closed_name x).shift_eq

/-- The body of a binder. -/
theorem Check.erase_body (N : Naming) (b : Check) :
    b.erase (shift ∘ N.name) (up .var) = b.core N := by
  rw [N.shift_name, Core.up_var, Check.core]

/-! ## The rules -/

mutual

/-- The term has the type. Each former has the type that it is documented with. -/
inductive Synth.Has (Θ : Theory) (N : Naming) : List Core → Synth → Core → Prop where
  | ann {Γ span e t} : Check.Has Θ N Γ t .star → Check.Has Θ N Γ e (t.core N) →
      Synth.Has Θ N Γ (.ann span e t) (t.core N)
  | star {Γ span} : Synth.Has Θ N Γ (.star span) .star
  | pi {Γ span x d c} : Check.Has Θ N Γ d .star → Check.Has Θ N (d.core N :: Γ) c .star →
      Synth.Has Θ N Γ (.pi span x d c) .star
  | bound {Γ span i A} : Lookup Γ i A → Synth.Has Θ N Γ (.bound span i) A
  | global {Γ span x A} : N.type x A → Synth.Has Θ N Γ (.free span (.global x)) A
  | app {Γ span h a A B} : Synth.Has Θ N Γ h (.pi A B) → Check.Has Θ N Γ a A →
      Synth.Has Θ N Γ (.app span h a) (B.inst (a.core N))
  | nat {Γ span} : Synth.Has Θ N Γ (.nat span) .star
  | zero {Γ span} : Synth.Has Θ N Γ (.zero span) .nat
  | succ {Γ span n} : Check.Has Θ N Γ n .nat → Synth.Has Θ N Γ (.succ span n) .nat
  | natElim {Γ span m b s n} : Check.Has Θ N Γ m natMotive →
      Check.Has Θ N Γ b (.app (m.core N) .zero) → Check.Has Θ N Γ s (natStep (m.core N)) →
      Check.Has Θ N Γ n .nat →
      Synth.Has Θ N Γ (.natElim span m b s n) (.app (m.core N) (n.core N))
  | vec {Γ span a n} : Check.Has Θ N Γ a .star → Check.Has Θ N Γ n .nat →
      Synth.Has Θ N Γ (.vec span a n) .star
  | nil {Γ span a} : Check.Has Θ N Γ a .star →
      Synth.Has Θ N Γ (.nil span a) (.vec (a.core N) .zero)
  | cons {Γ span a n x xs} : Check.Has Θ N Γ a .star → Check.Has Θ N Γ n .nat →
      Check.Has Θ N Γ x (a.core N) → Check.Has Θ N Γ xs (.vec (a.core N) (n.core N)) →
      Synth.Has Θ N Γ (.cons span a n x xs) (.vec (a.core N) (.succ (n.core N)))
  | vecElim {Γ span a m b s n xs} : Check.Has Θ N Γ a .star →
      Check.Has Θ N Γ m (vecMotive (a.core N)) →
      Check.Has Θ N Γ b (.app (.app (m.core N) .zero) (.nil (a.core N))) →
      Check.Has Θ N Γ s (vecStep (a.core N) (m.core N)) → Check.Has Θ N Γ n .nat →
      Check.Has Θ N Γ xs (.vec (a.core N) (n.core N)) →
      Synth.Has Θ N Γ (.vecElim span a m b s n xs) (.app (.app (m.core N) (n.core N)) (xs.core N))
  | conv {Γ t A B} : Synth.Has Θ N Γ t A → Conv Θ A B → HasType Θ Γ B .star → Synth.Has Θ N Γ t B

/-- The term has the type. An ascription has the type that it names, and a seal changes nothing. -/
inductive Check.Has (Θ : Theory) (N : Naming) : List Core → Check → Core → Prop where
  | synth {Γ t A} : Synth.Has Θ N Γ t A → Check.Has Θ N Γ (.synth t) A
  | lam {Γ span x b A B} : HasType Θ Γ A .star → Check.Has Θ N (A :: Γ) b B →
      Check.Has Θ N Γ (.lam span x b) (.pi A B)
  | ascribe {Γ span t e} : Check.Has Θ N Γ t .star → Check.Has Θ N Γ e (t.core N) →
      Check.Has Θ N Γ (.ascribe span t e) (t.core N)
  | sealed {Γ span e A} : Synth.Has Θ N Γ e A → Check.Has Θ N Γ (.sealed span e) A
  | conv {Γ t A B} : Check.Has Θ N Γ t A → Conv Θ A B → HasType Θ Γ B .star → Check.Has Θ N Γ t B

end

section Rules

variable {Θ : Theory} {N : Naming}

/-! ## Annotations may be dropped -/

mutual

theorem Synth.Has.hasType (hN : N.Ok Θ) : ∀ {Γ : List Core} {t : Synth} {A : Core},
    Synth.Has Θ N Γ t A → HasType Θ Γ (t.core N) A
  | _, _, _, .ann _ he => he.hasType hN
  | _, _, _, .star => .star
  | _, .pi _ _ d c, _, .pi hd hc => by
    simp only [Synth.core, Synth.erase, Check.erase_body]
    exact .pi (hd.hasType hN) (hc.hasType hN)
  | _, _, _, .bound hi => .var hi
  | Γ, .free _ (.global x), A, .global hx =>
    (hN hx).of_nil (N.closed_term x) (N.closed_type hx) Γ
  | _, _, _, .app hh ha => .app (hh.hasType hN) (ha.hasType hN)
  | _, _, _, .nat => .nat
  | _, _, _, .zero => .zero
  | _, _, _, .succ hn => .succ (hn.hasType hN)
  | _, _, _, .natElim hm hb hs hn =>
    .natElim (hm.hasType hN) (hb.hasType hN) (hs.hasType hN) (hn.hasType hN)
  | _, _, _, .vec ha hn => .vec (ha.hasType hN) (hn.hasType hN)
  | _, _, _, .nil ha => .nil (ha.hasType hN)
  | _, _, _, .cons ha hn hx hxs =>
    .cons (ha.hasType hN) (hn.hasType hN) (hx.hasType hN) (hxs.hasType hN)
  | _, _, _, .vecElim ha hm hb hs hn hxs =>
    .vecElim (ha.hasType hN) (hm.hasType hN) (hb.hasType hN) (hs.hasType hN) (hn.hasType hN)
      (hxs.hasType hN)
  | _, _, _, .conv h hc hB => .conv (h.hasType hN) hc hB

theorem Check.Has.hasType (hN : N.Ok Θ) : ∀ {Γ : List Core} {t : Check} {A : Core},
    Check.Has Θ N Γ t A → HasType Θ Γ (t.core N) A
  | _, _, _, .synth h => h.hasType hN
  | _, .lam _ _ b, _, .lam hA hb => by
    simp only [Check.core, Check.erase, Check.erase_body]
    exact .lam hA (hb.hasType hN)
  | _, _, _, .ascribe _ he => he.hasType hN
  | _, _, _, .sealed h => h.hasType hN
  | _, _, _, .conv h hc hB => .conv (h.hasType hN) hc hB

end

/-! ## Convertible contexts -/

/-- Every variable of a context has a convertible type in another. -/
def CtxConv (Θ : Theory) (Γ Δ : List Core) : Prop :=
  ∀ i A, Lookup Γ i A → ∃ B, Lookup Δ i B ∧ Conv Θ B A ∧ HasType Θ Δ A .star

theorem CtxConv.hasType {Γ Δ : List Core} {t A : Core} (h : CtxConv Θ Γ Δ)
    (ht : HasType Θ Γ t A) : HasType Θ Δ t A := by
  have hσ : Core.SubstOk Θ Γ Δ .var := by
    intro i C hi
    obtain ⟨B, hB, hc, hC⟩ := h i C hi
    rw [Core.subst_var]
    exact .conv (.var hB) hc hC
  have ht' := ht.subst hσ
  rwa [Core.subst_var, Core.subst_var] at ht'

theorem CtxConv.head {Γ : List Core} {A B : Core} (hc : Conv Θ A B) (hA : HasType Θ Γ A .star)
    (hΓ : Core.CtxOk Θ Γ) : CtxConv Θ (A :: Γ) (B :: Γ) := by
  intro i C hi
  cases hi with
  | here => exact ⟨_, .here, hc.symm.shift, hA.shift B⟩
  | there hi => exact ⟨_, .there hi, .refl _, (hi.ok hΓ).shift B⟩

theorem CtxConv.up {Γ Δ : List Core} {A : Core} (h : CtxConv Θ Γ Δ) (hA : HasType Θ Γ A .star) :
    CtxConv Θ (A :: Γ) (A :: Δ) := by
  intro i C hi
  cases hi with
  | here => exact ⟨_, .here, .refl _, (h.hasType hA).shift A⟩
  | there hi =>
    obtain ⟨B, hB, hc, hC⟩ := h _ _ hi
    exact ⟨_, .there hB, hc.shift, hC.shift A⟩

mutual

theorem Synth.Has.ctxConv (hN : N.Ok Θ) : ∀ {Γ Δ : List Core} {t : Synth} {A : Core},
    Synth.Has Θ N Γ t A → CtxConv Θ Γ Δ → Synth.Has Θ N Δ t A
  | _, _, _, _, .ann ht he, h => .ann (ht.ctxConv hN h) (he.ctxConv hN h)
  | _, _, _, _, .star, _ => .star
  | _, _, _, _, .pi hd hc, h => .pi (hd.ctxConv hN h) (hc.ctxConv hN (h.up (hd.hasType hN)))
  | _, _, _, _, .bound hi, h => by
    obtain ⟨B, hB, hc, hA⟩ := h _ _ hi
    exact .conv (.bound hB) hc hA
  | _, _, _, _, .global hx, _ => .global hx
  | _, _, _, _, .app hh ha, h => .app (hh.ctxConv hN h) (ha.ctxConv hN h)
  | _, _, _, _, .nat, _ => .nat
  | _, _, _, _, .zero, _ => .zero
  | _, _, _, _, .succ hn, h => .succ (hn.ctxConv hN h)
  | _, _, _, _, .natElim hm hb hs hn, h =>
    .natElim (hm.ctxConv hN h) (hb.ctxConv hN h) (hs.ctxConv hN h) (hn.ctxConv hN h)
  | _, _, _, _, .vec ha hn, h => .vec (ha.ctxConv hN h) (hn.ctxConv hN h)
  | _, _, _, _, .nil ha, h => .nil (ha.ctxConv hN h)
  | _, _, _, _, .cons ha hn hx hxs, h =>
    .cons (ha.ctxConv hN h) (hn.ctxConv hN h) (hx.ctxConv hN h) (hxs.ctxConv hN h)
  | _, _, _, _, .vecElim ha hm hb hs hn hxs, h =>
    .vecElim (ha.ctxConv hN h) (hm.ctxConv hN h) (hb.ctxConv hN h) (hs.ctxConv hN h)
      (hn.ctxConv hN h) (hxs.ctxConv hN h)
  | _, _, _, _, .conv ht hc hB, h => .conv (ht.ctxConv hN h) hc (h.hasType hB)

theorem Check.Has.ctxConv (hN : N.Ok Θ) : ∀ {Γ Δ : List Core} {t : Check} {A : Core},
    Check.Has Θ N Γ t A → CtxConv Θ Γ Δ → Check.Has Θ N Δ t A
  | _, _, _, _, .synth ht, h => .synth (ht.ctxConv hN h)
  | _, _, _, _, .lam hA hb, h => .lam (h.hasType hA) (hb.ctxConv hN (h.up hA))
  | _, _, _, _, .ascribe ht he, h => .ascribe (ht.ctxConv hN h) (he.ctxConv hN h)
  | _, _, _, _, .sealed he, h => .sealed (he.ctxConv hN h)
  | _, _, _, _, .conv ht hc hB, h => .conv (ht.ctxConv hN h) hc (h.hasType hB)

end

end Rules

end TypeInType
