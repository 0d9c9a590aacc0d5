import TypeInType.Proofs.Core.Typing

/-!
# Reduction keeps types

A step contracts redexes inside a term and then, it may be, one at its root. Both keep the types that
the term has.
-/

namespace TypeInType

namespace Core

variable {Θ : Theory}

/-! ## The types of the eliminators' arguments -/

theorem Conv.natStep {m m' : Core} (h : Conv Θ m m') : Conv Θ (natStep m) (natStep m') :=
  .pi (.refl _) (.pi (.app h.shift (.refl _)) (.app h.shift.shift (.refl _)))

theorem Conv.vecMotive {a a' : Core} (h : Conv Θ a a') : Conv Θ (vecMotive a) (vecMotive a') :=
  .pi (.refl _) (.pi (.vec h.shift (.refl _)) (.refl _))

theorem Conv.vecStep {a a' m m' : Core} (ha : Conv Θ a a') (hm : Conv Θ m m') :
    Conv Θ (vecStep a m) (vecStep a' m') := by
  refine .pi (.refl _) (.pi ha.shift (.pi (.vec ha.shift.shift (.refl _)) (.pi ?_ ?_)))
  · exact .app (.app hm.shift.shift.shift (.refl _)) (.refl _)
  · exact .app (.app hm.shift.shift.shift.shift (.refl _))
      (.cons ha.shift.shift.shift.shift (.refl _) (.refl _) (.refl _))

namespace HasType

theorem natMotive_type {Γ : List Core} : HasType Θ Γ natMotive .star :=
  .pi .nat .star

theorem natStep_type {Γ : List Core} {m : Core} (hm : HasType Θ Γ m natMotive) :
    HasType Θ Γ (natStep m) .star := by
  refine .pi .nat (.pi (natMotive_app (hm.shift _) (.var .here)) ?_)
  exact natMotive_app ((hm.shift _).shift _) (.succ (.var (.there .here)))

theorem vecMotive_type {Γ : List Core} {a : Core} (ha : HasType Θ Γ a .star) :
    HasType Θ Γ (vecMotive a) .star :=
  .pi .nat (.pi (.vec (ha.shift _) (.var .here)) .star)

theorem vecMotive_shift {Γ : List Core} {a m : Core} (hm : HasType Θ Γ m (vecMotive a)) (B : Core) :
    HasType Θ (B :: Γ) m.shift (vecMotive a.shift) := by
  have h := hm.rename (.shift Γ B)
  rwa [rename_vecMotive] at h

theorem vecStep_type {Γ : List Core} {a m : Core} (ha : HasType Θ Γ a .star)
    (hm : HasType Θ Γ m (vecMotive a)) : HasType Θ Γ (vecStep a m) .star := by
  have ha₁ := ha.shift .nat
  have ha₂ := ha₁.shift a.shift
  have ha₃ := ha₂.shift (.vec a.shift.shift (.var 1))
  have hm₃ := ((hm.vecMotive_shift .nat).vecMotive_shift a.shift).vecMotive_shift
    (.vec a.shift.shift (.var 1))
  refine .pi .nat (.pi ha₁ (.pi (.vec ha₂ (.var (.there .here))) (.pi ?_ ?_)))
  · exact hm₃.vecMotive_app (.var (.there (.there .here))) (.var .here)
  · refine (hm₃.vecMotive_shift _).vecMotive_app (.succ (.var (.there (.there (.there .here))))) ?_
    exact .cons (ha₃.shift _) (.var (.there (.there (.there .here))))
      (.var (.there (.there .here))) (.var (.there .here))

/-! ## The steps applied -/

theorem natStep_app {Γ : List Core} {m s n r : Core} (hs : HasType Θ Γ s (natStep m))
    (hn : HasType Θ Γ n .nat) (hr : HasType Θ Γ r (.app m n)) :
    HasType Θ Γ (.app (.app s n) r) (.app m (.succ n)) := by
  have h : HasType Θ Γ (.app s n) (.pi (.app m n) (.app m.shift (.succ n.shift))) := by
    have h' := HasType.app hs hn
    simpa only [Core.inst, Core.subst, subst_shift, shift_subst_push, subst_var, push, Core.up]
      using h'
  have h' := HasType.app h hr
  simpa only [Core.inst, Core.subst, shift_subst_push, subst_var] using h'

theorem vecStep_app {Γ : List Core} {a m s n x xs r : Core} (hs : HasType Θ Γ s (vecStep a m))
    (hn : HasType Θ Γ n .nat) (hx : HasType Θ Γ x a) (hxs : HasType Θ Γ xs (.vec a n))
    (hr : HasType Θ Γ r (.app (.app m n) xs)) :
    HasType Θ Γ (app4 s n x xs r) (.app (.app m (.succ n)) (.cons a n x xs)) := by
  have h₁ := HasType.app hs hn
  simp only [Core.inst, Core.subst, subst_shift, shift_subst_push, subst_var, push, Core.up] at h₁
  have h₂ := HasType.app h₁ hx
  simp only [Core.inst, Core.subst, subst_shift, shift_subst_push, subst_var, push, Core.up] at h₂
  have h₃ := HasType.app h₂ hxs
  simp only [Core.inst, Core.subst, subst_shift, shift_subst_push, subst_var, push] at h₃
  have h₄ := HasType.app h₃ hr
  simpa only [app4, Core.inst, Core.subst, shift_subst_push, subst_var] using h₄

theorem succ_inv {Γ : List Core} {n T : Core} (h : HasType Θ Γ (.succ n) T) :
    HasType Θ Γ n .nat := by
  obtain ⟨_, ⟨hn, _⟩, _⟩ := h.inv
  exact hn

/-! ## Contraction at the root -/

section Root

variable (hΘ : Θ.Ok) {Γ : List Core} (hΓ : CtxOk Θ Γ)

include hΘ hΓ

/-- A term has every type that is convertible to one of its types and has a term. -/
theorem conv_of {t u A T : Core} (h : HasType Θ Γ t A) (hc : Conv Θ A T) (hT : HasType Θ Γ u T) :
    HasType Θ Γ t T :=
  .conv h hc (hT.regular hΘ hΓ)

theorem contract_beta {b a T : Core} (h : HasType Θ Γ (.app (.lam b) a) T) :
    HasType Θ Γ (b.inst a) T := by
  obtain ⟨_, ⟨A, B, hf, ha, rfl⟩, hc⟩ := h.inv
  obtain ⟨_, ⟨A', B', hA', hb, rfl⟩, hc'⟩ := hf.inv
  obtain ⟨hcA, hcB⟩ := hc'.pi_inj
  have ha' := ha.conv hcA.symm hA'
  exact (hb.inst ha').conv_of hΘ hΓ ((hcB.inst (.refl a)).trans hc) h

theorem contract_delta {x : String} {d : Definition} {T : Core} (hd : Θ.definition x = some d)
    (h : HasType Θ Γ (.atom (.definition x)) T) : HasType Θ Γ d.body T := by
  obtain ⟨_, ⟨d', hd', rfl⟩, hc⟩ := h.inv
  cases hd.symm.trans hd'
  have hcl := Θ.closed_definition hd
  exact ((hΘ.body hd).of_nil hcl.2 hcl.1 Γ).conv_of hΘ hΓ hc h

theorem contract_natSucc {m b s n T : Core} (h : HasType Θ Γ (.natElim m b s (.succ n)) T) :
    HasType Θ Γ (.app (.app s n) (.natElim m b s n)) T := by
  obtain ⟨_, ⟨hm, hb, hs, hn, rfl⟩, hc⟩ := h.inv
  exact (hs.natStep_app hn.succ_inv (.natElim hm hb hs hn.succ_inv)).conv_of hΘ hΓ hc h

theorem contract_vecNil {a m b s n a' T : Core} (h : HasType Θ Γ (.vecElim a m b s n (.nil a')) T) :
    HasType Θ Γ b T := by
  obtain ⟨_, ⟨_, _, hb, _, _, hxs, rfl⟩, hc⟩ := h.inv
  obtain ⟨_, ⟨_, rfl⟩, hc'⟩ := hxs.inv
  obtain ⟨hca, hcn⟩ := hc'.vec_inj
  have hcb : Conv Θ (.app (.app m .zero) (.nil a)) (.app (.app m n) (.nil a')) :=
    .app (.app (.refl m) hcn) (.nil hca.symm)
  exact hb.conv_of hΘ hΓ (hcb.trans hc) h

theorem contract_vecCons {a m b s n a' n' x xs T : Core}
    (h : HasType Θ Γ (.vecElim a m b s n (.cons a' n' x xs)) T) :
    HasType Θ Γ (app4 s n' x xs (.vecElim a m b s n' xs)) T := by
  obtain ⟨_, ⟨ha, hm, hb, hs, _, hcons, rfl⟩, hc⟩ := h.inv
  obtain ⟨_, ⟨_, hn', hx, hxs, rfl⟩, hc'⟩ := hcons.inv
  obtain ⟨hca, hcn⟩ := hc'.vec_inj
  have hx' := hx.conv hca ha
  have hxs' := hxs.conv (.vec hca (.refl n')) (.vec ha hn')
  have hr := HasType.vecElim ha hm hb hs hn' hxs'
  have hcT : Conv Θ (.app (.app m (.succ n')) (.cons a n' x xs))
      (.app (.app m n) (.cons a' n' x xs)) :=
    .app (.app (.refl m) hcn) (.cons hca.symm (.refl _) (.refl _) (.refl _))
  exact (hs.vecStep_app hn' hx' hxs' hr).conv_of hΘ hΓ (hcT.trans hc) h

end Root

/-! ## Contraction inside -/

variable {Γ : List Core}

theorem app_congr {A B f' a a' : Core} (hP : HasType Θ Γ (.pi A B) .star)
    (ha : HasType Θ Γ a A) (hca : Conv Θ a a') (hf' : HasType Θ Γ f' (.pi A B))
    (ha' : HasType Θ Γ a' A) : HasType Θ Γ (.app f' a') (B.inst a) :=
  .conv (.app hf' ha') (.inst (.refl B) hca.symm) (hP.pi_inv.2.inst ha)

theorem natElim_congr {m m' b' s' n n' : Core} (hm : HasType Θ Γ m natMotive)
    (hn : HasType Θ Γ n .nat) (hcm : Conv Θ m m') (hcn : Conv Θ n n')
    (hm' : HasType Θ Γ m' natMotive) (hb' : HasType Θ Γ b' (.app m .zero))
    (hs' : HasType Θ Γ s' (natStep m)) (hn' : HasType Θ Γ n' .nat) :
    HasType Θ Γ (.natElim m' b' s' n') (.app m n) := by
  have hb := hb'.conv (.app hcm (.refl .zero)) (hm'.natMotive_app .zero)
  have hs := hs'.conv hcm.natStep hm'.natStep_type
  exact .conv (.natElim hm' hb hs hn') (.app hcm.symm hcn.symm) (hm.natMotive_app hn)

theorem cons_congr {a a' n n' x' xs' : Core} (ha : HasType Θ Γ a .star) (hn : HasType Θ Γ n .nat)
    (hca : Conv Θ a a') (hcn : Conv Θ n n') (ha' : HasType Θ Γ a' .star)
    (hn' : HasType Θ Γ n' .nat) (hx' : HasType Θ Γ x' a) (hxs' : HasType Θ Γ xs' (.vec a n)) :
    HasType Θ Γ (.cons a' n' x' xs') (.vec a (.succ n)) := by
  have hx := hx'.conv hca ha'
  have hxs := hxs'.conv (.vec hca hcn) (.vec ha' hn')
  exact .conv (.cons ha' hn' hx hxs) (.vec hca.symm (.succ hcn.symm)) (.vec ha (.succ hn))

theorem vecElim_congr {a a' m m' b' s' n n' xs xs' : Core} (hm : HasType Θ Γ m (vecMotive a))
    (hn : HasType Θ Γ n .nat) (hxs : HasType Θ Γ xs (.vec a n)) (hca : Conv Θ a a')
    (hcm : Conv Θ m m') (hcn : Conv Θ n n') (hcxs : Conv Θ xs xs') (ha' : HasType Θ Γ a' .star)
    (hm' : HasType Θ Γ m' (vecMotive a)) (hb' : HasType Θ Γ b' (.app (.app m .zero) (.nil a)))
    (hs' : HasType Θ Γ s' (vecStep a m)) (hn' : HasType Θ Γ n' .nat)
    (hxs' : HasType Θ Γ xs' (.vec a n)) :
    HasType Θ Γ (.vecElim a' m' b' s' n' xs') (.app (.app m n) xs) := by
  have hm'' := hm'.conv hca.vecMotive ha'.vecMotive_type
  have hb := hb'.conv (.app (.app hcm (.refl .zero)) (.nil hca))
    (hm''.vecMotive_app .zero (.nil ha'))
  have hs := hs'.conv (hca.vecStep hcm) (ha'.vecStep_type hm'')
  have hxs'' := hxs'.conv (.vec hca hcn) (.vec ha' hn')
  exact .conv (.vecElim ha' hm'' hb hs hn' hxs'') (.app (.app hcm.symm hcn.symm) hcxs.symm)
    (hm.vecMotive_app hn hxs)

end HasType

/-! ## Preservation -/

theorem HasType.par (hΘ : Θ.Ok) {Γ : List Core} {t u T : Core} (h : HasType Θ Γ t T)
    (hΓ : CtxOk Θ Γ) (hp : Par Θ t u) : HasType Θ Γ u T := by
  induction h generalizing u with
  | var hi => cases hp; exact .var hi
  | postulate hx => cases hp; exact .postulate hx
  | definition hx =>
    cases hp with
    | atom => exact .definition hx
    | delta hd => exact contract_delta hΘ hΓ hd (.definition hx)
  | star => cases hp; exact .star
  | pi hA _ ihA ihB =>
    cases hp with
    | pi pA pB => exact .pi (ihA hΓ pA) ((ihB (.cons hΓ hA) pB).ctx_conv pA.conv hA)
  | lam hA _ _ ihb =>
    cases hp with
    | lam pb => exact .lam hA (ihb (.cons hΓ hA) pb)
  | app hf ha ihf iha =>
    have hP := hf.regular hΘ hΓ
    cases hp with
    | app pf pa => exact app_congr hP ha pa.conv (ihf hΓ pf) (iha hΓ pa)
    | beta pb pa =>
      exact contract_beta hΘ hΓ (app_congr hP ha pa.conv (ihf hΓ (.lam pb)) (iha hΓ pa))
  | nat => cases hp; exact .nat
  | zero => cases hp; exact .zero
  | succ _ ih =>
    cases hp with
    | succ pn => exact .succ (ih hΓ pn)
  | natElim hm hb hs hn ihm ihb ihs ihn =>
    cases hp with
    | natElim pm pb ps pn =>
      exact natElim_congr hm hn pm.conv pn.conv (ihm hΓ pm) (ihb hΓ pb) (ihs hΓ ps) (ihn hΓ pn)
    | natZero pb => exact ihb hΓ pb
    | natSucc pm pb ps pn =>
      exact contract_natSucc hΘ hΓ (natElim_congr hm hn pm.conv (Par.succ pn).conv (ihm hΓ pm)
        (ihb hΓ pb) (ihs hΓ ps) (ihn hΓ (.succ pn)))
  | vec _ _ iha ihn =>
    cases hp with
    | vec pa pn => exact .vec (iha hΓ pa) (ihn hΓ pn)
  | nil ha iha =>
    cases hp with
    | nil pa => exact .conv (.nil (iha hΓ pa)) (.vec pa.conv.symm (.refl _)) (.vec ha .zero)
  | cons ha hn _ _ iha ihn ihx ihxs =>
    cases hp with
    | cons pa pn px pxs =>
      exact cons_congr ha hn pa.conv pn.conv (iha hΓ pa) (ihn hΓ pn) (ihx hΓ px) (ihxs hΓ pxs)
  | vecElim ha hm hb hs hn hxs iha ihm ihb ihs ihn ihxs =>
    cases hp with
    | vecElim pa pm pb ps pn pxs =>
      exact vecElim_congr hm hn hxs pa.conv pm.conv pn.conv pxs.conv (iha hΓ pa) (ihm hΓ pm)
        (ihb hΓ pb) (ihs hΓ ps) (ihn hΓ pn) (ihxs hΓ pxs)
    | vecNil pb =>
      exact contract_vecNil hΘ hΓ (.vecElim ha hm (ihb hΓ pb) hs hn hxs)
    | @vecCons _ _ _ _ _ _ _ _ _ _ _ e _ _ _ _ pa pm pb ps pl px pxs =>
      -- The length outside the vector is dropped, so it need not take part in the step.
      have pcons := Par.cons (.refl e) pl px pxs
      exact contract_vecCons hΘ hΓ (vecElim_congr hm hn hxs pa.conv pm.conv (.refl _) pcons.conv
        (iha hΓ pa) (ihm hΓ pm) (ihb hΓ pb) (ihs hΓ ps) hn (ihxs hΓ pcons))
  | conv _ hc hB ih => exact .conv (ih hΓ hp) hc hB

theorem HasType.reds (hΘ : Θ.Ok) {Γ : List Core} (hΓ : CtxOk Θ Γ) {t u T : Core}
    (h : HasType Θ Γ t T) (hr : Reds Θ t u) : HasType Θ Γ u T := by
  induction hr with
  | refl => exact h
  | tail _ hp ih => exact ih.par hΘ hΓ hp

end Core

end TypeInType
