import TypeInType.Proofs.Term.Globals
import TypeInType.Proofs.Typing.Convertibility

/-!
# Normal forms do not change

Read-back gives terms of a fixed shape: no annotations, and eliminations of variables only. Such a term
evaluates and reads back to itself if its names stand for themselves.
-/

namespace TypeInType

open Run (Settles bind_eq_ok pure_eq_ok)

/-! ## Shape of normal forms -/

mutual

/-- Computed terms without annotations and without eliminations that could compute. -/
inductive Check.IsNormal : Check → Prop where
  | neutral {t} : Synth.IsNeutral t → Check.IsNormal (.synth t)
  | star : Check.IsNormal (.synth (.star none))
  | pi {x d c} : Check.IsNormal d → Check.IsNormal c → Check.IsNormal (.synth (.pi none x d c))
  | lam {x b} : Check.IsNormal b → Check.IsNormal (.lam none x b)
  | nat : Check.IsNormal (.synth (.nat none))
  | zero : Check.IsNormal (.synth (.zero none))
  | succ {n} : Check.IsNormal n → Check.IsNormal (.synth (.succ none n))
  | vec {a n} : Check.IsNormal a → Check.IsNormal n → Check.IsNormal (.synth (.vec none a n))
  | nil {a} : Check.IsNormal a → Check.IsNormal (.synth (.nil none a))
  | cons {a n x xs} : Check.IsNormal a → Check.IsNormal n → Check.IsNormal x → Check.IsNormal xs →
      Check.IsNormal (.synth (.cons none a n x xs))

/-- Computed eliminations of a variable. -/
inductive Synth.IsNeutral : Synth → Prop where
  | bound {i} : Synth.IsNeutral (.bound none i)
  | free {x} : Synth.IsNeutral (.free none x)
  | app {f a} : Synth.IsNeutral f → Check.IsNormal a → Synth.IsNeutral (.app none f a)
  | natElim {m b s n} : Check.IsNormal m → Check.IsNormal b → Check.IsNormal s →
      Synth.IsNeutral n → Synth.IsNeutral (.natElim none m b s (.synth n))
  | vecElim {a m b s n xs} : Check.IsNormal a → Check.IsNormal m → Check.IsNormal b →
      Check.IsNormal s → Check.IsNormal n → Synth.IsNeutral xs →
      Synth.IsNeutral (.vecElim none a m b s n (.synth xs))

end

theorem Name.quote?_isNeutral {depth : Nat} {x : Name} {r : Synth} (h : x.quote? depth = .ok r) :
    r.IsNeutral := by
  cases x with
  | global x =>
    cases h
    exact .free
  | hyp l =>
    cases h
    exact .free
  | quote l =>
    simp only [Name.quote?] at h
    split at h
    · cases h
      exact .bound
    · cases h

mutual

theorem Value.quote_isNormal : ∀ {fuel depth : Nat} {v : Value} {r : Check},
    v.quote fuel depth = .ok r → r.IsNormal
  | 0, _, _, _, h => by simp only [Value.quote, reduceCtorEq] at h
  | fuel + 1, depth, .neutral n, r, h => by
    simp only [Value.quote, bind_eq_ok, pure_eq_ok] at h
    obtain ⟨n', hn, rfl⟩ := h
    exact .neutral (Neutral.quote_isNeutral hn)
  | fuel + 1, depth, .star, r, h => by
    simp only [Value.quote, pure_eq_ok] at h
    subst h
    exact .star
  | fuel + 1, depth, .pi x d c, r, h => by
    simp only [Value.quote, bind_eq_ok, pure_eq_ok] at h
    obtain ⟨d', hd, c', hc, rfl⟩ := h
    exact .pi (Value.quote_isNormal hd) (Closure.quote_isNormal hc)
  | fuel + 1, depth, .lam x b, r, h => by
    simp only [Value.quote, bind_eq_ok, pure_eq_ok] at h
    obtain ⟨b', hb, rfl⟩ := h
    exact .lam (Closure.quote_isNormal hb)
  | fuel + 1, depth, .nat, r, h => by
    simp only [Value.quote, pure_eq_ok] at h
    subst h
    exact .nat
  | fuel + 1, depth, .zero, r, h => by
    simp only [Value.quote, pure_eq_ok] at h
    subst h
    exact .zero
  | fuel + 1, depth, .succ n, r, h => by
    simp only [Value.quote, bind_eq_ok, pure_eq_ok] at h
    obtain ⟨n', hn, rfl⟩ := h
    exact .succ (Value.quote_isNormal hn)
  | fuel + 1, depth, .vec a n, r, h => by
    simp only [Value.quote, bind_eq_ok, pure_eq_ok] at h
    obtain ⟨a', ha, n', hn, rfl⟩ := h
    exact .vec (Value.quote_isNormal ha) (Value.quote_isNormal hn)
  | fuel + 1, depth, .nil a, r, h => by
    simp only [Value.quote, bind_eq_ok, pure_eq_ok] at h
    obtain ⟨a', ha, rfl⟩ := h
    exact .nil (Value.quote_isNormal ha)
  | fuel + 1, depth, .cons a n x xs, r, h => by
    simp only [Value.quote, bind_eq_ok, pure_eq_ok] at h
    obtain ⟨a', ha, n', hn, x', hx, xs', hxs, rfl⟩ := h
    exact .cons (Value.quote_isNormal ha) (Value.quote_isNormal hn) (Value.quote_isNormal hx)
      (Value.quote_isNormal hxs)

theorem Neutral.quote_isNeutral : ∀ {fuel depth : Nat} {n : Neutral} {r : Synth},
    n.quote fuel depth = .ok r → r.IsNeutral
  | 0, _, _, _, h => by simp only [Neutral.quote, reduceCtorEq] at h
  | fuel + 1, depth, .free x, r, h => by
    simp only [Neutral.quote] at h
    exact Name.quote?_isNeutral h
  | fuel + 1, depth, .app f v, r, h => by
    simp only [Neutral.quote, bind_eq_ok, pure_eq_ok] at h
    obtain ⟨f', hf, v', hv, rfl⟩ := h
    exact .app (Neutral.quote_isNeutral hf) (Value.quote_isNormal hv)
  | fuel + 1, depth, .natElim m b s n, r, h => by
    simp only [Neutral.quote, bind_eq_ok, pure_eq_ok] at h
    obtain ⟨n', hn, m', hm, b', hb, s', hs, rfl⟩ := h
    exact .natElim (Value.quote_isNormal hm) (Value.quote_isNormal hb) (Value.quote_isNormal hs)
      (Neutral.quote_isNeutral hn)
  | fuel + 1, depth, .vecElim a m b s n xs, r, h => by
    simp only [Neutral.quote, bind_eq_ok, pure_eq_ok] at h
    obtain ⟨xs', hxs, a', ha, m', hm, b', hb, s', hs, n', hn, rfl⟩ := h
    exact .vecElim (Value.quote_isNormal ha) (Value.quote_isNormal hm) (Value.quote_isNormal hb)
      (Value.quote_isNormal hs) (Value.quote_isNormal hn) (Neutral.quote_isNeutral hxs)

theorem Closure.quote_isNormal : ∀ {fuel depth : Nat} {c : Closure} {r : Check},
    c.quote fuel depth = .ok r → r.IsNormal
  | 0, _, _, _, h => by simp only [Closure.quote, reduceCtorEq] at h
  | fuel + 1, depth, c, r, h => by
    simp only [Closure.quote, bind_eq_ok] at h
    obtain ⟨v, _, hr⟩ := h
    exact Value.quote_isNormal hr

end

/-! ## Stability -/

/-- Names that satisfy `P` stand for themselves, and the bound variables for the variables of read-back
under as many binders. -/
structure Env.Idle (P : Name → Prop) (depth : Nat) (env : Env) : Prop where
  global : ∀ x, P (.global x) → env.global? x = some (.free (.global x))
  bound : ∀ i l, levelOfIndex? depth i = some l → env.locals[i]? = some (.free (.quote l))
  quote : ∀ l, ¬ P (.quote l)

theorem Env.Idle.push {P : Name → Prop} {depth : Nat} {env : Env} (h : env.Idle P depth) :
    (env.push (.free (.quote depth))).Idle P (depth + 1) where
  global := h.global
  quote := h.quote
  bound i l hl := by
    unfold levelOfIndex? at hl
    cases i with
    | zero =>
      cases hl
      rfl
    | succ i =>
      apply h.bound i l
      unfold levelOfIndex?
      rw [Option.ite_none_right_eq_some] at hl ⊢
      obtain ⟨hi, hl⟩ := hl
      exact ⟨Nat.lt_of_succ_lt_succ hi, by rw [← hl, Nat.add_sub_add_right]⟩

/-- The term evaluates, and its value reads back as the term. -/
def Check.Rests (env : Env) (depth : Nat) (t : Check) : Prop :=
  ∃ v : Value, Settles (t.eval · env) v ∧ Settles (v.quote · depth) t

/-- The term evaluates to a neutral value, which reads back as the term. -/
def Synth.Rests (env : Env) (depth : Nat) (t : Synth) : Prop :=
  ∃ n : Neutral, Settles (t.eval · env) (.neutral n) ∧ Settles (n.quote · depth) t

theorem Check.settles_synth {t : Synth} {env : Env} {v : Value} (h : Settles (t.eval · env) v) :
    Settles (Check.eval · env (.synth t)) v := by
  apply Settles.succ
  simp only [Check.eval]
  exact h

theorem Closure.settles_quote {env : Env} {b r : Check} {depth : Nat} {v : Value}
    (hv : Settles (b.eval · (env.push (.free (.quote depth)))) v)
    (hr : Settles (v.quote · (depth + 1)) r) : Settles (Closure.quote · depth ⟨env, b⟩) r := by
  apply Settles.succ
  simp only [Closure.quote, Closure.apply]
  exact hv.bind hr

section Stability

variable {P : Name → Prop}

mutual

theorem Check.IsNormal.rests : ∀ {t : Check} {env : Env} {depth : Nat}, t.IsNormal →
    t.Scoped P depth → env.Idle P depth → t.Rests env depth
  | _, env, depth, .neutral ht, hs, henv => by
    obtain ⟨n, he, hq⟩ := ht.rests hs henv
    refine ⟨.neutral n, Check.settles_synth he, .succ ?_⟩
    simp only [Value.quote]
    exact hq.bind (.pure _)
  | _, env, depth, .star, _, _ => by
    refine ⟨.star, Check.settles_synth (.succ ?_), .succ ?_⟩
    · simp only [Synth.eval]
      exact .pure _
    · simp only [Value.quote]
      exact .pure _
  | _, env, depth, .pi (x := x) (c := c) hd hc, hs, henv => by
    obtain ⟨d', hd, hd'⟩ := hd.rests hs.1 henv
    obtain ⟨c', hc, hc'⟩ := hc.rests hs.2 henv.push
    refine ⟨.pi x d' ⟨env, c⟩, Check.settles_synth (.succ ?_), .succ ?_⟩
    · simp only [Synth.eval]
      exact hd.bind (.pure _)
    · simp only [Value.quote]
      exact hd'.bind ((Closure.settles_quote hc hc').bind (.pure _))
  | _, env, depth, .lam (x := x) (b := b) hb, hs, henv => by
    obtain ⟨b', hb, hb'⟩ := hb.rests hs henv.push
    refine ⟨.lam x ⟨env, b⟩, .succ ?_, .succ ?_⟩
    · simp only [Check.eval]
      exact .pure _
    · simp only [Value.quote]
      exact (Closure.settles_quote hb hb').bind (.pure _)
  | _, env, depth, .nat, _, _ => by
    refine ⟨.nat, Check.settles_synth (.succ ?_), .succ ?_⟩
    · simp only [Synth.eval]
      exact .pure _
    · simp only [Value.quote]
      exact .pure _
  | _, env, depth, .zero, _, _ => by
    refine ⟨.zero, Check.settles_synth (.succ ?_), .succ ?_⟩
    · simp only [Synth.eval]
      exact .pure _
    · simp only [Value.quote]
      exact .pure _
  | _, env, depth, .succ hn, hs, henv => by
    obtain ⟨n', hn, hn'⟩ := hn.rests hs henv
    refine ⟨.succ n', Check.settles_synth (.succ ?_), .succ ?_⟩
    · simp only [Synth.eval]
      exact hn.bind (.pure _)
    · simp only [Value.quote]
      exact hn'.bind (.pure _)
  | _, env, depth, .vec ha hn, hs, henv => by
    obtain ⟨a', ha, ha'⟩ := ha.rests hs.1 henv
    obtain ⟨n', hn, hn'⟩ := hn.rests hs.2 henv
    refine ⟨.vec a' n', Check.settles_synth (.succ ?_), .succ ?_⟩
    · simp only [Synth.eval]
      exact ha.bind (hn.bind (.pure _))
    · simp only [Value.quote]
      exact ha'.bind (hn'.bind (.pure _))
  | _, env, depth, .nil ha, hs, henv => by
    obtain ⟨a', ha, ha'⟩ := ha.rests hs henv
    refine ⟨.nil a', Check.settles_synth (.succ ?_), .succ ?_⟩
    · simp only [Synth.eval]
      exact ha.bind (.pure _)
    · simp only [Value.quote]
      exact ha'.bind (.pure _)
  | _, env, depth, .cons ha hn hx hxs, hs, henv => by
    obtain ⟨a', ha, ha'⟩ := ha.rests hs.1 henv
    obtain ⟨n', hn, hn'⟩ := hn.rests hs.2.1 henv
    obtain ⟨x', hx, hx'⟩ := hx.rests hs.2.2.1 henv
    obtain ⟨xs', hxs, hxs'⟩ := hxs.rests hs.2.2.2 henv
    refine ⟨.cons a' n' x' xs', Check.settles_synth (.succ ?_), .succ ?_⟩
    · simp only [Synth.eval]
      exact ha.bind (hn.bind (hx.bind (hxs.bind (.pure _))))
    · simp only [Value.quote]
      exact ha'.bind (hn'.bind (hx'.bind (hxs'.bind (.pure _))))

theorem Synth.IsNeutral.rests : ∀ {t : Synth} {env : Env} {depth : Nat}, t.IsNeutral →
    t.Scoped P depth → env.Idle P depth → t.Rests env depth
  | _, env, depth, .bound (i := i), hs, henv => by
    -- The level of the variable that stands for the index is read back as the index.
    have hl : levelOfIndex? depth i = some (depth - i - 1) := if_pos hs
    refine ⟨.free (.quote (depth - i - 1)), .succ ?_, .succ ?_⟩
    · simp only [Synth.eval, henv.bound i _ hl]
      exact .pure _
    · simp only [Neutral.quote, Name.quote?, indexOfLevel?_levelOfIndex? hl]
      exact .pure _
  | _, env, depth, .free (x := x), hs, henv => by
    cases x with
    | global x =>
      refine ⟨.free (.global x), .succ ?_, .succ ?_⟩
      · simp only [Synth.eval, henv.global x hs]
        exact .pure _
      · simp only [Neutral.quote, Name.quote?]
        exact .pure _
    | hyp l =>
      refine ⟨.free (.hyp l), .succ ?_, .succ ?_⟩
      · simp only [Synth.eval]
        exact .pure _
      · simp only [Neutral.quote, Name.quote?]
        exact .pure _
    | quote l => exact absurd hs (henv.quote l)
  | _, env, depth, .app hf ha, hs, henv => by
    obtain ⟨f', hf, hf'⟩ := hf.rests hs.1 henv
    obtain ⟨a', ha, ha'⟩ := ha.rests hs.2 henv
    refine ⟨.app f' a', .succ ?_, .succ ?_⟩
    · simp only [Synth.eval]
      have happly : Settles (Value.apply · (.neutral f') a') (.neutral (.app f' a')) := by
        apply Settles.succ
        simp only [Value.apply]
        exact .pure _
      exact hf.bind (ha.bind happly)
    · simp only [Neutral.quote]
      exact hf'.bind (ha'.bind (.pure _))
  | _, env, depth, .natElim hm hb ht hn, hs, henv => by
    obtain ⟨m', hm, hm'⟩ := hm.rests hs.1 henv
    obtain ⟨b', hb, hb'⟩ := hb.rests hs.2.1 henv
    obtain ⟨t', ht, ht'⟩ := ht.rests hs.2.2.1 henv
    obtain ⟨n', hn, hn'⟩ := hn.rests hs.2.2.2 henv
    refine ⟨.natElim m' b' t' n', .succ ?_, .succ ?_⟩
    · simp only [Synth.eval]
      have helim : Settles (Value.natElim · (.neutral n') m' b' t')
          (.neutral (.natElim m' b' t' n')) := by
        apply Settles.succ
        simp only [Value.natElim]
        exact .pure _
      exact hm.bind (hb.bind (ht.bind ((Check.settles_synth hn).bind helim)))
    · simp only [Neutral.quote]
      exact hn'.bind (hm'.bind (hb'.bind (ht'.bind (.pure _))))
  | _, env, depth, .vecElim ha hm hb ht hn hxs, hs, henv => by
    obtain ⟨a', ha, ha'⟩ := ha.rests hs.1 henv
    obtain ⟨m', hm, hm'⟩ := hm.rests hs.2.1 henv
    obtain ⟨b', hb, hb'⟩ := hb.rests hs.2.2.1 henv
    obtain ⟨t', ht, ht'⟩ := ht.rests hs.2.2.2.1 henv
    obtain ⟨n', hn, hn'⟩ := hn.rests hs.2.2.2.2.1 henv
    obtain ⟨xs', hxs, hxs'⟩ := hxs.rests hs.2.2.2.2.2 henv
    refine ⟨.vecElim a' m' b' t' n' xs', .succ ?_, .succ ?_⟩
    · simp only [Synth.eval]
      have helim : Settles (Value.vecElim · (.neutral xs') a' m' b' t' n')
          (.neutral (.vecElim a' m' b' t' n' xs')) := by
        apply Settles.succ
        simp only [Value.vecElim]
        exact .pure _
      exact ha.bind (hm.bind (hb.bind (ht.bind (hn.bind ((Check.settles_synth hxs).bind helim)))))
    · simp only [Neutral.quote]
      exact hxs'.bind (ha'.bind (hm'.bind (hb'.bind (ht'.bind (hn'.bind (.pure _))))))

end

end Stability

/-! ## Signatures without redeclarations -/

theorem Value.eq_free_of_embed {v : Value} {x : String}
    (h : v.embed .atom = .atom (.postulate x)) : v = .free (.global x) := by
  cases v with
  | neutral n =>
    cases n with
    | free y =>
      cases y with
      | global y =>
        cases h
        rfl
      | _ => cases h
    | _ => cases h
  | _ => cases h

theorem Constants.Ok.value_of_postulated {cs : Constants} {sig : Signature} (h : cs.Ok sig)
    {x : String} (hx : cs.Postulated x) : sig.value? x = some (.free (.global x)) := by
  unfold Signature.value?
  cases he : sig.find? x with
  | none =>
    obtain ⟨c, hc, _⟩ := hx
    rw [(h.declared x).mpr he] at hc
    cases hc
  | some e =>
    -- The value is what the postulate reduces to, and a postulate is normal.
    have hvalue := h.signature.value he
    simp only [Constants.naming, Constants.atom_of_postulated hx] at hvalue
    rw [Option.map_some, Value.eq_free_of_embed (hvalue.eq_of_normal trivial)]

theorem Constants.Ok.isPostulate_of_postulated {cs : Constants} {sig : Signature} (h : cs.Ok sig)
    {x : String} (hx : cs.Postulated x) : sig.isPostulate x = true := by
  simp [Signature.isPostulate, h.value_of_postulated hx, Value.free]

theorem Constants.Ok.idle {cs : Constants} {sig : Signature} (h : cs.Ok sig) :
    ((Context.ofSignature sig).env []).Idle (OrHyp cs.Postulated) 0 where
  global x hx := by
    show sig.values.lookup x = _
    rw [Signature.lookup_values]
    exact h.value_of_postulated hx
  bound i l hl := by
    unfold levelOfIndex? at hl
    cases hl
  quote l hl := hl

theorem Unquoted.orHyp {G : String → Prop} : ∀ x, Unquoted (OrHyp G) x → OrHyp G x
  | .global _, h => h
  | .hyp _, _ => trivial

theorem OrHyp.globalIn {G : String → Prop} : ∀ x, OrHyp G x → NotQuote x ∧ x.GlobalIn G
  | .global _, h => ⟨trivial, h⟩
  | .hyp _, _ => ⟨trivial, trivial⟩

/-- In a signature without redeclarations, the normal form of a closed term is normal and mentions
postulates only, and it is its own normal form. The term need not have a type. -/
theorem Declares.normalise_normalForm {cs : Constants} {sig : Signature} (h : Declares cs sig)
    {t r : Check} {fuel : Nat} (ht : t.Scoped NotQuote 0)
    (hr : t.normalise fuel ((Context.ofSignature sig).env []) = .ok r) :
    r.IsNormal ∧ (∀ x ∈ r.globals, sig.isPostulate x = true) ∧
      Settles (r.normalise · ((Context.ofSignature sig).env [])) r := by
  simp only [Check.normalise, bind_eq_ok] at hr
  obtain ⟨v, hv, hr⟩ := hr
  have hnormal : r.IsNormal := Value.quote_isNormal hr
  obtain ⟨hvs, _⟩ := @Signature.Ok.eval_core _ _ _ (.ofSignature sig) h.ok.signature t fuel v ht hv
  have hscoped : r.Scoped (OrHyp cs.Postulated) 0 :=
    (Value.quote_scoped (n := 0) (fun _ h => h.elim) (Nat.le_refl 0) hvs hr).mono Unquoted.orHyp
  have hglobals := ((r.scoped_and_globalIn 0).mp (hscoped.mono OrHyp.globalIn)).2
  refine ⟨hnormal, fun x hx => h.ok.isPostulate_of_postulated (hglobals x hx), ?_⟩
  obtain ⟨w, hw, hquote⟩ := hnormal.rests hscoped h.ok.idle
  exact hw.bind hquote

/-- After `two`, a postulate `n : Nat`. -/
theorem Declares.twoAndPostulate : Declares
    (.postulate Constants.two.naming "n" (.synth (.nat none)) trivial :: Constants.two)
    (Signature.two.postulate "n" .nat) :=
  @Declares.postulate .two .two ["n"] (.synth (.nat none)) 5 _ trivial .two (by rfl)
    (by simp) fun x hx => by
      cases List.mem_singleton.mp hx
      rfl

/-- Two added to the postulate: the annotation is gone, `two` is unfolded and the elimination of the
postulate stays. -/
theorem Declares.normalise_addTwo :
    let r := Check.synth (.natElim none (.lam none none (.synth (.nat none))) (.synth .two)
      (.lam none none (.lam none none (.synth (.succ none (.synth (.bound none 0))))))
      (.synth (.free none (.global "n"))))
    r.IsNormal ∧ (∀ x ∈ r.globals, (Signature.two.postulate "n" .nat).isPostulate x = true) ∧
      Settles (r.normalise · ((Context.ofSignature (Signature.two.postulate "n" .nat)).env [])) r := by
  let t : Check := .synth (.app none .addTwoFun (.synth (.free none (.global "n"))))
  have ht : t.Scoped NotQuote 0 :=
    ⟨Synth.scoped_addTwoFun.mono fun x hx => by cases x <;> trivial, trivial⟩
  exact @Declares.normalise_normalForm _ _ .twoAndPostulate t _ 20 ht (by rfl)

end TypeInType
