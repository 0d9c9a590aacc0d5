import TypeInType.Proofs.Session.Safety
import TypeInType.Proofs.Typing.Equality
import TypeInType.Proofs.Typing.Fuel

/-!
# Equal types in a session

No value and no type of a reachable signature mentions a variable of read-back. So in every session,
checking respects equality of types.
-/

namespace TypeInType

open Run (Concurs)

theorem Within.notQuote {G : String → Prop} {n : Nat} : ∀ x, Within G n x → NotQuote x
  | .global _, _ => trivial
  | .hyp _, _ => trivial

theorem Signature.Sound.values_namesIn {R : Record} {sig : Signature} {P : Name → Prop}
    (h : sig.Sound R) (hP : ∀ x, Within R.Knows 0 x → P x) : GlobalsScopedBy .any P sig.values := by
  have hvalues : GlobalsScoped (Within R.Knows 0) sig.values := h.ok.globals
  exact (globalsScopedBy_known.mpr hvalues).mono (E := .any) (fun _ _ _ => trivial) hP

theorem Signature.Sound.type_namesIn {R : Record} {sig : Signature} {P : Name → Prop}
    (h : sig.Sound R) (hP : ∀ x, Within R.Knows 0 x → P x) {x : String} {T : Value}
    (hT : sig.type? x = some T) : T.NamesIn P := by
  simp only [Signature.type?, Option.map_eq_some_iff] at hT
  obtain ⟨e, he, rfl⟩ := hT
  exact ((h.find he).type.inScope.mono hP).namesIn

theorem Signature.Sound.quoteFree {R : Record} {sig : Signature} (h : sig.Sound R) :
    sig.QuoteFree :=
  ⟨h.values_namesIn Within.notQuote, h.type_namesIn Within.notQuote⟩

namespace Session

/-- In the signature of a reachable session, types of hypotheses and expected types may be replaced by
types with equal normal forms. Two runs that end, on any amounts of fuel, both accept the term or both
report an error. Where both infer a type, and read-back of these types ends, they have equal normal
forms. The types of the hypotheses need not be well formed. -/
theorem check_respects_equality {s : Session} (hs : s.Reachable) {ctx ctx' : Context}
    (hctx : ctx.signature = s.signature) (hctx' : ctx'.signature = s.signature)
    (hhyps : List.Forall₂ (fun A A' => A.NamesIn NotQuote ∧ A'.NamesIn NotQuote ∧
      ∃ depth, A.SameFormAt depth A') ctx.hyps ctx'.hyps)
    {T T' : Value} (hT : T.NamesIn NotQuote) (hT' : T'.NamesIn NotQuote)
    (hTT' : T.SameFormAt ctx.depth T') {e : Check} {t : Synth} {k k' : Nat}
    (he : e.Scoped NotQuote k) (ht : t.Scoped NotQuote k') (fuel fuel' : Nat) :
    ((e.check fuel ctx T).Terminates → (e.check fuel' ctx' T').Terminates →
      (e.check fuel ctx T = .ok () ∧ e.check fuel' ctx' T' = .ok ()) ∨
      ∃ err err', e.check fuel ctx T = .error (.refused err) ∧
        e.check fuel' ctx' T' = .error (.refused err')) ∧
    ((t.infer fuel ctx).Terminates → (t.infer fuel' ctx').Terminates →
      (∃ U U', t.infer fuel ctx = .ok U ∧ t.infer fuel' ctx' = .ok U' ∧
        ∀ depth n n', (U.quote n depth).Terminates → (U'.quote n' depth).Terminates →
          ∃ r r', U.quote n depth = .ok r ∧ U'.quote n' depth = .ok r' ∧ r.alphaEq r' = true) ∨
      ∃ err err', t.infer fuel ctx = .error (.refused err) ∧
        t.infer fuel' ctx' = .error (.refused err')) := by
  obtain ⟨sig, hyps⟩ := ctx
  obtain ⟨_, hyps'⟩ := ctx'
  cases hctx
  cases hctx'
  obtain ⟨R, hR⟩ := hs.sound
  have hequal : List.Forall₂ (Value.Equal R.theory) hyps hyps' :=
    hhyps.imp fun A A' ⟨hA, hA', _, hAA'⟩ => hAA'.equal hA hA'
  have hTequal : T.Equal R.theory T' := hTT'.equal hT hT'
  constructor
  · intro hx hy
    have h := Concurs.of_succ (fun n => Check.check_concurs hR.quoteFree n hequal hTequal he)
      (fun n => e.check_le n _ T) (fun n => e.check_le n _ T') fuel fuel'
    rcases h.ok_or_refused hx hy with ⟨_, _, hok, hok', _⟩ | hrefused
    · exact .inl ⟨hok, hok'⟩
    · exact .inr hrefused
  · intro hx hy
    have h := Concurs.of_succ (fun n => Synth.infer_concurs hR.quoteFree n hequal ht)
      (fun n => t.infer_le n _) (fun n => t.infer_le n _) fuel fuel'
    rcases h.ok_or_refused hx hy with ⟨U, U', hU, hU', hUU'⟩ | hrefused
    · apply Or.inl
      refine ⟨U, U', hU, hU', ?_⟩
      intro depth n n' hn hn'
      obtain ⟨r, hr⟩ := hn.exists_ok
      obtain ⟨r', hr'⟩ := hn'.exists_ok
      exact ⟨r, r', hr, hr', hUU'.alphaEq hr hr'⟩
    · exact .inr hrefused

/-- `forall (n : Nat) (m : Nat) -> Vec Nat len`, where the bound variables are `m` and, outside it, `n`. -/
def vecOver (len : Synth) : Value :=
  .pi "n" .nat ⟨⟨[], []⟩, .synth (Telescope.pi "m" Telescope.nat (Telescope.vec Telescope.nat len))⟩

/-- The second of two bound variables, as an elimination of zero gives it. -/
def computedVar : Synth :=
  .natElim none (.lam none none (.synth Telescope.nat)) (.synth (Telescope.var 1))
    (.lam none none (.lam none none (.synth (Telescope.var 0)))) (.synth (.zero none))

/-- The types of a hypothesis differ in their closures. The function that applies the hypothesis has
either type, and applied to a postulate the hypothesis has types that differ in their closures again. -/
theorem computed_length_accepted : ∃ s : Session, s.Reachable ∧ s.signature.names = ["n"] ∧
    let ctx : Context := ⟨s.signature, [vecOver (Telescope.var 1)]⟩
    let ctx' : Context := ⟨s.signature, [vecOver computedVar]⟩
    let e : Check := .lam none none (.synth (.app none (.free none (.hyp 0)) (.synth (.bound none 0))))
    let t : Synth := .app none (.free none (.hyp 0)) (.synth (.free none (.global "n")))
    (e.check 20 ctx (vecOver (Telescope.var 1)) = .ok () ∧
      e.check 20 ctx' (vecOver computedVar) = .ok ()) ∧
    ∃ U U' r r', t.infer 20 ctx = .ok U ∧ t.infer 20 ctx' = .ok U' ∧ U.quote 20 1 = .ok r ∧
      U'.quote 20 1 = .ok r' ∧ r.alphaEq r' = true := by
  have hs : Reachable _ := @Reachable.declarations .initial false 0
    [.postulate default [⟨default, "n"⟩] (.var default "Nat")] _ .initial (by rfl)
  have hA : (vecOver (Telescope.var 1)).NamesIn NotQuote := by
    refine ⟨trivial, ⟨trivial, trivial⟩, 0, trivial, ?_⟩
    simp [Telescope.pi, Telescope.vec, Telescope.nat, Telescope.var, Check.Scoped, Synth.Scoped]
  have hA' : (vecOver computedVar).NamesIn NotQuote := by
    refine ⟨trivial, ⟨trivial, trivial⟩, 0, trivial, ?_⟩
    simp [computedVar, Telescope.pi, Telescope.vec, Telescope.nat, Telescope.var, Check.Scoped,
      Synth.Scoped]
  have hAA' : (vecOver (Telescope.var 1)).SameFormAt 1 (vecOver computedVar) :=
    ⟨20, 20, _, _, by rfl, by rfl, by rfl⟩
  obtain ⟨hcheck, hinfer⟩ := @check_respects_equality _ hs ⟨_, [vecOver (Telescope.var 1)]⟩
    ⟨_, [vecOver computedVar]⟩ rfl rfl (.cons ⟨hA, hA', 1, hAA'⟩ .nil) _ _ hA hA' hAA'
    (.lam none none (.synth (.app none (.free none (.hyp 0)) (.synth (.bound none 0)))))
    (.app none (.free none (.hyp 0)) (.synth (.free none (.global "n")))) 0 0
    ⟨trivial, Nat.zero_lt_one⟩ ⟨trivial, trivial⟩ 20 20
  refine ⟨_, hs, by rfl, ?_, ?_⟩
  · rcases hcheck (.of_eq_ok (a := ()) (by rfl)) (.of_eq_ok (a := ()) (by rfl)) with
      hok | ⟨_, _, herr, _⟩
    · exact hok
    · cases herr
  · rcases hinfer (.of_eq_ok (by rfl)) (.of_eq_ok (by rfl)) with
      ⟨U, U', hU, hU', hforms⟩ | ⟨_, _, herr, _⟩
    · cases hU
      cases hU'
      obtain ⟨r, r', hr, hr', heq⟩ := hforms 1 20 20 (.of_eq_ok (by rfl)) (.of_eq_ok (by rfl))
      exact ⟨_, _, r, r', by rfl, by rfl, hr, hr', heq⟩
    · cases herr

/-- Zero, as a constant function gives it that is applied to `n 0`, whatever the number `n` is. -/
def ignoredCall : Synth :=
  .app none (.ann none (.lam none "z" (.synth (.zero none)))
      (.synth (.pi none none (.synth Telescope.nat) (.synth Telescope.nat))))
    (.synth (.app none (.bound none 1) (.synth (.zero none))))

/-- The types of a hypothesis have the same normal form, as long as `n` is a variable. Applied to zero, the
hypothesis has a type in either context, but only one of the two has a normal form. -/
theorem ignoredCall_without_normal_form :
    let ctx : Context := ⟨initial.signature, [vecOver ignoredCall]⟩
    let ctx' : Context := ⟨initial.signature, [vecOver (.zero none)]⟩
    let t : Synth := .app none (.free none (.hyp 0)) (.synth (.zero none))
    initial.Reachable ∧ (vecOver ignoredCall).NamesIn NotQuote ∧
      (vecOver (.zero none)).NamesIn NotQuote ∧
      (vecOver ignoredCall).SameFormAt 1 (vecOver (.zero none)) ∧ t.Scoped NotQuote 0 ∧
      ∃ U U' r', t.infer 20 ctx = .ok U ∧ t.infer 20 ctx' = .ok U' ∧
        U.quote 20 1 = .abort .invalidApplication ∧ U'.quote 20 1 = .ok r' := by
  intro ctx ctx' t
  have hcall : (vecOver ignoredCall).NamesIn NotQuote := by
    refine ⟨trivial, ⟨trivial, trivial⟩, 0, trivial, ?_⟩
    simp [ignoredCall, Telescope.pi, Telescope.vec, Telescope.nat, Check.Scoped, Synth.Scoped]
  have hzero : (vecOver (.zero none)).NamesIn NotQuote :=
    ⟨trivial, ⟨trivial, trivial⟩, 0, trivial, trivial, trivial, trivial⟩
  have hforms : (vecOver ignoredCall).SameFormAt 1 (vecOver (.zero none)) :=
    ⟨20, 20, _, _, by rfl, by rfl, by rfl⟩
  exact ⟨.initial, hcall, hzero, hforms, ⟨trivial, trivial⟩, _, _, _, rfl, rfl, rfl, rfl⟩

end Session

end TypeInType
