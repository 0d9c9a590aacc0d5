import TypeInType.Proofs.Typing.Convertibility
import TypeInType.Proofs.Value.Along
import TypeInType.Proofs.Value.Depth

/-!
# Going under a binder

Read-back goes under a binder with a variable of its own and turns it into an index at once. Checking goes
under a binder with a hypothesis, and what it reads back names the hypothesis. The two agree: an index in
place of the hypothesis gives the one from the other. They also agree if the binders are counted.
-/

namespace TypeInType

open Var (Abstracted)

/-- Every name of the closure, in its environment and in its body, satisfies `P` or is a name of the
signature in the body. -/
def Closure.NamesIn (P : Name → Prop) (c : Closure) : Prop :=
  c.ScopedBy .any P

/-- A name that read-back does not introduce, other than the hypothesis at the level. -/
def Name.Avoids (l : Nat) (x : Name) : Prop :=
  NotQuote x ∧ x ≠ .hyp l

/-- The normal form of the body of a binder, with the hypothesis at a level for its variable. -/
def Closure.quoteHyp (fuel depth l : Nat) (c : Closure) : Run Empty Check := do
  let v ← c.apply fuel (.free (.hyp l))
  v.quote fuel depth

section Opened

variable {l d e : Nat}

/-- How names correspond when the hypothesis at level `l` stands for the variable that read-back
introduces at level `d`. The hypothesis is read back under `e` binders. -/
inductive Name.Opened (l d e : Nat) : Name → Name → Prop where
  | hyp : Opened l d e (.hyp l) (.quote d)
  | other {x : Name} : x.Avoids l → Opened l d e x x
  | fresh (k : Nat) : Opened l d e (.quote (e + k)) (.quote (d + 1 + k))

theorem Name.Avoids.read? {depth : Nat} : ∀ {x : Name}, x.Avoids l → x.read? depth = some (.free x)
  | .global _, _ => rfl
  | .hyp _, _ => rfl

theorem Name.Opened.readsAlong :
    ReadsAlong (Name.Opened l d e) (Abstracted (.hyp l) 0) e (d + 1) where
  read := by
    intro x x' hx
    cases hx with
    | hyp =>
      have hd : (Name.quote d).read? (d + 1) = some (.bound 0) := by
        simp [Name.read?, indexOfLevel?]
      exact .var rfl hd .here
    | other hx => exact .var hx.read? hx.read? (.free hx.2)
    | fresh k => exact .stray k
  fresh := .fresh

/-- Both ways of going under the binder end alike, with terms that differ in the variable of the binder
only. -/
theorem Closure.NamesIn.quoteHyp_along {c : Closure} (hc : c.NamesIn (Name.Avoids l)) (fuel : Nat) :
    (c.quoteHyp fuel e l).Rel Eq (Check.Along Eq (Abstracted (.hyp l) 0)) (c.quote (fuel + 1) d) := by
  simp only [Closure.quoteHyp, Closure.quote]
  have hself : c.Along (Name.Opened l d e) c := Closure.ScopedBy.along (fun _ hx => .other hx) hc
  have hvar : (Value.free (.hyp l)).Along (Name.Opened l d e) (.free (.quote d)) :=
    .neutral (.free .hyp)
  apply (Closure.apply_along fuel hself hvar).bind
  intro v v' hv
  exact Value.quote_along fuel Name.Opened.readsAlong hv

theorem Closure.NamesIn.quote_eq {c : Closure} (hc : c.NamesIn (Name.Avoids l)) (fuel : Nat) :
    c.quote (fuel + 1) d = do return (← c.quoteHyp fuel e l).abstract (.hyp l) 0 := by
  have hrel := hc.quoteHyp_along (d := d) (e := e) fuel
  generalize c.quoteHyp fuel e l = x, c.quote (fuel + 1) d = y at hrel
  cases hrel with
  | ok ht => exact congrArg Except.ok ht.eq_abstract.symm
  | refused he => contradiction
  | fault f => rfl
  | outOfFuel => rfl

end Opened

/-! ## Counted binders -/

mutual

theorem Synth.fits_abstract {y : Name} : ∀ {t : Synth} {k depth : Nat},
    (t.abstract y k).Fits depth ↔ t.Fits depth
  | .ann _ _ _, _, _ => and_congr Check.fits_abstract Check.fits_abstract
  | .star _, _, _ => .rfl
  | .pi _ _ _ _, _, _ => and_congr Check.fits_abstract (and_congr .rfl Check.fits_abstract)
  | .bound _ _, _, _ => .rfl
  | .free _ x, _, _ => by
    rw [Synth.abstract]
    split <;> exact .rfl
  | .app _ _ _, _, _ => and_congr Synth.fits_abstract Check.fits_abstract
  | .nat _, _, _ => .rfl
  | .zero _, _, _ => .rfl
  | .succ _ n, _, _ => n.fits_abstract
  | .natElim _ _ _ _ _, _, _ => and_congr Check.fits_abstract <| and_congr Check.fits_abstract <|
      and_congr Check.fits_abstract Check.fits_abstract
  | .vec _ _ _, _, _ => and_congr Check.fits_abstract Check.fits_abstract
  | .nil _ a, _, _ => a.fits_abstract
  | .cons _ _ _ _ _, _, _ => and_congr Check.fits_abstract <| and_congr Check.fits_abstract <|
      and_congr Check.fits_abstract Check.fits_abstract
  | .vecElim _ _ _ _ _ _ _, _, _ => and_congr Check.fits_abstract <|
      and_congr Check.fits_abstract <| and_congr Check.fits_abstract <|
        and_congr Check.fits_abstract <| and_congr Check.fits_abstract Check.fits_abstract

theorem Check.fits_abstract {y : Name} : ∀ {t : Check} {k depth : Nat},
    (t.abstract y k).Fits depth ↔ t.Fits depth
  | .synth t, _, _ => t.fits_abstract
  | .lam _ _ _, _, _ => and_congr .rfl Check.fits_abstract
  | .ascribe _ _ _, _, _ => and_congr Check.fits_abstract Check.fits_abstract
  | .sealed _ e, _, _ => e.fits_abstract

end

/-- The normal form of the body of a binder at a hypothesis, with binders that are counted. -/
def Closure.quoteHypCounted (fuel depth l : Nat) (c : Closure) : Run Empty Check := do
  let v ← c.apply fuel (.free (.hyp l))
  v.quoteCounted fuel depth

theorem Closure.quoteHypCounted_eq_ok {fuel depth l : Nat} {c : Closure} {u : Check} :
    c.quoteHypCounted fuel depth l = .ok u ↔ c.quoteHyp fuel depth l = .ok u ∧ u.Fits depth := by
  simp only [Closure.quoteHypCounted, Closure.quoteHyp, Run.bind_eq_ok, Value.quoteCounted_eq_ok]
  constructor
  · rintro ⟨v, hc, hv, hu⟩
    exact ⟨⟨v, hc, hv⟩, hu⟩
  · rintro ⟨⟨v, hc, hv⟩, hu⟩
    exact ⟨v, hc, hv, hu⟩

section Counted

variable {l d fuel : Nat} {c : Closure} (hc : c.NamesIn (Name.Avoids l))

include hc

/-- A normal form with counted binders is one at the hypothesis, with the variable for it. -/
theorem Closure.NamesIn.exists_quoteHypCounted {t : Check} (h : c.quoteCounted (fuel + 1) d = .ok t) :
    ∃ u, c.quoteHypCounted fuel (d + 1) l = .ok u ∧ u.Along Eq (Abstracted (.hyp l) 0) t := by
  obtain ⟨ht, _, hfits⟩ := Closure.quoteCounted_eq_ok.mp h
  obtain ⟨u, hu, hut⟩ := (hc.quoteHyp_along (e := d + 1) fuel).exists_left ht
  rw [← hut.eq_abstract, Check.fits_abstract] at hfits
  exact ⟨u, Closure.quoteHypCounted_eq_ok.mpr ⟨hu, hfits⟩, hut⟩

/-- The other way round, if the binder itself can be counted. -/
theorem Closure.NamesIn.exists_quoteCounted (hd : d < maxDepth) {u : Check}
    (h : c.quoteHypCounted fuel (d + 1) l = .ok u) :
    ∃ t, c.quoteCounted (fuel + 1) d = .ok t ∧ u.Along Eq (Abstracted (.hyp l) 0) t := by
  obtain ⟨hu, hfits⟩ := Closure.quoteHypCounted_eq_ok.mp h
  obtain ⟨t, ht, hut⟩ := (hc.quoteHyp_along (d := d) fuel).exists_right hu
  rw [← Check.fits_abstract, hut.eq_abstract] at hfits
  exact ⟨t, Closure.quoteCounted_eq_ok.mpr ⟨ht, hd, hfits⟩, hut⟩

end Counted

/-- Let the names of two closures avoid the hypothesis at level `l`. What read-back gives for a closure
under `d` binders is what its body at the hypothesis gives, under any number `e` of binders, with the
index of the new binder in place of the hypothesis; the one ends exactly when the other does. So the
closures are equal under read-back if and only if they are equal at the hypothesis. All this holds as well
if binders are counted and `d` is not the last depth, with `e` the next depth. -/
theorem Closure.quote_iff_quoteHyp {l : Nat} {c c' : Closure} (hc : c.NamesIn (Name.Avoids l))
    (hc' : c'.NamesIn (Name.Avoids l)) (d e : Nat) :
    (∀ fuel, c.quote (fuel + 1) d = do return (← c.quoteHyp fuel e l).abstract (.hyp l) 0) ∧
      ((∃ fuel t t', c.quote fuel d = .ok t ∧ c'.quote fuel d = .ok t' ∧ t.alphaEq t' = true) ↔
        ∃ fuel u u', c.quoteHyp fuel e l = .ok u ∧ c'.quoteHyp fuel e l = .ok u' ∧
          u.alphaEq u' = true) ∧
      (d < maxDepth →
        (∀ fuel t, c.quoteCounted (fuel + 1) d = .ok t ↔
          ∃ u, c.quoteHypCounted fuel (d + 1) l = .ok u ∧ u.abstract (.hyp l) 0 = t) ∧
        ((∃ fuel t t', c.quoteCounted fuel d = .ok t ∧ c'.quoteCounted fuel d = .ok t' ∧
            t.alphaEq t' = true) ↔
          ∃ fuel u u', c.quoteHypCounted fuel (d + 1) l = .ok u ∧
            c'.quoteHypCounted fuel (d + 1) l = .ok u' ∧ u.alphaEq u' = true)) := by
  refine ⟨hc.quote_eq, ⟨?_, ?_⟩, fun hd => ⟨fun fuel t => ?_, ?_, ?_⟩⟩
  · rintro ⟨fuel, t, t', ht, ht', heq⟩
    cases fuel with
    | zero => cases ht
    | succ fuel =>
      obtain ⟨u, hu, h⟩ := (hc.quoteHyp_along (e := e) fuel).exists_left ht
      obtain ⟨u', hu', h'⟩ := (hc'.quoteHyp_along (e := e) fuel).exists_left ht'
      exact ⟨fuel, u, u', hu, hu', (h.alphaEq_eq Var.matching_abstracted h').trans heq⟩
  · rintro ⟨fuel, u, u', hu, hu', heq⟩
    obtain ⟨t, ht, h⟩ := (hc.quoteHyp_along (d := d) fuel).exists_right hu
    obtain ⟨t', ht', h'⟩ := (hc'.quoteHyp_along (d := d) fuel).exists_right hu'
    exact ⟨fuel + 1, t, t', ht, ht', (h.alphaEq_eq Var.matching_abstracted h').symm.trans heq⟩
  · constructor
    · intro ht
      obtain ⟨u, hu, h⟩ := hc.exists_quoteHypCounted ht
      exact ⟨u, hu, h.eq_abstract⟩
    · rintro ⟨u, hu, rfl⟩
      obtain ⟨t, ht, h⟩ := hc.exists_quoteCounted hd hu
      rw [h.eq_abstract]
      exact ht
  · rintro ⟨fuel, t, t', ht, ht', heq⟩
    cases fuel with
    | zero => cases ht
    | succ fuel =>
      obtain ⟨u, hu, h⟩ := hc.exists_quoteHypCounted ht
      obtain ⟨u', hu', h'⟩ := hc'.exists_quoteHypCounted ht'
      exact ⟨fuel, u, u', hu, hu', (h.alphaEq_eq Var.matching_abstracted h').trans heq⟩
  · rintro ⟨fuel, u, u', hu, hu', heq⟩
    obtain ⟨t, ht, h⟩ := hc.exists_quoteCounted hd hu
    obtain ⟨t', ht', h'⟩ := hc'.exists_quoteCounted hd hu'
    exact ⟨fuel + 1, t, t', ht, ht', (h.alphaEq_eq Var.matching_abstracted h').symm.trans heq⟩

/-- The local of an environment, applied to the variable of a binder inside it and to a closed term. -/
def appliedTo (t : Check) : Check :=
  .synth (.app none (.app none (.bound none 1) (.synth (.bound none 0))) t)

/-- Zero, by a recursion that does nothing. -/
def recursionToZero : Check :=
  .synth (.natElim none (.lam none none (.synth (.nat none))) (.synth (.zero none))
    (.lam none none (.lam none none (.synth (.bound none 0)))) (.synth (.zero none)))

theorem namesIn_appliedTo {t : Check} (ht : t.Scoped (OrGlobal (Name.Avoids 1)) 2) :
    Closure.NamesIn (Name.Avoids 1) ⟨⟨[], [.free (.hyp 0)]⟩, appliedTo t⟩ := by
  have havoids : Name.Avoids 1 (.hyp 0) := ⟨trivial, by decide⟩
  exact ⟨⟨trivial, havoids, trivial⟩, 1, trivial, ⟨Nat.lt_succ_self 1, Nat.zero_lt_two⟩, ht⟩

/-- Two functions that are evaluated under the hypothesis at level 0 are equal at the one at level 1. -/
theorem appliedTo_zero_eq_recursion : ∃ c c' : Closure,
    (Check.lam none none (appliedTo (.synth (.zero none)))).eval 1 ⟨[], [.free (.hyp 0)]⟩ =
        .ok (.lam none c) ∧
      (Check.lam none none (appliedTo recursionToZero)).eval 1 ⟨[], [.free (.hyp 0)]⟩ =
        .ok (.lam none c') ∧
      c.NamesIn (Name.Avoids 1) ∧ c'.NamesIn (Name.Avoids 1) ∧
      ∃ fuel u u', c.quoteHyp fuel 0 1 = .ok u ∧ c'.quoteHyp fuel 0 1 = .ok u' ∧
        u.alphaEq u' = true := by
  have hzero := namesIn_appliedTo (t := .synth (.zero none)) trivial
  have hrec := namesIn_appliedTo (t := recursionToZero)
    ⟨trivial, trivial, Nat.zero_lt_succ 3, trivial⟩
  exact ⟨_, _, rfl, rfl, hzero, hrec,
    (Closure.quote_iff_quoteHyp hzero hrec 3 0).2.1.mp ⟨9, _, _, rfl, rfl, rfl⟩⟩

end TypeInType
