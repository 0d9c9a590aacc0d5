import Mathlib.Tactic.Tauto
import TypeInType.Term.FreshName
import TypeInType.Proofs.Term.Erasure

/-!
# Names of the signature in a term
-/

namespace TypeInType

/-- A name that satisfies `G` if it is a name of the signature. -/
def Name.GlobalIn (G : String → Prop) : Name → Prop
  | .global x => G x
  | _ => True

section Globals

variable {P : Name → Prop} {G : String → Prop}

mutual

/-- What is said of the names of the signature is said of the names that occur. -/
theorem Synth.scoped_and_globalIn : ∀ (t : Synth) (k : Nat),
    t.Scoped (fun x => P x ∧ x.GlobalIn G) k ↔ t.Scoped P k ∧ ∀ x ∈ t.globals, G x
  | .ann _ e t, k => by
    simp only [Synth.Scoped, Synth.globals, List.forall_mem_append, e.scoped_and_globalIn,
      t.scoped_and_globalIn]
    tauto
  | .star _, _ => by simp [Synth.Scoped, Synth.globals]
  | .pi _ _ d c, k => by
    simp only [Synth.Scoped, Synth.globals, List.forall_mem_append, d.scoped_and_globalIn,
      c.scoped_and_globalIn]
    tauto
  | .bound _ _, _ => by simp [Synth.Scoped, Synth.globals]
  | .free _ (.global _), _ => by simp [Synth.Scoped, Synth.globals, Name.GlobalIn]
  | .free _ (.hyp _), _ => by simp [Synth.Scoped, Synth.globals, Name.GlobalIn]
  | .free _ (.quote _), _ => by simp [Synth.Scoped, Synth.globals, Name.GlobalIn]
  | .app _ h a, k => by
    simp only [Synth.Scoped, Synth.globals, List.forall_mem_append, h.scoped_and_globalIn,
      a.scoped_and_globalIn]
    tauto
  | .nat _, _ => by simp [Synth.Scoped, Synth.globals]
  | .zero _, _ => by simp [Synth.Scoped, Synth.globals]
  | .succ _ n, k => n.scoped_and_globalIn k
  | .natElim _ m b s n, k => by
    simp only [Synth.Scoped, Synth.globals, List.forall_mem_append, m.scoped_and_globalIn,
      b.scoped_and_globalIn, s.scoped_and_globalIn, n.scoped_and_globalIn]
    tauto
  | .vec _ a n, k => by
    simp only [Synth.Scoped, Synth.globals, List.forall_mem_append, a.scoped_and_globalIn,
      n.scoped_and_globalIn]
    tauto
  | .nil _ a, k => a.scoped_and_globalIn k
  | .cons _ a n x xs, k => by
    simp only [Synth.Scoped, Synth.globals, List.forall_mem_append, a.scoped_and_globalIn,
      n.scoped_and_globalIn, x.scoped_and_globalIn, xs.scoped_and_globalIn]
    tauto
  | .vecElim _ a m b s n xs, k => by
    simp only [Synth.Scoped, Synth.globals, List.forall_mem_append, a.scoped_and_globalIn,
      m.scoped_and_globalIn, b.scoped_and_globalIn, s.scoped_and_globalIn, n.scoped_and_globalIn,
      xs.scoped_and_globalIn]
    tauto

theorem Check.scoped_and_globalIn : ∀ (t : Check) (k : Nat),
    t.Scoped (fun x => P x ∧ x.GlobalIn G) k ↔ t.Scoped P k ∧ ∀ x ∈ t.globals, G x
  | .synth t, k => t.scoped_and_globalIn k
  | .lam _ _ b, k => b.scoped_and_globalIn (k + 1)
  | .ascribe _ t e, k => by
    simp only [Check.Scoped, Check.globals, List.forall_mem_append, t.scoped_and_globalIn,
      e.scoped_and_globalIn]
    tauto
  | .sealed _ e, k => e.scoped_and_globalIn k

end

end Globals

end TypeInType
