import TypeInType.Proofs.Term.Erasure
import TypeInType.Scope
import TypeInType.Value

/-!
# Values as core terms

A value gives a core term once its names stand for core terms: a closure is the body of its binder
with the values of its environment put in. So the names of the signature that a closure has captured
are unfolded.
-/

namespace TypeInType

open TypeInType.Core (up shift)

/-- The atom of a name of a value. -/
def Name.atom : Name → Atom
  | .global x => .postulate x
  | .hyp l => .hyp l
  | .quote l => .quote l

/-- A name of the signature, or one that satisfies `P`. -/
def OrGlobal (P : Name → Prop) : Name → Prop
  | .global _ => True
  | x => P x

/-! ## Scopes -/

mutual

/-- Every name that the value is stuck on satisfies `P`, and the bodies of its closures use indices
that their environments account for. -/
def Value.Scoped (P : Name → Prop) : Value → Prop
  | .neutral n => n.Scoped P
  | .star => True
  | .pi _ d c => d.Scoped P ∧ c.Scoped P
  | .lam _ b => b.Scoped P
  | .nat => True
  | .zero => True
  | .succ n => n.Scoped P
  | .vec a n => a.Scoped P ∧ n.Scoped P
  | .nil a => a.Scoped P
  | .cons a n x xs => a.Scoped P ∧ n.Scoped P ∧ x.Scoped P ∧ xs.Scoped P

def Neutral.Scoped (P : Name → Prop) : Neutral → Prop
  | .free x => P x
  | .app n v => n.Scoped P ∧ v.Scoped P
  | .natElim m b s n => m.Scoped P ∧ b.Scoped P ∧ s.Scoped P ∧ n.Scoped P
  | .vecElim a m b s n xs => a.Scoped P ∧ m.Scoped P ∧ b.Scoped P ∧ s.Scoped P ∧ n.Scoped P ∧
      xs.Scoped P

def Env.Scoped (P : Name → Prop) : Env → Prop
  | ⟨globals, locals⟩ => GlobalsScoped P globals ∧ LocalsScoped P locals

def Closure.Scoped (P : Name → Prop) : Closure → Prop
  | ⟨env, body⟩ => env.Scoped P ∧ body.Scoped (OrGlobal P) (env.locals.length + 1)

def GlobalsScoped (P : Name → Prop) : List (String × Value) → Prop
  | [] => True
  | (_, v) :: globals => v.Scoped P ∧ GlobalsScoped P globals

def LocalsScoped (P : Name → Prop) : List Value → Prop
  | [] => True
  | v :: locals => v.Scoped P ∧ LocalsScoped P locals

end

/-- What is asked of the indices that the body of a closure uses. -/
inductive Indices where
  /-- The environment accounts for them. -/
  | known
  | any

/-- An environment of length `n` allows the indices below `k`. -/
def Indices.Allows : Indices → Nat → Nat → Prop
  | .known, n, k => n = k
  | .any, _, _ => True

theorem Indices.Allows.succ {n k : Nat} : ∀ {D : Indices}, D.Allows n k → D.Allows (n + 1) (k + 1)
  | .known, h => congrArg Nat.succ h
  | .any, _ => trivial

mutual

/-- As `Value.Scoped`, with `D` for what is asked of the indices. -/
def Value.ScopedBy (D : Indices) (P : Name → Prop) : Value → Prop
  | .neutral n => n.ScopedBy D P
  | .star => True
  | .pi _ d c => d.ScopedBy D P ∧ c.ScopedBy D P
  | .lam _ b => b.ScopedBy D P
  | .nat => True
  | .zero => True
  | .succ n => n.ScopedBy D P
  | .vec a n => a.ScopedBy D P ∧ n.ScopedBy D P
  | .nil a => a.ScopedBy D P
  | .cons a n x xs => a.ScopedBy D P ∧ n.ScopedBy D P ∧ x.ScopedBy D P ∧ xs.ScopedBy D P

def Neutral.ScopedBy (D : Indices) (P : Name → Prop) : Neutral → Prop
  | .free x => P x
  | .app n v => n.ScopedBy D P ∧ v.ScopedBy D P
  | .natElim m b s n => m.ScopedBy D P ∧ b.ScopedBy D P ∧ s.ScopedBy D P ∧ n.ScopedBy D P
  | .vecElim a m b s n xs => a.ScopedBy D P ∧ m.ScopedBy D P ∧ b.ScopedBy D P ∧
      s.ScopedBy D P ∧ n.ScopedBy D P ∧ xs.ScopedBy D P

def Env.ScopedBy (D : Indices) (P : Name → Prop) : Env → Prop
  | ⟨globals, locals⟩ => GlobalsScopedBy D P globals ∧ LocalsScopedBy D P locals

def Closure.ScopedBy (D : Indices) (P : Name → Prop) : Closure → Prop
  | ⟨env, body⟩ => env.ScopedBy D P ∧
      ∃ k, D.Allows env.locals.length k ∧ body.Scoped (OrGlobal P) (k + 1)

def GlobalsScopedBy (D : Indices) (P : Name → Prop) : List (String × Value) → Prop
  | [] => True
  | (_, v) :: globals => v.ScopedBy D P ∧ GlobalsScopedBy D P globals

def LocalsScopedBy (D : Indices) (P : Name → Prop) : List Value → Prop
  | [] => True
  | v :: locals => v.ScopedBy D P ∧ LocalsScopedBy D P locals

end

/-- Every name of the value satisfies `P`, whatever the indices in its closures. -/
def Value.NamesIn (P : Name → Prop) (v : Value) : Prop :=
  v.ScopedBy .any P

theorem OrGlobal.mono {P Q : Name → Prop} (h : ∀ x, P x → Q x) : ∀ x, OrGlobal P x → OrGlobal Q x
  | .global _, _ => trivial
  | .hyp l, hx => h (.hyp l) hx
  | .quote l, hx => h (.quote l) hx

theorem OrGlobal.of_self {P : Name → Prop} : ∀ x, P x → OrGlobal P x
  | .global _, _ => trivial
  | .hyp _, h => h
  | .quote _, h => h

section Scope

variable {D E : Indices} {P Q : Name → Prop}

mutual

theorem Value.ScopedBy.mono (hDE : ∀ n k, D.Allows n k → E.Allows n k) (hPQ : ∀ x, P x → Q x) :
    ∀ {v : Value}, v.ScopedBy D P → v.ScopedBy E Q
  | .neutral n, h => Neutral.ScopedBy.mono (n := n) hDE hPQ h
  | .star, _ => trivial
  | .pi _ _ _, h => ⟨h.1.mono hDE hPQ, h.2.mono hDE hPQ⟩
  | .lam _ b, h => Closure.ScopedBy.mono (c := b) hDE hPQ h
  | .nat, _ => trivial
  | .zero, _ => trivial
  | .succ n, h => Value.ScopedBy.mono (v := n) hDE hPQ h
  | .vec _ _, h => ⟨h.1.mono hDE hPQ, h.2.mono hDE hPQ⟩
  | .nil a, h => Value.ScopedBy.mono (v := a) hDE hPQ h
  | .cons _ _ _ _, h =>
    ⟨h.1.mono hDE hPQ, h.2.1.mono hDE hPQ, h.2.2.1.mono hDE hPQ, h.2.2.2.mono hDE hPQ⟩

theorem Neutral.ScopedBy.mono (hDE : ∀ n k, D.Allows n k → E.Allows n k) (hPQ : ∀ x, P x → Q x) :
    ∀ {n : Neutral}, n.ScopedBy D P → n.ScopedBy E Q
  | .free x, h => hPQ x h
  | .app _ _, h => ⟨h.1.mono hDE hPQ, h.2.mono hDE hPQ⟩
  | .natElim _ _ _ _, h =>
    ⟨h.1.mono hDE hPQ, h.2.1.mono hDE hPQ, h.2.2.1.mono hDE hPQ, h.2.2.2.mono hDE hPQ⟩
  | .vecElim _ _ _ _ _ _, h =>
    ⟨h.1.mono hDE hPQ, h.2.1.mono hDE hPQ, h.2.2.1.mono hDE hPQ, h.2.2.2.1.mono hDE hPQ,
      h.2.2.2.2.1.mono hDE hPQ, h.2.2.2.2.2.mono hDE hPQ⟩

theorem Env.ScopedBy.mono (hDE : ∀ n k, D.Allows n k → E.Allows n k) (hPQ : ∀ x, P x → Q x) :
    ∀ {env : Env}, env.ScopedBy D P → env.ScopedBy E Q
  | ⟨_, _⟩, h => ⟨GlobalsScopedBy.mono hDE hPQ h.1, LocalsScopedBy.mono hDE hPQ h.2⟩

theorem Closure.ScopedBy.mono (hDE : ∀ n k, D.Allows n k → E.Allows n k) (hPQ : ∀ x, P x → Q x) :
    ∀ {c : Closure}, c.ScopedBy D P → c.ScopedBy E Q
  | ⟨_, _⟩, ⟨henv, k, hk, hbody⟩ =>
    ⟨henv.mono hDE hPQ, k, hDE _ k hk, hbody.mono (OrGlobal.mono hPQ)⟩

theorem GlobalsScopedBy.mono (hDE : ∀ n k, D.Allows n k → E.Allows n k) (hPQ : ∀ x, P x → Q x) :
    ∀ {globals : List (String × Value)}, GlobalsScopedBy D P globals → GlobalsScopedBy E Q globals
  | [], _ => trivial
  | (_, _) :: _, h => ⟨Value.ScopedBy.mono hDE hPQ h.1, GlobalsScopedBy.mono hDE hPQ h.2⟩

theorem LocalsScopedBy.mono (hDE : ∀ n k, D.Allows n k → E.Allows n k) (hPQ : ∀ x, P x → Q x) :
    ∀ {locals : List Value}, LocalsScopedBy D P locals → LocalsScopedBy E Q locals
  | [], _ => trivial
  | _ :: _, h => ⟨Value.ScopedBy.mono hDE hPQ h.1, LocalsScopedBy.mono hDE hPQ h.2⟩

end

mutual

theorem Value.scopedBy_known : ∀ {v : Value}, v.ScopedBy .known P ↔ v.Scoped P
  | .neutral n => Neutral.scopedBy_known (n := n)
  | .star => .rfl
  | .pi _ _ _ => and_congr Value.scopedBy_known Closure.scopedBy_known
  | .lam _ b => Closure.scopedBy_known (c := b)
  | .nat => .rfl
  | .zero => .rfl
  | .succ n => Value.scopedBy_known (v := n)
  | .vec _ _ => and_congr Value.scopedBy_known Value.scopedBy_known
  | .nil a => Value.scopedBy_known (v := a)
  | .cons _ _ _ _ => and_congr Value.scopedBy_known
      (and_congr Value.scopedBy_known (and_congr Value.scopedBy_known Value.scopedBy_known))

theorem Neutral.scopedBy_known : ∀ {n : Neutral}, n.ScopedBy .known P ↔ n.Scoped P
  | .free _ => .rfl
  | .app _ _ => and_congr Neutral.scopedBy_known Value.scopedBy_known
  | .natElim _ _ _ _ => and_congr Value.scopedBy_known
      (and_congr Value.scopedBy_known (and_congr Value.scopedBy_known Neutral.scopedBy_known))
  | .vecElim _ _ _ _ _ _ => and_congr Value.scopedBy_known (and_congr Value.scopedBy_known
      (and_congr Value.scopedBy_known (and_congr Value.scopedBy_known
        (and_congr Value.scopedBy_known Neutral.scopedBy_known))))

theorem Env.scopedBy_known : ∀ {env : Env}, env.ScopedBy .known P ↔ env.Scoped P
  | ⟨_, _⟩ => and_congr globalsScopedBy_known localsScopedBy_known

theorem Closure.scopedBy_known : ∀ {c : Closure}, c.ScopedBy .known P ↔ c.Scoped P
  | ⟨env, _⟩ => by
    apply and_congr (@Env.scopedBy_known env)
    constructor
    · rintro ⟨k, rfl, hbody⟩
      exact hbody
    · intro hbody
      exact ⟨_, rfl, hbody⟩

theorem globalsScopedBy_known :
    ∀ {globals : List (String × Value)}, GlobalsScopedBy .known P globals ↔ GlobalsScoped P globals
  | [] => .rfl
  | (_, _) :: _ => and_congr Value.scopedBy_known globalsScopedBy_known

theorem localsScopedBy_known {locals : List Value} :
    LocalsScopedBy .known P locals ↔ LocalsScoped P locals := by
  cases locals with
  | nil => exact .rfl
  | cons v locals => exact and_congr Value.scopedBy_known localsScopedBy_known

end

theorem Value.Scoped.mono (hPQ : ∀ x, P x → Q x) {v : Value} (h : v.Scoped P) : v.Scoped Q :=
  scopedBy_known.mp ((scopedBy_known.mpr h).mono (fun _ _ hk => hk) hPQ)

theorem Closure.Scoped.mono (hPQ : ∀ x, P x → Q x) {c : Closure} (h : c.Scoped P) : c.Scoped Q :=
  scopedBy_known.mp ((scopedBy_known.mpr h).mono (fun _ _ hk => hk) hPQ)

theorem GlobalsScoped.mono (hPQ : ∀ x, P x → Q x) {globals : List (String × Value)}
    (h : GlobalsScoped P globals) : GlobalsScoped Q globals :=
  globalsScopedBy_known.mp ((globalsScopedBy_known.mpr h).mono (fun _ _ hk => hk) hPQ)

theorem Value.Scoped.namesIn {v : Value} (h : v.Scoped P) : v.NamesIn P :=
  (scopedBy_known.mpr h).mono (E := .any) (fun _ _ _ => trivial) fun _ hx => hx

theorem Value.scoped_free {x : Name} (h : P x) : (Value.free x).Scoped P := h

theorem Value.scopedBy_free {x : Name} (h : P x) : (Value.free x).ScopedBy D P := h

theorem globalsScopedBy_iff : ∀ {globals : List (String × Value)},
    GlobalsScopedBy D P globals ↔ ∀ p ∈ globals, p.2.ScopedBy D P
  | [] => iff_of_true trivial fun _ hp => nomatch hp
  | (_, _) :: _ => by
    simp only [List.mem_cons, forall_eq_or_imp]
    exact and_congr_right fun _ => globalsScopedBy_iff

theorem localsScopedBy_iff : ∀ {locals : List Value},
    LocalsScopedBy D P locals ↔ ∀ v ∈ locals, v.ScopedBy D P
  | [] => iff_of_true trivial fun _ hv => nomatch hv
  | _ :: _ => by
    simp only [List.mem_cons, forall_eq_or_imp]
    exact and_congr_right fun _ => localsScopedBy_iff

theorem GlobalsScopedBy.lookup {x : String} {v : Value} :
    ∀ {globals : List (String × Value)}, GlobalsScopedBy D P globals → globals.lookup x = some v →
      v.ScopedBy D P
  | (y, w) :: globals, h, hx => by
    simp only [List.lookup_cons] at hx
    split at hx
    · cases hx; exact h.1
    · exact GlobalsScopedBy.lookup h.2 hx

theorem LocalsScopedBy.get {v : Value} : ∀ {locals : List Value} {i : Nat},
    LocalsScopedBy D P locals → locals[i]? = some v → v.ScopedBy D P
  | w :: locals, 0, h, hi => by simp at hi; subst hi; exact h.1
  | w :: locals, i + 1, h, hi => LocalsScopedBy.get h.2 (by simpa using hi)

theorem Env.ScopedBy.global {x : String} {v : Value} :
    ∀ {env : Env}, env.ScopedBy D P → env.global? x = some v → v.ScopedBy D P
  | ⟨_, _⟩, h, hx => GlobalsScopedBy.lookup h.1 hx

theorem Env.ScopedBy.get {i : Nat} {v : Value} :
    ∀ {env : Env}, env.ScopedBy D P → env.locals[i]? = some v → v.ScopedBy D P
  | ⟨_, _⟩, h, hi => LocalsScopedBy.get h.2 hi

theorem Env.ScopedBy.push {v : Value} : ∀ {env : Env}, env.ScopedBy D P → v.ScopedBy D P →
    (env.push v).ScopedBy D P
  | ⟨_, _⟩, h, hv => ⟨h.1, hv, h.2⟩

end Scope

/-! ## Embedding -/

mutual

/-- The core term of a value, with core terms for the atoms. -/
def Value.embed (ρ : Atom → Core) : Value → Core
  | .neutral n => n.embed ρ
  | .star => .star
  | .pi _ d c => .pi (d.embed ρ) (c.embed ρ)
  | .lam _ b => .lam (b.embed ρ)
  | .nat => .nat
  | .zero => .zero
  | .succ n => .succ (n.embed ρ)
  | .vec a n => .vec (a.embed ρ) (n.embed ρ)
  | .nil a => .nil (a.embed ρ)
  | .cons a n x xs => .cons (a.embed ρ) (n.embed ρ) (x.embed ρ) (xs.embed ρ)

def Neutral.embed (ρ : Atom → Core) : Neutral → Core
  | .free x => ρ x.atom
  | .app n v => .app (n.embed ρ) (v.embed ρ)
  | .natElim m b s n => .natElim (m.embed ρ) (b.embed ρ) (s.embed ρ) (n.embed ρ)
  | .vecElim a m b s n xs => .vecElim (a.embed ρ) (m.embed ρ) (b.embed ρ) (s.embed ρ) (n.embed ρ)
      (xs.embed ρ)

/-- What the names of a term stand for in an environment. -/
def Env.names (ρ : Atom → Core) : Env → Name → Core
  | ⟨globals, _⟩, .global x => embedGlobals ρ globals x
  | _, x => ρ x.atom

/-- What the indices of a term stand for in an environment. -/
def Env.bound (ρ : Atom → Core) : Env → Nat → Core
  | ⟨_, locals⟩, i => embedLocals ρ locals i

/-- The body of the closure, as the body of a binder. -/
def Closure.embed (ρ : Atom → Core) : Closure → Core
  | ⟨env, body⟩ => body.erase (shift ∘ env.names ρ) (up (env.bound ρ))

def embedGlobals (ρ : Atom → Core) : List (String × Value) → String → Core
  | [], x => ρ (.undeclared x)
  | (y, v) :: globals, x => if x == y then v.embed ρ else embedGlobals ρ globals x

def embedLocals (ρ : Atom → Core) : List Value → Nat → Core
  | [], i => ρ (.stray i)
  | v :: _, 0 => v.embed ρ
  | _ :: locals, i + 1 => embedLocals ρ locals i

end

theorem embedGlobals_some {ρ : Atom → Core} {x : String} {v : Value} :
    ∀ {globals : List (String × Value)}, globals.lookup x = some v →
      embedGlobals ρ globals x = v.embed ρ
  | (y, w) :: globals, h => by
    simp only [List.lookup_cons] at h
    simp only [embedGlobals]
    split at h <;> rename_i hxy
    · cases h; rw [if_pos hxy]
    · rw [if_neg (by simp [hxy])]; exact embedGlobals_some h

theorem embedGlobals_none {ρ : Atom → Core} {x : String} :
    ∀ {globals : List (String × Value)}, globals.lookup x = none →
      embedGlobals ρ globals x = ρ (.undeclared x)
  | [], _ => by simp only [embedGlobals]
  | (y, w) :: globals, h => by
    simp only [List.lookup_cons] at h
    simp only [embedGlobals]
    split at h <;> rename_i hxy
    · cases h
    · rw [if_neg (by simp [hxy])]; exact embedGlobals_none h

theorem embedLocals_some {ρ : Atom → Core} {v : Value} :
    ∀ {locals : List Value} {i : Nat}, locals[i]? = some v → embedLocals ρ locals i = v.embed ρ
  | w :: locals, 0, h => by simp at h; subst h; simp only [embedLocals]
  | w :: locals, i + 1, h => by simp only [embedLocals]; exact embedLocals_some (by simpa using h)

theorem embedLocals_none {ρ : Atom → Core} :
    ∀ {locals : List Value} {i : Nat}, locals[i]? = none →
      ∃ j, embedLocals ρ locals i = ρ (.stray j)
  | [], i, _ => ⟨i, by simp only [embedLocals]⟩
  | w :: locals, i + 1, h => by simp only [embedLocals]; exact embedLocals_none (by simpa using h)

theorem Env.names_global {ρ : Atom → Core} {x : String} {v : Value} :
    ∀ {env : Env}, env.global? x = some v → env.names ρ (.global x) = v.embed ρ
  | ⟨_, _⟩, h => by simp only [Env.names]; exact embedGlobals_some h

theorem Env.names_undeclared {ρ : Atom → Core} {x : String} :
    ∀ {env : Env}, env.global? x = none → env.names ρ (.global x) = ρ (.undeclared x)
  | ⟨_, _⟩, h => by simp only [Env.names]; exact embedGlobals_none h

theorem Env.bound_local {ρ : Atom → Core} {i : Nat} {v : Value} :
    ∀ {env : Env}, env.locals[i]? = some v → env.bound ρ i = v.embed ρ
  | ⟨_, _⟩, h => by simp only [Env.bound]; exact embedLocals_some h

theorem Env.bound_stray {ρ : Atom → Core} {i : Nat} :
    ∀ {env : Env}, env.locals[i]? = none → ∃ j, env.bound ρ i = ρ (.stray j)
  | ⟨_, _⟩, h => by simp only [Env.bound]; exact embedLocals_none h

theorem Env.bound_push (ρ : Atom → Core) (env : Env) (v : Value) :
    (env.push v).bound ρ = Core.push (v.embed ρ) (env.bound ρ) := by
  funext i
  cases env
  cases i with
  | zero => simp only [Env.push, Env.bound, embedLocals, Core.push]
  | succ i => simp only [Env.push, Env.bound, embedLocals, Core.push]

theorem Env.names_push (ρ : Atom → Core) (env : Env) (v : Value) :
    (env.push v).names ρ = env.names ρ := by
  funext x
  cases env
  cases x <;> simp only [Env.push, Env.names]

/-- To put the value of the bound variable in is to evaluate the body with that value pushed. -/
theorem Closure.inst_embed (ρ : Atom → Core) (c : Closure) (v : Value) :
    (c.embed ρ).inst (v.embed ρ) =
      c.body.erase ((c.env.push v).names ρ) ((c.env.push v).bound ρ) := by
  cases c
  rw [Env.bound_push, Env.names_push, Closure.embed, Check.inst_erase]

/-! ## Substitution in the core terms of the atoms -/

mutual

theorem Value.subst_embed (ρ : Atom → Core) (τ : Nat → Core) :
    ∀ v : Value, (v.embed ρ).subst τ = v.embed (Core.subst τ ∘ ρ)
  | .neutral n => by simp only [Value.embed, Neutral.subst_embed ρ τ n]
  | .star => by simp only [Value.embed, Core.subst]
  | .pi _ d c => by
    simp only [Value.embed, Core.subst, Value.subst_embed ρ τ d, Closure.subst_embed ρ τ c]
  | .lam _ b => by simp only [Value.embed, Core.subst, Closure.subst_embed ρ τ b]
  | .nat => by simp only [Value.embed, Core.subst]
  | .zero => by simp only [Value.embed, Core.subst]
  | .succ n => by simp only [Value.embed, Core.subst, Value.subst_embed ρ τ n]
  | .vec a n => by
    simp only [Value.embed, Core.subst, Value.subst_embed ρ τ a, Value.subst_embed ρ τ n]
  | .nil a => by simp only [Value.embed, Core.subst, Value.subst_embed ρ τ a]
  | .cons a n x xs => by
    simp only [Value.embed, Core.subst, Value.subst_embed ρ τ a, Value.subst_embed ρ τ n,
      Value.subst_embed ρ τ x, Value.subst_embed ρ τ xs]

theorem Neutral.subst_embed (ρ : Atom → Core) (τ : Nat → Core) :
    ∀ n : Neutral, (n.embed ρ).subst τ = n.embed (Core.subst τ ∘ ρ)
  | .free _ => by simp only [Neutral.embed, Function.comp]
  | .app n v => by
    simp only [Neutral.embed, Core.subst, Neutral.subst_embed ρ τ n, Value.subst_embed ρ τ v]
  | .natElim m b s n => by
    simp only [Neutral.embed, Core.subst, Value.subst_embed ρ τ m, Value.subst_embed ρ τ b,
      Value.subst_embed ρ τ s, Neutral.subst_embed ρ τ n]
  | .vecElim a m b s n xs => by
    simp only [Neutral.embed, Core.subst, Value.subst_embed ρ τ a, Value.subst_embed ρ τ m,
      Value.subst_embed ρ τ b, Value.subst_embed ρ τ s, Value.subst_embed ρ τ n,
      Neutral.subst_embed ρ τ xs]

theorem Env.subst_names (ρ : Atom → Core) (τ : Nat → Core) :
    ∀ env : Env, Core.subst τ ∘ env.names ρ = env.names (Core.subst τ ∘ ρ)
  | ⟨globals, _⟩ => by
    funext x
    cases x with
    | global x =>
      simp only [Function.comp, Env.names]
      exact subst_embedGlobals ρ τ globals x
    | hyp _ => simp only [Function.comp, Env.names]
    | quote _ => simp only [Function.comp, Env.names]

theorem Env.subst_bound (ρ : Atom → Core) (τ : Nat → Core) :
    ∀ env : Env, Core.subst τ ∘ env.bound ρ = env.bound (Core.subst τ ∘ ρ)
  | ⟨_, locals⟩ => by
    funext i
    simp only [Function.comp, Env.bound]
    exact subst_embedLocals ρ τ locals i

theorem Closure.subst_embed (ρ : Atom → Core) (τ : Nat → Core) :
    ∀ c : Closure, (c.embed ρ).subst (up τ) = c.embed (Core.subst τ ∘ ρ)
  | ⟨env, body⟩ => by
    simp only [Closure.embed, Check.subst_erase, subst_up_comp_shift, Core.subst_comp_up,
      Env.subst_names ρ τ env, Env.subst_bound ρ τ env]

theorem subst_embedGlobals (ρ : Atom → Core) (τ : Nat → Core) :
    ∀ (globals : List (String × Value)) (x : String),
      (embedGlobals ρ globals x).subst τ = embedGlobals (Core.subst τ ∘ ρ) globals x
  | [], _ => by simp only [embedGlobals, Function.comp]
  | (y, v) :: globals, x => by
    simp only [embedGlobals]
    split
    · exact Value.subst_embed ρ τ v
    · exact subst_embedGlobals ρ τ globals x

theorem subst_embedLocals (ρ : Atom → Core) (τ : Nat → Core) :
    ∀ (locals : List Value) (i : Nat),
      (embedLocals ρ locals i).subst τ = embedLocals (Core.subst τ ∘ ρ) locals i
  | [], _ => by simp only [embedLocals, Function.comp]
  | v :: _, 0 => by simp only [embedLocals, Value.subst_embed ρ τ v]
  | _ :: locals, i + 1 => by simp only [embedLocals, subst_embedLocals ρ τ locals i]

end

theorem shift_comp_eq (ρ : Atom → Core) : shift ∘ ρ = Core.subst (Core.var ∘ Nat.succ) ∘ ρ := by
  funext a
  exact Core.rename_eq_subst (ρ a) Nat.succ

theorem Value.shift_embed (ρ : Atom → Core) (v : Value) :
    (v.embed ρ).shift = v.embed (shift ∘ ρ) := by
  rw [shift, Core.rename_eq_subst, Value.subst_embed, shift_comp_eq]

/-- A closure applied to the variable of its own binder is the body of that binder. -/
theorem Closure.inst_embed_shift (ρ : Atom → Core) (c : Closure) :
    (c.embed (shift ∘ ρ)).inst (.var 0) = c.embed ρ := by
  rw [shift_comp_eq, ← Closure.subst_embed, Core.inst_var_zero]

/-! ## The atoms that matter -/

/-- The core terms of the atoms agree where a value in scope can tell. -/
structure Agree (P : Name → Prop) (ρ ρ' : Atom → Core) : Prop where
  name : ∀ x, P x → ρ x.atom = ρ' x.atom
  undeclared : ∀ x, ρ (.undeclared x) = ρ' (.undeclared x)

/-- As `Agree`, also for the indices that go astray if any may be used. -/
structure AgreeBy (D : Indices) (P : Name → Prop) (ρ ρ' : Atom → Core) : Prop
    extends Agree P ρ ρ' where
  stray : D = .any → ∀ i, ρ (.stray i) = ρ' (.stray i)

section Agreement

variable {D : Indices} {P : Name → Prop} {ρ ρ' : Atom → Core}

mutual

theorem Value.ScopedBy.embed_congr (hρ : AgreeBy D P ρ ρ') :
    ∀ {v : Value}, v.ScopedBy D P → v.embed ρ = v.embed ρ'
  | .neutral n, h => by simp only [Value.embed, Neutral.ScopedBy.embed_congr hρ (n := n) h]
  | .star, _ => by simp only [Value.embed]
  | .pi _ _ _, h => by simp only [Value.embed, h.1.embed_congr hρ, h.2.embed_congr hρ]
  | .lam _ b, h => by simp only [Value.embed, Closure.ScopedBy.embed_congr hρ (c := b) h]
  | .nat, _ => by simp only [Value.embed]
  | .zero, _ => by simp only [Value.embed]
  | .succ n, h => by simp only [Value.embed, Value.ScopedBy.embed_congr hρ (v := n) h]
  | .vec _ _, h => by simp only [Value.embed, h.1.embed_congr hρ, h.2.embed_congr hρ]
  | .nil a, h => by simp only [Value.embed, Value.ScopedBy.embed_congr hρ (v := a) h]
  | .cons _ _ _ _, h => by
    simp only [Value.embed, h.1.embed_congr hρ, h.2.1.embed_congr hρ,
      h.2.2.1.embed_congr hρ, h.2.2.2.embed_congr hρ]

theorem Neutral.ScopedBy.embed_congr (hρ : AgreeBy D P ρ ρ') :
    ∀ {n : Neutral}, n.ScopedBy D P → n.embed ρ = n.embed ρ'
  | .free x, h => by simp only [Neutral.embed]; exact hρ.name x h
  | .app _ _, h => by simp only [Neutral.embed, h.1.embed_congr hρ, h.2.embed_congr hρ]
  | .natElim _ _ _ _, h => by
    simp only [Neutral.embed, h.1.embed_congr hρ, h.2.1.embed_congr hρ,
      h.2.2.1.embed_congr hρ, h.2.2.2.embed_congr hρ]
  | .vecElim _ _ _ _ _ _, h => by
    simp only [Neutral.embed, h.1.embed_congr hρ, h.2.1.embed_congr hρ,
      h.2.2.1.embed_congr hρ, h.2.2.2.1.embed_congr hρ, h.2.2.2.2.1.embed_congr hρ,
      h.2.2.2.2.2.embed_congr hρ]

theorem Env.ScopedBy.names_congr (hρ : AgreeBy D P ρ ρ') :
    ∀ {env : Env}, env.ScopedBy D P → ∀ x, OrGlobal P x → env.names ρ x = env.names ρ' x
  | ⟨_, _⟩, h, .global x, _ => by simp only [Env.names]; exact embedGlobals_congr hρ h.1 x
  | ⟨_, _⟩, _, .hyp l, hx => by simp only [Env.names]; exact hρ.name (.hyp l) hx
  | ⟨_, _⟩, _, .quote l, hx => by simp only [Env.names]; exact hρ.name (.quote l) hx

theorem Env.ScopedBy.bound_congr (hρ : AgreeBy D P ρ ρ') :
    ∀ {env : Env} {k : Nat}, env.ScopedBy D P → D.Allows env.locals.length k → ∀ i, i < k →
      env.bound ρ i = env.bound ρ' i
  | ⟨_, _⟩, k, h, hk, i, hi => by
    simp only [Env.bound]
    apply embedLocals_congr hρ h.2
    intro hD
    subst hD
    exact Nat.lt_of_lt_of_eq hi hk.symm

theorem Closure.ScopedBy.embed_congr (hρ : AgreeBy D P ρ ρ') :
    ∀ {c : Closure}, c.ScopedBy D P → c.embed ρ = c.embed ρ'
  | ⟨_, _⟩, ⟨henv, k, hk, hbody⟩ => by
    simp only [Closure.embed]
    exact Check.erase_congr hbody (shift_congr (henv.names_congr hρ))
      (up_congr (henv.bound_congr hρ hk))

theorem embedGlobals_congr (hρ : AgreeBy D P ρ ρ') :
    ∀ {globals : List (String × Value)}, GlobalsScopedBy D P globals → ∀ x,
      embedGlobals ρ globals x = embedGlobals ρ' globals x
  | [], _, x => by simp only [embedGlobals]; exact hρ.undeclared x
  | (y, _) :: _, h, x => by
    simp only [embedGlobals, Value.ScopedBy.embed_congr hρ h.1, embedGlobals_congr hρ h.2 x]

theorem embedLocals_congr (hρ : AgreeBy D P ρ ρ') :
    ∀ {locals : List Value}, LocalsScopedBy D P locals → ∀ i,
      (D = .known → i < locals.length) → embedLocals ρ locals i = embedLocals ρ' locals i
  | [], _, i, hi => by
    simp only [embedLocals]
    cases D with
    | known => cases hi rfl
    | any => exact hρ.stray rfl i
  | _ :: _, h, 0, _ => by simp only [embedLocals]; exact Value.ScopedBy.embed_congr hρ h.1
  | _ :: _, h, i + 1, hi => by
    simp only [embedLocals]
    exact embedLocals_congr hρ h.2 i fun hD => Nat.lt_of_succ_lt_succ (hi hD)

end

theorem Value.embed_congr (hρ : Agree P ρ ρ') {v : Value} (h : v.Scoped P) :
    v.embed ρ = v.embed ρ' :=
  (scopedBy_known.mpr h).embed_congr ⟨hρ, fun hD => by cases hD⟩

theorem Closure.embed_congr (hρ : Agree P ρ ρ') {c : Closure} (h : c.Scoped P) :
    c.embed ρ = c.embed ρ' :=
  (scopedBy_known.mpr h).embed_congr ⟨hρ, fun hD => by cases hD⟩

end Agreement

end TypeInType
