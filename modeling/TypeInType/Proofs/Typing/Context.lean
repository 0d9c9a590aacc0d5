import TypeInType.Proofs.Signature
import TypeInType.Proofs.Term.AlphaEq
import TypeInType.Proofs.Term.Declarative
import TypeInType.Proofs.Term.Hypotheses
import TypeInType.Proofs.Value.Safety
import TypeInType.Typing

/-!
# Contexts as core contexts

A context of the checker gives a core context. The operations of the context, evaluation, read-back
and conversion, are steps of the core calculus, and do not fault on what has a type there.
-/

namespace TypeInType

open TypeInType.Core (Reds Conv HasType CtxOk Lookup shift)

/-! ## Scopes -/

/-- A name of the signature that satisfies `G`, or one of the first `n` hypotheses. -/
def Within (G : String → Prop) (n : Nat) : Name → Prop
  | .global x => G x
  | .hyp l => l < n
  | .quote _ => False

theorem Within.bounded (G : String → Prop) (n : Nat) : Bounded (Within G n) n where
  hyp _ h := h
  quote _ h := h.elim

theorem Within.mono {G : String → Prop} {n m : Nat} (h : n ≤ m) :
    ∀ x, Within G n x → Within G m x
  | .global _, hx => hx
  | .hyp _, hx => Nat.lt_of_lt_of_le hx h

theorem Within.isGlobal {G : String → Prop} : ∀ x, Within G 0 x → IsGlobal x
  | .global _, _ => trivial

theorem IsGlobal.orGlobal {P : Name → Prop} : ∀ x, IsGlobal x → OrGlobal P x
  | .global _, _ => trivial

section Scopes

variable {G : String → Prop}

theorem agree_levels (k : Nat) : Agree (Within G 0) (levels k) .atom where
  name
    | .global _, _ => rfl
  undeclared _ := rfl

theorem Value.Scoped.embed_levels {v : Value} (h : v.Scoped (Within G 0)) (k : Nat) :
    v.embed (levels k) = v.embed .atom :=
  Value.embed_congr (agree_levels k) h

theorem Value.closed_embed (v : Value) : (v.embed .atom).Closed := by
  intro σ
  rw [Value.subst_embed]
  rfl

theorem Value.Scoped.embed_succ {v : Value} {n : Nat} (h : v.Scoped (Within G n)) :
    v.embed (levels (n + 1)) = (v.embed (levels n)).shift := by
  rw [Value.embed_congr (Within.bounded G n).agree_succ h, Value.shift_embed]

end Scopes

/-! ## Signatures -/

/-- Every name has the type of its entry, and reduces to the value of its entry. -/
structure Signature.Ok (Θ : Theory) (G : String → Prop) (N : Naming) (sig : Signature) : Prop where
  naming : N.Ok Θ
  undeclared : ∀ {x}, sig.find? x = none → N.term x = .atom (.undeclared x)
  inScope : ∀ e ∈ sig.entries, e.value.Scoped (Within G 0) ∧ e.type.Scoped (Within G 0)
  type : ∀ {x e}, sig.find? x = some e →
    ∃ A, N.type x A ∧ Conv Θ A (e.type.embed .atom) ∧ HasType Θ [] (e.type.embed .atom) .star
  value : ∀ {x e}, sig.find? x = some e → Reds Θ (N.term x) (e.value.embed .atom)

theorem Signature.globalsScopedBy_values {D : Indices} {P : Name → Prop} {sig : Signature}
    (h : ∀ e ∈ sig.entries, e.value.ScopedBy D P) : GlobalsScopedBy D P sig.values := by
  apply globalsScopedBy_iff.mpr
  intro p hp
  obtain ⟨e, he, rfl⟩ := List.mem_map.mp hp
  exact h e he

theorem Signature.Ok.globals {Θ : Theory} {G : String → Prop} {N : Naming} {sig : Signature}
    (h : sig.Ok Θ G N) {n : Nat} : GlobalsScoped (Within G n) sig.values := by
  refine globalsScopedBy_known.mp (Signature.globalsScopedBy_values fun e he => ?_)
  exact Value.scopedBy_known.mpr ((h.inScope e he).1.mono (Within.mono (Nat.zero_le n)))

/-- The names of the signature reduce to their values. -/
theorem Signature.Ok.names_reds {Θ : Theory} {G : String → Prop} {N : Naming} {sig : Signature}
    (h : sig.Ok Θ G N) {ρ : Atom → Core} (hρ : Agree (Within G 0) ρ .atom) (locals : List Value)
    (x : String) : Reds Θ (N.term x) (Env.names ρ ⟨sig.values, locals⟩ (.global x)) := by
  cases hx : sig.find? x with
  | none =>
    have hnone : Env.global? ⟨sig.values, locals⟩ x = none := by
      simp only [Env.global?, Signature.lookup_values, hx, Option.map_none]
    rw [Env.names_undeclared hnone, hρ.undeclared, h.undeclared hx]
  | some e =>
    have hsome : Env.global? ⟨sig.values, locals⟩ x = some e.value := by
      simp only [Env.global?, Signature.lookup_values, hx, Option.map_some]
    have hs := (h.inScope e (List.mem_of_find?_eq_some hx)).1
    rw [Env.names_global hsome, Value.embed_congr hρ hs]
    exact h.value hx

/-! ## Contexts -/

/-- The core types of the hypotheses, each seen from the ones outside it. -/
def coreHyps : List Value → List Core
  | [] => []
  | T :: hyps => T.embed (levels hyps.length) :: coreHyps hyps

@[simp]
theorem length_coreHyps : ∀ hyps : List Value, (coreHyps hyps).length = hyps.length
  | [] => rfl
  | _ :: hyps => congrArg Nat.succ (length_coreHyps hyps)

/-- Every hypothesis is a type. -/
inductive HypsOk (Θ : Theory) (G : String → Prop) : List Value → Prop where
  | nil : HypsOk Θ G []
  | cons {T hyps} : HypsOk Θ G hyps → T.Scoped (Within G hyps.length) →
      HasType Θ (coreHyps hyps) (T.embed (levels hyps.length)) .star → HypsOk Θ G (T :: hyps)

namespace Context

/-- The core context of a context. -/
def core (ctx : Context) : List Core :=
  coreHyps ctx.hyps

/-- The core term of a value in a context. -/
def embed (ctx : Context) (v : Value) : Core :=
  v.embed (levels ctx.depth)

structure Ok (Θ : Theory) (G : String → Prop) (N : Naming) (ctx : Context) : Prop where
  signature : ctx.signature.Ok Θ G N
  hyps : HypsOk Θ G ctx.hyps

/-- The value is in scope and has the type. -/
structure Member (Θ : Theory) (G : String → Prop) (ctx : Context) (v : Value) (A : Core) :
    Prop where
  inScope : v.Scoped (Within G ctx.depth)
  typed : HasType Θ ctx.core (ctx.embed v) A

/-- The value is a value of the core term, and has the type. -/
structure Reaches (Θ : Theory) (G : String → Prop) (ctx : Context) (t A : Core) (v : Value) : Prop
    extends Member Θ G ctx v A where
  reds : Reds Θ t (ctx.embed v)

@[simp]
theorem length_core (ctx : Context) : ctx.core.length = ctx.depth :=
  length_coreHyps ctx.hyps

end Context

section Hypotheses

variable {Θ : Theory} {G : String → Prop}

theorem HypsOk.ctxOk {hyps : List Value} (h : HypsOk Θ G hyps) : CtxOk Θ (coreHyps hyps) := by
  induction h with
  | nil => exact .nil
  | cons _ _ hT ih => exact .cons ih hT

theorem atLevel?_cons_of_lt {α : Type} {a : α} {as : List α} {l : Nat} (h : l < as.length) :
    atLevel? (a :: as) l = atLevel? as l := by
  have hi : as.length + 1 - l - 1 = as.length - l - 1 + 1 := by omega
  simp only [atLevel?, indexOfLevel?, List.length_cons, if_pos h, if_pos (Nat.lt_succ_of_lt h), hi,
    Option.bind_some, List.getElem?_cons_succ]

theorem atLevel?_of_ge {α : Type} {as : List α} {l : Nat} (h : as.length ≤ l) :
    atLevel? as l = none := by
  simp only [atLevel?, indexOfLevel?, if_neg (Nat.not_lt.mpr h), Option.bind_none]

theorem atLevel?_cons {α : Type} (a : α) (as : List α) (l : Nat) :
    atLevel? (a :: as) l = if l = as.length then some a else atLevel? as l := by
  split
  case isTrue h =>
    subst h
    simp [atLevel?, indexOfLevel?]
  case isFalse h =>
    rcases Nat.lt_or_gt_of_ne h with hlt | hgt
    · exact atLevel?_cons_of_lt hlt
    · rw [atLevel?_of_ge hgt, atLevel?_of_ge (Nat.le_of_lt hgt)]

theorem mem_of_atLevel? {α : Type} {a : α} {as : List α} {l : Nat} (h : atLevel? as l = some a) :
    a ∈ as := by
  obtain ⟨_, _, hget⟩ := Option.bind_eq_some_iff.mp h
  exact List.mem_of_getElem? hget

/-- The hypothesis that an index stands for has the type of the variable. -/
theorem HypsOk.lookup {hyps : List Value} (h : HypsOk Θ G hyps) {i : Nat} (hi : i < hyps.length) :
    ∃ T, atLevel? hyps (hyps.length - 1 - i) = some T ∧ T.Scoped (Within G hyps.length) ∧
      Lookup (coreHyps hyps) i (T.embed (levels hyps.length)) := by
  induction h generalizing i with
  | nil => exact absurd hi (Nat.not_lt_zero i)
  | @cons T hyps _ hT _ ih =>
    cases i with
    | zero =>
      refine ⟨T, by simp [atLevel?, indexOfLevel?], hT.mono (Within.mono (Nat.le_succ _)), ?_⟩
      rw [List.length_cons, hT.embed_succ]
      exact .here
    | succ i =>
      have hi : i < hyps.length := Nat.lt_of_succ_lt_succ hi
      obtain ⟨U, hU, hUs, hlook⟩ := ih hi
      have hl : (T :: hyps).length - 1 - (i + 1) = hyps.length - 1 - i := by
        simp only [List.length_cons]
        omega
      refine ⟨U, ?_, hUs.mono (Within.mono (Nat.le_succ _)), ?_⟩
      · rw [hl, atLevel?_cons_of_lt (by omega), hU]
      · rw [List.length_cons, hUs.embed_succ]
        exact .there hlook

end Hypotheses

/-! ## The operations of a context -/

namespace Context

section Operations

variable {Θ : Theory} {G : String → Prop} {N : Naming} {ctx : Context}

theorem Ok.bind (hctx : ctx.Ok Θ G N) {T : Value} (hT : ctx.Member Θ G T .star) :
    (ctx.bind T).Ok Θ G N :=
  ⟨hctx.signature, .cons hctx.hyps hT.inScope hT.typed⟩

theorem Ok.ctxOk (hctx : ctx.Ok Θ G N) : CtxOk Θ ctx.core :=
  hctx.hyps.ctxOk

theorem Ok.lookup (hctx : ctx.Ok Θ G N) {i : Nat} (hi : i < ctx.depth) :
    ∃ T, atLevel? ctx.hyps (ctx.depth - 1 - i) = some T ∧ T.Scoped (Within G ctx.depth) ∧
      Lookup ctx.core i (ctx.embed T) :=
  hctx.hyps.lookup hi

/-- What has a type in the signature has it in every context. -/
theorem Member.of_signature {sig : Signature} {e : Entry} (hsig : sig.Ok Θ G N) {x : String}
    (hx : sig.find? x = some e) (ctx : Context) : ctx.Member Θ G e.type .star := by
  have hs := (hsig.inScope e (List.mem_of_find?_eq_some hx)).2
  obtain ⟨_, _, _, htype⟩ := hsig.type hx
  refine ⟨hs.mono (Within.mono (Nat.zero_le _)), ?_⟩
  rw [embed, hs.embed_levels]
  exact htype.of_nil (Value.closed_embed _) (fun _ => rfl) _

theorem Ok.env (hctx : ctx.Ok Θ G N) {locals : List Value}
    (hl : LocalsScoped (Within G ctx.depth) locals) :
    (ctx.env locals).Scoped (Within G ctx.depth) :=
  ⟨hctx.signature.globals, hl⟩

theorem Reaches.head {s t A : Core} {v : Value} (h : ctx.Reaches Θ G t A v) (hr : Reds Θ s t) :
    ctx.Reaches Θ G s A v :=
  ⟨h.toMember, hr.trans h.reds⟩

variable (hΘ : Θ.Ok) (hctx : ctx.Ok Θ G N)

include hΘ hctx

theorem reaches_of_reds {t A : Core} {v : Value} (hv : v.Scoped (Within G ctx.depth))
    (hr : Reds Θ t (ctx.embed v)) (ht : HasType Θ ctx.core t A) : ctx.Reaches Θ G t A v :=
  ⟨⟨hv, ht.reds hΘ hctx.ctxOk hr⟩, hr⟩

/-- Evaluation with values for the indices. -/
theorem evalIn_spec {fuel : Nat} (locals : List Value) {t : Check} {A : Core}
    (hl : LocalsScoped (Within G ctx.depth) locals)
    (ht : t.Scoped (OrGlobal (Within G ctx.depth)) locals.length)
    (h : HasType Θ ctx.core (t.erase ((ctx.env locals).names (levels ctx.depth))
      ((ctx.env locals).bound (levels ctx.depth))) A) :
    (ctx.evalIn fuel locals t).Ends (fun _ => True)
      (ctx.Reaches Θ G (t.erase ((ctx.env locals).names (levels ctx.depth))
        ((ctx.env locals).bound (levels ctx.depth))) A) := by
  refine (Check.eval_safe hΘ hctx.ctxOk (levels_inert _) h).mono fun v hv _ => ?_
  exact reaches_of_reds hΘ hctx (Check.eval_scoped (hctx.env hl) ht hv) (t.eval_reds Θ _ hv) h

omit hΘ in
/-- A term under hypotheses, as it is met by the checker, is a reduct of the term. -/
theorem core_reds {t : Check} (ht : t.Scoped IsGlobal ctx.depth) :
    Reds Θ (t.core N) ((t.withHyps ctx.depth 0).erase ((ctx.env []).names (levels ctx.depth))
      ((ctx.env []).bound (levels ctx.depth))) := by
  rw [Check.erase_withHyps]
  refine Check.erase_reds ht (fun x hx => ?_) fun i hi => ?_
  · match x, hx with
    | .global x, _ => exact hctx.signature.names_reds (agree_levels ctx.depth) [] x
  · have hl : ctx.depth - 1 - i < ctx.depth := by omega
    have hi' : ctx.depth - (ctx.depth - 1 - i) - 1 = i := by omega
    simp only [hypBound, Nat.not_lt_zero, if_false, Nat.sub_zero, Context.env, Env.names, Name.atom,
      levels, if_pos hl, hi']

theorem eval_spec {fuel : Nat} {t : Check} {A : Core} (ht : t.Scoped IsGlobal ctx.depth)
    (h : HasType Θ ctx.core (t.core N) A) :
    (ctx.eval fuel (t.withHyps ctx.depth 0)).Ends (fun _ => True)
      (ctx.Reaches Θ G (t.core N) A) := by
  have hs : (t.withHyps ctx.depth 0).Scoped (OrGlobal (Within G ctx.depth)) 0 :=
    Check.Scoped.withHyps (fun _ hl => hl)
      (by rw [Nat.zero_add]; exact ht.mono fun _ => IsGlobal.orGlobal _)
  have hr := core_reds hctx ht
  exact (evalIn_spec hΘ hctx [] trivial hs (h.reds hΘ hctx.ctxOk hr)).mono fun v _ hv => hv.head hr

theorem apply_spec {fuel : Nat} {f a : Value} {T : Core}
    (hf : f.Scoped (Within G ctx.depth)) (ha : a.Scoped (Within G ctx.depth))
    (h : HasType Θ ctx.core (.app (ctx.embed f) (ctx.embed a)) T) :
    (f.apply fuel a).Ends (fun _ => True)
      (ctx.Reaches Θ G (.app (ctx.embed f) (ctx.embed a)) T) := by
  refine (Value.apply_safe hΘ hctx.ctxOk (levels_inert _) h).mono fun v hv _ => ?_
  exact reaches_of_reds hΘ hctx (Value.apply_scoped hf ha hv) (Value.apply_reds Θ _ hv) h

theorem closure_apply_spec {fuel : Nat} {c : Closure} {a : Value} {T : Core}
    (hc : c.Scoped (Within G ctx.depth)) (ha : a.Scoped (Within G ctx.depth))
    (h : HasType Θ ctx.core ((c.embed (levels ctx.depth)).inst (ctx.embed a)) T) :
    (c.apply fuel a).Ends (fun _ => True)
      (ctx.Reaches Θ G ((c.embed (levels ctx.depth)).inst (ctx.embed a)) T) := by
  refine (Closure.apply_safe hΘ hctx.ctxOk (levels_inert _) h).mono fun v hv _ => ?_
  exact reaches_of_reds hΘ hctx (Closure.apply_scoped hc ha hv) (Closure.apply_reds Θ _ hv) h

/-- The normal form of a value, as a core term. -/
theorem quote_spec {fuel : Nat} {v : Value} {A : Core} (hv : ctx.Member Θ G v A) :
    (ctx.quote fuel v).Ends (fun _ => True) fun r => Reds Θ (ctx.embed v)
      (r.erase (readNames (levels ctx.depth)) (readBound (levels ctx.depth) ctx.depth)) := by
  have hb : Bounded (Within G ctx.depth) ctx.core.length := by
    rw [length_core]
    exact Within.bounded G _
  have hsafe : (v.quote fuel ctx.core.length).Ends (fun _ => True) fun _ => True :=
    Value.quote_safe hΘ hctx.ctxOk hb hv.inScope (by rw [length_core]; exact hv.typed)
  rw [length_core] at hsafe
  exact hsafe.mono fun r hr _ => Value.quote_reds Θ (fun _ h => h.elim) hv.inScope hr _

theorem convert_spec {fuel : Nat} {span : Span} {T U : Value} {A B : Core}
    (hT : ctx.Member Θ G T A) (hU : ctx.Member Θ G U B) :
    (ctx.convert fuel span T U).Ends (fun _ => True) fun _ =>
      Conv Θ (ctx.embed T) (ctx.embed U) := by
  simp only [Context.convert]
  refine (quote_spec hΘ hctx hT).widen.bind fun r _ hr => ?_
  refine (quote_spec hΘ hctx hU).widen.bind fun s _ hs => ?_
  split
  · rename_i heq
    rw [Check.erase_eq_of_alphaEq heq] at hr
    exact hr.conv.trans hs.conv.symm
  · trivial

end Operations

end Context

end TypeInType
