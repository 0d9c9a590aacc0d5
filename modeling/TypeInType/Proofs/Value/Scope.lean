import TypeInType.Proofs.Typing.Convertibility

/-!
# Scope safety without types

A term that has no type may fault when it is evaluated, but not at a variable that stands for nothing: a
closure keeps the values of all variables that its body uses, and read-back meets variables of binders
that it has passed only. So the normal form of a term mentions what the term and the environment mention.
-/

namespace TypeInType

/-- The fault is not that of a variable that stands for nothing. -/
def Fault.InScope (f : Fault) : Prop :=
  f ≠ .unboundVariable ∧ f ≠ .unboundQuote

/-! ## Evaluation -/

section Evaluation

variable {P : Name → Prop}

mutual

theorem Synth.eval_faultsIn : ∀ (fuel : Nat) {env : Env} {t : Synth}, env.ScopedBy .known P →
    t.Scoped (OrGlobal P) env.locals.length → (t.eval fuel env).FaultsIn Fault.InScope
  | 0, _, _, _, _ => trivial
  | fuel + 1, env, .ann _ e _, henv, ht => by
    simp only [Synth.eval]
    exact Check.eval_faultsIn fuel henv ht.1
  | fuel + 1, env, .star _, _, _ => trivial
  | fuel + 1, env, .pi _ _ d _, henv, ht => by
    simp only [Synth.eval]
    apply (Check.eval_faultsIn fuel henv ht.1).bind
    intro _ _
    trivial
  | fuel + 1, env, .bound _ i, _, ht => by
    have hi : i < env.locals.length := ht
    simp only [Synth.eval, List.getElem?_eq_getElem hi]
    trivial
  | fuel + 1, env, .free _ (.global x), _, _ => by
    simp only [Synth.eval]
    split
    · trivial
    · exact ⟨by simp, by simp⟩
  | fuel + 1, env, .free _ (.hyp _), _, _ => trivial
  | fuel + 1, env, .free _ (.quote _), _, _ => trivial
  | fuel + 1, env, .app _ h a, henv, ht => by
    simp only [Synth.eval]
    apply (Synth.eval_faultsIn fuel henv ht.1).bind
    intro f hf
    apply (Check.eval_faultsIn fuel henv ht.2).bind
    intro v hv
    exact Value.apply_faultsIn fuel (Synth.eval_scopedBy henv rfl ht.1 hf)
      (Check.eval_scopedBy henv rfl ht.2 hv)
  | fuel + 1, env, .nat _, _, _ => trivial
  | fuel + 1, env, .zero _, _, _ => trivial
  | fuel + 1, env, .succ _ n, henv, ht => by
    simp only [Synth.eval]
    apply (Check.eval_faultsIn (t := n) fuel henv ht).bind
    intro _ _
    trivial
  | fuel + 1, env, .natElim _ m b s n, henv, ht => by
    obtain ⟨htm, htb, hts, htn⟩ := ht
    simp only [Synth.eval]
    apply (Check.eval_faultsIn fuel henv htm).bind
    intro m hm
    apply (Check.eval_faultsIn fuel henv htb).bind
    intro b hb
    apply (Check.eval_faultsIn fuel henv hts).bind
    intro s hs
    apply (Check.eval_faultsIn fuel henv htn).bind
    intro n hn
    exact Value.natElim_faultsIn fuel (Check.eval_scopedBy henv rfl htn hn)
      (Check.eval_scopedBy henv rfl htm hm) (Check.eval_scopedBy henv rfl htb hb)
      (Check.eval_scopedBy henv rfl hts hs)
  | fuel + 1, env, .vec _ a n, henv, ht => by
    simp only [Synth.eval]
    apply (Check.eval_faultsIn fuel henv ht.1).bind
    intro _ _
    apply (Check.eval_faultsIn fuel henv ht.2).bind
    intro _ _
    trivial
  | fuel + 1, env, .nil _ a, henv, ht => by
    simp only [Synth.eval]
    apply (Check.eval_faultsIn (t := a) fuel henv ht).bind
    intro _ _
    trivial
  | fuel + 1, env, .cons _ a n x xs, henv, ht => by
    obtain ⟨hta, htn, htx, htxs⟩ := ht
    simp only [Synth.eval]
    apply (Check.eval_faultsIn fuel henv hta).bind
    intro _ _
    apply (Check.eval_faultsIn fuel henv htn).bind
    intro _ _
    apply (Check.eval_faultsIn fuel henv htx).bind
    intro _ _
    apply (Check.eval_faultsIn fuel henv htxs).bind
    intro _ _
    trivial
  | fuel + 1, env, .vecElim _ a m b s n xs, henv, ht => by
    obtain ⟨hta, htm, htb, hts, htn, htxs⟩ := ht
    simp only [Synth.eval]
    apply (Check.eval_faultsIn fuel henv hta).bind
    intro a ha
    apply (Check.eval_faultsIn fuel henv htm).bind
    intro m hm
    apply (Check.eval_faultsIn fuel henv htb).bind
    intro b hb
    apply (Check.eval_faultsIn fuel henv hts).bind
    intro s hs
    apply (Check.eval_faultsIn fuel henv htn).bind
    intro n hn
    apply (Check.eval_faultsIn fuel henv htxs).bind
    intro xs hxs
    exact Value.vecElim_faultsIn fuel (Check.eval_scopedBy henv rfl htxs hxs)
      (Check.eval_scopedBy henv rfl hta ha) (Check.eval_scopedBy henv rfl htm hm)
      (Check.eval_scopedBy henv rfl htb hb) (Check.eval_scopedBy henv rfl hts hs)
      (Check.eval_scopedBy henv rfl htn hn)

theorem Check.eval_faultsIn : ∀ (fuel : Nat) {env : Env} {t : Check}, env.ScopedBy .known P →
    t.Scoped (OrGlobal P) env.locals.length → (t.eval fuel env).FaultsIn Fault.InScope
  | 0, _, _, _, _ => trivial
  | fuel + 1, env, .synth t, henv, ht => by
    simp only [Check.eval]
    exact Synth.eval_faultsIn (t := t) fuel henv ht
  | fuel + 1, env, .lam _ _ _, _, _ => trivial
  | fuel + 1, env, .ascribe _ _ e, henv, ht => by
    simp only [Check.eval]
    exact Check.eval_faultsIn fuel henv ht.2
  | fuel + 1, env, .sealed _ e, henv, ht => by
    simp only [Check.eval]
    exact Synth.eval_faultsIn (t := e) fuel henv ht

theorem Value.apply_faultsIn : ∀ (fuel : Nat) {f v : Value}, f.ScopedBy .known P →
    v.ScopedBy .known P → (f.apply fuel v).FaultsIn Fault.InScope
  | 0, _, _, _, _ => trivial
  | fuel + 1, f, v, hf, hv => by
    simp only [Value.apply]
    split
    · rename_i b
      obtain ⟨env, body⟩ := b
      obtain ⟨henv, k, rfl, hbody⟩ := hf
      exact Check.eval_faultsIn fuel (henv.push hv) hbody
    · trivial
    · exact ⟨by simp, by simp⟩

theorem Value.natElim_faultsIn : ∀ (fuel : Nat) {n m b s : Value}, n.ScopedBy .known P →
    m.ScopedBy .known P → b.ScopedBy .known P → s.ScopedBy .known P →
      (n.natElim fuel m b s).FaultsIn Fault.InScope
  | 0, _, _, _, _, _, _, _, _ => trivial
  | fuel + 1, n, m, b, s, hn, hm, hb, hs => by
    simp only [Value.natElim]
    split
    · trivial
    · rename_i p
      have hp : p.ScopedBy .known P := hn
      apply (Value.natElim_faultsIn fuel hp hm hb hs).bind
      intro r hr
      apply (Value.apply_faultsIn fuel hs hp).bind
      intro f hf
      exact Value.apply_faultsIn fuel (Value.apply_scopedBy hs hp hf)
        (Value.natElim_scopedBy hp hm hb hs hr)
    · trivial
    · exact ⟨by simp, by simp⟩

theorem Value.vecElim_faultsIn : ∀ (fuel : Nat) {xs a m b s n : Value}, xs.ScopedBy .known P →
    a.ScopedBy .known P → m.ScopedBy .known P → b.ScopedBy .known P → s.ScopedBy .known P →
      n.ScopedBy .known P → (xs.vecElim fuel a m b s n).FaultsIn Fault.InScope
  | 0, _, _, _, _, _, _, _, _, _, _, _, _ => trivial
  | fuel + 1, xs, a, m, b, s, n, hxs, ha, hm, hb, hs, hn => by
    simp only [Value.vecElim]
    split
    · trivial
    · rename_i l y ys
      obtain ⟨_, hl, hy, hys⟩ := hxs
      apply (Value.vecElim_faultsIn fuel hys ha hm hb hs hl).bind
      intro r hr
      apply (Value.apply_faultsIn fuel hs hl).bind
      intro f₁ hf₁
      have h₁ := Value.apply_scopedBy hs hl hf₁
      apply (Value.apply_faultsIn fuel h₁ hy).bind
      intro f₂ hf₂
      have h₂ := Value.apply_scopedBy h₁ hy hf₂
      apply (Value.apply_faultsIn fuel h₂ hys).bind
      intro f₃ hf₃
      exact Value.apply_faultsIn fuel (Value.apply_scopedBy h₂ hys hf₃)
        (Value.vecElim_scopedBy hys ha hm hb hs hl hr)
    · trivial
    · exact ⟨by simp, by simp⟩

end

theorem Closure.apply_faultsIn (fuel : Nat) {v : Value} : ∀ {c : Closure}, c.ScopedBy .known P →
    v.ScopedBy .known P → (c.apply fuel v).FaultsIn Fault.InScope
  | ⟨_, _⟩, ⟨henv, _, rfl, hbody⟩, hv => Check.eval_faultsIn fuel (henv.push hv) hbody

end Evaluation

/-! ## Read-back -/

theorem Name.quote?_faultsIn {P : Name → Prop} {depth : Nat} (hP : ∀ l, P (.quote l) → l < depth) :
    ∀ {x : Name}, P x → (x.quote? depth).FaultsIn Fault.InScope
  | .global _, _ => trivial
  | .hyp _, _ => trivial
  | .quote l, hx => by
    simp only [Name.quote?, indexOfLevel?, if_pos (hP l hx)]
    trivial

mutual

theorem Value.quote_faultsIn : ∀ (fuel : Nat) {depth : Nat} {P : Name → Prop} {v : Value},
    (∀ l, P (.quote l) → l < depth) → v.ScopedBy .known P →
      (v.quote fuel depth).FaultsIn Fault.InScope
  | 0, _, _, _, _, _ => trivial
  | fuel + 1, depth, P, .neutral n, hP, hv => by
    simp only [Value.quote]
    apply (Neutral.quote_faultsIn (n := n) fuel hP hv).bind
    intro _ _
    trivial
  | fuel + 1, depth, P, .star, _, _ => trivial
  | fuel + 1, depth, P, .pi _ d c, hP, hv => by
    simp only [Value.quote]
    apply (Value.quote_faultsIn fuel hP hv.1).bind
    intro _ _
    apply (Closure.quote_faultsIn fuel hP hv.2).bind
    intro _ _
    trivial
  | fuel + 1, depth, P, .lam _ b, hP, hv => by
    simp only [Value.quote]
    apply (Closure.quote_faultsIn (c := b) fuel hP hv).bind
    intro _ _
    trivial
  | fuel + 1, depth, P, .nat, _, _ => trivial
  | fuel + 1, depth, P, .zero, _, _ => trivial
  | fuel + 1, depth, P, .succ n, hP, hv => by
    simp only [Value.quote]
    apply (Value.quote_faultsIn (v := n) fuel hP hv).bind
    intro _ _
    trivial
  | fuel + 1, depth, P, .vec a n, hP, hv => by
    simp only [Value.quote]
    apply (Value.quote_faultsIn fuel hP hv.1).bind
    intro _ _
    apply (Value.quote_faultsIn fuel hP hv.2).bind
    intro _ _
    trivial
  | fuel + 1, depth, P, .nil a, hP, hv => by
    simp only [Value.quote]
    apply (Value.quote_faultsIn (v := a) fuel hP hv).bind
    intro _ _
    trivial
  | fuel + 1, depth, P, .cons a n x xs, hP, hv => by
    obtain ⟨ha, hn, hx, hxs⟩ := hv
    simp only [Value.quote]
    apply (Value.quote_faultsIn fuel hP ha).bind
    intro _ _
    apply (Value.quote_faultsIn fuel hP hn).bind
    intro _ _
    apply (Value.quote_faultsIn fuel hP hx).bind
    intro _ _
    apply (Value.quote_faultsIn fuel hP hxs).bind
    intro _ _
    trivial

theorem Neutral.quote_faultsIn : ∀ (fuel : Nat) {depth : Nat} {P : Name → Prop} {n : Neutral},
    (∀ l, P (.quote l) → l < depth) → n.ScopedBy .known P →
      (n.quote fuel depth).FaultsIn Fault.InScope
  | 0, _, _, _, _, _ => trivial
  | fuel + 1, depth, P, .free x, hP, hn => by
    simp only [Neutral.quote]
    exact Name.quote?_faultsIn hP hn
  | fuel + 1, depth, P, .app f v, hP, hn => by
    simp only [Neutral.quote]
    apply (Neutral.quote_faultsIn fuel hP hn.1).bind
    intro _ _
    apply (Value.quote_faultsIn fuel hP hn.2).bind
    intro _ _
    trivial
  | fuel + 1, depth, P, .natElim m b s n, hP, hv => by
    obtain ⟨hm, hb, hs, hn⟩ := hv
    simp only [Neutral.quote]
    apply (Neutral.quote_faultsIn fuel hP hn).bind
    intro _ _
    apply (Value.quote_faultsIn fuel hP hm).bind
    intro _ _
    apply (Value.quote_faultsIn fuel hP hb).bind
    intro _ _
    apply (Value.quote_faultsIn fuel hP hs).bind
    intro _ _
    trivial
  | fuel + 1, depth, P, .vecElim a m b s n xs, hP, hv => by
    obtain ⟨ha, hm, hb, hs, hn, hxs⟩ := hv
    simp only [Neutral.quote]
    apply (Neutral.quote_faultsIn fuel hP hxs).bind
    intro _ _
    apply (Value.quote_faultsIn fuel hP ha).bind
    intro _ _
    apply (Value.quote_faultsIn fuel hP hm).bind
    intro _ _
    apply (Value.quote_faultsIn fuel hP hb).bind
    intro _ _
    apply (Value.quote_faultsIn fuel hP hs).bind
    intro _ _
    apply (Value.quote_faultsIn fuel hP hn).bind
    intro _ _
    trivial

theorem Closure.quote_faultsIn : ∀ (fuel : Nat) {depth : Nat} {P : Name → Prop} {c : Closure},
    (∀ l, P (.quote l) → l < depth) → c.ScopedBy .known P →
      (c.quote fuel depth).FaultsIn Fault.InScope
  | 0, _, _, _, _, _ => trivial
  | fuel + 1, depth, P, c, hP, hc => by
    simp only [Closure.quote]
    have hc : c.ScopedBy .known (OrQuote P depth) := hc.mono (fun _ _ hk => hk) fun _ => .inl
    have hvar : (Value.free (.quote depth)).ScopedBy .known (OrQuote P depth) :=
      Value.scopedBy_free (.inr rfl)
    apply (Closure.apply_faultsIn fuel hc hvar).bind
    intro v hv
    exact Value.quote_faultsIn fuel (OrQuote.lt hP) (Closure.apply_scopedBy hc hvar hv)

end

/-! ## Normal forms -/

/-- The value of a closed term without hypotheses, where the names of the signature stand for such values
in turn. A postulate stands for itself. -/
inductive Value.FromClosed : Value → Prop where
  | postulate (x : String) : FromClosed (.free (.global x))
  | eval {globals : List (String × Value)} {t : Check} {fuel : Nat} {v : Value} :
      (∀ p ∈ globals, FromClosed p.2) → t.Scoped IsGlobal 0 →
      t.eval fuel ⟨globals, []⟩ = .ok v → FromClosed v

theorem Value.FromClosed.scopedBy {v : Value} (h : v.FromClosed) : v.ScopedBy .known IsGlobal := by
  induction h with
  | postulate x => exact Value.scopedBy_free trivial
  | @eval globals t fuel v _ ht hv ih =>
    have henv : Env.ScopedBy .known IsGlobal ⟨globals, []⟩ :=
      ⟨globalsScopedBy_iff.mpr ih, trivial⟩
    exact Check.eval_scopedBy henv rfl (ht.mono IsGlobal.orGlobal) hv

/-- The level is less than `k`, if the name is a variable of read-back. -/
def Name.QuoteBelow (k : Nat) : Name → Prop
  | .quote l => l < k
  | _ => True

theorem IsGlobal.quoteBelow {k : Nat} : ∀ x, IsGlobal x → x.QuoteBelow k
  | .global _, _ => trivial

theorem IsGlobal.ne_hyp {l : Nat} : ∀ x, IsGlobal x → x ≠ .hyp l
  | .global _, _ => by simp

theorem NotQuote.quoteBelow {k : Nat} : ∀ x, NotQuote x → OrGlobal (Name.QuoteBelow k) x
  | .global _, _ => trivial
  | .hyp _, _ => trivial

theorem Unquoted.notQuote {P : Name → Prop} : ∀ x, Unquoted P x → NotQuote x
  | .global _, _ => trivial
  | .hyp _, _ => trivial

theorem Unquoted.of_self {P : Name → Prop} : ∀ x, Unquoted P x → P x
  | .global _, h => h
  | .hyp _, h => h

/-- Let the values of the signature come from closed terms, and let the closures of the `k` locals use
indices that their environments account for, and variables of read-back with levels less than `k` only.
Then normalisation of a term with indices less than `k` does not stop at a variable that stands for
nothing, whether the term has a type or not. Its normal form has indices less than `k` and no variable of
read-back, and a hypothesis that is neither in the term nor in a local is not in the normal form. -/
theorem Check.normalise_stays_in_scope {sig : Signature}
    (hsig : ∀ e ∈ sig.entries, e.value.FromClosed) {locals : List Value}
    (hlocals : ∀ v ∈ locals, v.Scoped (Name.QuoteBelow locals.length)) {t : Check}
    (ht : t.Scoped NotQuote locals.length) (fuel : Nat) :
    t.normalise fuel ⟨sig.values, locals⟩ ≠ .error (.fault .unboundVariable) ∧
      t.normalise fuel ⟨sig.values, locals⟩ ≠ .error (.fault .unboundQuote) ∧
      ∀ r, t.normalise fuel ⟨sig.values, locals⟩ = .ok r → r.Scoped NotQuote locals.length ∧
        ∀ l, t.Scoped (· ≠ .hyp l) locals.length → (∀ v ∈ locals, v.NamesIn (· ≠ .hyp l)) →
          r.Scoped (· ≠ .hyp l) locals.length := by
  have hglobals : GlobalsScopedBy .known IsGlobal sig.values :=
    Signature.globalsScopedBy_values fun e he => (hsig e he).scopedBy
  have henv : Env.ScopedBy .known (Name.QuoteBelow locals.length) ⟨sig.values, locals⟩ :=
    ⟨hglobals.mono (fun _ _ hk => hk) IsGlobal.quoteBelow,
      localsScopedBy_iff.mpr fun v hv => Value.scopedBy_known.mpr (hlocals v hv)⟩
  have htq : t.Scoped (OrGlobal (Name.QuoteBelow locals.length)) locals.length :=
    ht.mono NotQuote.quoteBelow
  have hfaults : (t.normalise fuel ⟨sig.values, locals⟩).FaultsIn Fault.InScope := by
    apply (Check.eval_faultsIn fuel henv htq).bind
    intro v hv
    exact Value.quote_faultsIn fuel (fun _ hl => hl) (Check.eval_scopedBy henv rfl htq hv)
  refine ⟨fun h => (hfaults.of_eq h).1 rfl, fun h => (hfaults.of_eq h).2 rfl, ?_⟩
  intro r hr
  obtain ⟨v, hv, hr⟩ := Run.bind_eq_ok.mp hr
  constructor
  · have hvq := Check.eval_scopedBy henv rfl htq hv
    exact (hvq.quote_scoped (n := 0) (fun _ _ => Nat.zero_le _) (Nat.zero_le _) hr).mono
      Unquoted.notQuote
  · intro l htl hlocals
    have henv : Env.ScopedBy .any (· ≠ .hyp l) ⟨sig.values, locals⟩ :=
      ⟨hglobals.mono (E := .any) (fun _ _ _ => trivial) IsGlobal.ne_hyp,
        localsScopedBy_iff.mpr hlocals⟩
    have hvl := Check.eval_scopedBy henv trivial (htl.mono OrGlobal.of_self) hv
    exact (hvl.quote_scoped (n := 0) (fun _ _ => Nat.zero_le _) (Nat.zero_le _) hr).mono
      Unquoted.of_self

/-- The identity function and a postulate. -/
def identityAndPostulate : Signature :=
  ⟨[⟨"id", .lam "x" ⟨⟨[], []⟩, .synth (.bound none 0)⟩, .star⟩, ⟨"c", .free (.global "c"), .star⟩]⟩

/-- A function that applies a variable of read-back to a hypothesis and to its argument. -/
def capturing : Value :=
  .lam none ⟨⟨[], [.free (.quote 0), .free (.hyp 3)]⟩,
    .synth (.app none (.app none (.bound none 1) (.synth (.bound none 2))) (.synth (.bound none 0)))⟩

/-- Under a binder, the identity of the first of two locals, applied to the second and the variable of
the binder. -/
def underIdentity : Check :=
  .lam none "y" (.synth (.app none
    (.app none (.free none (.global "id")) (.synth (.bound none 1)))
    (.synth (.app none (.bound none 2) (.synth (.bound none 0))))))

theorem normalise_underIdentity_in_scope :
    (∀ e ∈ identityAndPostulate.entries, e.value.FromClosed) ∧
      (∀ v ∈ [capturing, .free (.quote 1)], v.Scoped (Name.QuoteBelow 2)) ∧
      underIdentity.Scoped NotQuote 2 ∧
      ∃ r, underIdentity.normalise 20
          ⟨identityAndPostulate.values, [capturing, .free (.quote 1)]⟩ = .ok r ∧
        r.Scoped NotQuote 2 ∧ r.Scoped (· ≠ .hyp 0) 2 := by
  have hsig : ∀ e ∈ identityAndPostulate.entries, e.value.FromClosed := by
    intro e he
    simp only [identityAndPostulate, List.mem_cons, List.not_mem_nil, or_false] at he
    rcases he with rfl | rfl
    · exact @Value.FromClosed.eval [] (.lam none "x" (.synth (.bound none 0))) 1 _
        (fun _ hp => by cases hp) Nat.zero_lt_one rfl
    · exact .postulate "c"
  have hlocals : ∀ v ∈ [capturing, .free (.quote 1)], v.Scoped (Name.QuoteBelow 2) := by
    intro v hv
    simp only [List.mem_cons, List.not_mem_nil, or_false] at hv
    rcases hv with rfl | rfl
    · exact ⟨⟨trivial, Nat.zero_lt_two, trivial, trivial⟩,
        ⟨Nat.lt_succ_of_lt Nat.one_lt_two, Nat.lt_succ_self 2⟩, Nat.succ_pos 2⟩
    · exact Nat.one_lt_two
  have ht : underIdentity.Scoped NotQuote 2 :=
    ⟨⟨trivial, Nat.lt_succ_of_lt Nat.one_lt_two⟩, Nat.lt_succ_self 2, Nat.succ_pos 2⟩
  obtain ⟨_, _, hresult⟩ := Check.normalise_stays_in_scope hsig hlocals ht 20
  obtain ⟨hscoped, havoids⟩ := hresult _ (by rfl)
  refine ⟨hsig, hlocals, ht, _, by rfl, hscoped, havoids 0 ?_ ?_⟩
  · have hid : Name.global "id" ≠ .hyp 0 := by decide
    exact ⟨⟨hid, Nat.lt_succ_of_lt Nat.one_lt_two⟩, Nat.lt_succ_self 2, Nat.succ_pos 2⟩
  · intro v hv
    simp only [List.mem_cons, List.not_mem_nil, or_false] at hv
    rcases hv with rfl | rfl
    · have hquote : Name.quote 0 ≠ .hyp 0 := by decide
      have hhyp : Name.hyp 3 ≠ .hyp 0 := by decide
      exact ⟨⟨trivial, hquote, hhyp, trivial⟩, 2, trivial,
        ⟨Nat.lt_succ_of_lt Nat.one_lt_two, Nat.lt_succ_self 2⟩, Nat.succ_pos 2⟩
    · exact fun h => by cases h

end TypeInType
