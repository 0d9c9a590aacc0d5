import TypeInType.Proofs.Signature
import TypeInType.Proofs.Term.Nameless
import TypeInType.Proofs.Typing.Irrelevance
import TypeInType.Proofs.Value.Iteration

/-!
# Vectors have their length

A vector that is written out has the type of the vectors of its length and no other, and the recursion that
counts its elements gives its length.
-/

namespace TypeInType

open Run (Settles Refuses)

/-! ## Numerals and vectors -/

namespace Synth

/-- The term of a number. -/
def numeral : Nat → Synth
  | 0 => .zero none
  | n + 1 => .succ none (.synth (numeral n))

/-- The vector with the given elements, which are of type `A`. -/
def vector (A : String) : List Check → Synth
  | [] => .nil none (.synth (.free none (.global A)))
  | x :: xs => .cons none (.synth (.free none (.global A))) (.synth (numeral xs.length)) x
      (.synth (vector A xs))

/-- `Vec A n`. -/
def vectorType (A : String) (n : Nat) : Synth :=
  .vec none (.synth (.free none (.global A))) (.synth (numeral n))

/-- `\k w. Nat`. -/
def lengthMotive : Check :=
  .lam none (some "k") (.lam none (some "w") (.synth (.nat none)))

/-- `\k x w r. Succ r`. -/
def lengthStep : Check :=
  .lam none (some "k") (.lam none (some "x") (.lam none (some "w") (.lam none (some "r")
    (.synth (.succ none (.synth (.bound none 0)))))))

/-- `vecElim A (\k w. Nat) 0 (\k x w r. Succ r) n v`. -/
def vectorLength (A : String) (n : Nat) (v : Synth) : Synth :=
  .vecElim none (.synth (.free none (.global A))) lengthMotive (.synth (.zero none)) lengthStep
    (.synth (numeral n)) (.synth v)

theorem alphaEq_numeral : ∀ n k : Nat, (numeral n).alphaEq (numeral k) = decide (n = k)
  | 0, 0 => rfl
  | 0, k + 1 => rfl
  | n + 1, 0 => rfl
  | n + 1, k + 1 => by
    simp only [numeral, Synth.alphaEq, Check.alphaEq, alphaEq_numeral n k, Nat.add_right_cancel_iff]

theorem alphaEq_vectorType (A : String) (n k : Nat) :
    (vectorType A n).alphaEq (vectorType A k) = decide (n = k) := by
  simp only [vectorType, Synth.alphaEq, Check.alphaEq, alphaEq_numeral, beq_self_eq_true,
    Bool.true_and]

end Synth

/-- The name is an axiom of the given type. -/
structure Signature.Assumes (sig : Signature) (x : String) (type : Value) : Prop where
  isPostulate : sig.isPostulate x = true
  type? : sig.type? x = some type

/-- The value of a vector. -/
def Value.vector (a : Value) : List Value → Value
  | [] => .nil a
  | v :: vs => .cons a (succs vs.length .zero) v (vector a vs)

/-! ## Typing and read-back -/

namespace Context

/-- The term has a type, and the normal form of that type is `U`. -/
def Infers (ctx : Context) (t U : Synth) : Prop :=
  ∃ T V, Settles (t.infer · ctx) T ∧ Settles (ctx.quote · T) V ∧ V.alphaEq (.synth U) = true

/-- The term is refused, because a term of type `U` stands where one of type `T` is expected. -/
def Mismatches (ctx : Context) (t T U : Synth) : Prop :=
  ∃ span T' U', Refuses (t.infer · ctx) (.mismatch span T' U') ∧
    T'.alphaEq (.synth T) = true ∧ U'.alphaEq (.synth U) = true

/-- The term has a value, and the normal form of that value is `r`. -/
def Normalises (ctx : Context) (t r : Synth) : Prop :=
  ∃ r', Settles (Check.normalise · (ctx.env []) (.synth t)) r' ∧ r'.alphaEq (.synth r) = true

variable {ctx : Context} {t t' : Synth}

theorem Infers.of_alphaEq {U : Synth} (h : ctx.Infers t U) (ht : t'.alphaEq t = true) :
    ctx.Infers t' U := by
  obtain ⟨T, V, ⟨n, hT⟩, ⟨m, hV⟩, hVU⟩ := h
  have hsim := Synth.infer_sim (L := .labels) n (Synth.alike_of_alphaEq ht) (.refl (fun _ => rfl) ctx)
  obtain ⟨T', hT', hTT'⟩ := hsim.exists_left (hT n (Nat.le_refl n))
  obtain ⟨V', hV', hVV'⟩ := (hTT'.readsAlike m ctx.depth).exists_left (hV m (Nat.le_refl m))
  exact ⟨T', V', .of_eq (Synth.infer_le · ctx t') hT', .of_eq (Context.quote_le ctx · T') hV',
    Check.alphaEq_trans hVV' hVU⟩

theorem Mismatches.of_alphaEq {T U : Synth} (h : ctx.Mismatches t T U) (ht : t'.alphaEq t = true) :
    ctx.Mismatches t' T U := by
  obtain ⟨span, T', U', ⟨n, hn⟩, hT, hU⟩ := h
  have hn : t.infer n ctx = _ := hn n (Nat.le_refl n)
  have hsim := Synth.infer_sim (L := .labels) n (Synth.alike_of_alphaEq ht) (.refl (fun _ => rfl) ctx)
  generalize hx : t'.infer n ctx = x at hsim
  rw [hn] at hsim
  cases hsim with
  | refused herr =>
    cases herr.alphaEq with
    | mismatch hT' hU' =>
      exact ⟨_, _, _, .of_eq (Synth.infer_le · ctx t') hx, Check.alphaEq_trans hT' hT,
        Check.alphaEq_trans hU' hU⟩

theorem Normalises.of_alphaEq {r : Synth} (h : ctx.Normalises t r) (ht : t'.alphaEq t = true) :
    ctx.Normalises t' r := by
  obtain ⟨r', ⟨n, hn⟩, hr⟩ := h
  have ht : (Check.synth t').alphaEq (.synth t) = true := ht
  have hsim := (Check.eval_sim n (Check.alike_of_alphaEq ht) (.refl (fun _ => trivial) (ctx.env []))).bind
    fun _ _ hv => hv.readsAlike n 0
  obtain ⟨r'', hr'', heq⟩ := hsim.exists_left (hn n (Nat.le_refl n))
  have hle (fuel : Nat) := (Check.eval_le fuel (ctx.env []) (.synth t')).bind fun v =>
    Value.quote_le fuel 0 v
  exact ⟨r'', .of_eq hle hr'', Check.alphaEq_trans heq hr⟩

end Context

/-! ## Conversion -/

section Conversion

variable {ctx : Context} {T U : Value} {V W : Check}

theorem Context.settles_convert (hT : Settles (ctx.quote · T) V) (hU : Settles (ctx.quote · U) W)
    (h : V.alphaEq W = true) (span : Span) : Settles (ctx.convert · span T U) () := by
  refine hT.widen.bind (hU.widen.bind ?_)
  simp only [h, if_true]
  exact .pure ()

theorem Context.refuses_convert (hT : Settles (ctx.quote · T) V) (hU : Settles (ctx.quote · U) W)
    (h : V.alphaEq W = false) (span : Span) :
    Refuses (ctx.convert · span T U) (.mismatch span V W) := by
  refine hT.widen.refuses (hU.widen.refuses ⟨0, fun _ _ => ?_⟩)
  simp only [h]
  rfl

theorem Check.settles_check {t : Synth} (ht : Settles (t.infer · ctx) U)
    (hT : Settles (ctx.quote · T) V) (hU : Settles (ctx.quote · U) W) (h : V.alphaEq W = true) :
    Settles (Check.check · ctx (.synth t) T) () :=
  .succ (ht.bind (Context.settles_convert hT hU h t.span))

end Conversion

/-! ## The parts of a vector -/

section Parts

variable {ctx : Context} {A : String}

theorem Signature.Assumes.lookup_values {sig : Signature} {type : Value} (h : sig.Assumes A type) :
    sig.values.lookup A = some (.free (.global A)) := by
  obtain ⟨e, he, hv⟩ := Signature.isPostulate_iff.mp h.isPostulate
  rw [Signature.lookup_values, he, Option.map_some, hv]

theorem settles_eval_assumed {type : Value} (hA : ctx.signature.Assumes A type) :
    Settles (ctx.eval · (.synth (.free none (.global A)))) (.free (.global A)) := by
  refine .succ (.succ ⟨0, fun fuel _ => ?_⟩)
  simp only [Context.eval, Context.evalIn, Check.eval, Synth.eval, Context.env, Env.global?,
    hA.lookup_values]
  rfl

theorem settles_quote_star (ctx : Context) : Settles (ctx.quote · .star) (.synth (.star none)) :=
  .succ (.pure _)

theorem settles_quote_nat (ctx : Context) : Settles (ctx.quote · .nat) (.synth (.nat none)) :=
  .succ (.pure _)

theorem settles_check_assumed (hA : ctx.signature.Assumes A .star) :
    Settles (Check.check · ctx (.synth (.free none (.global A))) .star) () := by
  refine Check.settles_check (U := .star) (.succ ⟨0, fun fuel _ => ?_⟩) (settles_quote_star ctx)
    (settles_quote_star ctx) rfl
  simp only [Synth.infer, Context.lookup, hA.type?]
  rfl

theorem settles_eval_numeral (ctx : Context) (n : Nat) :
    Settles (ctx.eval · (.synth (.numeral n))) (.succs n .zero) := by
  induction n with
  | zero => exact .succ (.succ (.pure _))
  | succ n ih => exact .succ (.succ (ih.bind (.pure _)))

theorem settles_check_numeral (ctx : Context) (n : Nat) :
    Settles (Check.check · ctx (.synth (.numeral n)) .nat) () := by
  refine Check.settles_check (U := .nat) ?_ (settles_quote_nat ctx) (settles_quote_nat ctx) rfl
  cases n with
  | zero => exact .succ (.pure _)
  | succ n => exact .succ ((settles_check_numeral ctx n).bind (.pure _))

theorem settles_quote_succs (depth n : Nat) :
    Settles ((Value.succs n .zero).quote · depth) (.synth (.numeral n)) := by
  induction n with
  | zero => exact .succ (.pure _)
  | succ n ih => exact .succ (ih.bind (.pure _))

theorem settles_quote_vec (ctx : Context) (A : String) (n : Nat) :
    Settles (ctx.quote · (.vec (.free (.global A)) (.succs n .zero)))
      (.synth (.vectorType A n)) := by
  have hA : Settles ((Value.free (.global A)).quote · ctx.depth) (.synth (.free none (.global A))) :=
    .succ (.bind (.succ (.pure _)) (.pure _))
  exact .succ (hA.bind ((settles_quote_succs ctx.depth n).bind (.pure _)))

end Parts

/-! ## Vectors -/

/-- The term checks against the type, and it has a value. -/
structure Context.Element (ctx : Context) (T : Value) (x : Check) : Prop where
  checks : ∃ fuel, x.check fuel ctx T = .ok ()
  evaluates : ∃ fuel v, ctx.eval fuel x = .ok v

section Vector

variable {ctx : Context} {A : String}

theorem settles_check_vectorType (hA : ctx.signature.Assumes A .star) (n : Nat) :
    Settles (Check.check · ctx (.synth (.vectorType A n)) .star) () := by
  refine Check.settles_check (U := .star) (.succ ?_) (settles_quote_star ctx) (settles_quote_star ctx) rfl
  exact (settles_check_assumed hA).bind ((settles_eval_assumed hA).widen.bind
    ((settles_check_numeral ctx n).bind (.pure _)))

theorem settles_eval_vectorType (hA : ctx.signature.Assumes A .star) (n : Nat) :
    Settles (ctx.eval · (.synth (.vectorType A n))) (.vec (.free (.global A)) (.succs n .zero)) :=
  .succ (.succ ((settles_eval_assumed hA).bind ((settles_eval_numeral ctx n).bind (.pure _))))

/-- Every `Cons` checks its tail against the vectors of the length that it names, and the type of the tail
is one of these. -/
theorem settles_infer_vector (hA : ctx.signature.Assumes A .star) {xs : List Check}
    (hxs : ∀ x ∈ xs, ctx.Element (.free (.global A)) x) :
    Settles (Synth.infer · ctx (.vector A xs)) (.vec (.free (.global A)) (.succs xs.length .zero)) := by
  induction xs with
  | nil => exact .succ ((settles_check_assumed hA).bind ((settles_eval_assumed hA).widen.bind (.pure _)))
  | cons x xs ih =>
    obtain ⟨n, hx⟩ := (hxs x List.mem_cons_self).checks
    have htail := Check.settles_check (ih fun y hy => hxs y (List.mem_cons_of_mem x hy))
      (settles_quote_vec ctx A xs.length) (settles_quote_vec ctx A xs.length) (Check.alphaEq_iff.mpr rfl)
    exact .succ ((settles_check_assumed hA).bind ((settles_eval_assumed hA).widen.bind
      ((settles_check_numeral ctx xs.length).bind ((settles_eval_numeral ctx xs.length).widen.bind
        (.bind (.of_eq (Check.check_le · ctx x _) hx) (htail.bind (.pure _)))))))

theorem infers_annotated (hA : ctx.signature.Assumes A .star) {xs : List Check}
    (hxs : ∀ x ∈ xs, ctx.Element (.free (.global A)) x) :
    ctx.Infers (.ann none (.synth (.vector A xs)) (.synth (.vectorType A xs.length)))
      (.vectorType A xs.length) := by
  have hquote := settles_quote_vec ctx A xs.length
  have hself := Check.alphaEq_iff.mpr (Eq.refl (Check.synth (.vectorType A xs.length)).nameless)
  refine ⟨_, _, .succ ?_, hquote, hself⟩
  exact (settles_check_vectorType hA _).bind ((settles_eval_vectorType hA _).widen.bind
    ((Check.settles_check (settles_infer_vector hA hxs) hquote hquote hself).bind (.pure _)))

theorem mismatches_annotated (hA : ctx.signature.Assumes A .star) {xs : List Check}
    (hxs : ∀ x ∈ xs, ctx.Element (.free (.global A)) x) {k : Nat} (hk : k ≠ xs.length) :
    ctx.Mismatches (.ann none (.synth (.vector A xs)) (.synth (.vectorType A k)))
      (.vectorType A k) (.vectorType A xs.length) := by
  have hne : (Check.synth (.vectorType A k)).alphaEq (.synth (.vectorType A xs.length)) = false := by
    simp only [Check.alphaEq, Synth.alphaEq_vectorType, hk, decide_false]
  refine ⟨(Synth.vector A xs).span, .synth (.vectorType A k), .synth (.vectorType A xs.length), .succ ?_,
    Check.alphaEq_iff.mpr rfl, Check.alphaEq_iff.mpr rfl⟩
  refine (settles_check_vectorType hA k).refuses ((settles_eval_vectorType hA k).widen.refuses ?_)
  refine .bind _ (.succ ((settles_infer_vector hA hxs).refuses ?_))
  exact Context.refuses_convert (settles_quote_vec ctx A k) (settles_quote_vec ctx A xs.length) hne _

theorem exists_settles_eval_vector (hA : ctx.signature.Assumes A .star) {xs : List Check}
    (hxs : ∀ x ∈ xs, ctx.Element (.free (.global A)) x) :
    ∃ vs : List Value, vs.length = xs.length ∧
      Settles (ctx.eval · (.synth (.vector A xs))) (.vector (.free (.global A)) vs) := by
  induction xs with
  | nil => exact ⟨[], rfl, .succ (.succ ((settles_eval_assumed hA).bind (.pure _)))⟩
  | cons x xs ih =>
    obtain ⟨n, v, hv⟩ := (hxs x List.mem_cons_self).evaluates
    obtain ⟨vs, hlen, hvs⟩ := ih fun y hy => hxs y (List.mem_cons_of_mem x hy)
    refine ⟨v :: vs, by rw [List.length_cons, List.length_cons, hlen], .succ (.succ ?_)⟩
    have hx : Settles (ctx.eval · x) v := .of_eq (ctx.eval_le · x) hv
    rw [Value.vector, hlen]
    exact (settles_eval_assumed hA).bind ((settles_eval_numeral ctx xs.length).bind
      (hx.bind (hvs.bind (.pure _))))

end Vector

/-! ## Counting -/

section Counting

variable {sig : Signature} {A : String}

/-- The value of `\k w. Nat`. -/
def Value.lengthMotive (env : Env) : Value :=
  .lam (some "k") ⟨env, .lam none (some "w") (.synth (.nat none))⟩

/-- The value of `\k x w r. Succ r`. -/
def Value.lengthStep (env : Env) : Value :=
  .lam (some "k") ⟨env, .lam none (some "x") (.lam none (some "w") (.lam none (some "r")
    (.synth (.succ none (.synth (.bound none 0))))))⟩

theorem settles_lengthMotive (env : Env) (n v : Value) :
    Settles ((Value.lengthMotive env).applyAll · [n, v]) .nat :=
  .of_eq (Value.applyAll_le · [n, v] _) (n := 3) rfl

theorem settles_lengthStep (env : Env) (n x v r : Value) :
    Settles ((Value.lengthStep env).applyAll · [n, x, v, r]) (.succ r) :=
  .of_eq (Value.applyAll_le · [n, x, v, r] _) (n := 5) rfl

/-- Each `Cons` adds one to the length of its tail. -/
theorem settles_vecElim_vector (env : Env) (a m : Value) (vs : List Value) (n : Value) :
    Settles ((Value.vector a vs).vecElim · a m .zero (.lengthStep env) n)
      (.succs vs.length .zero) := by
  induction vs generalizing n with
  | nil => exact .succ (.pure _)
  | cons v vs ih =>
    have hstep := settles_lengthStep env (.succs vs.length .zero) v (.vector a vs)
      (.succs vs.length .zero)
    simp only [Value.applyAll_four] at hstep
    exact .succ ((ih _).bind hstep)

theorem settles_check_lengthMotive (sig : Signature) (a : Value) :
    ∃ T, Settles ((Context.ofSignature sig).evalIn · [a] (.synth Telescope.vecMotive)) T ∧
      Settles (Check.check · (.ofSignature sig) Synth.lengthMotive T) () :=
  ⟨_, .of_eq ((Context.ofSignature sig).evalIn_le · [a] _) (n := 5) rfl,
    .of_eq (Check.check_le · _ _ _) (n := 9) rfl⟩

theorem settles_check_lengthStep (sig : Signature) (a : Value) :
    let m := Value.lengthMotive ((Context.ofSignature sig).env [])
    ∃ T, Settles ((Context.ofSignature sig).evalIn · [m, a] (.synth Telescope.vecStep)) T ∧
      Settles (Check.check · (.ofSignature sig) Synth.lengthStep T) () :=
  ⟨_, .of_eq ((Context.ofSignature sig).evalIn_le · _ _) (n := 9) rfl,
    .of_eq (Check.check_le · _ _ _) (n := 20) rfl⟩

variable {xs : List Check}

theorem settles_infer_vectorLength (hA : sig.Assumes A .star)
    (hxs : ∀ x ∈ xs, (Context.ofSignature sig).Element (.free (.global A)) x) :
    Settles (Synth.infer · (.ofSignature sig) (.vectorLength A xs.length (.vector A xs))) .nat := by
  have hA : (Context.ofSignature sig).signature.Assumes A .star := hA
  obtain ⟨motiveType, hmotiveType, hmotive⟩ := settles_check_lengthMotive sig (.free (.global A))
  obtain ⟨stepType, hstepType, hstep⟩ := settles_check_lengthStep sig (.free (.global A))
  obtain ⟨vs, _, hvs⟩ := exists_settles_eval_vector hA hxs
  have hquote := settles_quote_vec (.ofSignature sig) A xs.length
  have hvector := Check.settles_check (settles_infer_vector hA hxs) hquote hquote
    (Check.alphaEq_iff.mpr rfl)
  refine .succ ((settles_check_assumed hA).bind ((settles_eval_assumed hA).widen.bind ?_))
  refine hmotiveType.widen.bind (hmotive.bind (.bind (.widen (.succ (.pure _))) ?_))
  refine .bind (settles_lengthMotive _ _ _).widen ((settles_check_numeral _ 0).bind ?_)
  refine hstepType.widen.bind (hstep.bind ((settles_check_numeral _ xs.length).bind ?_))
  refine (settles_eval_numeral _ xs.length).widen.bind (hvector.bind (hvs.widen.bind ?_))
  exact (settles_lengthMotive _ _ _).widen

theorem settles_eval_vectorLength (hA : sig.Assumes A .star)
    (hxs : ∀ x ∈ xs, (Context.ofSignature sig).Element (.free (.global A)) x) :
    Settles ((Context.ofSignature sig).eval · (.synth (.vectorLength A xs.length (.vector A xs))))
      (.succs xs.length .zero) := by
  have hA : (Context.ofSignature sig).signature.Assumes A .star := hA
  obtain ⟨vs, hlen, hvs⟩ := exists_settles_eval_vector hA hxs
  have hcount := settles_vecElim_vector ((Context.ofSignature sig).env []) (.free (.global A))
    (.lengthMotive ((Context.ofSignature sig).env [])) vs (.succs xs.length .zero)
  rw [hlen] at hcount
  exact .succ (.succ ((settles_eval_assumed hA).bind (.bind (.succ (.pure _))
    ((settles_eval_numeral _ 0).bind (.bind (.succ (.pure _))
      ((settles_eval_numeral _ xs.length).bind (hvs.bind hcount)))))))

end Counting

/-- A vector of `n` elements of a postulated type `A` has the type `Vec A n`. Annotated with `Vec A k` it is
accepted if `k` is `n`, and refused as a term of another type if not. The recursion that counts its elements
is of type `Nat`, and its value is `n`. All this holds whatever the spans and the names of binders are. -/
theorem vector_has_its_length {sig : Signature} {A : String} (hA : sig.Assumes A .star)
    {xs : List Check} (hxs : ∀ x ∈ xs, (Context.ofSignature sig).Element (.free (.global A)) x) :
    let ctx := Context.ofSignature sig
    (∀ t : Synth, t.alphaEq (.vector A xs) = true → ctx.Infers t (.vectorType A xs.length)) ∧
      (∀ (k : Nat) (t : Synth),
        t.alphaEq (.ann none (.synth (.vector A xs)) (.synth (.vectorType A k))) = true →
          (k = xs.length → ctx.Infers t (.vectorType A xs.length)) ∧
            (k ≠ xs.length → ctx.Mismatches t (.vectorType A k) (.vectorType A xs.length))) ∧
      ∀ t : Synth, t.alphaEq (.vectorLength A xs.length (.vector A xs)) = true →
        ctx.Infers t (.nat none) ∧ ctx.Normalises t (.numeral xs.length) := by
  intro ctx
  have hA' : ctx.signature.Assumes A .star := hA
  refine ⟨fun t ht => ?_, fun k t ht => ⟨?_, fun hk => ?_⟩, fun t ht => ⟨?_, ?_⟩⟩
  · exact Context.Infers.of_alphaEq ⟨_, _, settles_infer_vector hA' hxs,
      settles_quote_vec ctx A xs.length, Check.alphaEq_iff.mpr rfl⟩ ht
  · rintro rfl
    exact (infers_annotated hA' hxs).of_alphaEq ht
  · exact (mismatches_annotated hA' hxs hk).of_alphaEq ht
  · exact Context.Infers.of_alphaEq
      ⟨_, _, settles_infer_vectorLength hA hxs, settles_quote_nat ctx, rfl⟩ ht
  · exact Context.Normalises.of_alphaEq ⟨_, (settles_eval_vectorLength hA hxs).bind
      (settles_quote_succs 0 xs.length), Check.alphaEq_iff.mpr rfl⟩ ht

/-- `A : *` and `a : A`. -/
def Signature.pointed : Signature :=
  (Signature.postulate ∅ "A" .star).postulate "a" (.free (.global "A"))

/-- `[a, a]` is a vector of two elements, and not one of three. -/
theorem pair_has_its_length :
    let a := Check.synth (.free none (.global "a"))
    let ctx := Context.ofSignature .pointed
    ctx.Infers (.vector "A" [a, a]) (.vectorType "A" 2) ∧
      ctx.Mismatches (.ann none (.synth (.vector "A" [a, a])) (.synth (.vectorType "A" 3)))
        (.vectorType "A" 3) (.vectorType "A" 2) ∧
      ctx.Normalises (.vectorLength "A" 2 (.vector "A" [a, a])) (.numeral 2) := by
  intro a ctx
  have ha : ctx.Element (.free (.global "A")) a := ⟨⟨4, rfl⟩, 3, _, rfl⟩
  have hxs : ∀ x ∈ [a, a], ctx.Element (.free (.global "A")) x := by
    intro x hx
    obtain rfl : x = a := by simpa using hx
    exact ha
  obtain ⟨hvector, hann, hlength⟩ := @vector_has_its_length .pointed "A" ⟨rfl, rfl⟩ [a, a] hxs
  exact ⟨hvector _ (by rfl), (hann 3 _ (by rfl)).2 (by decide), (hlength _ (by rfl)).2⟩

end TypeInType
