import TypeInType.Proofs.Core.Extension
import TypeInType.Proofs.Typing.Soundness

/-!
# Declarations

A signature in which each name is declared once gives the constants of a calculus: a postulate has
the type that it is declared with, and a definition unfolds to the term that it is declared with. The
entries of the signature agree with these constants.
-/

namespace TypeInType

open TypeInType.Core (HasType Reds Conv)

/-! ## Constants -/

/-- A name with its type: a definition if it has a body, else a postulate. -/
structure Constant where
  name : String
  type : Core
  body : Option Core
  closed_type : type.Closed
  closed_body : ∀ b ∈ body, b.Closed

/-- The constants that have been declared, the last one first. -/
abbrev Constants := List Constant

theorem Synth.Scoped.closed_core {P : Name → Prop} {t : Synth} (N : Naming) (ht : t.Scoped P 0) :
    (t.core N).Closed := by
  intro σ
  rw [Synth.core, Synth.subst_erase]
  exact Synth.erase_congr ht (fun x _ => N.closed_name x σ) fun i hi => absurd hi (Nat.not_lt_zero i)

theorem Check.Scoped.closed_core {P : Name → Prop} {t : Check} (N : Naming) (ht : t.Scoped P 0) :
    (t.core N).Closed := by
  intro σ
  rw [Check.core, Check.subst_erase]
  exact Check.erase_congr ht (fun x _ => N.closed_name x σ) fun i hi => absurd hi (Nat.not_lt_zero i)

/-! ## Normal forms of closed values -/

theorem Value.Scoped.quote_within {G : String → Prop} {v : Value} (hv : v.Scoped (Within G 0))
    {fuel : Nat} {r : Check} (hr : v.quote fuel 0 = .ok r) : r.Scoped (Within G 0) 0 := by
  have hs : r.Scoped (Unquoted (Within G 0)) 0 :=
    Value.quote_scoped (fun l _ => Nat.zero_le l) (Nat.le_refl 0) hv hr
  refine hs.mono fun x hx => ?_
  match x, hx with
  | .global x, hx => exact hx

/-- A value reduces to its normal form, if the names that it mentions stand for themselves. -/
theorem Value.quote_reds_core {Θ : Theory} {N : Naming} {G P : String → Prop} {v : Value}
    (hv : v.Scoped (Within G 0)) {fuel : Nat} {r : Check} (hr : v.quote fuel 0 = .ok r)
    (hs : r.Scoped (Within P 0) 0) (hN : ∀ x, P x → N.term x = .atom (.postulate x)) :
    Reds Θ (v.embed .atom) (r.core N) := by
  have hreds := Value.quote_reds Θ (fun _ h => h.elim) hv hr .atom
  have hcore : r.erase (readNames .atom) (readBound .atom 0) = r.core N := by
    refine Check.erase_congr hs (fun x hx => ?_) fun i hi => absurd hi (Nat.not_lt_zero i)
    match x, hx with
    | .global x, hx => exact (hN x hx).symm
  rwa [hcore] at hreds

namespace Constant

/-- A postulate with the type that a closed term stands for. -/
def postulate (N : Naming) (x : String) (type : Check) (h : type.Scoped IsGlobal 0) : Constant :=
  ⟨x, type.core N, none, h.closed_core N, nofun⟩

/-- A definition with the type and the body that closed terms stand for. -/
def define (N : Naming) (x : String) (term : Synth) (type : Check) (hterm : term.Scoped IsGlobal 0)
    (htype : type.Scoped IsGlobal 0) : Constant :=
  ⟨x, type.core N, some (term.core N), htype.closed_core N, by
    rintro b ⟨⟩
    exact hterm.closed_core N⟩

end Constant

namespace Constants

/-- The constant with a name. -/
def constant? (cs : Constants) (x : String) : Option Constant :=
  cs.find? (·.name == x)

def Postulated (cs : Constants) (x : String) : Prop :=
  ∃ c, cs.constant? x = some c ∧ c.body = none

/-- The theory of the constants. -/
def theory (cs : Constants) : Theory where
  postulate x A := ∃ c, cs.constant? x = some c ∧ c.body = none ∧ A = c.type
  definition x := (cs.constant? x).bind fun c => c.body.map (Definition.mk c.type)
  closed_postulate := by
    rintro x A ⟨c, _, _, rfl⟩
    exact c.closed_type
  closed_definition := by
    intro x d h
    simp only [Option.bind_eq_some_iff, Option.map_eq_some_iff] at h
    obtain ⟨c, _, b, hb, rfl⟩ := h
    exact ⟨c.closed_type, c.closed_body b hb⟩

/-- The atom of a constant. -/
def atom (cs : Constants) (x : String) : Atom :=
  match cs.constant? x with
  | none => .undeclared x
  | some c => if c.body.isNone then .postulate x else .definition x

/-- A name stands for its constant. -/
def naming (cs : Constants) : Naming where
  term x := .atom (cs.atom x)
  type x A := ∃ c, cs.constant? x = some c ∧ A = c.type
  closed_term x := Core.closed_atom (cs.atom x)
  closed_type := by
    rintro x A ⟨c, _, rfl⟩
    exact c.closed_type

theorem constant?_cons (c : Constant) (cs : Constants) (x : String) :
    constant? (c :: cs) x = if c.name = x then some c else cs.constant? x := by
  by_cases h : c.name = x
  · simp [constant?, h]
  · simp [constant?, h, beq_false_of_ne h]

theorem theory_definition {cs : Constants} {x : String} {d : Definition} :
    cs.theory.definition x = some d ↔
      ∃ c b, cs.constant? x = some c ∧ c.body = some b ∧ d = ⟨c.type, b⟩ := by
  simp only [theory, Option.bind_eq_some_iff, Option.map_eq_some_iff]
  constructor
  · rintro ⟨c, hx, b, hb, rfl⟩
    exact ⟨c, b, hx, hb, rfl⟩
  · rintro ⟨c, b, hx, hb, rfl⟩
    exact ⟨c, hx, b, hb, rfl⟩

theorem atom_of_postulated {cs : Constants} {x : String} (h : cs.Postulated x) :
    cs.atom x = .postulate x := by
  obtain ⟨c, hx, hb⟩ := h
  simp [atom, hx, hb]

theorem atom_of_defined {cs : Constants} {x : String} {c : Constant} {b : Core}
    (hx : cs.constant? x = some c) (hb : c.body = some b) : cs.atom x = .definition x := by
  simp [atom, hx, hb]

theorem atom_undeclared {cs : Constants} {x : String} (hx : cs.constant? x = none) :
    cs.atom x = .undeclared x := by
  simp [atom, hx]

theorem atom_cons {c : Constant} {cs : Constants} {x : String} (h : c.name ≠ x) :
    atom (c :: cs) x = cs.atom x := by
  simp only [atom, constant?_cons, if_neg h]

theorem constant?_of_fresh {c c' : Constant} {cs : Constants} (hc : cs.constant? c.name = none)
    {x : String} (hx : cs.constant? x = some c') : constant? (c :: cs) x = some c' := by
  rw [constant?_cons, if_neg ?_, hx]
  rintro rfl
  rw [hc] at hx
  cases hx

theorem naming_ok (cs : Constants) : cs.naming.Ok cs.theory := by
  rintro x A ⟨c, hx, rfl⟩
  simp only [naming]
  cases hb : c.body with
  | none =>
    rw [atom_of_postulated ⟨c, hx, hb⟩]
    exact .postulate ⟨c, hx, hb, rfl⟩
  | some b =>
    rw [atom_of_defined hx hb]
    exact HasType.definition (theory_definition.mpr ⟨c, b, hx, hb, rfl⟩)

/-- A constant with a new name leaves the others as they are. -/
theorem theory_le {c : Constant} {cs : Constants} (hc : cs.constant? c.name = none) :
    cs.theory.Le (theory (c :: cs)) := by
  refine ⟨?_, ?_⟩
  · rintro x A ⟨c', hx, hb, rfl⟩
    exact ⟨c', constant?_of_fresh hc hx, hb, rfl⟩
  · intro x d hd
    obtain ⟨c', b, hx, hb, rfl⟩ := theory_definition.mp hd
    exact theory_definition.mpr ⟨c', b, constant?_of_fresh hc hx, hb, rfl⟩

theorem postulated_cons {c : Constant} {cs : Constants} (hc : cs.constant? c.name = none)
    {x : String} : cs.Postulated x → Postulated (c :: cs) x
  | ⟨c', hx, hb⟩ => ⟨c', constant?_of_fresh hc hx, hb⟩

theorem within_cons {c : Constant} {cs : Constants} (hc : cs.constant? c.name = none) (n : Nat) :
    ∀ x, Within cs.Postulated n x → Within (Postulated (c :: cs)) n x
  | .global _, hx => postulated_cons hc hx
  | .hyp _, hx => hx

/-- The normal form of a closed value is a closed term, to which the value reduces. -/
theorem readBack {cs : Constants} {v : Value} {fuel : Nat} {r : Check}
    (hv : v.Scoped (Within cs.Postulated 0)) (hr : v.quote fuel 0 = .ok r) :
    r.Scoped IsGlobal 0 ∧ Reds cs.theory (v.embed .atom) (r.core cs.naming) := by
  have hs := hv.quote_within hr
  refine ⟨hs.mono Within.isGlobal, Value.quote_reds_core hv hr hs fun x hx => ?_⟩
  exact congrArg Core.atom (atom_of_postulated hx)

/-- The value is closed, and stands for a type. -/
def IsType (cs : Constants) (T : Value) : Prop :=
  Signature.Member cs.theory cs.Postulated T .star

/-- The normal form of a type is a type, and convertible to it. -/
theorem IsType.readBack {cs : Constants} {T : Value} {fuel : Nat} {A : Check}
    (hT : cs.IsType T) (hΘ : cs.theory.Ok) (hA : T.quote fuel 0 = .ok A) :
    Conv cs.theory (T.embed .atom) (A.core cs.naming) ∧
      HasType cs.theory [] (A.core cs.naming) .star := by
  obtain ⟨_, hr⟩ := Constants.readBack hT.inScope hA
  exact ⟨hr.conv, hT.typed.reds hΘ .nil hr⟩

/-! ## Agreement with a signature -/

/-- The constants are well typed, and the entries of the signature agree with them. -/
structure Ok (cs : Constants) (sig : Signature) : Prop where
  theory : cs.theory.Ok
  signature : sig.Ok cs.theory cs.Postulated cs.naming
  declared : ∀ x, cs.constant? x = none ↔ sig.find? x = none

theorem Ok.empty : Ok [] ∅ where
  theory := ⟨nofun, nofun, nofun⟩
  signature :=
    { naming := nofun
      undeclared := fun _ => rfl
      inScope := fun _ he => nomatch he
      type := nofun
      value := nofun }
  declared _ := ⟨fun _ => rfl, fun _ => rfl⟩

theorem theory_ok_cons {cs : Constants} {c : Constant} (h : cs.theory.Ok)
    (hc : cs.constant? c.name = none) (htype : HasType cs.theory [] c.type .star)
    (hbody : ∀ b, c.body = some b → HasType cs.theory [] b c.type) :
    (theory (c :: cs)).Ok := by
  have hle := theory_le hc
  refine ⟨?_, ?_, ?_⟩
  · rintro x A ⟨c', hx, hb, rfl⟩
    rw [constant?_cons] at hx
    split at hx
    · cases hx
      exact htype.mono hle
    · exact (h.postulate ⟨c', hx, hb, rfl⟩).mono hle
  · intro x d hd
    obtain ⟨c', b, hx, hb, rfl⟩ := theory_definition.mp hd
    rw [constant?_cons] at hx
    split at hx
    · cases hx
      exact htype.mono hle
    · exact (h.type (theory_definition.mpr ⟨c', b, hx, hb, rfl⟩)).mono hle
  · intro x d hd
    obtain ⟨c', b, hx, hb, rfl⟩ := theory_definition.mp hd
    rw [constant?_cons] at hx
    split at hx
    · cases hx
      exact (hbody b hb).mono hle
    · exact (h.body (theory_definition.mpr ⟨c', b, hx, hb, rfl⟩)).mono hle

/-- A declaration with a new name adds an entry that agrees with its constant. -/
theorem Ok.define {cs : Constants} {sig : Signature} (h : cs.Ok sig) {c : Constant} {v T : Value}
    (hc : sig.find? c.name = none) (hT : Signature.Member cs.theory cs.Postulated T .star)
    (hconv : Conv cs.theory c.type (T.embed .atom))
    (hv : v.Scoped (Within (Postulated (c :: cs)) 0))
    (hreds : Reds (Constants.theory (c :: cs)) (.atom (atom (c :: cs) c.name)) (v.embed .atom)) :
    (sig.define c.name v T).Ok (Constants.theory (c :: cs)) (Postulated (c :: cs))
      (naming (c :: cs)) := by
  have hnew := (h.declared c.name).mpr hc
  have hle := theory_le hnew
  refine ⟨naming_ok _, ?_, ?_, ?_, ?_⟩
  · intro x hx
    rw [Signature.find?_define] at hx
    split at hx
    · cases hx
    · rename_i hne
      simp only [Constants.naming]
      rw [atom_cons hne, atom_undeclared ((h.declared x).mpr hx)]
  · intro e he
    rcases Signature.mem_define he with rfl | he
    · exact ⟨hv, hT.inScope.mono (within_cons hnew 0)⟩
    · obtain ⟨hev, het⟩ := h.signature.inScope e he
      exact ⟨hev.mono (within_cons hnew 0), het.mono (within_cons hnew 0)⟩
  · intro x e hx
    rw [Signature.find?_define] at hx
    split at hx
    · rename_i hname
      cases hx
      have hself : constant? (c :: cs) x = some c := by rw [constant?_cons, if_pos hname]
      exact ⟨c.type, ⟨c, hself, rfl⟩, hconv.mono hle, hT.typed.mono hle⟩
    · obtain ⟨A, ⟨c', hx', rfl⟩, hA, hstar⟩ := h.signature.type hx
      exact ⟨c'.type, ⟨c', constant?_of_fresh hnew hx', rfl⟩, hA.mono hle, hstar.mono hle⟩
  · intro x e hx
    rw [Signature.find?_define] at hx
    split at hx
    · rename_i hname
      cases hx
      subst hname
      exact hreds
    · rename_i hne
      simp only [Constants.naming]
      rw [atom_cons hne]
      exact (h.signature.value hx).mono hle

theorem declared_define {cs : Constants} {sig : Signature} {c : Constant} {v T : Value}
    (h : ∀ x, cs.constant? x = none ↔ sig.find? x = none) (x : String) :
    constant? (c :: cs) x = none ↔ (sig.define c.name v T).find? x = none := by
  rw [constant?_cons, Signature.find?_define]
  split
  · exact ⟨nofun, nofun⟩
  · exact h x

theorem Ok.postulate {cs : Constants} {sig : Signature} (h : cs.Ok sig) {c : Constant} {T : Value}
    (hc : sig.find? c.name = none) (hbody : c.body = none)
    (htype : HasType cs.theory [] c.type .star)
    (hT : Signature.Member cs.theory cs.Postulated T .star)
    (hconv : Conv cs.theory c.type (T.embed .atom)) :
    Ok (c :: cs) (sig.postulate c.name T) := by
  have hnew := (h.declared c.name).mpr hc
  have hpost : Postulated (c :: cs) c.name := ⟨c, by rw [constant?_cons, if_pos rfl], hbody⟩
  refine ⟨theory_ok_cons h.theory hnew htype fun b hb => ?_, h.define hc hT hconv hpost ?_,
    declared_define h.declared⟩
  · rw [hbody] at hb
    cases hb
  · rw [atom_of_postulated hpost]
    exact .refl

theorem Ok.definition {cs : Constants} {sig : Signature} (h : cs.Ok sig) {c : Constant}
    {v T : Value} {b : Core} (hc : sig.find? c.name = none) (hbody : c.body = some b)
    (htype : HasType cs.theory [] c.type .star) (hb : HasType cs.theory [] b c.type)
    (hT : Signature.Member cs.theory cs.Postulated T .star)
    (hconv : Conv cs.theory c.type (T.embed .atom)) (hv : v.Scoped (Within cs.Postulated 0))
    (hr : Reds cs.theory b (v.embed .atom)) : Ok (c :: cs) (sig.define c.name v T) := by
  have hnew := (h.declared c.name).mpr hc
  have hself : constant? (c :: cs) c.name = some c := by rw [constant?_cons, if_pos rfl]
  refine ⟨theory_ok_cons h.theory hnew htype fun b' hb' => ?_,
    h.define hc hT hconv (hv.mono (within_cons hnew 0)) ?_, declared_define h.declared⟩
  · rw [hbody] at hb'
    cases hb'
    exact hb
  · rw [atom_of_defined hself hbody]
    exact (Reds.delta (theory_definition.mpr ⟨c, b, hself, hbody, rfl⟩)).trans
      (hr.mono (theory_le hnew))

end Constants

/-! ## Accepted declarations -/

/-- The signature is the result of accepted declarations, each of a new name. A name that is defined
has the normal form of the inferred type. -/
inductive Declares : Constants → Signature → Prop where
  | empty : Declares [] ∅
  | postulate {cs : Constants} {sig : Signature} {names : List String} {t : Check} {fuel : Nat}
      {T : Value} (ht : t.Scoped IsGlobal 0) : Declares cs sig →
      t.checkType fuel (.ofSignature sig) = .ok T → names.Nodup →
      (∀ x ∈ names, sig.find? x = none) →
      Declares (names.foldl (fun cs' x => .postulate cs.naming x t ht :: cs') cs)
        (names.foldl (fun sig x => sig.postulate x T) sig)
  | define {cs : Constants} {sig : Signature} {x : String} {t : Synth} {fuel₁ fuel₂ fuel₃ : Nat}
      {v T : Value} {A : Check} (ht : t.Scoped IsGlobal 0) (hA : A.Scoped IsGlobal 0) :
      Declares cs sig → t.infer fuel₁ (.ofSignature sig) = .ok T →
      t.eval fuel₂ ((Context.ofSignature sig).env []) = .ok v → T.quote fuel₃ 0 = .ok A →
      sig.find? x = none → Declares (.define cs.naming x t A ht hA :: cs) (sig.define x v T)

namespace Constants

theorem Ok.postulateAll {cs₀ : Constants} {t : Check} (ht : t.Scoped IsGlobal 0) {T : Value} :
    ∀ (names : List String) {cs : Constants} {sig : Signature}, cs.Ok sig → names.Nodup →
      (∀ x ∈ names, sig.find? x = none) → HasType cs.theory [] (t.core cs₀.naming) .star →
      Signature.Member cs.theory cs.Postulated T .star →
      Conv cs.theory (t.core cs₀.naming) (T.embed .atom) →
      Ok (names.foldl (fun cs' x => .postulate cs₀.naming x t ht :: cs') cs)
        (names.foldl (fun sig x => sig.postulate x T) sig)
  | [], _, _, h, _, _, _, _, _ => h
  | x :: names, cs, sig, h, hnodup, hfresh, htype, hT, hconv => by
    obtain ⟨hx, hnodup⟩ := List.nodup_cons.mp hnodup
    have hxnew := hfresh x List.mem_cons_self
    have hle := theory_le (c := .postulate cs₀.naming x t ht) ((h.declared x).mpr hxnew)
    refine Ok.postulateAll ht names (h.postulate hxnew rfl htype hT hconv) hnodup ?_
      (htype.mono hle) ⟨hT.inScope.mono (within_cons ((h.declared x).mpr hxnew) 0),
        hT.typed.mono hle⟩ (hconv.mono hle)
    intro y hy
    have hne : x ≠ y := by
      rintro rfl
      exact hx hy
    show (sig.define x _ T).find? y = none
    rw [Signature.find?_define, if_neg hne]
    exact hfresh y (List.mem_cons_of_mem x hy)

end Constants

theorem Declares.ok {cs : Constants} {sig : Signature} (h : Declares cs sig) : cs.Ok sig := by
  induction h with
  | empty => exact .empty
  | @postulate cs sig names t fuel T ht _ hT hnodup hfresh ih =>
    obtain ⟨hTm, hhas, hr⟩ := (Signature.checkType_closed ih.theory ih.signature ht).of_eq hT
    exact .postulateAll ht names ih hnodup hfresh (hhas.hasType ih.signature.naming) hTm hr.conv
  | @define cs sig x t fuel₁ fuel₂ fuel₃ v T A ht hA _ hT hv hA' hx ih =>
    obtain ⟨hTm, hhas⟩ := (Signature.infer_closed ih.theory ih.signature ht).of_eq hT
    have htc := hhas.hasType ih.signature.naming
    obtain ⟨hvm, hvr⟩ := (Signature.eval_synth_closed ih.theory ih.signature ht htc).of_eq hv
    obtain ⟨hc, hAt⟩ := Constants.IsType.readBack hTm ih.theory hA'
    exact ih.definition (c := .define cs.naming x t A ht hA) hx rfl hAt (htc.conv hc hAt) hTm
      hc.symm hvm.inScope hvr

/-! ## A definition -/

/-- `Succ (Succ Zero)`. -/
def Synth.two : Synth :=
  .succ none (.synth (.succ none (.synth (.zero none))))

def Constants.two : Constants :=
  [.define (Constants.naming []) "two" .two (.synth (.nat none)) trivial trivial]

def Signature.two : Signature :=
  (∅ : Signature).define "two" (.succ (.succ .zero)) .nat

theorem Declares.two : Declares .two .two :=
  @Declares.define [] ∅ "two" .two 5 5 5 _ _ (.synth (.nat none)) trivial trivial .empty (by rfl)
    (by rfl) (by rfl) (by rfl)

/-- `natElim (λ _. Nat) two (λ _ r. Succ r) n`, where `two` is a name. -/
def Synth.addTwo (n : Synth) : Synth :=
  .natElim none (.lam none none (.synth (.nat none))) (.synth (.free none (.global "two")))
    (.lam none none (.lam none none (.synth (.succ none (.synth (.bound none 0)))))) (.synth n)

/-- The function that adds two. -/
def Check.addTwoFun : Check :=
  .lam none none (.synth (.addTwo (.bound none 0)))

/-- `Nat → Nat`. -/
def Check.natToNat : Check :=
  .synth (.pi none none (.synth (.nat none)) (.synth (.nat none)))

/-- The function that adds two, with its type. -/
def Synth.addTwoFun : Synth :=
  .ann none .addTwoFun .natToNat

theorem Synth.scoped_addTwoFun : addTwoFun.Scoped IsGlobal 0 := by
  simp [addTwoFun, Check.addTwoFun, Check.natToNat, addTwo, Synth.Scoped, Check.Scoped, IsGlobal]

/-! ## What the checker accepts is derivable -/

theorem Declares.isType_of_checkType {cs : Constants} {sig : Signature} (h : Declares cs sig)
    {t : Check} {fuel : Nat} {T : Value} (ht : t.Scoped IsGlobal 0)
    (hT : t.checkType fuel (.ofSignature sig) = .ok T) : cs.IsType T :=
  ((Signature.checkType_closed h.ok.theory h.ok.signature ht).of_eq hT).1

theorem Declares.isType_of_infer {cs : Constants} {sig : Signature} (h : Declares cs sig)
    {t : Synth} {fuel : Nat} {T : Value} (ht : t.Scoped IsGlobal 0)
    (hT : t.infer fuel (.ofSignature sig) = .ok T) : cs.IsType T :=
  ((Signature.infer_closed h.ok.theory h.ok.signature ht).of_eq hT).1

/-- A term has every type that the checker infers for it or accepts it at, in the calculus of the
constants that have been declared. The type is given by its normal form. -/
theorem Declares.derivable {cs : Constants} {sig : Signature} (h : Declares cs sig) {T : Value}
    {A : Check} {fuel fuel' : Nat} (hA : (Context.ofSignature sig).quote fuel' T = .ok A) :
    (∀ t : Synth, t.Scoped IsGlobal 0 → t.infer fuel (.ofSignature sig) = .ok T →
      Synth.Has cs.theory cs.naming [] t (A.core cs.naming)) ∧
    ∀ e : Check, e.Scoped IsGlobal 0 → cs.IsType T →
      e.check fuel (.ofSignature sig) T = .ok () →
      Check.Has cs.theory cs.naming [] e (A.core cs.naming) := by
  obtain ⟨hΘ, hsig, _⟩ := h.ok
  refine ⟨fun t ht hT => ?_, fun e he hT hcheck => ?_⟩
  · obtain ⟨hTm, hhas⟩ := (Signature.infer_closed hΘ hsig ht).of_eq hT
    obtain ⟨hc, hstar⟩ := Constants.IsType.readBack hTm hΘ hA
    exact .conv hhas hc hstar
  · obtain ⟨hc, hstar⟩ := hT.readBack hΘ hA
    exact .conv ((Signature.check_closed hΘ hsig he hT).of_eq hcheck) hc hstar

theorem Declares.addTwoFun_derivable :
    Synth.Has Constants.two.theory Constants.two.naming [] .addTwoFun (.pi .nat .nat) ∧
    Check.Has Constants.two.theory Constants.two.naming [] .addTwoFun (.pi .nat .nat) := by
  let T : Value := .pi none .nat ⟨⟨Signature.two.values, []⟩, .synth (.nat none)⟩
  have hinfer : Synth.addTwoFun.infer 20 (.ofSignature .two) = .ok T := by rfl
  have hcheck : Check.addTwoFun.check 20 (.ofSignature .two) T = .ok () := by rfl
  have hT : Check.natToNat.checkType 20 (.ofSignature .two) = .ok T := by rfl
  obtain ⟨hfun, htype⟩ := Synth.scoped_addTwoFun
  have h := @Declares.derivable _ _ .two T _ 20 20 (by rfl)
  exact ⟨h.1 .addTwoFun ⟨hfun, htype⟩ hinfer,
    h.2 .addTwoFun hfun (two.isType_of_checkType htype hT) hcheck⟩

end TypeInType
