import TypeInType.Proofs.Session.Origins
import TypeInType.Proofs.Typing.Completeness

/-!
# Signatures stay well formed

The entries of a signature keep their types when other names are declared anew, since their values go on
using the names as they were. Their normal forms do not: they are terms, and a name in a term is the name
as it is now. So the normal forms are accepted as long as the names that they mention are the postulates
that the entries rest on.
-/

namespace TypeInType

open TypeInType.Core (HasType Reds Conv)

/-! ## Normal forms -/

/-- `r` is the normal form of the closed value. -/
def Value.HasForm (v : Value) (r : Check) : Prop :=
  Run.Settles (fun fuel => v.quote fuel 0) r

/-- The values have equal normal forms. -/
def Value.SameForm (v v' : Value) : Prop :=
  ∃ r r', v.HasForm r ∧ v'.HasForm r' ∧ r.alphaEq r' = true

theorem Value.HasForm.of_quote {v : Value} {fuel : Nat} {r : Check} (h : v.quote fuel 0 = .ok r) :
    v.HasForm r :=
  ⟨fuel, fun _ hfuel => Value.quote_mono hfuel h⟩

theorem Value.HasForm.global (x : String) :
    (Value.free (.global x)).HasForm (.synth (.free none (.global x))) :=
  @Value.HasForm.of_quote _ 2 _ rfl

theorem Value.HasForm.quote {v : Value} {r : Check} : v.HasForm r → ∃ fuel, v.quote fuel 0 = .ok r
  | ⟨n, h⟩ => ⟨n, h n (Nat.le_refl n)⟩

theorem Value.HasForm.sim {v v' : Value} {r : Check} (h : v.HasForm r) (hv : v.Sim Eq v') :
    v'.HasForm r := by
  obtain ⟨n, h⟩ := h
  exact ⟨n, fun fuel hfuel => (hv.quote_eq fuel 0).symm.trans (h fuel hfuel)⟩

theorem Value.SameForm.sim {v v' w w' : Value} (h : v.SameForm w) (hv : v.Sim Eq v')
    (hw : w.Sim Eq w') : v'.SameForm w' := by
  obtain ⟨r, r', hr, hr', heq⟩ := h
  exact ⟨r, r', hr.sim hv, hr'.sim hw, heq⟩

theorem Value.SameForm.conv {Θ : Theory} {G : String → Prop} {v v' : Value} (h : v.SameForm v')
    (hv : v.Scoped (Within G 0)) (hv' : v'.Scoped (Within G 0)) :
    Conv Θ (v.embed .atom) (v'.embed .atom) := by
  obtain ⟨r, r', hr, hr', heq⟩ := h
  obtain ⟨fuel, hr⟩ := hr.quote
  obtain ⟨fuel', hr'⟩ := hr'.quote
  exact (Value.alphaEq_iff_conv (fun _ h => h) hv hv' hr hr').mp heq

/-! ## Normal forms in a sound signature -/

theorem Check.scoped_within_zero {G : String → Prop} {t : Check} {k : Nat} :
    t.Scoped (Within G 0) k ↔ t.Scoped IsGlobal k ∧ ∀ x ∈ t.globals, G x := by
  have hwithin : Within G 0 = fun x => IsGlobal x ∧ x.GlobalIn G := by
    funext x
    cases x <;> simp [Within, IsGlobal, Name.GlobalIn]
  rw [hwithin]
  exact t.scoped_and_globalIn k

namespace Signature

/-- The name is a postulate, and every type that it has been recorded with is convertible to its own. -/
def Steady (R : Record) (sig : Signature) (x : String) : Prop :=
  ∃ T, sig.Postulates x T ∧ ∀ T', (x, T') ∈ R → Conv R.theory (T.embed .atom) (T'.embed .atom)

variable {R : Record} {sig : Signature}

theorem Steady.term {x : String} (h : sig.Steady R x) :
    sig.naming.term x = .atom (.postulate x) := by
  obtain ⟨T, hpost, _⟩ := h
  obtain ⟨e, he, hvalue, _⟩ := postulates_iff.mp hpost
  simp only [Signature.naming, he, hvalue]
  rfl

/-- Steady names have one type, up to conversion. -/
theorem naming_principal (R : Record) (sig : Signature) :
    sig.naming.Principal R.theory (Within (sig.Steady R) 0) := by
  rintro Γ x A B hsteady h ⟨e, hx, rfl⟩
  rw [Steady.term hsteady] at h
  obtain ⟨T, hpost, hconv⟩ := hsteady
  obtain ⟨e', hx', _, rfl⟩ := postulates_iff.mp hpost
  cases hx.symm.trans hx'
  obtain ⟨_, ⟨T', hT', rfl⟩, hc⟩ := h.inv
  exact (hconv T' hT').trans hc

/-- A normal form that mentions steady names only has the type of the value. -/
theorem Sound.readBack (h : sig.Sound R) {v : Value} {A : Core} (hv : R.Member v A) {fuel : Nat}
    {r : Check} (hr : v.quote fuel 0 = .ok r) (hsteady : ∀ x ∈ r.globals, sig.Steady R x) :
    r.Scoped (Within (sig.Steady R) 0) 0 ∧ HasType R.theory [] (r.core sig.naming) A := by
  have hglobal : r.Scoped IsGlobal 0 := (hv.inScope.quote_within hr).mono Within.isGlobal
  have hs : r.Scoped (Within (sig.Steady R) 0) 0 := Check.scoped_within_zero.mpr ⟨hglobal, hsteady⟩
  have hreds : Reds R.theory (v.embed .atom) (r.core sig.naming) :=
    Value.quote_reds_core hv.inScope hr hs fun _ hx => Steady.term hx
  exact ⟨hs, hv.typed.reds h.theory .nil hreds⟩

end Signature

/-! ## Entries -/

/-- A normal form mentions names that the entry rests on. -/
theorem Entry.RestsOn.globals {V : Record} {e : Entry} (h : e.RestsOn V) {r : Check}
    (hr : e.type.HasForm r ∨ e.value.HasForm r) : ∀ x ∈ r.globals, ∃ T, (x, T) ∈ V := by
  obtain ⟨R, e', _, hcopies, he', hvalue, htype⟩ := h
  have hknown : r.Scoped (Within R.Knows 0) 0 := by
    rcases hr with hr | hr
    · obtain ⟨_, hr⟩ := (hr.sim htype).quote
      exact he'.type.inScope.quote_within hr
    · obtain ⟨_, hr⟩ := (hr.sim hvalue).quote
      exact he'.value.inScope.quote_within hr
  intro x hx
  obtain ⟨T', hT'⟩ := (Check.scoped_within_zero.mp hknown).2 x hx
  obtain ⟨T, hT, _⟩ := hcopies (x, T') hT'
  exact ⟨T, hT⟩

namespace Session

/-- The values and the types of all entries have normal forms, since they have been answered. -/
theorem History.hasForms {past : List (Decl × Signature)} {s : Session} (h : History past s) :
    ∀ e ∈ s.signature.entries, (∃ A, e.type.HasForm A) ∧ ∃ r, e.value.HasForm r := by
  induction h with
  | cleared hs =>
    rw [hs]
    exact nofun
  | @declared s _ _ _ sig _ _ hd ih =>
    have hcommits : s.Commits _ sig := declare_commits hd
    show ∀ e ∈ sig.entries, _
    intro e he
    cases hcommits with
    | postulate _ _ hA =>
      rcases Signature.mem_postulateAll he with ⟨x, _, rfl⟩ | he
      · exact ⟨⟨_, .of_quote hA⟩, _, .global x⟩
      · exact ih e he
    | define _ _ _ hA hb =>
      rcases Signature.mem_define he with rfl | he
      · exact ⟨⟨_, .of_quote hA⟩, _, .of_quote hb⟩
      · exact ih e he
    | request _ => exact ih e he
  | unchanged _ hs ih =>
    rw [hs]
    exact ih

/-- The names in the term are postulates of the signature, of the types, up to equal normal forms, of which
they were when `x` or the names in the term came to rest on them. -/
def Unvaried (past : List (Decl × Signature)) (s : Session) (x : String) (r : Check) : Prop :=
  ∀ y ∈ r.globals, ∃ T, s.signature.Postulates y T ∧
    ∀ z ∈ x :: r.globals, ∀ T', (y, T') ∈ origins past z → T.SameForm T'

/-- An entry and the names in a term have similar ones in a signature in which the names are steady. -/
theorem History.exists_steady {past : List (Decl × Signature)} {s : Session} (h : History past s)
    {x : String} {e : Entry} (hx : s.signature.find? x = some e) {r : Check}
    (hr : s.Unvaried past x r) : ∃ R sig e', Signature.Sound R sig ∧ Entry.Sound R e' ∧
      e.Sim Eq e' ∧ s.signature.Sim Eq (· ∈ r.globals) sig ∧ ∀ y ∈ r.globals, sig.Steady R y := by
  obtain ⟨Rx, e', hRx, hcopiesx, he', hesim⟩ := h.restsOn x e hx
  obtain ⟨Rr, sig, hRr, hcopiesr, hsound, hsim⟩ := Signature.exists_copy h.restsOn r.globals
  have hR := hRx.append hRr
  have hcopies := hcopiesx.append hcopiesr
  have hsound' := hsound.mono (List.subset_append_right Rx Rr) hR.theory
  refine ⟨Rx ++ Rr, sig, e', hsound', he'.mono (List.subset_append_left Rx Rr), hesim,
    fun y hy => hsim y (.inl hy), fun y hy => ?_⟩
  obtain ⟨T, hpost, hsame⟩ := hr y hy
  obtain ⟨ey, hey, hvalue, rfl⟩ := Signature.postulates_iff.mp hpost
  obtain ⟨ey', hey', heysim⟩ := hsim.exists_right (.inl hy) hey
  have hvalue' := heysim.1.eq_free_iff.mp hvalue
  refine ⟨ey'.type, Signature.postulates_iff.mpr ⟨ey', hey', hvalue', rfl⟩, fun T' hT' => ?_⟩
  obtain ⟨T₀, hT₀, hTsim⟩ := hcopies (y, T') hT'
  obtain ⟨z, hz, hT₀⟩ := List.mem_flatMap.mp
    (show (y, T₀) ∈ (x :: r.globals).flatMap (origins past) from hT₀)
  exact ((hsame z hz T₀ hT₀).sim heysim.2 hTsim).conv (hsound'.find hey').type.inScope
    (hR (y, T') hT').inScope

/-- The type and the value of an entry have normal forms, which mention names that the entry rests on. If
these are unvaried, whatever else has been declared anew, then the normal form of the type is accepted as
a type, and that of the value at the type, if the checks end. -/
theorem History.normalForms_accepted {past : List (Decl × Signature)} {s : Session}
    (h : History past s) {x : String} {e : Entry} (hx : s.signature.find? x = some e) :
    (∃ A, e.type.HasForm A) ∧ (∃ r, e.value.HasForm r) ∧
    (∀ r, e.type.HasForm r ∨ e.value.HasForm r → ∀ y ∈ r.globals,
      ∃ T, (y, T) ∈ origins past x ∧ ∃ p ∈ past, p.2.Postulates y T) ∧
    (∀ A, e.type.HasForm A → s.Unvaried past x A → ∀ fuel,
      (∃ T, A.checkType fuel s.context = .ok T) ∨
        A.checkType fuel s.context = .error .outOfFuel) ∧
    (∀ r, e.value.HasForm r → s.Unvaried past x r → ∀ fuel,
      r.check fuel s.context e.type = .ok () ∨
        r.check fuel s.context e.type = .error .outOfFuel) := by
  obtain ⟨hA, hr⟩ := h.hasForms e (List.mem_of_find?_eq_some hx)
  refine ⟨hA, hr, fun r hr y hy => ?_, fun A hA hvar fuel => ?_, fun r hr hvar fuel => ?_⟩
  · obtain ⟨T, hT⟩ := (h.restsOn x e hx).globals hr y hy
    exact ⟨T, hT, exists_postulates_of_mem_origins hT⟩
  · obtain ⟨R, sig, e', hs, he', hesim, hsim, hsteady⟩ := h.exists_steady hx hvar
    obtain ⟨_, hA⟩ := (hA.sim hesim.2).quote
    obtain ⟨hAs, hAt⟩ := hs.readBack he'.type hA hsteady
    have hend : (A.checkType fuel (.ofSignature sig)).Ends (fun _ => False) fun _ => True :=
      Signature.checkType_closed_complete hs.theory Within.isGlobal
        (Signature.naming_principal R sig) hs.ok hAs (Value.quote_plain hA) hAt
    exact ((Check.checkType_sim fuel A.alike_globals hsim.context).ends hend).ok_or_outOfFuel
  · obtain ⟨R, sig, e', hs, he', hesim, hsim, hsteady⟩ := h.exists_steady hx hvar
    obtain ⟨_, hr⟩ := (hr.sim hesim.1).quote
    obtain ⟨hrs, hrt⟩ := hs.readBack he'.value hr hsteady
    have hend : (r.check fuel (.ofSignature sig) e'.type).Ends (fun _ => False) fun _ => True :=
      Signature.check_closed_complete hs.theory Within.isGlobal
        (Signature.naming_principal R sig) hs.ok hrs (Value.quote_plain hr) he'.type hrt
    have hrel := Check.check_sim fuel r.alike_globals hsim.context hesim.2
    rcases (hrel.ends hend).ok_or_outOfFuel with ⟨⟨⟩, hok⟩ | hfuel
    · exact .inl hok
    · exact .inr hfuel

/-- After `axiom A : Nat`, `axiom A : *`, `axiom a : A`, `defun b = a` and `defun c = b`, `axiom b : *` is
declared. -/
theorem redeclared_accepted : ∃ past s e A r, History past s ∧ s.signature.find? "c" = some e ∧
    (∃ p ∈ past, p.2.Postulates "A" .nat) ∧ s.signature.Postulates "A" .star ∧
    (∃ p ∈ past, p.2.isPostulate "b" = false) ∧ s.signature.Postulates "b" .star ∧
    e.type.HasForm A ∧ e.value.HasForm r ∧ s.Unvaried past "c" A ∧ s.Unvaried past "c" r ∧
    ∀ fuel, ((∃ T, A.checkType fuel s.context = .ok T) ∨
        A.checkType fuel s.context = .error .outOfFuel) ∧
      (r.check fuel s.context e.type = .ok () ∨
        r.check fuel s.context e.type = .error .outOfFuel) := by
  let s (sig : Signature) : Session := { initial with signature := sig, fuel := 20 }
  let x (name : String) : Ident := ⟨default, name⟩
  let var (name : String) : Expr := .var default name
  let star : Expr := .star default
  let A : Entry := ⟨"A", .free (.global "A"), .star⟩
  let a : Entry := ⟨"a", .free (.global "a"), .free (.global "A")⟩
  let b : Entry := ⟨"b", .free (.global "a"), .free (.global "A")⟩
  let c : Entry := ⟨"c", .free (.global "a"), .free (.global "A")⟩
  let A₁ : Entry := ⟨"A", .free (.global "A"), .nat⟩
  let b₂ : Entry := ⟨"b", .free (.global "b"), .star⟩
  let d₁ : Decl := .postulate default [x "A"] (var "Nat")
  let d₂ : Decl := .postulate default [x "A"] star
  let d₃ : Decl := .postulate default [x "a"] (var "A")
  let d₄ : Decl := .define default (x "b") (var "a")
  let d₅ : Decl := .define default (x "c") (var "b")
  let d₆ : Decl := .postulate default [x "b"] star
  let past : List (Decl × Signature) :=
    [(d₆, ⟨[A, a, b₂, c]⟩), (d₅, ⟨[A, a, b, c]⟩), (d₄, ⟨[A, a, b]⟩), (d₃, ⟨[A, a]⟩), (d₂, ⟨[A]⟩),
      (d₁, ⟨[A₁]⟩)]
  have h₁ := @History.declared (s ∅) [] 0 d₁ ⟨[A₁]⟩ _ (.cleared rfl) rfl
  have h₂ := @History.declared (s ⟨[A₁]⟩) _ 0 d₂ ⟨[A]⟩ _ h₁ rfl
  have h₃ := @History.declared (s ⟨[A]⟩) _ 0 d₃ ⟨[A, a]⟩ _ h₂ rfl
  have h₄ := @History.declared (s ⟨[A, a]⟩) _ 0 d₄ ⟨[A, a, b]⟩ _ h₃ rfl
  have h₅ := @History.declared (s ⟨[A, a, b]⟩) _ 0 d₅ ⟨[A, a, b, c]⟩ _ h₄ rfl
  have h : History past (s ⟨[A, a, b₂, c]⟩) :=
    @History.declared (s ⟨[A, a, b, c]⟩) _ 0 d₆ ⟨[A, a, b₂, c]⟩ _ h₅ rfl
  -- Nothing rests on `A` as a number.
  have hc : origins past "c" = [("a", .free (.global "A")), ("A", .star)] := rfl
  have ha : origins past "a" = [("a", .free (.global "A")), ("A", .star)] := rfl
  have hA : origins past "A" = [("A", .star)] := rfl
  have hstar : Value.star.HasForm (.synth (.star none)) := @Value.HasForm.of_quote _ 1 _ rfl
  have hvarA : (s ⟨[A, a, b₂, c]⟩).Unvaried past "c" (.synth (.free none (.global "A"))) := by
    have htypes : ∀ z ∈ ["c", "A"], ∀ T, ("A", T) ∈ origins past z → T = .star := by simp [hc, hA]
    refine List.forall_mem_singleton.mpr ⟨.star, ⟨rfl, rfl⟩, fun z hz T hT => ?_⟩
    rw [htypes z hz T hT]
    exact ⟨_, _, hstar, hstar, rfl⟩
  have hvara : (s ⟨[A, a, b₂, c]⟩).Unvaried past "c" (.synth (.free none (.global "a"))) := by
    have htypes : ∀ z ∈ ["c", "a"], ∀ T, ("a", T) ∈ origins past z → T = .free (.global "A") := by
      simp [hc, ha]
    refine List.forall_mem_singleton.mpr ⟨.free (.global "A"), ⟨rfl, rfl⟩, fun z hz T hT => ?_⟩
    rw [htypes z hz T hT]
    exact ⟨_, _, .global "A", .global "A", rfl⟩
  obtain ⟨_, _, _, htype, hvalue⟩ := @History.normalForms_accepted _ _ h "c" c rfl
  refine ⟨past, _, c, _, _, h, rfl, ⟨(d₁, ⟨[A₁]⟩), by simp [past], rfl, rfl⟩, ⟨rfl, rfl⟩,
    ⟨(d₄, ⟨[A, a, b]⟩), by simp [past], rfl⟩, ⟨rfl, rfl⟩, .global "A", .global "a", hvarA, hvara,
    fun fuel => ⟨?_, ?_⟩⟩
  · exact htype _ (.global "A") hvarA fuel
  · exact hvalue _ (.global "a") hvara fuel

/-- After `axiom A : *` and `axiom a : A`, `axiom A : Nat` is declared: the type of `a` is refused. After
`axiom n : Nat`, `axiom G : Vec Nat n -> *` and `defun F = (forall (x : Vec Nat n), G x) : *`,
`defun n = 3` is declared, of the same type: the value of `F` is refused. -/
theorem redeclared_refused :
    let x (name : String) : Ident := ⟨default, name⟩
    let var (name : String) : Expr := .var default name
    let vec : Expr := .app default (.app default (var "Vec") (var "Nat")) (var "n")
    let ds : List Decl :=
      [.postulate default [x "A"] (.star default), .postulate default [x "a"] (var "A"),
        .postulate default [x "A"] (var "Nat")]
    let ds' : List Decl :=
      [.postulate default [x "n"] (var "Nat"),
        .postulate default [x "G"] (.pi default none vec (.star default)),
        .define default (x "F") (.ann default
          (.pi default (x "x") vec (.app default (var "G") (var "x"))) (.star default)),
        .define default (x "n") (.number default 3)]
    (∃ r e A err, initial.declareAll false 0 ds = .ok r ∧ r.err = "" ∧
      r.session.signature.find? "a" = some e ∧ e.type.HasForm A ∧
      A.checkType 20 r.session.context = .error (.refused err)) ∧
    ∃ r e f err, initial.declareAll false 0 ds' = .ok r ∧ r.err = "" ∧
      r.session.signature.find? "F" = some e ∧ e.value.HasForm f ∧
      f.check 20 r.session.context e.type = .error (.refused err) :=
  ⟨⟨_, _, _, _, rfl, rfl, rfl, @Value.HasForm.of_quote _ 20 _ rfl, rfl⟩,
    _, _, _, _, rfl, rfl, rfl, @Value.HasForm.of_quote _ 20 _ rfl, rfl⟩

end Session

end TypeInType
