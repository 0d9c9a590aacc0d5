import TypeInType.Proofs.Session.Simulation

/-!
# Independent declarations

Two declarations neither of which uses or declares a name that the other declares may be exchanged. The
closures that they leave in the signature hold different environments, but no later declaration sees the
difference: only the names that errors suggest depend on the order.
-/

namespace TypeInType

/-- The error without the name that it suggests. -/
def TypeError.unsuggested : TypeError → TypeError
  | .undefinedVariable span x _ => .undefinedVariable span x none
  | e => e

def Complaint.unsuggested : Complaint → Complaint
  | .typing e => .typing e.unsuggested
  | c => c

theorem TypeError.Alike.unsuggested_eq {e e' : TypeError}
    (h : e.Alike (.places Eq Any rfl) e') : e.unsuggested = e'.unsuggested := by
  cases h with
  | mismatch hs he hf =>
    cases hs
    rw [Check.Alike.eq he, Check.Alike.eq hf]
  | undefinedVariable hs _ =>
    cases hs
    rfl
  | expectedFunction hs ht =>
    cases hs
    rw [Check.Alike.eq ht]
  | unexpectedLambda hs ht =>
    cases hs
    rw [Check.Alike.eq ht]

theorem ElabError.Alike.eq {e e' : ElabError} (h : e.Alike Eq e') : e = e' := by
  cases h <;> subst_vars <;> rfl

theorem Complaint.Alike.unsuggested_eq {c c' : Complaint}
    (h : c.Alike (.places Eq Any rfl) c') : c.unsuggested = c'.unsuggested := by
  cases h with
  | elaboration he => rw [ElabError.Alike.eq he]
  | typing he => exact congrArg Complaint.typing he.unsuggested_eq

namespace Session

/-- In similar sessions an expression has the same answer, or is refused for the same reason. -/
theorem Sim.evaluate_eq {s s' : Session} (h : s.Sim (fun _ => True) s') (file : Nat) (e : Expr) :
    (s.evaluate file e).mapRefused Complaint.unsuggested =
      (s'.evaluate file e).mapRefused Complaint.unsuggested := by
  have hrel := h.evaluate (Q := Any) rfl (fun _ => trivial) (Expr.Alike.refl file (e := e) fun _ _ => trivial)
  exact (hrel.mapRefused fun _ _ hc => hc.unsuggested_eq).eq

/-- A session whose signature has the same entries for the names that satisfy `G`. -/
theorem Sim.of_find? (s : Session) {G : String → Prop} {sig sig' : Signature}
    (h : ∀ x, G x → sig.find? x = sig'.find? x) :
    Sim G { s with signature := sig } { s with signature := sig' } where
  signature := .of_find? (fun _ => rfl) h
  fuel := rfl
  width := rfl

/-- Independent declarations that succeed in one order succeed in the other, with the same answers. Every
name has the same normal forms afterwards, and later expressions the same answers; if one is refused,
then for the same reason. -/
theorem declare_comm {s : Session} {file₁ file₂ : Nat} {d₁ d₂ : Decl} {sig₁ sig₁₂ : Signature}
    {out₁ out₂ : String} (hnames : ∀ x ∈ d₁.names, x ∉ d₂.names)
    (h₁ : ∀ x ∈ d₁.globals, x ∉ d₂.names) (h₂ : ∀ x ∈ d₂.globals, x ∉ d₁.names)
    (hd₁ : s.declare file₁ d₁ = .ok (sig₁, out₁))
    (hd₂ : { s with signature := sig₁ }.declare file₂ d₂ = .ok (sig₁₂, out₂)) :
    ∃ sig₂ sig₂₁, s.declare file₂ d₂ = .ok (sig₂, out₂) ∧
      { s with signature := sig₂ }.declare file₁ d₁ = .ok (sig₂₁, out₁) ∧
      sig₁₂.SameForms sig₂₁ ∧
      ∀ keepGoing file ds, (declareAll keepGoing file { s with signature := sig₁₂ } ds).Rel Eq
        (fun r r' => r.out = r'.out ∧ ∀ file e,
          (r.session.evaluate file e).mapRefused Complaint.unsuggested =
            (r'.session.evaluate file e).mapRefused Complaint.unsuggested)
        (declareAll keepGoing file { s with signature := sig₂₁ } ds) := by
  have hframe₁ : Sim (· ∉ d₁.names) { s with signature := sig₁ } s :=
    .of_find? s fun _ hx => (declare_commits hd₁).frame hx
  obtain ⟨sig₂, hd₂', hsim₂⟩ := hframe₁.declare_eq_ok h₂ hd₂
  have hframe₂ : Sim (· ∉ d₂.names) s { s with signature := sig₂ } :=
    .of_find? s fun _ hx => ((declare_commits hd₂').frame hx).symm
  obtain ⟨sig₂₁, hd₁', hsim₁⟩ := hframe₂.declare_eq_ok h₁ hd₁
  refine ⟨sig₂, sig₂₁, hd₂', hd₁', ?_⟩
  -- Each name has been declared by the first declaration, by the second or by neither.
  have hsim : sig₁₂.Sim Eq (fun _ => True) sig₂₁ := by
    intro x _
    by_cases hx₁ : x ∈ d₁.names
    · rw [(declare_commits hd₂).frame (hnames x hx₁)]
      exact hsim₁ x hx₁
    · rw [(declare_commits hd₁').frame hx₁]
      by_cases hx₂ : x ∈ d₂.names
      · exact hsim₂ x hx₂
      · rw [(declare_commits hd₂).frame hx₂, (declare_commits hd₂').frame hx₂]
        exact hframe₁.signature x hx₁
  refine ⟨hsim.sameForms, fun keepGoing file ds => ?_⟩
  have hsession : Sim (fun _ => True) { s with signature := sig₁₂ } { s with signature := sig₂₁ } :=
    ⟨hsim, rfl, rfl⟩
  refine (hsession.declareAll (fun _ => rfl) keepGoing (Decl.forall₂_alike file ds)).mono (fun _ _ h => h) ?_
  rintro r r' ⟨hr, _⟩
  exact ⟨hr.out, fun file e => hr.session.evaluate_eq file e⟩

/-- With `n : Nat`, an axiom `p : Vec Nat n` and a definition `m = Succ n`. -/
theorem postulate_define_comm :
    let s := { initial with signature := (∅ : Signature).postulate "n" .nat, fuel := 20 }
    let r₀ : Range := ⟨0, 0⟩
    let n := Expr.var r₀ "n"
    let d₁ := Decl.postulate r₀ [⟨r₀, "p"⟩] (.app r₀ (.app r₀ (.var r₀ "Vec") (.var r₀ "Nat")) n)
    let d₂ := Decl.define r₀ ⟨r₀, "m"⟩ (.app r₀ (.var r₀ "Succ") n)
    ∃ sig₁ sig₂ sig₁₂ sig₂₁ out₁ out₂, s.declare 1 d₁ = .ok (sig₁, out₁) ∧
      { s with signature := sig₁ }.declare 1 d₂ = .ok (sig₁₂, out₂) ∧
      s.declare 1 d₂ = .ok (sig₂, out₂) ∧
      { s with signature := sig₂ }.declare 1 d₁ = .ok (sig₂₁, out₁) ∧ sig₁₂.SameForms sig₂₁ := by
  intro s r₀ n d₁ d₂
  have hd₁ : s.declare 1 d₁ = .ok (_, _) := rfl
  obtain ⟨sig₂, sig₂₁, hd₂', hd₁', hforms, _⟩ :=
    @declare_comm s 1 1 d₁ d₂ _ _ _ _ (by decide) (by decide) (by decide) hd₁ (by rfl)
  exact ⟨_, sig₂, _, sig₂₁, _, _, hd₁, rfl, hd₂', hd₁', hforms⟩

end Session

end TypeInType
