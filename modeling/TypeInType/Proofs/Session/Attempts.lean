import TypeInType.Proofs.Session.Simulation

/-!
# Declarations that fail

Declarations are tried one after another. What they leave behind is what those that succeed would leave
behind by themselves.
-/

namespace TypeInType

/-- The texts of reports, one after another. -/
def reportAll (sources : Sources) : List Complaint → String
  | [] => ""
  | c :: cs => c.report.render sources ++ reportAll sources cs

namespace Session

/-- Of the declarations, `done` succeed when all are tried in turn, and the others are refused for the
complaints. Nothing is tried after a refusal unless `keepGoing`. -/
inductive Tries (keepGoing : Bool) (file : Nat) :
    Session → List Decl → List Decl → List Complaint → Prop where
  | nil {s : Session} : Tries keepGoing file s [] [] []
  | commit {s : Session} {d : Decl} {ds done : List Decl} {cs : List Complaint} {sig : Signature}
      {out : String} : s.declare file d = .ok (sig, out) →
      Tries keepGoing file { s with signature := sig } ds done cs →
      Tries keepGoing file s (d :: ds) (d :: done) cs
  | skip {s : Session} {d : Decl} {ds done : List Decl} {c : Complaint} {cs : List Complaint} :
      keepGoing = true → s.declare file d = .error (.refused c) →
      Tries keepGoing file { s with failed := true } ds done cs →
      Tries keepGoing file s (d :: ds) done (c :: cs)
  | stop {s : Session} {d : Decl} {ds : List Decl} {c : Complaint} : keepGoing = false →
      s.declare file d = .error (.refused c) → Tries keepGoing file s (d :: ds) [] [c]

/-- Commit declarations in turn: the last signature, and all answers. -/
def commitAll (file : Nat) (s : Session) : List Decl → Run Complaint (Signature × String)
  | [] => return (s.signature, "")
  | d :: ds => do
    let (sig, out) ← s.declare file d
    let (sig', out') ← commitAll file { s with signature := sig } ds
    return (sig', out ++ out')

variable {keepGoing : Bool} {file : Nat}

theorem commitAll_failed (b : Bool) : ∀ (ds : List Decl) (s : Session),
    commitAll file { s with failed := b } ds = commitAll file s ds
  | [], _ => rfl
  | d :: ds, s => by
    have hdeclare : { s with failed := b }.declare file d = s.declare file d := by
      cases d <;> rfl
    have ih := fun sig => commitAll_failed b ds { s with signature := sig }
    simp only at ih
    simp only [commitAll, hdeclare, ih]

/-- The session and the texts after declarations of which some are refused. -/
def attempted (s : Session) (sig : Signature) (out : String) (cs : List Complaint) : Reply :=
  ⟨{ s with signature := sig, failed := s.failed || !cs.isEmpty }, out, reportAll s.sources cs⟩

theorem Tries.declareAll {s : Session} {ds done : List Decl} {cs : List Complaint}
    (h : Tries keepGoing file s ds done cs) : ∃ sig out, commitAll file s done = .ok (sig, out) ∧
      Session.declareAll keepGoing file s ds = .ok (s.attempted sig out cs) := by
  induction h with
  | nil => exact ⟨_, _, rfl, by simp [Session.declareAll, attempted, reportAll, pure, Except.pure]⟩
  | @commit s d ds done cs sig out hd _ ih =>
    obtain ⟨sig', out', hcommit, hall⟩ := ih
    refine ⟨sig', out ++ out', ?_, ?_⟩
    · simp only [commitAll, hd]
      exact Run.bind_eq_ok.mpr ⟨_, rfl, Run.bind_eq_ok.mpr ⟨_, hcommit, rfl⟩⟩
    · simp only [Session.declareAll, hd]
      refine Run.bind_eq_ok.mpr ⟨_, hall, congrArg Except.ok ?_⟩
      simp [attempted, Reply.after]
  | @skip s d ds done c cs hkeep hd _ ih =>
    obtain ⟨sig, out, hcommit, hall⟩ := ih
    rw [commitAll_failed] at hcommit
    refine ⟨sig, out, hcommit, ?_⟩
    simp only [Session.declareAll, hd, hkeep, if_true]
    refine Run.bind_eq_ok.mpr ⟨_, hkeep ▸ hall, congrArg Except.ok ?_⟩
    simp [attempted, Reply.after, reportAll, complain]
  | @stop s d ds c hkeep hd =>
    refine ⟨_, _, rfl, ?_⟩
    simp [Session.declareAll, hd, hkeep, attempted, reportAll, complain, pure, Except.pure]

theorem exists_tries : ∀ {ds : List Decl} {s : Session} {r : Reply},
    declareAll keepGoing file s ds = .ok r → ∃ done cs, Tries keepGoing file s ds done cs
  | [], _, _, _ => ⟨[], [], .nil⟩
  | d :: ds, s, r, h => by
    rw [declareAll] at h
    split at h
    · rename_i sig out hd
      obtain ⟨q, hq, _⟩ := Run.bind_eq_ok.mp h
      obtain ⟨done, cs, htries⟩ := exists_tries hq
      exact ⟨d :: done, cs, .commit hd htries⟩
    · rename_i c hd
      by_cases hkeep : keepGoing = true
      · rw [if_pos hkeep] at h
        obtain ⟨q, hq, _⟩ := Run.bind_eq_ok.mp h
        obtain ⟨done, cs, htries⟩ := exists_tries hq
        exact ⟨done, c :: cs, .skip hkeep hd htries⟩
      · exact ⟨[], [c], .stop (Bool.not_eq_true _ ▸ hkeep) hd⟩
    · cases h
    · cases h

/-- Processing declarations ends with a reply if and only if each that is tried succeeds or is refused. The
signature and the answers are those of the declarations that succeed. -/
theorem declareAll_eq_ok_iff {ds : List Decl} {s : Session} {r : Reply} :
    declareAll keepGoing file s ds = .ok r ↔ ∃ done cs sig out, Tries keepGoing file s ds done cs ∧
      commitAll file s done = .ok (sig, out) ∧ r = s.attempted sig out cs := by
  constructor
  · intro h
    obtain ⟨done, cs, htries⟩ := exists_tries h
    obtain ⟨sig, out, hcommit, hall⟩ := htries.declareAll
    exact ⟨done, cs, sig, out, htries, hcommit, Except.ok.inj (h.symm.trans hall)⟩
  · rintro ⟨done, cs, sig, out, htries, hcommit, rfl⟩
    obtain ⟨sig', out', hcommit', hall⟩ := htries.declareAll
    cases hcommit.symm.trans hcommit'
    exact hall

end Session

end TypeInType
