import TypeInType.Proofs.Session.Simulation

/-!
# What the entries of a signature rest on

A declaration uses names as they are when it is made. So a name rests on postulates as they were then,
and on nothing that has been declared before or since: there is a signature of these postulates alone
in which its type and its value are well typed, up to the environments of closures.
-/

namespace TypeInType

/-! ## Postulates -/

namespace Signature

/-- The name is a postulate of the signature, with the type. -/
def Postulates (sig : Signature) (x : String) (T : Value) : Prop :=
  sig.isPostulate x = true ∧ sig.type? x = some T

theorem postulates_iff {sig : Signature} {x : String} {T : Value} :
    sig.Postulates x T ↔ ∃ e, sig.find? x = some e ∧ e.value = .free (.global x) ∧ e.type = T := by
  rw [Postulates, isPostulate_iff, type?]
  constructor
  · rintro ⟨⟨e, he, hvalue⟩, hT⟩
    rw [he] at hT
    exact ⟨e, he, hvalue, Option.some.inj hT⟩
  · rintro ⟨e, he, hvalue, rfl⟩
    rw [he]
    exact ⟨⟨e, rfl, hvalue⟩, rfl⟩

/-- The name with its type, if it is a postulate of the signature. -/
def postulate? (sig : Signature) (x : String) : Record :=
  if sig.isPostulate x then (sig.type? x).toList.map fun T => (x, T) else []

theorem mem_postulate? {sig : Signature} {x y : String} {T : Value} :
    (y, T) ∈ sig.postulate? x ↔ y = x ∧ sig.Postulates x T := by
  simp only [postulate?, Postulates]
  split
  · rename_i hx
    simp only [List.mem_map, Option.mem_toList, Prod.mk.injEq, hx, true_and]
    constructor
    · rintro ⟨_, hT, rfl, rfl⟩
      exact ⟨rfl, hT⟩
    · rintro ⟨rfl, hT⟩
      exact ⟨T, hT, rfl, rfl⟩
  · rename_i hx
    simp [hx]

end Signature

/-! ## Records -/

namespace Record

/-- Every type of the record is one in its theory. -/
def Closed (R : Record) : Prop :=
  ∀ p ∈ R, R.Member p.2 .star

/-- Every postulate of the record is similar to one of `V`. -/
def Copies (R V : Record) : Prop :=
  ∀ p ∈ R, ∃ T, (p.1, T) ∈ V ∧ T.Sim Eq p.2

variable {R R' V V' : Record}

theorem Closed.theory (h : R.Closed) : R.theory.Ok := by
  refine ⟨?_, nofun, nofun⟩
  rintro x A ⟨T, hT, rfl⟩
  exact (h (x, T) hT).typed

theorem Closed.append (h : R.Closed) (h' : R'.Closed) : Closed (R ++ R') := by
  intro p hp
  rcases List.mem_append.mp hp with hp | hp
  · exact (h p hp).mono (List.subset_append_left R R')
  · exact (h' p hp).mono (List.subset_append_right R R')

theorem Closed.cons (h : R.Closed) (x : String) {T : Value} (hT : R.Member T .star) :
    Closed ((x, T) :: R) := by
  have hsub : R ⊆ (x, T) :: R := List.subset_cons_self _ _
  exact List.forall_mem_cons.mpr ⟨hT.mono hsub, fun p hp => (h p hp).mono hsub⟩

theorem Copies.append (h : R.Copies V) (h' : R'.Copies V') : Copies (R ++ R') (V ++ V') := by
  intro p hp
  rcases List.mem_append.mp hp with hp | hp
  · obtain ⟨T, hT, hsim⟩ := h p hp
    exact ⟨T, List.mem_append_left V' hT, hsim⟩
  · obtain ⟨T, hT, hsim⟩ := h' p hp
    exact ⟨T, List.mem_append_right V hT, hsim⟩

theorem Copies.mono (hV : V ⊆ V') (h : R.Copies V) : R.Copies V' := by
  intro p hp
  obtain ⟨T, hT, hsim⟩ := h p hp
  exact ⟨T, hV hT, hsim⟩

end Record

theorem Value.Sim.eq_free_iff {N : Option String → Option String → Prop} {v v' : Value}
    (h : v.Sim N v') {x : Name} : v = .free x ↔ v' = .free x := by
  cases h with
  | neutral hn => cases hn <;> simp [Value.free]
  | _ => simp [Value.free]

/-- The entry is similar to one that is well typed in a theory of postulates like those of `V`. -/
def Entry.RestsOn (V : Record) (e : Entry) : Prop :=
  ∃ R e', Record.Closed R ∧ R.Copies V ∧ Entry.Sound R e' ∧ e.Sim Eq e'

/-- The names have entries that are similar to those of a signature that is well typed in a theory of
postulates like those that the names rest on. -/
theorem Signature.exists_copy {sig : Signature} {V : String → Record}
    (h : ∀ x e, sig.find? x = some e → e.RestsOn (V x)) : ∀ names : List String,
    ∃ R sig', Record.Closed R ∧ R.Copies (names.flatMap V) ∧ Signature.Sound R sig' ∧
      sig.Sim Eq (fun x => x ∈ names ∨ sig.find? x = none) sig'
  | [] => by
    have hclosed : Record.Closed [] := nofun
    refine ⟨[], ∅, hclosed, nofun, .empty hclosed.theory, ?_⟩
    rintro x (hx | hx)
    · cases hx
    · rw [hx]
      exact .none
  | y :: names => by
    obtain ⟨R, sig', hR, hcopies, hsound, hsim⟩ := Signature.exists_copy h names
    cases hy : sig.find? y with
    | none =>
      refine ⟨R, sig', hR, hcopies.mono (List.subset_append_right (V y) _), hsound, fun x hx => ?_⟩
      refine hsim x ?_
      rcases hx with hx | hx
      · rcases List.mem_cons.mp hx with rfl | hx
        · exact .inr hy
        · exact .inl hx
      · exact .inr hx
    | some e =>
      obtain ⟨Ry, e', hRy, hcopiesy, he', hesim⟩ := h y e hy
      have hsub : Ry ⊆ Ry ++ R := List.subset_append_left Ry R
      have hsub' : R ⊆ Ry ++ R := List.subset_append_right Ry R
      have hclosed := hRy.append hR
      refine ⟨Ry ++ R, sig'.define y e'.value e'.type, hclosed, hcopiesy.append hcopies,
        (hsound.mono hsub' hclosed.theory).define y (he'.type.mono hsub) (he'.value.mono hsub), ?_⟩
      intro x hx
      rw [Signature.find?_define]
      split
      · rename_i hyx
        rw [← hyx, hy]
        exact .some hesim
      · rename_i hyx
        refine hsim x ?_
        rcases hx with hx | hx
        · exact .inl ((List.mem_cons.mp hx).resolve_left (Ne.symm hyx))
        · exact .inr hx

/-! ## Histories -/

namespace Session

/-- The session has made the declarations, the last one first, since it last had no names. Each stands
with the signature that it left. -/
inductive History : List (Decl × Signature) → Session → Prop where
  | cleared {s : Session} : s.signature = ∅ → History [] s
  | declared {s : Session} {past : List (Decl × Signature)} {file : Nat} {d : Decl}
      {sig : Signature} {out : String} : History past s → s.declare file d = .ok (sig, out) →
      History ((d, sig) :: past) { s with signature := sig }
  | unchanged {s s' : Session} {past : List (Decl × Signature)} : History past s →
      s'.signature = s.signature → History past s'

/-- The postulates that a name rests on, each with the type that it had: the name itself, if it is one,
and those that the names in its declaration rested on. -/
def origins : List (Decl × Signature) → String → Record
  | [], _ => []
  | (d, sig) :: past, x =>
    if x ∈ d.names then sig.postulate? x ++ d.globals.flatMap (origins past) else origins past x

/-- What a name rests on has been postulated. -/
theorem exists_postulates_of_mem_origins {y : String} {T : Value} :
    ∀ {past : List (Decl × Signature)} {x : String}, (y, T) ∈ origins past x →
      ∃ p ∈ past, p.2.Postulates y T
  | (d, sig) :: past, x, h => by
    rw [origins] at h
    split at h
    · rcases List.mem_append.mp h with h | h
      · obtain ⟨rfl, hpost⟩ := Signature.mem_postulate?.mp h
        exact ⟨(d, sig), List.mem_cons_self, hpost⟩
      · obtain ⟨z, _, hz⟩ := List.mem_flatMap.mp h
        obtain ⟨p, hp, hpost⟩ := exists_postulates_of_mem_origins hz
        exact ⟨p, List.mem_cons_of_mem _ hp, hpost⟩
    · obtain ⟨p, hp, hpost⟩ := exists_postulates_of_mem_origins h
      exact ⟨p, List.mem_cons_of_mem _ hp, hpost⟩

/-- A name that is declared is well typed in the theory of the signature, with the name itself if it is
postulated. -/
theorem Commits.entry_sound {s : Session} {R : Record} (hR : R.Closed) (h : s.signature.Sound R)
    {d : Decl} {sig : Signature} (hd : s.Commits d sig) {x : String} (hx : x ∈ d.names) {e : Entry}
    (he : sig.find? x = some e) : ∃ R', Record.Closed R' ∧ Entry.Sound R' e ∧
      ∀ p ∈ R', p ∈ R ∨ e.value = .free (.global x) ∧ p = (x, e.type) := by
  cases hd with
  | @postulate _ names _ T _ t ht hT _ =>
    rw [Decl.names] at hx
    rw [Signature.find?_postulateAll_of_mem T hx] at he
    cases he
    have hTm := ((Signature.checkType_closed (t := .synth t) h.theory h.ok ht).of_eq hT).1
    refine ⟨(x, T) :: R, hR.cons x hTm, ?_, fun p hp => ?_⟩
    · apply (h.postulate x hTm).find (x := x)
      rw [Signature.postulate, Signature.find?_define, if_pos rfl]
    · rcases List.mem_cons.mp hp with rfl | hp
      · exact .inr ⟨rfl, rfl⟩
      · exact .inl hp
  | @define _ y _ T v _ _ t ht hT hv _ _ =>
    rw [Signature.find?_define, if_pos (List.mem_singleton.mp hx).symm] at he
    cases he
    obtain ⟨hTm, hhas⟩ := (Signature.infer_closed h.theory h.ok ht).of_eq hT
    have hvm := ((Signature.eval_synth_closed h.theory h.ok ht
      (hhas.hasType h.ok.naming)).of_eq hv).1
    exact ⟨R, hR, ⟨hTm, hvm⟩, fun _ hp => .inl hp⟩
  | request hd =>
    rw [hd] at hx
    cases hx

/-- Every entry rests on the origins of its name. -/
theorem History.restsOn {past : List (Decl × Signature)} {s : Session} (h : History past s) :
    ∀ x e, s.signature.find? x = some e → e.RestsOn (origins past x) := by
  induction h with
  | cleared hs =>
    rw [hs]
    exact nofun
  | @declared s past _ d sig _ _ hd ih =>
    intro x e (he : sig.find? x = some e)
    rw [origins]
    split
    · rename_i hx
      -- The declaration is made again with nothing but the names that it uses.
      obtain ⟨R, sig', hR, hcopies, hsound, hsim⟩ := Signature.exists_copy ih d.globals
      have hcopy : Sim (· ∈ d.globals) s { s with signature := sig' } :=
        ⟨fun y hy => hsim y (.inl hy), rfl, rfl⟩
      obtain ⟨sig₁, hd', hnames⟩ := hcopy.declare_eq_ok (fun _ hy => hy) hd
      obtain ⟨e', he', hesim⟩ := hnames.exists_right hx he
      obtain ⟨R', hR', hsound', hmem⟩ := (declare_commits hd').entry_sound hR hsound hx he'
      refine ⟨R', e', hR', fun p hp => ?_, hsound', hesim⟩
      rcases hmem p hp with hp | ⟨hvalue, rfl⟩
      · obtain ⟨T, hT, hTsim⟩ := hcopies p hp
        exact ⟨T, List.mem_append_right _ hT, hTsim⟩
      · have hpost : sig.Postulates x e.type :=
          Signature.postulates_iff.mpr ⟨e, he, hesim.1.eq_free_iff.mpr hvalue, rfl⟩
        refine ⟨e.type, List.mem_append_left _ ?_, hesim.2⟩
        exact Signature.mem_postulate?.mpr ⟨rfl, hpost⟩
    · rename_i hx
      rw [(declare_commits hd).frame hx] at he
      exact ih x e he
  | unchanged _ hs ih =>
    rw [hs]
    exact ih

end Session

end TypeInType
