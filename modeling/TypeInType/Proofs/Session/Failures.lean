import TypeInType.Proofs.Session.Attempts
import TypeInType.Proofs.Session.Effects
import TypeInType.Proofs.Session.Renumbering

/-!
# Failures leave no trace

A declaration that is refused, a source that cannot be read and a line that is only reported leave a session
as it was. An interactive session without such a line goes on in the same way.
-/

namespace TypeInType

open Run (Rel)

/-! ## Lines -/

/-- A line holds one line feed, at its end; the last one may hold none. -/
inductive AreLines : List (List UInt8) → Prop where
  | nil : AreLines []
  | last {line : List UInt8} : line ≠ [] → 10 ∉ line → AreLines [line]
  | cons {line : List UInt8} {lines : List (List UInt8)} : 10 ∉ line → AreLines lines →
      AreLines ((line ++ [10]) :: lines)

theorem areLines_splitLines : ∀ bytes : List UInt8, AreLines (splitLines bytes)
  | [] => .nil
  | b :: bs => by
    have ih := areLines_splitLines bs
    rw [splitLines]
    split
    · rename_i hb
      subst hb
      exact @AreLines.cons [] _ List.not_mem_nil ih
    · rename_i hb
      have hcons : ∀ {line : List UInt8}, 10 ∉ line → 10 ∉ b :: line :=
        fun h hmem => (List.mem_cons.mp hmem).elim (fun h => hb h.symm) h
      generalize splitLines bs = lines at ih ⊢
      cases ih with
      | nil => exact .last (List.cons_ne_nil b []) (hcons List.not_mem_nil)
      | @last line _ hline => exact .last (List.cons_ne_nil b line) (hcons hline)
      | @cons line _ hline hlines => exact @AreLines.cons (b :: line) _ (hcons hline) hlines

theorem splitLines_line {rest : List UInt8} : ∀ {line : List UInt8}, 10 ∉ line →
    splitLines (line ++ 10 :: rest) = (line ++ [10]) :: splitLines rest
  | [], _ => by simp [splitLines]
  | b :: line, h => by
    have hb : b ≠ 10 := fun hb => h (hb ▸ List.mem_cons_self)
    rw [List.cons_append, splitLines, if_neg hb,
      splitLines_line fun hmem => h (List.mem_cons_of_mem b hmem)]
    rfl

theorem splitLines_last : ∀ {line : List UInt8}, line ≠ [] → 10 ∉ line → splitLines line = [line]
  | [b], _, h => by
    have hb : b ≠ 10 := fun hb => h (hb ▸ List.mem_cons_self)
    rw [splitLines, if_neg hb]
    rfl
  | b :: c :: line, _, h => by
    have hb : b ≠ 10 := fun hb => h (hb ▸ List.mem_cons_self)
    rw [splitLines, if_neg hb,
      splitLines_last (List.cons_ne_nil c line) fun hmem => h (List.mem_cons_of_mem b hmem)]

theorem AreLines.splitLines_flatten {lines : List (List UInt8)} (h : AreLines lines) :
    splitLines lines.flatten = lines := by
  induction h with
  | nil => rfl
  | last hne hline => rw [List.flatten_singleton, splitLines_last hne hline]
  | cons hline _ ih =>
    rw [List.flatten_cons, List.append_assoc, List.singleton_append, splitLines_line hline, ih]

theorem AreLines.eraseIdx {lines : List (List UInt8)} (h : AreLines lines) (i : Nat) :
    AreLines (lines.eraseIdx i) := by
  induction h generalizing i with
  | nil => exact .nil
  | last hne hline =>
    cases i with
    | zero => exact .nil
    | succ i => exact .last hne hline
  | cons hline hlines ih =>
    cases i with
    | zero => exact hlines
    | succ i => exact .cons hline (ih i)

/-- The input without the line at an index. -/
def deleteLine (i : Nat) (bytes : List UInt8) : List UInt8 :=
  ((splitLines bytes).eraseIdx i).flatten

theorem decodeLines_deleteLine (i : Nat) (bytes : List UInt8) :
    decodeLines (deleteLine i bytes) = (decodeLines bytes).eraseIdx i := by
  unfold decodeLines deleteLine
  rw [((areLines_splitLines bytes).eraseIdx i).splitLines_flatten]
  simp only [List.eraseIdx_eq_take_drop_succ, List.map_append, List.map_take, List.map_drop]

namespace Session

variable {s : Session}

/-! ## What is only reported -/

theorem layout_ne (s : Session) (doc : Doc) : s.layout doc ≠ "" := by
  simp [layout]

theorem evaluate_ne {file : Nat} {e : Expr} {out : String} (h : s.evaluate file e = .ok out) :
    out ≠ "" := by
  obtain ⟨⟨v, T⟩, _, h⟩ := Run.bind_eq_ok.mp h
  obtain ⟨t, _, h⟩ := Run.bind_eq_ok.mp h
  obtain ⟨A, _, h⟩ := Run.bind_eq_ok.mp h
  rw [← Run.pure_eq_ok.mp h]
  exact s.layout_ne _

/-- A declaration that succeeds is answered. -/
theorem declare_ne {file : Nat} {d : Decl} {r : Signature × String} (h : s.declare file d = .ok r) :
    r.2 ≠ "" := by
  cases d with
  | postulate _ names e =>
    obtain ⟨t, _, h⟩ := Run.bind_eq_ok.mp h
    obtain ⟨T, _, h⟩ := Run.bind_eq_ok.mp h
    obtain ⟨A, _, h⟩ := Run.bind_eq_ok.mp h
    rw [← Run.pure_eq_ok.mp h]
    exact s.layout_ne _
  | define _ x e =>
    obtain ⟨⟨v, T⟩, _, h⟩ := Run.bind_eq_ok.mp h
    obtain ⟨t, _, h⟩ := Run.bind_eq_ok.mp h
    obtain ⟨A, _, h⟩ := Run.bind_eq_ok.mp h
    rw [← Run.pure_eq_ok.mp h]
    exact s.layout_ne _
  | check _ e =>
    obtain ⟨out, hout, h⟩ := Run.bind_eq_ok.mp h
    rw [← Run.pure_eq_ok.mp h]
    exact evaluate_ne hout
  | expr e =>
    obtain ⟨out, hout, h⟩ := Run.bind_eq_ok.mp h
    rw [← Run.pure_eq_ok.mp h]
    exact evaluate_ne hout

theorem commitAll_silent {file : Nat} {ds : List Decl} {sig : Signature}
    (h : commitAll file s ds = .ok (sig, "")) : sig = s.signature := by
  cases ds with
  | nil => exact (congrArg Prod.fst (Run.pure_eq_ok.mp h)).symm
  | cons d ds =>
    obtain ⟨⟨sig₁, out⟩, hd, h⟩ := Run.bind_eq_ok.mp h
    obtain ⟨⟨sig₂, out'⟩, _, h⟩ := Run.bind_eq_ok.mp h
    have hout : out ++ out' = "" := congrArg Prod.snd (Run.pure_eq_ok.mp h)
    exact absurd (String.append_eq_empty_iff.mp hout).1 (declare_ne hd)

/-- The sessions have the same signature, and set answers in the same way. -/
structure Kept (s s' : Session) : Prop where
  signature : s'.signature = s.signature
  fuel : s'.fuel = s.fuel
  width : s'.width = s.width

theorem Kept.refl (s : Session) : s.Kept s :=
  ⟨rfl, rfl, rfl⟩

theorem Kept.twin {s' : Session} (h : s.Kept s') : s'.Twin s'.inputs s.inputs s :=
  ⟨h.signature ▸ .refl _, h.fuel, h.width, 0, rfl, rfl⟩

theorem processInput_silent {text : String} {r : Reply} (h : s.processInput text = .ok r)
    (hout : r.out = "") : s.Kept r.session := by
  unfold processInput at h
  cases hread : readInput text with
  | ok ds =>
    simp only [hread] at h
    obtain ⟨done, cs, sig, out, _, hcommit, rfl⟩ := declareAll_eq_ok_iff.mp h
    cases (hout : out = "")
    cases commitAll_silent hcommit
    exact ⟨rfl, rfl, rfl⟩
  | error x =>
    simp only [hread] at h
    cases x with
    | refused e =>
      cases h
      exact ⟨rfl, rfl, rfl⟩
    | fault f => cases h
    | outOfFuel => cases h

theorem processLine_silent {l : Line} {first : Reply} (h : s.processLine l = .ok (some first))
    (hout : first.out = "") : s.Kept first.session := by
  cases l with
  | blank =>
    cases h
    exact .refl s
  | quit => cases h
  | clear =>
    cases h
    have hne : "cleared the environment\n" ≠ "" := by decide
    exact absurd hout hne
  | list =>
    obtain ⟨_, _, h⟩ := Run.bind_eq_ok.mp h
    cases h
    exact .refl s
  | help =>
    cases h
    exact .refl s
  | input text =>
    obtain ⟨r, hr, h⟩ := Run.bind_eq_ok.mp h
    cases h
    exact processInput_silent hr hout

/-! ## Interactive sessions -/

/-- The session reads the lines, none of which ends the loop. -/
inductive Passes : Session → List (Option String) → Reply → Prop where
  | nil {s : Session} : Passes s [] ⟨s, "", ""⟩
  | cons {s : Session} {text : String} {lines : List (Option String)} {first r : Reply} :
      s.processLine (.ofText text) = .ok (some first) → Passes first.session lines r →
      Passes s (some text :: lines) (r.after (prompt ++ first.out) first.err)

theorem Passes.processLines_append {lines : List (Option String)} {r : Reply}
    (h : s.Passes lines r) (rest : List (Option String)) : s.processLines (lines ++ rest) =
      (do return (← r.session.processLines rest).after r.out r.err) := by
  induction h with
  | @nil s =>
    show s.processLines rest = _
    cases s.processLines rest with
    | error x => rfl
    | ok q =>
      show Except.ok q = .ok (q.after "" "")
      simp only [Reply.after, String.empty_append]
  | @cons s text lines first r hfirst _ ih =>
    rw [List.cons_append, Session.processLines, hfirst]
    show first.session.processLines (lines ++ rest) >>= _ = _
    rw [ih]
    show _ = r.session.processLines rest >>= _
    cases r.session.processLines rest with
    | error x => rfl
    | ok q => exact congrArg Except.ok (q.after_after _ _ _ _)

/-- Without a line that has no answer the session goes on as it does with it. The numbers of later inputs
count from another one. -/
theorem interact_deleteLine {bytes : List UInt8} {before after : List (Option String)} {line : String}
    {r₀ first : Reply} (hbytes : decodeLines bytes = before ++ some line :: after)
    (hbefore : s.Passes before r₀) (hline : r₀.session.processLine (.ofText line) = .ok (some first))
    (hout : first.out = "") : (s.interact bytes).Rel Eq
      (fun r r' => ∃ q q' : Reply, q.Twin first.session.inputs r₀.session.inputs q' ∧
        r = ((q.after prompt first.err).after r₀.out r₀.err).after (banner ++ "\n") "" ∧
        r' = (q'.after r₀.out r₀.err).after (banner ++ "\n") "")
      (s.interact (deleteLine before.length bytes)) := by
  have hdelete : decodeLines (deleteLine before.length bytes) = before ++ after := by
    rw [decodeLines_deleteLine, hbytes, List.eraseIdx_append_of_length_le (Nat.le_refl _), Nat.sub_self]
    rfl
  have hrest := (processLine_silent hline hout).twin.processLines after
  unfold interact
  rw [hbytes, hdelete, hbefore.processLines_append, hbefore.processLines_append, processLines, hline]
  show Rel _ _ ((((first.session.processLines after) >>= _) >>= _) >>= _) _
  generalize first.session.processLines after = x, r₀.session.processLines after = x' at hrest ⊢
  cases hrest with
  | ok hq =>
    rw [hout, String.append_empty]
    exact .ok ⟨_, _, hq, rfl, rfl⟩
  | refused _ => contradiction
  | fault f => exact .fault f
  | outOfFuel => exact .outOfFuel

/-- The session of `r` has read one line more than the session of `r'`. Both had written `r₀` before it, and
`first` is the reply to it, whose answer is empty. The answers of `r'` lack the prompt of the line, and
the reports lack its report; later reports are the same up to the numbers of inputs, and so are the names
with their normal forms. -/
structure ReadsMore (r₀ first r r' : Reply) : Prop where
  out : ∃ out, r.out = banner ++ "\n" ++ r₀.out ++ prompt ++ out ∧
    r'.out = banner ++ "\n" ++ r₀.out ++ out
  err : ∃ err err', r.err = r₀.err ++ first.err ++ err ∧ r'.err = r₀.err ++ err' ∧
    Renumbered first.session.inputs r₀.session.inputs err err'
  signature : List.Forall₂ (fun e e' => e.name = e'.name ∧ e.SameForms e')
    r.session.signature.entries r'.session.signature.entries
  postulates : ∀ x, r.session.signature.isPostulate x = r'.session.signature.isPostulate x

/-- A declaration that stops, processed step by step, leaves the signature and what has been written as
they were; one that is refused changes nothing but that something has been reported. A source that cannot
be read commits nothing; one that can be read ends with the signature and the answers of its
declarations that succeed, up to the first that is refused unless the session goes on. An interactive
session without a line that has no answer goes on as it does with it. -/
theorem failures_leave_no_trace (s : Session) :
    (∀ file d out x desk, Steps.declare file d ⟨s, out⟩ = .error x desk →
      desk = ⟨s, out⟩ ∧ s.declare file d = .error x) ∧
    (∀ keepGoing file d c, s.declare file d = .error (.refused c) →
      declareAll keepGoing file s [d] = .ok ⟨{ s with failed := true }, "", c.report.render s.sources⟩) ∧
    (∀ name text e, readProgram text = .error (.refused e) → ∃ r, s.checkSource name text = .ok r ∧
      r.session.signature = s.signature ∧ r.out = "") ∧
    (∀ name text ds r, readProgram text = .ok ds → (s.checkSource name text = .ok r ↔
      ∃ done cs sig out, Tries s.keepGoing (s.load name text).2 (s.load name text).1 ds done cs ∧
        commitAll (s.load name text).2 (s.load name text).1 done = .ok (sig, out) ∧
        r = (s.load name text).1.attempted sig out cs)) ∧
    ∀ bytes before line after r₀ first, decodeLines bytes = before ++ some line :: after →
      s.Passes before r₀ → r₀.session.processLine (.ofText line) = .ok (some first) → first.out = "" →
      (s.interact bytes).Rel Eq (ReadsMore r₀ first) (s.interact (deleteLine before.length bytes)) := by
  refine ⟨?_, ?_, ?_, ?_, ?_⟩
  · intro file d out x desk h
    rw [Steps.declare_eq] at h
    cases hd : s.declare file d with
    | ok r =>
      rw [hd] at h
      cases h
    | error x' =>
      rw [hd] at h
      cases h
      exact ⟨rfl, rfl⟩
  · intro keepGoing file d c hd
    simp only [declareAll, hd]
    cases keepGoing with
    | true => simp [complain, Reply.after, bind, Except.bind, pure, Except.pure]
    | false => rfl
  · intro name text e he
    unfold checkSource
    rw [he]
    exact ⟨_, rfl, rfl, rfl⟩
  · intro name text ds r hds
    rw [checkSource_eq hds]
    exact declareAll_eq_ok_iff
  · intro bytes before line after r₀ first hbytes hbefore hline hout
    refine (interact_deleteLine hbytes hbefore hline hout).mono (fun _ _ h => h) ?_
    rintro _ _ ⟨q, q', hq, rfl, rfl⟩
    have hmatches := hq.session.signature
    refine ⟨⟨q.out, ?_, ?_⟩, ⟨q.err, q'.err, ?_, ?_, hq.err⟩, hmatches.sameForms, hmatches.isPostulate_eq⟩
    all_goals simp [Reply.after, String.append_assoc, hq.out]

/-- The name `B` is not declared, and the character `?` cannot be read. -/
theorem stray_character_leaves_no_trace : ∃ c e r r' first desk,
    initial.declare 0 (.expr (.var ⟨0, 1⟩ "B")) = .error (.refused c) ∧
    Steps.declare 0 (.expr (.var ⟨0, 1⟩ "B")) ⟨initial, "A"⟩ = .error (.refused c) desk ∧
    desk = ⟨initial, "A"⟩ ∧
    declareAll true 0 initial [.expr (.var ⟨0, 1⟩ "B")] =
      .ok ⟨{ initial with failed := true }, "", c.report.render ∅⟩ ∧
    readProgram "?" = .error (.refused e) ∧ initial.checkSource "A" "?" = .ok r ∧ r.out = "" ∧
    initial.checkSource "B" "check B" = .ok r' ∧ r'.out = "" ∧
    initial.processLine (.ofText "?\n") = .ok (some first) ∧ first.out = "" ∧
    (initial.interact "?\nB\n".toUTF8.toList).Rel Eq (ReadsMore ⟨initial, "", ""⟩ first)
      (initial.interact "B\n".toUTF8.toList) := by
  obtain ⟨hsteps, hdeclare, herror, hok, hinteract⟩ := failures_leave_no_trace initial
  have hlex : lexSource "?" = .error (.refused (.unexpectedCharacter ⟨0, 1⟩)) := by
    have hscan : scan "?" = [.stray ⟨0, 1⟩] := by decide +kernel
    rw [lexSource_of_countable (by decide +kernel), hscan]
    rfl
  have hread : readProgram "?" = .error (.refused (.unexpectedCharacter ⟨0, 1⟩)) := by
    rw [readProgram, readSource, hlex]
    rfl
  obtain ⟨r, hr, _, hout⟩ := herror "A" "?" _ hread
  obtain ⟨first, hfirst, hanswer⟩ : ∃ first, initial.processLine (.ofText "?\n") = .ok (some first) ∧
      first.out = "" := by
    have hline : Line.ofText "?\n" = .input "?" := by decide +kernel
    rw [hline, processLine, processInput, readInput, readSource, hlex]
    exact ⟨_, rfl, rfl⟩
  let b : Grammar.ExprTree := .mk (.app (.mk (.name (.at .name "B" 6)) .nil)) .nil
  have hcheck : readProgram "check B" = .ok [.check ⟨0, 7⟩ (.var ⟨6, 7⟩ "B")] :=
    readProgram_eq_ok.mpr ⟨[.check (.at .checkWord "check" 0) b],
      lexSource_eq_ok_iff.mpr (by decide +kernel), by decide +kernel⟩
  have htries : Tries false 1 (initial.load "B" "check B").1 [.check ⟨0, 7⟩ (.var ⟨6, 7⟩ "B")] [] [_] :=
    .stop rfl rfl
  have hchecked := (hok "B" "check B" _ _ hcheck).mpr ⟨_, _, _, _, htries, rfl, rfl⟩
  have hbytes : decodeLines "?\nB\n".toUTF8.toList = [] ++ some "?\n" :: [some "B\n"] := by
    decide +kernel
  have hdelete : deleteLine 0 "?\nB\n".toUTF8.toList = "B\n".toUTF8.toList := by decide +kernel
  have hrel := hinteract _ _ _ _ _ _ hbytes .nil hfirst hanswer
  rw [List.length_nil, hdelete] at hrel
  have hdesk := (hsteps 0 (.expr (.var ⟨0, 1⟩ "B")) "A" _ _ (by rfl)).1
  exact ⟨_, _, r, _, first, _, rfl, by rfl, hdesk, hdeclare true 0 _ _ rfl, hread, hr, hout, hchecked, rfl, hfirst, hanswer,
    hrel⟩

end Session

end TypeInType
