import TypeInType.Proofs.Session.Concatenation
import TypeInType.Session.Interact

/-!
# Inputs under other numbers

An interactive input has a number, which reports show in its name. Two sessions that agree in their
signatures give the same answers to the same lines, whatever the numbers are, and the same reports up to
them.
-/

namespace TypeInType

open Run (Rel)

/-! ## Reports -/

namespace Report

/-- The report with its label in the source with a number. -/
def inSource (file : Nat) (r : Report) : Report :=
  { r with label := r.label.map fun l => ⟨⟨file, l.region.range⟩, l.message⟩ }

/-- The text of a report on the interactive input with a number. -/
def onInput (number : Nat) (text : String) (r : Report) : String :=
  (r.inSource 1).render ⟨[⟨"<repl:" ++ toString number ++ ">", text⟩]⟩

/-- A report shows nothing of the sources but the one in which its label is. -/
theorem render_inSource {sources : Sources} {file : Nat} {doc : Document}
    (h : sources.get? file = .ok doc) (r : Report) :
    (r.inSource file).render sources = (r.inSource 1).render ⟨[doc]⟩ := by
  obtain ⟨message, label, notes⟩ := r
  cases label with
  | none => rfl
  | some l =>
    have hget : Sources.get? ⟨[doc]⟩ 1 = .ok doc := rfl
    simp only [inSource, render, Option.map_some, Render.label, h, hget]
    rfl

end Report

/-- Both spans are missing, or they are the same range of two sources. -/
inductive Span.Moved (file file' : Nat) : Span → Span → Prop where
  | none : Span.Moved file file' none none
  | some (r : Range) : Span.Moved file file' (some ⟨file, r⟩) (some ⟨file', r⟩)

section Moved

variable {file file' : Nat}

theorem Report.atSpan_moved {s s' : Span} (h : s.Moved file file' s') (message label : String)
    (notes : List String) : ∃ r, atSpan message s label notes = inSource file r ∧
      atSpan message s' label notes = inSource file' r := by
  cases h with
  | none => exact ⟨⟨message, none, notes⟩, rfl, rfl⟩
  | some r => exact ⟨atSpan message (some ⟨file, r⟩) label notes, rfl, rfl⟩

theorem ElabError.Alike.report_moved {e e' : ElabError} (h : e.Alike (Span.Moved file file') e') :
    ∃ r, e.report = .inSource file r ∧ e'.report = .inSource file' r := by
  cases h <;> exact Report.atSpan_moved ‹_› _ _ _

theorem TypeError.Alike.report_moved {e e' : TypeError}
    (h : e.Alike (.places (Span.Moved file file') Eq .none) e') :
    ∃ r, e.report = .inSource file r ∧ e'.report = .inSource file' r := by
  cases h with
  | mismatch hs he hf =>
    cases Check.Alike.eq he
    cases Check.Alike.eq hf
    exact Report.atSpan_moved hs _ _ _
  | @undefinedVariable _ _ _ y _ hs hy =>
    cases hy
    cases y <;> exact Report.atSpan_moved hs _ _ _
  | expectedFunction hs ht =>
    cases Check.Alike.eq ht
    exact Report.atSpan_moved hs _ _ _
  | unexpectedLambda hs ht =>
    cases Check.Alike.eq ht
    exact Report.atSpan_moved hs _ _ _

theorem Complaint.Alike.report_moved {c c' : Complaint}
    (h : c.Alike (.places (Span.Moved file file') Eq .none) c') :
    ∃ r, c.report = .inSource file r ∧ c'.report = .inSource file' r := by
  cases h with
  | elaboration he => exact he.report_moved
  | typing he => exact he.report_moved

theorem Decl.alike_moved (file file' : Nat) (d : Decl) :
    d.Alike (Span.Moved file file') (fun _ => True) file file' d := by
  have halike := d.alike_shift (S := Span.Moved file file') (n := 0) fun r => .some r
  rwa [d.shift_zero] at halike

end Moved

/-- Texts of the same reports on the same inputs, with numbers that count from `n` and from `n'`. -/
inductive Renumbered (n n' : Nat) : String → String → Prop where
  | nil : Renumbered n n' "" ""
  | cons {err err' : String} (k : Nat) (text : String) (r : Report) : Renumbered n n' err err' →
      Renumbered n n' (r.onInput (n + k) text ++ err) (r.onInput (n' + k) text ++ err')

section Twins

variable {n n' : Nat}

theorem Renumbered.report (k : Nat) (text : String) (r : Report) :
    Renumbered n n' (r.onInput (n + k) text) (r.onInput (n' + k) text) := by
  simpa only [String.append_empty] using Renumbered.cons k text r .nil

theorem Renumbered.append {err₁ err₁' err₂ err₂' : String} (h₁ : Renumbered n n' err₁ err₁')
    (h₂ : Renumbered n n' err₂ err₂') : Renumbered n n' (err₁ ++ err₂) (err₁' ++ err₂') := by
  induction h₁ with
  | nil => simpa only [String.empty_append] using h₂
  | cons k text r _ ih =>
    rw [String.append_assoc, String.append_assoc]
    exact .cons k text r ih

/-! ## Sessions -/

namespace Session

/-- The signatures match, answers are set in the same way, and the numbers of inputs have grown by the same
from `n` and from `n'`. -/
structure Twin (n n' : Nat) (s s' : Session) : Prop where
  signature : s.signature.Matches s'.signature
  fuel : s.fuel = s'.fuel
  width : s.width = s'.width
  inputs : ∃ k, s.inputs = n + k ∧ s'.inputs = n' + k

theorem Twin.sim {s s' : Session} (h : s.Twin n n' s') : s.Sim (fun _ => True) s' :=
  ⟨h.signature.sim, h.fuel, h.width⟩

theorem Twin.suggestion_eq {s s' : Session} (h : s.Twin n n' s') (x : String) :
    s.context.suggestion? x = s'.context.suggestion? x := by
  simp only [context, Context.ofSignature, Context.suggestion?, h.signature.names_eq]

/-- The source `file` is the interactive input with a number. -/
def IsInput (s : Session) (file number : Nat) (text : String) : Prop :=
  s.sources.get? file = .ok ⟨"<repl:" ++ toString number ++ ">", text⟩

theorem IsInput.render {s : Session} {file number : Nat} {text : String}
    (h : s.IsInput file number text) (r : Report) :
    (r.inSource file).render s.sources = r.onInput number text :=
  Report.render_inSource h r

end Session

/-- The same answers, the same reports up to the numbers of inputs, and sessions that agree. -/
structure Reply.Twin (n n' : Nat) (r r' : Reply) : Prop where
  out : r.out = r'.out
  err : Renumbered n n' r.err r'.err
  session : r.session.Twin n n' r'.session

theorem Reply.Twin.after {r r' : Reply} (h : r.Twin n n' r') {out out' err err' : String}
    (hout : out = out') (herr : Renumbered n n' err err') :
    (r.after out err).Twin n n' (r'.after out' err') where
  out := by simp only [Reply.after, hout, h.out]
  err := herr.append h.err
  session := h.session

namespace Session

variable {s s' : Session}

section Input

variable {file file' k : Nat} {text : String}

theorem Twin.complain (h : s.Twin n n' s') (hfile : s.IsInput file (n + k) text)
    (hfile' : s'.IsInput file' (n' + k) text) {c c' : Complaint}
    (hc : ∃ r, c.report = .inSource file r ∧ c'.report = .inSource file' r) :
    (s.complain c).Twin n n' (s'.complain c') where
  out := rfl
  err := by
    obtain ⟨r, hr, hr'⟩ := hc
    simp only [Session.complain, hr, hr', hfile.render, hfile'.render]
    exact .report k text r
  session := ⟨h.signature, h.fuel, h.width, h.inputs⟩

theorem Twin.declareAll (keepGoing : Bool) : ∀ (ds : List Decl) {s s' : Session}, s.Twin n n' s' →
    s.IsInput file (n + k) text → s'.IsInput file' (n' + k) text →
    (declareAll keepGoing file s ds).Rel Eq (Reply.Twin n n') (declareAll keepGoing file' s' ds)
  | [], _, _, h, _, _ => .ok ⟨rfl, .nil, h⟩
  | d :: ds, s, s', h, hfile, hfile' => by
    simp only [Session.declareAll]
    have hrel := h.sim.declare .none h.suggestion_eq (d.alike_moved file file')
    generalize s.declare file d = r, s'.declare file' d = r' at hrel ⊢
    cases hrel with
    | @ok r r' hab =>
      obtain ⟨_, hout, hmatches⟩ := hab
      have hnext : Twin n n' { s with signature := r.1 } { s' with signature := r'.1 } :=
        ⟨hmatches h.signature, h.fuel, h.width, h.inputs⟩
      apply (Twin.declareAll keepGoing ds hnext hfile hfile').bind
      intro q q' hq
      exact .ok (hq.after hout .nil)
    | @refused c c' hc =>
      have hcomplain := h.complain hfile hfile' hc.report_moved
      cases keepGoing with
      | true =>
        apply (Twin.declareAll true ds hcomplain.session hfile hfile').bind
        intro q q' hq
        exact .ok (hq.after rfl hcomplain.err)
      | false => exact .ok hcomplain
    | fault f => exact .fault f
    | outOfFuel => exact .outOfFuel

end Input

theorem load_isInput (s : Session) (number : Nat) (text : String) :
    let r := s.load ("<repl:" ++ toString number ++ ">") text
    r.1.IsInput r.2 number text := by
  simp [load, IsInput, Sources.add, Sources.get?]

theorem Twin.processInput (h : s.Twin n n' s') (text : String) :
    (s.processInput text).Rel Eq (Reply.Twin n n') (s'.processInput text) := by
  obtain ⟨k, hk, hk'⟩ := h.inputs
  simp only [Session.processInput, hk, hk', Nat.add_assoc]
  have hfile := load_isInput { s with inputs := n + (k + 1) } (n + (k + 1)) text
  have hfile' := load_isInput { s' with inputs := n' + (k + 1) } (n' + (k + 1)) text
  have hload : ∀ name name', Twin n n' (load { s with inputs := n + (k + 1) } name text).1
      (load { s' with inputs := n' + (k + 1) } name' text).1 :=
    fun _ _ => ⟨h.signature, h.fuel, h.width, k + 1, rfl, rfl⟩
  cases readInput text with
  | ok ds => exact Twin.declareAll false ds (hload _ _) hfile hfile'
  | error h =>
    cases h with
    | refused e => exact .ok ((hload _ _).complain hfile hfile' ⟨e.report 0, rfl, rfl⟩)
    | fault f => exact .fault f
    | outOfFuel => exact .outOfFuel

theorem Twin.listing_eq (h : s.Twin n n' s') : s.listing = s'.listing := by
  have hempty : s.signature.entries.isEmpty = s'.signature.entries.isEmpty := by
    rw [Bool.eq_iff_iff, List.isEmpty_iff_length_eq_zero, List.isEmpty_iff_length_eq_zero,
      h.signature.length_eq]
  simp only [listing, hempty]
  split
  · rfl
  · refine congrArg (· >>= _) (Run.mapM_congr h.signature ?_)
    rintro e e' ⟨hname, _, htype⟩
    simp only [context, Context.quote, Context.ofSignature, h.fuel, htype.quote_eq,
      h.signature.isPostulate_eq, hname, h.sim.layout_eq]
    rfl

/-- Lines are answered alike, and end the loop both times or neither time. -/
theorem Twin.processLine (h : s.Twin n n' s') (l : Line) :
    (s.processLine l).Rel Eq (Option.Rel (Reply.Twin n n')) (s'.processLine l) := by
  cases l with
  | blank => exact .ok (.some ⟨rfl, .nil, h⟩)
  | quit => exact .ok .none
  | clear => exact .ok (.some ⟨rfl, .nil, .refl _, h.fuel, h.width, h.inputs⟩)
  | list =>
    simp only [Session.processLine, h.listing_eq]
    cases s'.listing with
    | ok out => exact .ok (.some ⟨rfl, .nil, h⟩)
    | error x =>
      cases x with
      | refused e => exact e.elim
      | fault f => exact .fault f
      | outOfFuel => exact .outOfFuel
  | help => exact .ok (.some ⟨rfl, .nil, h⟩)
  | input text => exact (h.processInput text).bind fun _ _ hr => .ok (.some hr)

/-- So are all lines of an input. -/
theorem Twin.processLines : ∀ (lines : List (Option String)) {s s' : Session}, s.Twin n n' s' →
    (s.processLines lines).Rel Eq (Reply.Twin n n') (s'.processLines lines)
  | [], _, _, h => .ok ⟨rfl, .nil, h⟩
  | none :: _, s, s', h => by
    -- The report has no label, so that it shows no number.
    have hcomplain : Reply.Twin n n' (s.complain (.loading "<stdin>" .notText))
        (s'.complain (.loading "<stdin>" .notText)) :=
      ⟨rfl, .report 0 "" (Complaint.loading "<stdin>" .notText).report, h.signature, h.fuel, h.width,
        h.inputs⟩
    exact .ok (hcomplain.after rfl .nil)
  | some text :: lines, s, s', h => by
    simp only [Session.processLines]
    apply (h.processLine (.ofText text)).bind
    rintro _ _ (hr | _)
    · apply (Twin.processLines lines hr.session).bind
      intro q q' hq
      exact .ok (hq.after (by rw [hr.out]) hr.err)
    · exact .ok ⟨rfl, .nil, h⟩

end Session

end Twins

end TypeInType
