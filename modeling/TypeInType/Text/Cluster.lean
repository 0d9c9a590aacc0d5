import TypeInType.Text.Cluster.Role

/-!
# Clusters

A reader sees some sequences of characters as one: a letter with its marks, a Hangul syllable, a
conjunct of consonants, a flag, pictographs that are joined. Such a sequence is a cluster, and here
the clusters of a text are counted. Whether a character goes on with the cluster before it depends
on the role of the character just before and on what longer sequence is under way there.
-/

namespace TypeInType

/-- The longer sequence that is under way at a place in a text. -/
inductive Trail where
  | none
  /-- One half of a flag that has no other half yet. -/
  | flag
  /-- A pictograph and marks on it; `joined` when a joiner has come last. -/
  | picture (joined : Bool)
  /-- A consonant and marks on it; `linked` when one of them is a linker. -/
  | conjunct (linked : Bool)
  deriving DecidableEq, Repr

/-- The sequence that is under way after one more character. -/
def Trail.next : Trail → Role → Trail
  | .flag, .regional => .none
  | _, .regional => .flag
  | _, .pictograph => .picture false
  | _, .consonant => .conjunct false
  | .picture false, .extend | .picture false, .linker | .picture false, .nonJoiner => .picture false
  | .picture false, .joiner => .picture true
  | .conjunct linked, .extend | .conjunct linked, .joiner => .conjunct linked
  | .conjunct _, .linker => .conjunct true
  | _, _ => .none

/-- A cluster ends before and after such a character, whatever stands there. -/
def Role.standsAlone : Role → Bool
  | .carriageReturn | .lineFeed | .control => true
  | _ => false

/-- A character goes on with the syllable of the character before it. -/
def Role.sameSyllable : Role → Role → Bool
  | .lead, .lead | .lead, .vowel | .lead, .openSyllable | .lead, .closedSyllable => true
  | .vowel, .vowel | .vowel, .tail | .openSyllable, .vowel | .openSyllable, .tail => true
  | .tail, .tail | .closedSyllable, .tail => true
  | _, _ => false

/-- A character ends the sequence that is under way. -/
def Trail.takes : Trail → Role → Bool
  | .flag, .regional => true
  | .picture true, .pictograph => true
  | .conjunct true, .consonant => true
  | _, _ => false

/-- A character joins the one before it whatever that is. -/
def Role.joinsBefore : Role → Bool
  | .extend | .linker | .nonJoiner | .joiner | .spacing => true
  | _ => false

/-- A character of the role `role` goes on with the cluster that `before` and `trail` end. -/
def joins (before : Role) (trail : Trail) (role : Role) : Bool :=
  if before = .carriageReturn && role = .lineFeed then true
  else if before.standsAlone || role.standsAlone then false
  else role.joinsBefore || before = .prepend || before.sameSyllable role || trail.takes role

/-- The number of clusters that begin after a place in a text. -/
def clustersAfter (before : Role) (trail : Trail) : List Char → Nat
  | [] => 0
  | c :: cs =>
    let role := Role.of c
    (if joins before trail role then 0 else 1) + clustersAfter role (trail.next role) cs

/-- The number of clusters of a text. -/
def clusters : List Char → Nat
  | [] => 0
  | c :: cs => 1 + clustersAfter (Role.of c) (Trail.none.next (Role.of c)) cs

end TypeInType
