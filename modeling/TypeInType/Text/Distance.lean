/-!
# Edit distance

The least number of insertions, deletions and substitutions of one character that turn one text into
another.
-/

namespace TypeInType

/-- The row of the table of distances after one more character `c` of the first text. The old row
holds the distances to all beginnings of the second text; `diagonal` is its entry before the current
one, and `left` the entry of the new row before the current one. -/
def nextRow (c : Char) (diagonal left : Nat) : List Char → List Nat → List Nat
  | d :: ds, above :: row =>
    let entry := min (min (above + 1) (left + 1)) (if c = d then diagonal else diagonal + 1)
    entry :: nextRow c above entry ds row
  | _, _ => []

/-- The edit distance of two texts. -/
def editDistance (a b : List Char) : Nat :=
  let start := List.range (b.length + 1)
  let table := a.foldl (fun row c =>
    match row with
    | [] => []
    | first :: row => (first + 1) :: nextRow c first (first + 1) b row) start
  table.getLastD 0

end TypeInType
