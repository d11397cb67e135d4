/-!
# Tables of code point ranges

A Unicode property is given as its maximal ranges in increasing order. Membership is a binary
search, so a table of some hundred ranges answers in about ten comparisons.
-/

namespace EcmaLex

/-- The ranges `(first, last)` of a set of code points, both ends included, in increasing order. -/
structure RangeTable where
  ranges : Array (Nat × Nat)

namespace RangeTable

/-- Looks for a range that holds `c` among those with index from `lo` up to, not including,
`hi`. -/
def search (t : RangeTable) (c : Nat) (lo hi : Nat) : Bool :=
  if lo < hi then
    let mid := (lo + hi) / 2
    match t.ranges[mid]? with
    | none => false
    | some (first, last) =>
      if c < first then t.search c lo mid
      else if last < c then t.search c (mid + 1) hi
      else true
  else
    false
termination_by hi - lo

/-- Whether some range of the table holds `c`. -/
def contains (t : RangeTable) (c : Nat) : Bool := t.search c 0 t.ranges.size

end RangeTable

end EcmaLex
