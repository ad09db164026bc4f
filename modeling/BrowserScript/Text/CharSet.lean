/-!
Sets of characters given by their boundaries. A set is the increasing list of the code points at
which membership changes; a character belongs when an odd number of them is at or below it.
-/

namespace BrowserScript.Text

structure CharSet where
  bounds : Array Nat

namespace CharSet

/-- How many of the boundaries are at most `n`, when all before `lo` are and none from `hi` on. -/
def rank (bounds : Array Nat) (n lo hi : Nat) : Nat :=
  if h : lo < hi then
    let mid := (lo + hi) / 2
    if bounds.getD mid 0 ≤ n then rank bounds n (mid + 1) hi else rank bounds n lo mid
  else lo
termination_by hi - lo
decreasing_by all_goals omega

def contains (s : CharSet) (c : Char) : Bool :=
  rank s.bounds c.toNat 0 s.bounds.size % 2 == 1

end CharSet

end BrowserScript.Text
