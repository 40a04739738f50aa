import BoundSql.Binary64

/-! # The shortest decimal of a binary number

The reals that round to a finite number form an interval. The shortest decimal is a point of the
coarsest decimal grid that has a point in the interval, and of two such points the one nearer to
the number. -/

namespace BoundSql.Binary64

/-- A number `4 * m * 2 ^ q` that is not zero, with the interval of the reals that round to it,
from `(4 * m - below) * 2 ^ q` to `(4 * m + 2) * 2 ^ q`. The bounds belong to the interval when
`m` is even. -/
structure Neighbourhood where
  m : Nat
  q : Int
  below : Nat

/-- The neighbourhood of a finite number that is not zero. Below a power of two the gap to the
next number is half as wide. -/
def neighbourhood (x : Binary64) : Neighbourhood where
  m := x.significand
  q := x.scale - 2
  below := if x.fractionField = 0 ∧ 1 < x.exponentField then 1 else 2

namespace Neighbourhood

/-! Lengths are compared in a unit in which `2 ^ q` and the distance `10 ^ k` of a grid are both
whole: the first is `unit n k` of them, the second `spacing n k`. -/

def unit (n : Neighbourhood) (k : Int) : Nat :=
  twoTo n.q.toNat * tenTo (-k).toNat

def spacing (n : Neighbourhood) (k : Int) : Nat :=
  twoTo (-n.q).toNat * tenTo k.toNat

/-- The point `c * 10 ^ k` rounds to the number. -/
def contains (n : Neighbourhood) (k : Int) (c : Nat) : Bool :=
  let point := c * n.spacing k
  let low := (4 * n.m - n.below) * n.unit k
  let high := (4 * n.m + 2) * n.unit k
  if n.m % 2 = 0 then low ≤ point && point ≤ high else low < point && point < high

/-- The point of the grid `10 ^ k` that is nearest to the number among those that round to it; in
a tie the even one. Only the points beside the number come into question. -/
def nearest? (n : Neighbourhood) (k : Int) : Option Nat :=
  let value := 4 * n.m * n.unit k
  let spacing := n.spacing k
  let down := value / spacing
  let near := divideToEven value spacing
  let far := if near = down then down + 1 else down
  if n.contains k near then some near
  else if n.contains k far then some far
  else none

/-- The first point found on the grids `10 ^ k`, `10 ^ (k - 1)`, and so on. -/
def search (n : Neighbourhood) : Nat → Int → Nat × Int
  | 0, k => (0, k)
  | steps + 1, k =>
    match n.nearest? k with
    | some c => (c, k)
    | none => n.search steps (k - 1)

end Neighbourhood

/-- The shortest decimal `c * 10 ^ k` of a finite number, as the pair of `c` and `k`. All numbers
are below `10 ^ 309`, and no grid finer than `10 ^ -324` is needed. -/
def shortest (x : Binary64) : Nat × Int :=
  if x.isZero then (0, 0) else x.neighbourhood.search 640 309

end BoundSql.Binary64
