import Lox.Decimal

namespace Lox

/-- Which of two points is taken when both are equally near. -/
inductive Tie where
  | up
  | even
deriving DecidableEq

/-- `c` or the number after it, where `excess` of `unit` lie beyond `c`. -/
def Tie.round (tie : Tie) (c excess unit : Nat) : Nat :=
  if 2 * excess < unit then c
  else if unit < 2 * excess then c + 1
  else
    match tie with
    | .up => c + 1
    | .even => if c % 2 = 0 then c else c + 1

/-- A positive double `m · 2 ^ e` in quarters of its last place: its value and the ends of the
interval of reals that round to it. -/
structure Neighbourhood where
  low : Nat
  value : Nat
  high : Nat
  closed : Bool

namespace Neighbourhood

/-- The exponent of the least positive double. -/
def leastExponent : Int := -1074

/-- Below a power of two the next double is only half as far, except among the least ones. -/
def ofDouble (m : Nat) (e : Int) : Neighbourhood where
  low := if m = Nat.pow 2 52 ∧ leastExponent < e then 4 * m - 1 else 4 * m - 2
  value := 4 * m
  high := 4 * m + 2
  closed := m % 2 = 0

/-- Does `p` lie in the interval, when a quarter of a place is `b`? -/
def holds (n : Neighbourhood) (b p : Nat) : Bool :=
  if n.closed then n.low * b ≤ p && p ≤ n.high * b else n.low * b < p && p < n.high * b

/-- Which multiple of `a` in the interval is nearest to the value. -/
def nearest? (n : Neighbourhood) (tie : Tie) (a b : Nat) : Option Nat :=
  let c := n.value * b / a
  match n.holds b (c * a), n.holds b ((c + 1) * a) with
  | true, true => some (tie.round c (n.value * b - c * a) a)
  | true, false => some c
  | false, true => some (c + 1)
  | false, false => none

end Neighbourhood

namespace Decimal

/-- The nearest multiple of `10 ^ k` that rounds to `m · 2 ^ e`. -/
def onGrid? (tie : Tie) (m : Nat) (e k : Int) : Option Decimal :=
  ((Neighbourhood.ofDouble m e).nearest? tie (Nat.pow 10 k.toNat * Nat.pow 2 (2 - e).toNat)
    (Nat.pow 2 (e - 2).toNat * Nat.pow 10 (-k).toNat)).map (⟨·, k⟩)

/-- An exponent of ten whose power is at least `m · 2 ^ e` and not a hundred times it. -/
def ceiling (m : Nat) (e : Int) : Int := (m.log2 + 1 + e) * 30103 / 100000 + 1

/-- The coarsest grid is taken that has a point in the interval. Seventeen digits always suffice, so
one of twenty grids below the ceiling has a point. -/
def shortest (tie : Tie) (m : Nat) (e : Int) : Decimal :=
  if m = 0 then
    ⟨0, 0⟩
  else
    ((List.range 20).findSome? fun (j : Nat) => onGrid? tie m e (ceiling m e - j)).getD ⟨0, 0⟩

end Decimal

end Lox
