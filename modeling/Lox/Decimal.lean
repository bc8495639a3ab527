namespace Lox

/-- The number `digits` times ten to the `exponent`. -/
structure Decimal where
  digits : Nat
  exponent : Int
deriving DecidableEq

namespace Decimal

def zeros (n : Nat) : List Char := List.replicate n '0'

/-- The digits of a natural number, most significant first. -/
def natural (n : Nat) : List Char := Nat.toDigits 10 n

def integer (n : Int) : List Char :=
  match n with
  | .ofNat n => natural n
  | .negSucc n => '-' :: natural (n + 1)

/-- Splits off the last `places` digits behind a point, with at least one digit before it. -/
def pointed (digits : List Char) (places : Nat) : List Char :=
  let padded := zeros (places + 1 - digits.length) ++ digits
  padded.take (padded.length - places) ++ '.' :: padded.drop (padded.length - places)

/-- No exponent: every zero is written out. -/
def positional (d : Decimal) : List Char :=
  if 0 ≤ d.exponent then
    natural d.digits ++ zeros d.exponent.toNat
  else
    pointed (natural d.digits) (-d.exponent).toNat

/-- The exponent of the leading digit. -/
def leading (d : Decimal) : Int := (natural d.digits).length - 1 + d.exponent

/-- One digit before the point, and a point only if digits follow. -/
def mantissa (d : Decimal) : List Char :=
  match natural d.digits with
  | [] => []
  | [c] => [c]
  | c :: cs => c :: '.' :: cs

end Decimal

/-- What a double denotes: a finite one is `mantissa` times two to the `exponent`. -/
inductive Quantity where
  | undefined
  | infinite (negative : Bool)
  | finite (negative : Bool) (mantissa : Nat) (exponent : Int)
deriving DecidableEq

namespace Quantity

def isNegative : Float.Model.UnpackedFloat.Sign → Bool
  | .negative => true
  | .positive => false

def ofFloat (x : Float) : Quantity :=
  match x.toModel.unpack with
  | .notANumber => .undefined
  | .infinity s => .infinite (isNegative s)
  | .zero s => .finite (isNegative s) 0 0
  | .finite s m e _ => .finite (isNegative s) m e

/-- The natural number `m · 2 ^ e`, if it is one. -/
def whole? (m : Nat) (e : Int) : Option Nat :=
  if 0 ≤ e then
    some (m * Nat.pow 2 e.toNat)
  else if m % Nat.pow 2 (-e).toNat = 0 then
    some (m / Nat.pow 2 (-e).toNat)
  else
    none

end Quantity

end Lox
