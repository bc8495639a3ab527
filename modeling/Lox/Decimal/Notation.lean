import Lox.Decimal.Shortest

namespace Lox.Numeral

open Decimal

def signed (negative : Bool) (text : List Char) : List Char :=
  if negative then '-' :: text else text

def ofQuantity (magnitude : Nat → Int → List Char) : Quantity → List Char
  | .undefined => ['N', 'a', 'N']
  | .infinite negative => signed negative ['i', 'n', 'f']
  | .finite negative m e => signed negative (magnitude m e)

/-- In every text but that of a document a tie between two shortest decimals goes up. -/
def shortestPositional (m : Nat) (e : Int) : List Char := (shortest .up m e).positional

/-- The shortest digits, all of them written out. -/
def plain (x : Float) : String :=
  String.ofList (ofQuantity shortestPositional (.ofFloat x))

/-- Numbers from here on print with an exponent. -/
def exponentThreshold : Nat := Nat.pow 10 21

/-- At least one digit stands behind the point. -/
def exponential (d : Decimal) : List Char :=
  (if (natural d.digits).length = 1 then d.mantissa ++ ['.', '0'] else d.mantissa) ++
    'E' :: integer d.leading

def printedMagnitude (m : Nat) (e : Int) : List Char :=
  match Quantity.whole? m e with
  | some n => if exponentThreshold ≤ n then exponential (shortest .up m e) else natural n
  | none => shortestPositional m e

/-- A whole number prints all of its digits below the threshold, and no point. -/
def printed (x : Float) : String := String.ofList (ofQuantity printedMagnitude (.ofFloat x))

def literalMagnitude (m : Nat) (e : Int) : List Char :=
  match Quantity.whole? m e with
  | some n => natural n ++ ['.', '0']
  | none => shortestPositional m e

/-- A whole number has all of its digits and one place. -/
def literal (x : Float) : String := String.ofList (ofQuantity literalMagnitude (.ofFloat x))

/-- The listing gives a place only to whole numbers of fewer than 64 bits. -/
def listedMagnitude (m : Nat) (e : Int) : List Char :=
  match Quantity.whole? m e with
  | some n => if n < Nat.pow 2 63 then natural n ++ ['.', '0'] else shortestPositional m e
  | none => shortestPositional m e

/-- A listed zero has no sign. -/
def listed (x : Float) : String :=
  let q := Quantity.ofFloat x
  String.ofList (ofQuantity listedMagnitude (if q = .finite true 0 0 then .finite false 0 0 else q))

/-- Positional from `1e-5` up to but without `1e16`, and with a sign at every exponent; a tie goes
to the even digit. -/
def jsonMagnitude (m : Nat) (e : Int) : List Char :=
  let d := shortest .even m e
  if 16 ≤ d.leading then
    d.mantissa ++ 'e' :: '+' :: integer d.leading
  else if d.leading < -5 then
    d.mantissa ++ 'e' :: integer d.leading
  else if 0 ≤ d.exponent then
    d.positional ++ ['.', '0']
  else
    d.positional

/-- JSON has no text for a number that is not finite. -/
def json? (x : Float) : Option String :=
  match Quantity.ofFloat x with
  | .finite negative m e => some (String.ofList (signed negative (jsonMagnitude m e)))
  | _ => none

end Lox.Numeral
