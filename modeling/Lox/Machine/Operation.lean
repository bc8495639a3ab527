import Lox.Machine

namespace Lox.Operation

def unary (operator : Token) (v : Value) : Except RuntimeError Value :=
  match operator.kind, v with
  | .bang, v => .ok (.bool !v.truthy)
  | .minus, .number x => .ok (.number (-x))
  | _, _ => .error (.operandMustBeNumber operator.lexeme operator.line)

/-- Numbers are added; with a string on either side the texts are joined. -/
def add (line : Nat) : Value → Value → Except RuntimeError Value
  | .number x, .number y => .ok (.number (x + y))
  | .string s, v => .ok (.string (s ++ v.text))
  | v, .string s => .ok (.string (v.text ++ s))
  | _, _ => .error (.invalidAddition line)

def divide (line : Nat) (x y : Float) : Except RuntimeError Value :=
  if y == 0 then .error (.divisionByZero line) else .ok (.number (x / y))

def onNumbers (operator : Token) (x y : Float) : Except RuntimeError Value :=
  match operator.kind with
  | .minus => .ok (.number (x - y))
  | .star => .ok (.number (x * y))
  | .slash => divide operator.line x y
  | .greater => .ok (.bool (x > y))
  | .greaterEqual => .ok (.bool (x ≥ y))
  | .less => .ok (.bool (x < y))
  | .lessEqual => .ok (.bool (x ≤ y))
  | _ => .error (.operandsMustBeNumbers operator.lexeme operator.line)

def numeric (operator : Token) : Value → Value → Except RuntimeError Value
  | .number x, .number y => onNumbers operator x y
  | _, _ => .error (.operandsMustBeNumbers operator.lexeme operator.line)

def binary (operator : Token) (v w : Value) : Except RuntimeError Value :=
  match operator.kind with
  | .equalEqual => .ok (.bool (v.equals w))
  | .bangEqual => .ok (.bool !v.equals w)
  | .plus => add operator.line v w
  | _ => numeric operator v w

/-- Does the left side decide? An `or` is decided by truth, an `and` by its lack. -/
def decides (operator : Token) (v : Value) : Bool :=
  if operator.kind = .or then v.truthy else !v.truthy

def literal : Literal → Value
  | .number x => .number x
  | .string s => .string s
  | .true => .bool true
  | .false => .bool false
  | .nil => .nil

end Lox.Operation
