import Lox.Text.Extending
import Lox.Text.Ignorable
import Lox.Text.Unprintable

namespace Lox.Text

/-- The halfwidth sound marks extend what is before them, but stand in a cell of their own. -/
def isHalfwidthMark (c : Char) : Bool := c = '\uff9e' || c = '\uff9f'

/-- Is a character drawn together with the one before it? -/
def isCombining (c : Char) : Bool := isExtending c && !isHalfwidthMark c

/-- Does a character show, and on its own? -/
def isDistinct (c : Char) : Bool := !(isCombining c || isIgnorable c || isUnprintable c)

/-- A character by its code point. -/
def byCodePoint (c : Char) : List Char :=
  ['\\', 'u', '\x7b'] ++ Nat.toDigits 16 c.toNat ++ ['\x7d']

/-- What stands for a character between quotes. -/
def escape (c : Char) : List Char :=
  match c with
  | '"' => ['\\', '"']
  | '\\' => ['\\', '\\']
  | '\n' => ['\\', 'n']
  | '\r' => ['\\', 'r']
  | '\t' => ['\\', 't']
  | '\x00' => ['\\', '0']
  | _ => if isDistinct c then [c] else byCodePoint c

def quoted (s : String) : String := String.ofList ('"' :: s.toList.flatMap escape ++ ['"'])

end Lox.Text
