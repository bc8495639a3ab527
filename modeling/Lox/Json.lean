import Lox.Decimal.Notation

namespace Lox

inductive Json where
  | null
  | natural (n : Nat)
  | number (value : Float)
  | string (text : String)
  | array (items : List Json)
  | object (fields : List (String × Json))

namespace Json

def hexDigit (n : Nat) : Char := Nat.digitChar n

/-- Quotes, backslashes and control characters are escaped, and nothing else is. -/
def escape (c : Char) : List Char :=
  match c with
  | '"' => ['\\', '"']
  | '\\' => ['\\', '\\']
  | '\n' => ['\\', 'n']
  | '\r' => ['\\', 'r']
  | '\t' => ['\\', 't']
  | '\x08' => ['\\', 'b']
  | '\x0c' => ['\\', 'f']
  | _ =>
    if c.toNat < 0x20 then
      ['\\', 'u', '0', '0', hexDigit (c.toNat / 16), hexDigit (c.toNat % 16)]
    else
      [c]

def quote (s : String) : String := String.ofList ('"' :: s.toList.flatMap escape ++ ['"'])

/-- A new line at a level. -/
def newline (level : Nat) : String := "\n" ++ String.ofList (List.replicate (2 * level) ' ')

mutual

def pretty (level : Nat) : Json → String
  | null => "null"
  | natural n => toString n
  | number value => (Numeral.json? value).getD "null"
  | string text => quote text
  | array [] => "[]"
  | array (item :: items) => "[" ++ prettyItems level (item :: items) ++ newline level ++ "]"
  | object [] => "\x7b\x7d"
  | object (field :: fields) =>
    "\x7b" ++ prettyFields level (field :: fields) ++ newline level ++ "\x7d"

/-- Items on lines of their own, one level in. -/
def prettyItems (level : Nat) : List Json → String
  | [] => ""
  | [item] => newline (level + 1) ++ item.pretty (level + 1)
  | item :: items =>
    newline (level + 1) ++ item.pretty (level + 1) ++ "," ++ prettyItems level items

def prettyFields (level : Nat) : List (String × Json) → String
  | [] => ""
  | [(key, value)] => newline (level + 1) ++ quote key ++ ": " ++ value.pretty (level + 1)
  | (key, value) :: fields =>
    newline (level + 1) ++ quote key ++ ": " ++ value.pretty (level + 1) ++ "," ++
      prettyFields level fields

end

/-- The text of a document. -/
def render (document : Json) : String := document.pretty 0

end Json

end Lox
