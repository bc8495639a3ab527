import Lox.Token
import Lox.Diagnostic

namespace Lox

/-- A stretch of source text. -/
inductive Piece where
  | blank (c : Char)
  | comment (text : List Char)
  | word (kind : Kind) (text : List Char)
  | stray (c : Char)
  | openString (text : List Char)

namespace Piece

def text : Piece → List Char
  | blank c => [c]
  | comment text => text
  | word _ text => text
  | stray c => [c]
  | openString text => text

end Piece

/-- Space, tabulator, carriage return and newline. -/
def isBlank (c : Char) : Bool := c = ' ' || c = '\t' || c = '\r' || c = '\n'

/-- ASCII letters and the underscore start a name. -/
def isNameStart (c : Char) : Bool := c.isAlpha || c = '_'

def isNameChar (c : Char) : Bool := c.isAlphanum || c = '_'

/-- The digits that `cs` starts with, then a point and digits if both are there. -/
def numeral (cs : List Char) : List Char × List Char × List Char :=
  let whole := cs.takeWhile Char.isDigit
  match cs.dropWhile Char.isDigit with
  | '.' :: rest =>
    let places := rest.takeWhile Char.isDigit
    if places = [] then (whole, [], '.' :: rest) else (whole, places, rest.dropWhile Char.isDigit)
  | rest => (whole, [], rest)

def digitsValue (cs : List Char) : Nat :=
  cs.foldl (fun n c => 10 * n + (c.toNat - '0'.toNat)) 0

/-- The double nearest to a numeral. -/
def numeralValue (whole places : List Char) : Float :=
  .ofScientific (digitsValue (whole ++ places)) true places.length

namespace Piece

def ofNumeral (cs : List Char) : Piece × List Char :=
  match numeral cs with
  | (whole, [], rest) => (.word (.number (numeralValue whole [])) whole, rest)
  | (whole, places, rest) =>
    (.word (.number (numeralValue whole places)) (whole ++ '.' :: places), rest)

def ofName (cs : List Char) : Piece × List Char :=
  let name := cs.takeWhile isNameChar
  (.word ((Kind.keyword? (String.ofList name)).getD .identifier) name, cs.dropWhile isNameChar)

/-- A string runs to the next quote, over any newlines. -/
def ofString (cs : List Char) : Piece × List Char :=
  let body := cs.takeWhile (· ≠ '"')
  match cs.dropWhile (· ≠ '"') with
  | [] => (.openString ('"' :: body), [])
  | quote :: rest => (.word (.string (String.ofList body)) ('"' :: body ++ [quote]), rest)

/-- A comment ends before the newline. -/
def ofComment (cs : List Char) : Piece × List Char :=
  (.comment ('/' :: '/' :: cs.takeWhile (· ≠ '\n')), cs.dropWhile (· ≠ '\n'))

/-- An operator that an equals sign may prolong. -/
def ofOperator (c : Char) (short long : Kind) : List Char → Piece × List Char
  | '=' :: rest => (.word long [c, '='], rest)
  | rest => (.word short [c], rest)

/-- The piece that starts with `c`, and what follows it. -/
def next (c : Char) (cs : List Char) : Piece × List Char :=
  match c with
  | '(' => (.word .leftParen [c], cs)
  | ')' => (.word .rightParen [c], cs)
  | '{' => (.word .leftBrace [c], cs)
  | '}' => (.word .rightBrace [c], cs)
  | ',' => (.word .comma [c], cs)
  | '.' => (.word .dot [c], cs)
  | '-' => (.word .minus [c], cs)
  | '+' => (.word .plus [c], cs)
  | ';' => (.word .semicolon [c], cs)
  | '*' => (.word .star [c], cs)
  | '!' => ofOperator c .bang .bangEqual cs
  | '=' => ofOperator c .equal .equalEqual cs
  | '<' => ofOperator c .less .lessEqual cs
  | '>' => ofOperator c .greater .greaterEqual cs
  | '/' =>
    match cs with
    | '/' :: rest => ofComment rest
    | _ => (.word .slash [c], cs)
  | '"' => ofString cs
  | _ =>
    if isBlank c then (.blank c, cs)
    else if c.isDigit then ofNumeral (c :: cs)
    else if isNameStart c then ofName (c :: cs)
    else (.stray c, cs)

end Piece

/-- At most `n` pieces. -/
def piecesUpTo : Nat → List Char → List Piece
  | 0, _ => []
  | _ + 1, [] => []
  | n + 1, c :: cs => (Piece.next c cs).1 :: piecesUpTo n (Piece.next c cs).2

/-- Every piece takes a character, so there are no more pieces than characters. -/
def pieces (cs : List Char) : List Piece := piecesUpTo cs.length cs

/-- A token, or what is wrong in place of one. -/
abbrev Item := Except Diagnostic Token

/-- What a piece amounts to when it ends on `line`; layout amounts to nothing. -/
def Piece.item? (line : Nat) : Piece → Option Item
  | .blank _ => none
  | .comment _ => none
  | .word kind text => some (.ok ⟨kind, String.ofList text, line⟩)
  | .stray c => some (.error ⟨line, .lexical (.unexpected c)⟩)
  | .openString _ => some (.error ⟨line, .lexical .unterminatedString⟩)

def newlines (cs : List Char) : Nat := cs.count '\n'

/-- The items of the pieces that follow `line - 1` newlines, and the end of input after them. -/
def itemsFrom (line : Nat) : List Piece → List Item
  | [] => [.ok ⟨.eof, "", line⟩]
  | p :: ps =>
    let line := line + newlines p.text
    match p.item? line with
    | none => itemsFrom line ps
    | some item => item :: itemsFrom line ps

/-- The items of a source in order; the last one is its only end of input. -/
def scan (source : String) : List Item := itemsFrom 1 (pieces source.toList)

def Item.token? : Item → Option Token
  | .ok t => some t
  | .error _ => none

def Item.fault? : Item → Option Diagnostic
  | .ok _ => none
  | .error d => some d

def tokens (items : List Item) : List Token := items.filterMap Item.token?

def faults (items : List Item) : List Diagnostic := items.filterMap Item.fault?

end Lox
