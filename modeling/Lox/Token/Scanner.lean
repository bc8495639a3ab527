import Lox.Token.Scan

namespace Lox

/-- A pass over the bytes of a text, whose lexemes are slices of the text. A slice has to start and
end between characters; where one would not, a call yields nothing at all. -/
structure Scanner where
  text : String
  /-- Where the lexeme at hand starts. -/
  start : Nat
  /-- The byte that comes next. -/
  curr : Nat
  line : Nat

namespace Scanner

def new (text : String) : Scanner := ⟨text, 0, 0, 1⟩

def bytes (s : Scanner) : List UInt8 := s.text.toByteArray.data.toList

/-- What stands between two offsets of the text. -/
def slice? (s : Scanner) (i j : Nat) : Option String :=
  if i ≤ j ∧ String.Pos.Raw.IsValid s.text ⟨i⟩ ∧ String.Pos.Raw.IsValid s.text ⟨j⟩ then
    String.fromUTF8? (s.text.toByteArray.extract i j)
  else none

/-- A byte as the character with its number; for ASCII bytes, the character that they are. -/
def byteAt (s : Scanner) (i : Nat) : Char := Char.ofUInt8 (s.bytes.getD i 0)

/-- Past the end, the byte at hand is zero, and so is the one behind it. -/
def peek (s : Scanner) : Char := s.byteAt s.curr

def peekNext (s : Scanner) : Char := s.byteAt (s.curr + 1)

def advance (s : Scanner) : Scanner := { s with curr := s.curr + 1 }

def isAtEnd (s : Scanner) : Bool := s.bytes.length ≤ s.curr

/-- The bytes from the one at hand up to the first that `P` does not hold of. -/
def run (P : Char → Bool) (s : Scanner) : List UInt8 :=
  (s.bytes.drop s.curr).takeWhile fun b => P (Char.ofUInt8 b)

def skip (P : Char → Bool) (s : Scanner) : Scanner :=
  { s with curr := s.curr + (s.run P).length }

/-- The long operator if an equals sign follows, which then belongs to it. -/
def withEqual (s : Scanner) (long short : Kind) : Kind × Scanner :=
  if !s.isAtEnd && s.peek = '=' then (long, s.advance) else (short, s)

def unexpected (s : Scanner) (first : Char) : Option (Except Diagnostic (Option Kind) × Scanner) := do
  let rest ← s.slice? s.start s.bytes.length
  let c := rest.toList.head?.getD first
  return (.error ⟨s.line, .lexical (.unexpected c)⟩, { s with curr := s.start + c.utf8Size })

/-- Everything before the next quote; a string may run over lines. -/
def skipString (s : Scanner) : Scanner :=
  let body := s.run (· ≠ '"')
  { s with curr := s.curr + body.length, line := s.line + body.count 10 }

def parseString (s : Scanner) : Option (Except Diagnostic (Option Kind) × Scanner) :=
  let s := s.skipString
  if s.isAtEnd then some (.error ⟨s.line, .lexical .unterminatedString⟩, s)
  else do
    let s := s.advance
    let body ← s.slice? (s.start + 1) (s.curr - 1)
    return (.ok (some (.string body)), s)

/-- The digits, then a point and digits if both are there. -/
def skipNumber (s : Scanner) : Scanner :=
  let s := s.skip Char.isDigit
  if s.peek = '.' && s.peekNext.isDigit then s.advance.skip Char.isDigit else s

def parseNumber (s : Scanner) : Option (Except Diagnostic (Option Kind) × Scanner) := do
  let s := s.skipNumber
  let lexeme ← s.slice? s.start s.curr
  let (whole, places, _) := numeral lexeme.toList
  return (.ok (some (.number (numeralValue whole places))), s)

def parseIdentifier (s : Scanner) : Except Diagnostic (Option Kind) × Scanner :=
  let s := s.skip isNameChar
  let name := (s.bytes.drop s.start).take (s.curr - s.start)
  (.ok (some ((Kind.keyword? (String.ofList (name.map Char.ofUInt8))).getD .identifier)), s)

/-- One lexeme from the byte at hand on: the kind of a token, nothing for layout, or what is wrong.
-/
def scanToken (s : Scanner) : Option (Except Diagnostic (Option Kind) × Scanner) :=
  let c := s.peek
  let s := s.advance
  let mark k := some (.ok (some k), s)
  let operator long short :=
    let (k, s) := s.withEqual long short
    some (.ok (some k), s)
  match c with
  | '(' => mark .leftParen
  | ')' => mark .rightParen
  | '{' => mark .leftBrace
  | '}' => mark .rightBrace
  | ',' => mark .comma
  | '.' => mark .dot
  | '-' => mark .minus
  | '+' => mark .plus
  | ';' => mark .semicolon
  | '*' => mark .star
  | '!' => operator .bangEqual .bang
  | '=' => operator .equalEqual .equal
  | '<' => operator .lessEqual .less
  | '>' => operator .greaterEqual .greater
  | '/' =>
    if !s.isAtEnd && s.peek = '/' then some (.ok none, s.advance.skip (· ≠ '\n')) else mark .slash
  | ' ' | '\r' | '\t' => some (.ok none, s)
  | '\n' => some (.ok none, { s with line := s.line + 1 })
  | '"' => s.parseString
  | _ =>
    if c.isDigit then s.parseNumber
    else if isNameStart c then some s.parseIdentifier
    else s.unexpected c

/-- The end of input is yielded once. -/
def finish (s : Scanner) : Option Item × Scanner :=
  if s.curr = s.bytes.length then (some (.ok ⟨.eof, "", s.line⟩), s.advance) else (none, s)

/-- The next item behind at most `n` lexemes of layout. -/
def nextWithin : Nat → Scanner → Option (Option Item × Scanner)
  | 0, s => some s.finish
  | n + 1, s =>
    if s.isAtEnd then some s.finish
    else do
      let (kind?, s) ← scanToken { s with start := s.curr }
      match kind? with
      | .error d => return (some (.error d), s)
      | .ok none => nextWithin n s
      | .ok (some k) =>
        let lexeme ← s.slice? s.start s.curr
        return (some (.ok ⟨k, lexeme, s.line⟩), s)

/-- Every lexeme takes a byte, so no more of them follow than bytes are left. -/
def next (s : Scanner) : Option (Option Item × Scanner) :=
  nextWithin (s.bytes.length - s.curr) s

/-- What the call number `n` yields, from zero on. -/
def yielded : Nat → Scanner → Option (Option Item)
  | 0, s => s.next.map Prod.fst
  | n + 1, s => s.next.bind fun (_, s) => yielded n s

end Scanner

end Lox
