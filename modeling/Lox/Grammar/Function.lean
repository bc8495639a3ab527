import Lox.Grammar.Cursor

namespace Lox.Grammar

/-- More arguments or parameters than this are reported. -/
def maxArguments : Nat := 255

/-- What follows an opening parenthesis: items with commas between them. -/
def commaList (excess : GrammarFault) (item : Parse α) : Parse (List α) := do
  if (← kind) = .rightParen then
    return []
  let first ← item
  let others ← many (fun i => do
    if !(← accept .comma) then
      return none
    if maxArguments ≤ i then
      record (← head).line excess
    return some (← item)) 1
  return first :: others

/-- What follows an opening brace. Declarations that had a fault leave nothing behind. -/
def block (inner : Inner) : Parse (List Stmt) := do
  let declarations ← many (fun _ => do
    let k ← kind
    if k = .rightBrace ∨ k = .eof then
      return none
    return some (← inner.declaration)) 0
  let _ ← expect .rightBrace "'\x7d' after block"
  return declarations.filterMap id

/-- What a function is called in a fault. -/
inductive Role where
  | function
  | method
deriving DecidableEq

def Role.name : Role → String
  | .function => "function"
  | .method => "method"

/-- Parameters and body. No loop around the function is a loop around its body. -/
def function (inner : Inner) (role : Role) : Parse Function := do
  let _ ← expect .leftParen ("'(' after " ++ role.name ++ " name")
  let params ← commaList .tooManyParameters (expect .identifier "parameter name")
  let _ ← expect .rightParen "')' after parameters"
  let _ ← expect .leftBrace ("'\x7b' before " ++ role.name ++ " body")
  let body ← withLoops (fun _ => 0) (block inner)
  return ⟨params, body⟩

/-- A name with the function it stands for. -/
def method (inner : Inner) (role : Role) : Parse Method := do
  let name ← expect .identifier (role.name ++ " name")
  return ⟨name, ← function inner role⟩

end Lox.Grammar
