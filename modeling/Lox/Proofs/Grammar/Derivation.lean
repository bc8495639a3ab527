import Lox.Grammar.Statement

namespace Lox.Grammar

/-- How tightly an expression holds together, from the loosest to the tightest. -/
inductive Rank where
  | assignment
  | or
  | and
  | equality
  | comparison
  | term
  | factor
  | unary
  | call
  | primary
deriving DecidableEq

namespace Rank

/-- What an expression of a rank is made of. -/
def tighter? : Rank → Option Rank
  | assignment => some or
  | or => some and
  | and => some equality
  | equality => some comparison
  | comparison => some term
  | term => some factor
  | factor => some unary
  | unary => some call
  | call => some primary
  | primary => none

/-- The operators that stand between operands of the next tighter rank. -/
def isOperator : Rank → Kind → Bool
  | or, k => k = .or
  | and, k => k = .and
  | equality, k => isEquality k
  | comparison, k => isComparison k
  | term, k => isTermOperator k
  | factor, k => isFactorOperator k
  | _, _ => false

def node : Rank → Expr → Token → Expr → Expr
  | or | and => .logical
  | _ => .binary

end Rank

/-- What a kind of token stands for by itself. -/
def literal? : Kind → Option Literal
  | .true => some .true
  | .false => some .false
  | .nil => some .nil
  | .number value => some (.number value)
  | .string text => some (.string text)
  | _ => none

inductive Symbol where
  | expression (r : Rank)
  /-- One or more expressions with commas between them. -/
  | items
  | arguments
  /-- An expression that may be left out. -/
  | optional
  | function
  | method
  | methods
  | variable
  /-- The first clause of a `for`. -/
  | start
  /-- A dangling statement ends with an `if` that has no `else`. -/
  | statement (dangling : Bool)
  | declaration (dangling : Bool)
  | declarations

/-- What a symbol stands for. -/
def Symbol.Tree : Symbol → Type
  | .expression _ => Expr
  | .items => List Expr
  | .arguments => List Expr
  | .optional => Option Expr
  | .function => Function
  | .method => Method
  | .methods => List Method
  | .variable => Stmt
  | .start => Option Stmt
  | .statement _ => Stmt
  | .declaration _ => Stmt
  | .declarations => List Stmt

/-- One or more items with commas between them. -/
inductive Separated {α : Type} (item : List Token → α → Prop) : List Token → List α → Prop where
  | one {ts a} : item ts a → Separated item ts [a]
  | more {ts₁ ts₂ a as} {comma : Token} : item ts₁ a → comma.kind = .comma →
      Separated item ts₂ as → Separated item (ts₁ ++ comma :: ts₂) (a :: as)

/-- Names with commas between them, or nothing. -/
inductive Parameters : List Token → List Token → Prop where
  | none : Parameters [] []
  | some {ts params} :
      Separated (fun ts (name : Token) => name.kind = .identifier ∧ ts = [name]) ts params →
      params.length ≤ maxArguments → Parameters ts params

/-- `Derives nearest loop s ts t`: the tokens `ts` are an `s` that stands for `t`, by the grammar

    program      = declaration* ;
    declaration  = "class" NAME ( "<" NAME )? "{" method* "}" | "fun" method
                 | variable | statement ;
    method       = NAME function ;
    function     = "(" ( NAME ( "," NAME )* )? ")" block ;
    variable     = "var" NAME ( "=" expression )? ";" ;
    statement    = expression ";" | "print" expression ";" | "return" expression? ";"
                 | "break" ";" | block | "while" "(" expression ")" statement
                 | "for" "(" ( variable | expression ";" | ";" ) expression? ";" expression? ")"
                   statement
                 | "if" "(" expression ")" statement ( "else" statement )? ;
    block        = "{" declaration* "}" ;
    expression   = ( call "." )? NAME "=" expression | or ;
    or           = and ( "or" and )* ;               and        = equality ( "and" equality )* ;
    equality     = comparison ( ( "!=" | "==" ) comparison )* ;
    comparison   = term ( ( ">" | ">=" | "<" | "<=" ) term )* ;
    term         = factor ( ( "-" | "+" ) factor )* ; factor    = unary ( ( "/" | "*" ) unary )* ;
    unary        = ( "!" | "-" ) unary | call ;
    call         = primary ( "(" arguments? ")" | "." NAME )* ;
    primary      = NUMBER | STRING | "true" | "false" | "nil" | "this" | NAME
                 | "(" expression ")" | "super" "." NAME | "fun" function ;

With `loop` a loop of the same function is around the tokens, and only then there may be a `break`;
with `nearest` every `else` belongs to the nearest `if`. Lists have at most `maxArguments` items,
and the identities of nodes are left open. -/
inductive Derives (nearest : Bool) : Bool → (s : Symbol) → List Token → s.Tree → Prop where
  | operand {loop r r' ts e} : Rank.tighter? r = some r' →
      Derives nearest loop (.expression r') ts e → Derives nearest loop (.expression r) ts e
  | assign {loop ts id e} {name equals : Token} : name.kind = .identifier → equals.kind = .equal →
      Derives nearest loop (.expression .assignment) ts e →
      Derives nearest loop (.expression .assignment) (name :: equals :: ts) (.assign id name e)
  | set {loop ts₁ ts₂ object e} {dot name equals : Token} :
      Derives nearest loop (.expression .call) ts₁ object → dot.kind = .dot →
      name.kind = .identifier → equals.kind = .equal →
      Derives nearest loop (.expression .assignment) ts₂ e →
      Derives nearest loop (.expression .assignment) (ts₁ ++ dot :: name :: equals :: ts₂)
        (.set object name e)
  | operation {loop r r' ts₁ ts₂ left right} {operator : Token} :
      Derives nearest loop (.expression r) ts₁ left → Rank.isOperator r operator.kind →
      Rank.tighter? r = some r' → Derives nearest loop (.expression r') ts₂ right →
      Derives nearest loop (.expression r) (ts₁ ++ operator :: ts₂) (r.node left operator right)
  | sign {loop ts e} {operator : Token} : operator.kind = .bang ∨ operator.kind = .minus →
      Derives nearest loop (.expression .unary) ts e →
      Derives nearest loop (.expression .unary) (operator :: ts) (.unary operator e)
  | call {loop ts₁ ts₂ callee args} {opening paren : Token} :
      Derives nearest loop (.expression .call) ts₁ callee → opening.kind = .leftParen →
      Derives nearest loop .arguments ts₂ args → paren.kind = .rightParen →
      Derives nearest loop (.expression .call) (ts₁ ++ opening :: (ts₂ ++ [paren]))
        (.call callee paren args)
  | get {loop ts object} {dot name : Token} : Derives nearest loop (.expression .call) ts object →
      dot.kind = .dot → name.kind = .identifier →
      Derives nearest loop (.expression .call) (ts ++ [dot, name]) (.get object name)
  | literal {loop value} {t : Token} : literal? t.kind = some value →
      Derives nearest loop (.expression .primary) [t] (.literal value)
  | name {loop id} {t : Token} : t.kind = .identifier →
      Derives nearest loop (.expression .primary) [t] (.variable id t)
  | this {loop id} {t : Token} : t.kind = .this →
      Derives nearest loop (.expression .primary) [t] (.this id t)
  | super {loop id} {t dot method : Token} : t.kind = .super → dot.kind = .dot →
      method.kind = .identifier →
      Derives nearest loop (.expression .primary) [t, dot, method] (.super id t method)
  | grouping {loop ts e} {opening closing : Token} : opening.kind = .leftParen →
      Derives nearest loop (.expression .assignment) ts e → closing.kind = .rightParen →
      Derives nearest loop (.expression .primary) (opening :: (ts ++ [closing])) (.grouping e)
  | anonymous {loop ts f} {t : Token} : t.kind = .fun → Derives nearest loop .function ts f →
      Derives nearest loop (.expression .primary) (t :: ts) (.function f)
  | item {loop ts e} : Derives nearest loop (.expression .assignment) ts e →
      Derives nearest loop .items ts [e]
  | items {loop ts₁ ts₂ e es} {comma : Token} :
      Derives nearest loop (.expression .assignment) ts₁ e → comma.kind = .comma →
      Derives nearest loop .items ts₂ es →
      Derives nearest loop .items (ts₁ ++ comma :: ts₂) (e :: es)
  | noArguments {loop} : Derives nearest loop .arguments [] []
  | arguments {loop ts} {es : List Expr} : Derives nearest loop .items ts es →
      es.length ≤ maxArguments → Derives nearest loop .arguments ts es
  | leftOut {loop} : Derives nearest loop .optional [] none
  | present {loop ts} {e : Expr} : Derives nearest loop (.expression .assignment) ts e →
      Derives nearest loop .optional ts (some e)
  | function {loop ts₁ ts₂ params body} {opening closing brace last : Token} :
      opening.kind = .leftParen → Parameters ts₁ params → closing.kind = .rightParen →
      brace.kind = .leftBrace → Derives nearest false .declarations ts₂ body →
      last.kind = .rightBrace →
      Derives nearest loop .function (opening :: (ts₁ ++ closing :: brace :: (ts₂ ++ [last])))
        (⟨params, body⟩ : Function)
  | method {loop ts f} {name : Token} : name.kind = .identifier →
      Derives nearest loop .function ts f →
      Derives nearest loop .method (name :: ts) (⟨name, f⟩ : Method)
  | noMethods {loop} : Derives nearest loop .methods [] []
  | methods {loop ts₁ ts₂ m ms} : Derives nearest loop .method ts₁ m →
      Derives nearest loop .methods ts₂ ms → Derives nearest loop .methods (ts₁ ++ ts₂) (m :: ms)
  | bare {loop} {keyword name semicolon : Token} : keyword.kind = .var → name.kind = .identifier →
      semicolon.kind = .semicolon →
      Derives nearest loop .variable [keyword, name, semicolon] (.var name none)
  | initialized {loop ts e} {keyword name equals semicolon : Token} : keyword.kind = .var →
      name.kind = .identifier → equals.kind = .equal →
      Derives nearest loop (.expression .assignment) ts e → semicolon.kind = .semicolon →
      Derives nearest loop .variable (keyword :: name :: equals :: (ts ++ [semicolon]))
        (.var name (some e))
  | noStart {loop} {semicolon : Token} : semicolon.kind = .semicolon →
      Derives nearest loop .start [semicolon] none
  | startVariable {loop ts} {s : Stmt} : Derives nearest loop .variable ts s →
      Derives nearest loop .start ts (some s)
  | startExpression {loop ts e} {semicolon : Token} :
      Derives nearest loop (.expression .assignment) ts e → semicolon.kind = .semicolon →
      Derives nearest loop .start (ts ++ [semicolon]) (some (.expression e))
  | expression {loop ts e} {semicolon : Token} :
      Derives nearest loop (.expression .assignment) ts e → semicolon.kind = .semicolon →
      Derives nearest loop (.statement false) (ts ++ [semicolon]) (.expression e)
  | print {loop ts e} {keyword semicolon : Token} : keyword.kind = .print →
      Derives nearest loop (.expression .assignment) ts e → semicolon.kind = .semicolon →
      Derives nearest loop (.statement false) (keyword :: (ts ++ [semicolon])) (.print e)
  | return {loop ts value} {keyword semicolon : Token} : keyword.kind = .return →
      Derives nearest loop .optional ts value → semicolon.kind = .semicolon →
      Derives nearest loop (.statement false) (keyword :: (ts ++ [semicolon]))
        (.return keyword value)
  | break {keyword semicolon : Token} : keyword.kind = .break → semicolon.kind = .semicolon →
      Derives nearest true (.statement false) [keyword, semicolon] (.break keyword)
  | block {loop ts ss} {opening closing : Token} : opening.kind = .leftBrace →
      Derives nearest loop .declarations ts ss → closing.kind = .rightBrace →
      Derives nearest loop (.statement false) (opening :: (ts ++ [closing])) (.block ss)
  | while {loop ts₁ ts₂ d condition body} {keyword opening closing : Token} :
      keyword.kind = .while → opening.kind = .leftParen →
      Derives nearest loop (.expression .assignment) ts₁ condition → closing.kind = .rightParen →
      Derives nearest true (.statement d) ts₂ body →
      Derives nearest loop (.statement d) (keyword :: opening :: (ts₁ ++ closing :: ts₂))
        (.while condition body)
  | for {loop ts₁ ts₂ ts₃ ts₄ d start condition step body}
      {keyword opening semicolon closing : Token} :
      keyword.kind = .for → opening.kind = .leftParen → Derives nearest loop .start ts₁ start →
      Derives nearest loop .optional ts₂ condition → semicolon.kind = .semicolon →
      Derives nearest loop .optional ts₃ step → closing.kind = .rightParen →
      Derives nearest true (.statement d) ts₄ body →
      Derives nearest loop (.statement d)
        (keyword :: opening :: (ts₁ ++ (ts₂ ++ semicolon :: (ts₃ ++ closing :: ts₄))))
        (forLoop start condition step body)
  | if {loop ts₁ ts₂ d condition body} {keyword opening closing : Token} :
      keyword.kind = .if → opening.kind = .leftParen →
      Derives nearest loop (.expression .assignment) ts₁ condition → closing.kind = .rightParen →
      Derives nearest loop (.statement d) ts₂ body →
      Derives nearest loop (.statement true) (keyword :: opening :: (ts₁ ++ closing :: ts₂))
        (.ifElse condition body none)
  | ifElse {loop ts₁ ts₂ ts₃ d₁ d₂ condition body other}
      {keyword opening closing otherwise : Token} :
      keyword.kind = .if → opening.kind = .leftParen →
      Derives nearest loop (.expression .assignment) ts₁ condition → closing.kind = .rightParen →
      Derives nearest loop (.statement d₁) ts₂ body → (nearest → d₁ = false) →
      otherwise.kind = .else → Derives nearest loop (.statement d₂) ts₃ other →
      Derives nearest loop (.statement d₂)
        (keyword :: opening :: (ts₁ ++ closing :: (ts₂ ++ otherwise :: ts₃)))
        (.ifElse condition body (some other))
  | statement {loop d ts s} : Derives nearest loop (.statement d) ts s →
      Derives nearest loop (.declaration d) ts s
  | declareVariable {loop ts} {s : Stmt} : Derives nearest loop .variable ts s →
      Derives nearest loop (.declaration false) ts s
  | declareFunction {loop ts m} {keyword : Token} : keyword.kind = .fun →
      Derives nearest loop .method ts m →
      Derives nearest loop (.declaration false) (keyword :: ts) (.function m)
  | declareClass {loop ts ms} {keyword name opening closing : Token} : keyword.kind = .class →
      name.kind = .identifier → opening.kind = .leftBrace → Derives nearest loop .methods ts ms →
      closing.kind = .rightBrace →
      Derives nearest loop (.declaration false) (keyword :: name :: opening :: (ts ++ [closing]))
        (.class name none ms)
  | declareSubclass {loop id ts ms} {keyword name less superclass opening closing : Token} :
      keyword.kind = .class → name.kind = .identifier → less.kind = .less →
      superclass.kind = .identifier → opening.kind = .leftBrace →
      Derives nearest loop .methods ts ms → closing.kind = .rightBrace →
      Derives nearest loop (.declaration false)
        (keyword :: name :: less :: superclass :: opening :: (ts ++ [closing]))
        (.class name (some (.variable id superclass)) ms)
  | noDeclarations {loop} : Derives nearest loop .declarations [] []
  | declarations {loop d ts₁ ts₂ s ss} : Derives nearest loop (.declaration d) ts₁ s →
      Derives nearest loop .declarations ts₂ ss →
      Derives nearest loop .declarations (ts₁ ++ ts₂) (s :: ss)

end Lox.Grammar
