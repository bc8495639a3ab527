namespace Lox

inductive LexicalFault where
  | unexpected (c : Char)
  | unterminatedString
deriving DecidableEq

inductive GrammarFault where
  /-- Something was required that is not there, such as `';' after value`. -/
  | expected (item : String)
  | missingLeftOperand
  | tooManyParameters
  | tooManyArguments
  | breakOutsideLoop
  | invalidTarget
deriving DecidableEq

inductive ScopeFault where
  | declaredTwice
  | readInOwnInitializer
  | assignedInOwnInitializer
  | returnOutsideFunction
  | valueFromInitializer
  | thisOutsideClass
  | superOutsideClass
  | superWithoutSuperclass
  | inheritsFromItself
  | unused (name : String)
deriving DecidableEq

inductive Fault where
  | lexical (fault : LexicalFault)
  | grammar (fault : GrammarFault)
  | scope (fault : ScopeFault)
deriving DecidableEq

structure Diagnostic where
  line : Nat
  fault : Fault
deriving DecidableEq

def LexicalFault.message : LexicalFault → String
  | .unexpected c => "Unexpected character: " ++ String.singleton c
  | .unterminatedString => "Unterminated string."

def GrammarFault.message : GrammarFault → String
  | .expected item => "Expect " ++ item ++ "."
  | .missingLeftOperand => "Missing left operand for binary operator."
  | .tooManyParameters => "Can't have more than 255 parameters."
  | .tooManyArguments => "Can't have more than 255 arguments."
  | .breakOutsideLoop => "Can't use 'break' outside of a loop."
  | .invalidTarget => "Invalid assignment target."

def ScopeFault.message : ScopeFault → String
  | .declaredTwice => "Already a variable with this name in this scope."
  | .readInOwnInitializer => "Can't read local variable in its own initializer."
  | .assignedInOwnInitializer => "Can't assign to local variable in its own initializer."
  | .returnOutsideFunction => "Can't return from top-level code."
  | .valueFromInitializer => "Can't return a value from an initializer."
  | .thisOutsideClass => "Can't use 'this' outside of a class."
  | .superOutsideClass => "Can't use 'super' outside of a class."
  | .superWithoutSuperclass => "Can't use 'super' in a class with no superclass."
  | .inheritsFromItself => "A class can't inherit from itself."
  | .unused name => "Unused variable '" ++ name ++ "'."

def Fault.message : Fault → String
  | .lexical fault => fault.message
  | .grammar fault => fault.message
  | .scope fault => fault.message

/-- The text shown to the user. -/
def Diagnostic.display (d : Diagnostic) : String :=
  "[line " ++ toString d.line ++ "] Error: " ++ d.fault.message

/-- Several diagnostics are shown one a line. -/
def Diagnostic.displayAll (ds : List Diagnostic) : String :=
  "\n".intercalate (ds.map Diagnostic.display)

end Lox
