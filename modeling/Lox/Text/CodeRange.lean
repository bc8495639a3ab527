namespace Lox

/-- A closed range of code points. -/
abbrev CodeRange := Nat × Nat

namespace CodeRange

def holds (r : CodeRange) (c : Char) : Bool := r.1 ≤ c.toNat && c.toNat ≤ r.2

end CodeRange

end Lox
