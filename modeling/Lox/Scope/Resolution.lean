import Lox.Scope.Walk

namespace Lox

/-- How locals that are never read are taken. -/
inductive Lint where
  | allow
  | warn
  | deny
deriving DecidableEq

structure Resolution where
  addresses : List (Nat × Address)
  warnings : List Diagnostic

namespace Finding

def address? : Finding → Option (Nat × Address)
  | address id a => some (id, a)
  | _ => none

/-- What stops a program from running. -/
def error? (lint : Lint) : Finding → Option Diagnostic
  | misuse d => some d
  | unread d => if lint = .deny then some d else none
  | address _ _ => none

def warning? (lint : Lint) : Finding → Option Diagnostic
  | unread d => if lint = .warn then some d else none
  | _ => none

end Finding

def verdict (lint : Lint) (findings : List Finding) : Except (List Diagnostic) Resolution :=
  match findings.filterMap (Finding.error? lint) with
  | [] => .ok ⟨findings.filterMap Finding.address?, findings.filterMap (Finding.warning? lint)⟩
  | errors => .error errors

end Lox
