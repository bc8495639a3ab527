import Lox.Proofs.Machine.Statement
import Lox.Proofs.Scope.Table

namespace Lox

variable {P : History} {W W' : World} {m m' : Machine} {L : Lexical}

/-- Every part of the evaluator is safe. -/
structure SafeParts (P : History) (n : Nat) : Prop where
  expression : SafeExpr P n
  arguments : SafeArguments P n
  invocation : SafeInvocation P n
  call : SafeCall P n
  statement : SafeStmt P n
  statements : SafeStmts P n

theorem safeParts (P : History) (n : Nat) : SafeParts P n := by
  induction n with
  | zero =>
    constructor
    · exact fun h _ => safe_exhausted h.sound meets_evaluate rfl rfl
    · exact fun h _ => safe_exhausted h.sound (fun _ => trivial) rfl rfl
    · exact fun h hcallee hvs => (safe_exhausted h (meets_invoke h hcallee hvs) rfl rfl).imp
        fun _ _ _ _ hv => hv.1
    · exact fun h hf _ _ => (safe_exhausted h (meets_call h hf) rfl rfl).imp fun _ _ _ _ hv => hv.1
    · intro W m L loop s h hL hformed hknown _
      have hlocated : s.Located P m := ⟨W, L, loop, h, hL.stands, hL.proper, hknown, hformed⟩
      exact safe_exhausted h (fun _ => hlocated) rfl rfl
    · exact fun h _ _ _ _ => safe_exhausted h (fun _ => trivial) rfl rfl
  | succ n ih =>
    constructor
    · exact safeExpr_succ ih.expression ih.arguments ih.invocation
    · exact safeArguments_succ ih.expression ih.arguments
    · exact safeInvocation_succ ih.call
    · exact safeCall_succ ih.statements
    · exact safeStmt_succ ih.expression ih.statement ih.statements
    · exact safeStmts_succ ih.statement ih.statements

theorem Here.top (hframe : m.frame = none) : Here P W m [] := by
  refine ⟨?_, .nil, by simp⟩
  rw [hframe]
  exact .top

theorem safe_interpretOne {s : Stmt} (n : Nat) (h : Sound P W m) (hframe : m.frame = none)
    (hformed : s.Formed false) (hknown : Known P [] (s.nodes [])) :
    Safe P none W m (Machine.interpretOne n s) [topLevel n m s] fun _ _ _ => True := by
  have hsafe := safeParts P n
  have hhere : Here P W m [] := .top hframe
  have hexecute : Safe P none W m (do let _ ← Machine.execute n s) [⟨n, .execute s, m⟩]
      fun _ _ _ => True := by
    have hs := SafeStmt.follow hsafe.statement hframe h hhere hformed hknown (by simp [Lexical.Expects])
    exact Safe.andThen hs fun _ _ _ _ hk _ => .pure hk.sound trivial
  have hget : Lox.after (get : Step Machine) m (fun _ m => [topLevel n m s]) = [topLevel n m s] := rfl
  rw [← hget]
  refine Safe.before (safe_get h) ?_
  rintro _ _ _ - - ⟨rfl, rfl, rfl⟩
  cases s with
  | expression e =>
    cases hechoes : m.echoes with
    | true =>
      simp only [topLevel, hechoes]
      refine Safe.andThen (hsafe.expression (.of_here h hhere) ⟨hknown, hformed⟩) ?_
      exact fun v _ _ _ hk _ => (safe_write hk.sound v.text).imp fun _ _ _ _ _ => trivial
    | false =>
      simp only [topLevel, hechoes]
      exact hexecute
  | _ => exact hexecute

theorem safe_interpret {program : List Stmt} (n : Nat) (h : Sound P W m) (hframe : m.frame = none)
    (hformed : FormedStatements false program) (hknown : Known P [] (nodesOfProgram program)) :
    Safe P none W m (Machine.interpret n program) [⟨n, .interpret program, m⟩]
      fun _ _ _ => True := by
  induction program generalizing W m with
  | nil => exact Safe.enter fun _ => ⟨trivial, .pure h trivial⟩
  | cons s ss ih =>
    refine Safe.enter fun _ => ⟨trivial, ?_⟩
    have hafter : Lexical.after [] s = [] := by
      unfold Lexical.after
      split <;> rfl
    have hrest : Known P [] (nodesOfProgram ss) := by
      have hright := hknown.right
      rwa [hafter] at hright
    refine Safe.bind (safe_interpretOne n h hframe hformed.1 hknown.left) fun _ W₁ m₁ _ hk₁ _ => ?_
    exact ih hk₁.sound (hk₁.frame.trans hframe) hformed.2 hrest

end Lox
