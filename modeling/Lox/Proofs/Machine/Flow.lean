import Lox.Proofs.Machine.Retained
import Lox.Proofs.Machine.Moment
import Lox.Proofs.Scope.Walk
import Lox.Proofs.Tree.Formed

namespace Lox

mutual

/-- There is no `return` outside the functions that stand in the statement. -/
def Stmt.Returnless : Stmt → Prop
  | .return _ _ => False
  | .block statements => ReturnlessStatements statements
  | .ifElse _ thenBranch none => thenBranch.Returnless
  | .ifElse _ thenBranch (some elseBranch) => thenBranch.Returnless ∧ elseBranch.Returnless
  | .while _ body => body.Returnless
  | _ => True

def ReturnlessStatements : List Stmt → Prop
  | [] => True
  | s :: ss => s.Returnless ∧ ReturnlessStatements ss

end

open Walk in
mutual

theorem Stmt.returnless_of_walk {c : Context} (hc : c.inFunction = .none) (w : Walk) :
    (s : Stmt) → (s.walk c w).Clean → s.Returnless
  | .return _ _, h => absurd hc (Stmt.inFunction_of_clean h)
  | .block ss, h => returnless_of_walkStatements hc _ ss ((keeps_leave _).clean h)
  | .ifElse _ s none, h => s.returnless_of_walk hc _ h
  | .ifElse _ s (some s'), h =>
    ⟨s.returnless_of_walk hc _ ((s'.walk_keeps c _).clean h), s'.returnless_of_walk hc _ h⟩
  | .while _ s, h => s.returnless_of_walk hc _ h
  | .expression _, _ | .print _, _ | .var _ _, _ | .break _, _ | .function _, _
  | .class _ _ _, _ => trivial

theorem returnless_of_walkStatements {c : Context} (hc : c.inFunction = .none) (w : Walk) :
    (ss : List Stmt) → (walkStatements c w ss).Clean → ReturnlessStatements ss
  | [], _ => trivial
  | s :: ss, h =>
    ⟨s.returnless_of_walk hc w ((walkStatements_keeps c _ ss).clean h),
      returnless_of_walkStatements hc _ ss h⟩

end

/-- No program that is accepted returns from outside of its functions. -/
theorem returnless_of_resolve {lint : Lint} {program : List Stmt} {r : Resolution}
    (h : resolve lint program = .ok r) : ReturnlessStatements program :=
  returnless_of_walkStatements rfl _ program (clean_of_resolve h).1

namespace Machine

variable {α β : Type} {p : Step α} {k : α → Step β} {Q : α → Prop} {R : β → Prop}

/-- Whatever the step gives, `Q` holds of it. -/
def Gives (p : Step α) (Q : α → Prop) : Prop := ∀ m a m', p m = .ok a m' → Q a

namespace Gives

theorem any (p : Step α) : Gives p fun _ => True := fun _ _ _ _ => trivial

theorem pure {a : α} (h : Q a) : Gives (Pure.pure a : Step α) Q := by
  rintro m _ _ ⟨⟩
  exact h

theorem throw (e : Stop) : Gives (MonadExcept.throw e : Step α) Q := fun _ _ _ h => nomatch h

theorem fail (e : RuntimeError) : Gives (Machine.fail e : Step α) Q := fun _ _ _ h => nomatch h

theorem bind (h : Gives p Q) (hk : ∀ a, Q a → Gives (k a) R) : Gives (p >>= k) R := by
  intro m b m'' hb
  rw [bind_apply] at hb
  cases hp : p m with
  | ok a m' =>
    rw [hp] at hb
    exact hk a (h m a m' hp) m' b m'' hb
  | error e m' =>
    rw [hp] at hb
    exact nomatch hb

/-- What the first step gives does not matter. -/
theorem andThen (hk : ∀ a, Gives (k a) R) : Gives (p >>= k) R :=
  (any p).bind fun a _ => hk a

theorem within (h : Gives p Q) (f : FrameRef) : Gives (Machine.within f p) Q := by
  intro m a m' ha
  unfold Machine.within at ha
  split at ha
  next b m'' hb =>
    obtain ⟨rfl, -⟩ := EStateM.Result.ok.inj ha
    exact h _ _ _ hb
  next => exact nomatch ha

end Gives

end Machine

open Machine

/-- How a statement may end: with `loop` a loop of the same function is around it, and with
`returns` a function is. -/
def Flow.Allowed (loop : Bool) (returns : Prop) : Flow → Prop
  | .normal => True
  | .break => loop = true
  | .return _ => returns

/-- Statements end as their places in the text allow. -/
structure Flows (n : Nat) : Prop where
  execute : ∀ (s : Stmt) (loop : Bool) (returns : Prop), s.Formed loop → returns ∨ s.Returnless →
    Gives (Machine.execute n s) (Flow.Allowed loop returns)
  executeAll : ∀ (ss : List Stmt) (loop : Bool) (returns : Prop), FormedStatements loop ss →
    returns ∨ ReturnlessStatements ss →
    Gives (Machine.executeAll n ss) (Flow.Allowed loop returns)

section

variable {n : Nat} {loop : Bool} {returns : Prop}

theorem Flows.execute_succ (h : Flows n) (s : Stmt) (hformed : s.Formed loop)
    (hreturns : returns ∨ s.Returnless) :
    Gives (Machine.execute (n + 1) s) (Flow.Allowed loop returns) := by
  have hnormal : Gives (Pure.pure Flow.normal : Step Flow) (Flow.Allowed loop returns) :=
    .pure trivial
  unfold Machine.execute
  split
  · exact .andThen fun _ => hnormal
  · exact .andThen fun _ => .andThen fun _ => hnormal
  · exact .andThen fun _ => hnormal
  · exact .andThen fun _ => .andThen fun _ => hnormal
  · exact .andThen fun _ => .andThen fun f =>
      (h.executeAll _ loop returns hformed hreturns).within f
  next condition thenBranch elseBranch =>
    refine .andThen fun v => ?_
    cases elseBranch with
    | none =>
      split
      · exact h.execute _ loop returns hformed.2.1 hreturns
      · exact hnormal
    | some elseBranch =>
      split
      · exact h.execute _ loop returns hformed.2.1.1 (hreturns.imp_right And.left)
      · exact h.execute _ loop returns hformed.2.2.1 (hreturns.imp_right And.right)
  next condition body =>
    refine .andThen fun v => ?_
    split
    · -- The body may break even where the loop may not, but then the loop ends normally.
      refine (h.execute body true returns hformed.2.1 hreturns).bind fun flow hflow => ?_
      split
      · exact h.execute _ loop returns hformed hreturns
      · exact hnormal
      · exact .pure hflow
    · exact hnormal
  · exact .pure hformed
  · exact .pure (hreturns.resolve_right id)
  · exact .andThen fun _ => .pure (hreturns.resolve_right id)
  · exact .andThen fun _ => .andThen fun _ => .andThen fun _ => hnormal
  · exact .andThen fun _ => hnormal
  · refine .andThen fun _ => ?_
    split
    · exact .andThen fun _ => hnormal
    · exact .fail _

theorem Flows.executeAll_succ (h : Flows n) (ss : List Stmt) (hformed : FormedStatements loop ss)
    (hreturns : returns ∨ ReturnlessStatements ss) :
    Gives (Machine.executeAll (n + 1) ss) (Flow.Allowed loop returns) := by
  cases ss with
  | nil => exact .pure trivial
  | cons s ss =>
    unfold Machine.executeAll
    refine (h.execute s loop returns hformed.1 (hreturns.imp_right And.left)).bind
      fun flow hflow => ?_
    split
    · exact h.executeAll ss loop returns hformed.2 (hreturns.imp_right And.right)
    · exact .pure hflow

end

theorem flows (n : Nat) : Flows n := by
  induction n with
  | zero => exact ⟨fun _ _ _ _ _ => .throw .exhausted, fun _ _ _ _ _ => .throw .exhausted⟩
  | succ n ih =>
    exact ⟨fun s _ _ hformed hreturns => ih.execute_succ s hformed hreturns,
      fun ss _ _ hformed hreturns => ih.executeAll_succ ss hformed hreturns⟩

end Lox
