import Lox.Proofs.Machine.Retained
import Lox.Proofs.Session.Requests

namespace Lox

open Machine

namespace Session

theorem interpret_machine (s : Session) (n : Nat) (program : List Stmt) :
    (s.interpret n program).2.machine = final (Machine.interpret n program s.machine) := by
  unfold interpret
  split <;> next h => simp only [h, final]

theorem interpret_nextId (s : Session) (n : Nat) (program : List Stmt) :
    (s.interpret n program).2.nextId = s.nextId := by
  unfold interpret
  split <;> rfl

/-- A run that is accepted retains what was there, however it ends. -/
theorem retains_interpret (s : Session) (n : Nat) (program : List Stmt) :
    Retains s.machine (s.interpret n program).2.machine := by
  rw [interpret_machine]
  exact retaining_interpret n program s.machine

theorem frame_answer (s : Session) (request : Request) :
    (s.answer request).2.machine.frame = s.machine.frame := by
  cases request with
  | run n source =>
    show (s.run n source).2.machine.frame = _
    rw [run_eq]
    split
    next => rfl
    next program r _ => exact (retains_interpret (s.begun source r) n program).frame
  | _ => rfl

theorem frame_serve (lint : Lint) (clock : Clock) (requests : List Request) :
    ((new lint clock).serve requests).machine.frame = none := by
  refine serve_induction (I := fun s => s.machine.frame = none) rfl fun s request _ hs => ?_
  exact (frame_answer s request).trans hs

end Session

/-- Evaluation, execution and whole programs retain what was there, from every machine and however
they end; so between its runs a session is at top level. -/
theorem evaluation_retains :
    (∀ n e m, Retains m (final (evaluate n e m))) ∧
    (∀ n s m, Retains m (final (execute n s m))) ∧
    (∀ n program m, Retains m (final (interpret n program m))) ∧
    ∀ lint clock requests, ((Session.new lint clock).serve requests).machine.frame = none :=
  ⟨fun n e m => (retainingParts n).evaluate e m, fun n s m => (retainingParts n).execute s m,
    fun n program m => retaining_interpret n program m, Session.frame_serve⟩

end Lox
