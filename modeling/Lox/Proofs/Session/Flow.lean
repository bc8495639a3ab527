import Lox.Proofs.Session.Runs

namespace Lox

open Moment

/-- Neither a `break` nor a `return` goes further than it should. -/
structure History.Contained (P : History) : Prop where
  /-- A statement at top level ends normally, if it ends without an error. -/
  topLevel : ∀ M s ss, P.moment M → M.task = .interpret (s :: ss) →
    ∀ n m flow m', Machine.execute n s m = .ok flow m' → flow = .normal
  /-- A body that is called never ends with a `break`. -/
  body : ∀ M f paren arguments, P.moment M → M.task = .call f paren arguments →
    ∀ n m flow m', Machine.executeAll n f.function.body m = .ok flow m' → flow ≠ .break
  /-- What is executed is executed in an activation. -/
  inside : ∀ M, P.moment M → M.task.Executes →
    ∃ stack, Activation (M :: stack) ∧ ∀ N ∈ stack, P.moment N
  /-- The innermost loop of the activation takes the `break` and ends normally. -/
  breaks : ∀ M stack, Activation (M :: stack) → (∀ N ∈ stack, P.moment N) →
    M.flow? = some .break →
    ∃ inner loop outer, stack = inner ++ loop :: outer ∧ loop.IsLoop ∧
      loop.flow? = some .normal ∧ ∀ N ∈ M :: inner, ¬N.IsLoop ∧ N.flow? = some .break
  /-- All that is executed in the activation ends with the `return`. The activation is that of a
  call, which gives the value back unless the function is an initializer. -/
  returns : ∀ M stack v, Activation (M :: stack) → (∀ N ∈ stack, P.moment N) →
    M.flow? = some (.return v) →
    ∃ inner C f paren arguments, stack = inner ++ [C] ∧ C.task = .call f paren arguments ∧
      (∀ N ∈ M :: inner, N.flow? = some (.return v)) ∧ (f.isInitializer = false →
        given? (Machine.call C.allowance f paren arguments C.machine) = some v)

variable {P : History} {R M : Moment}

theorem regular_of_runs (h : Session.Runs P R) (hM : R.Reaches M) : M.Regular := by
  obtain ⟨program, hR⟩ := h.task
  have hmeets := (h.meets M hM).2
  cases htask : M.task with
  | interpret ss => exact regular_of_reaches hM hR h.regular htask
  | call f paren arguments =>
    rw [Moment.Meets, htask] at hmeets
    rw [Regular, htask]
    exact hmeets.1
  | _ => rw [Regular, htask]; trivial

/-- In every run of a session that starts afresh a `break` ends the innermost loop that is executed
in its activation, and a `return` the call in which it is executed; neither leaves a statement at
top level. -/
theorem history_contained (lint : Lint) (clock : Clock) (requests : List Request)
    (hrequests : ∀ request ∈ requests, request.Honest) :
    ((Session.new lint clock).history .empty requests).Contained := by
  have hregular : ∀ M, ((Session.new lint clock).history .empty requests).moment M → M.Regular := by
    intro M hM
    obtain ⟨P, R, -, hruns, hreaches⟩ := Session.exists_runs lint clock hrequests hM
    exact regular_of_runs hruns hreaches
  constructor
  case topLevel =>
    intro M s ss hM htask n m flow m' hok
    have hM := hregular M hM
    rw [Regular, htask] at hM
    have hallowed := (flows n).execute s false False hM.1.1 (.inr hM.2.1) m flow m' hok
    cases flow with
    | normal => rfl
    | «break» => exact absurd hallowed (by simp [Flow.Allowed])
    | «return» v => exact hallowed.elim
  case body =>
    rintro M f paren arguments hM htask n m flow m' hok rfl
    have hM := hregular M hM
    rw [Regular, htask] at hM
    have hallowed := (flows n).executeAll _ false True hM.body (.inl trivial) m .break m' hok
    exact absurd hallowed (by simp [Flow.Allowed])
  case inside =>
    intro M hM hexecutes
    obtain ⟨P, R, hwithin, hruns, hreaches⟩ := Session.exists_runs lint clock hrequests hM
    obtain ⟨program, hR⟩ := hruns.task
    obtain ⟨stack, hstack, hall⟩ := exists_activation hreaches hR hexecutes
    exact ⟨stack, hstack, fun N hN => hwithin.moment N (hruns.meets N (hall N hN)).1⟩
  case breaks =>
    exact fun M stack h hstack hflow => h.break (fun N hN => hregular N (hstack N hN)) hflow
  case returns =>
    exact fun M stack v h hstack hflow => h.return (fun N hN => hregular N (hstack N hN)) hflow

/-- Loops in functions in loops, a `return` from inside a loop, and a function from an earlier run.
-/
theorem history_contained_nested :
    let requests : List Request :=
      [.run 90 "fun f(x) { while (true) { if (x) return x; else break; } return f(true); }
          class C { init() { while (true) return; } }
          for (;;) { var g = fun () { while (true) { break; } }; g(); f(nil); break; }",
        .run 90 "while (f(false)) { C(); { break; } }"]
    (∀ request ∈ requests, request.Honest) ∧
      ((Session.new .deny (.ticking 0 1)).history .empty requests).Contained := by
  intro requests
  have hrequests : ∀ request ∈ requests, request.Honest := by
    simp only [requests, List.mem_cons, List.not_mem_nil, or_false]
    rintro request (rfl | rfl) <;> exact trivial
  exact ⟨hrequests, history_contained .deny (.ticking 0 1) requests hrequests⟩

end Lox
