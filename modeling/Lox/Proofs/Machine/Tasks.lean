import Lox.Proofs.Machine.Moment

namespace Lox

open Machine

/-- Is the task the execution of statements? -/
def Task.Executes : Task → Prop
  | .execute _ => True
  | .executeAll _ => True
  | _ => False

/-- Does an activation begin with the task? -/
def Task.Begins : Task → Prop
  | .call _ _ _ => True
  | .interpret _ => True
  | _ => False

theorem mem_after {α : Type} {p : Step α} {m : Machine} {k : α → Machine → List Moment}
    {M : Moment} : M ∈ after p m k ↔ ∃ a m', p m = .ok a m' ∧ M ∈ k a m' := by
  unfold after
  cases p m with
  | error e m' => simp
  | ok a m' =>
    constructor
    · exact fun h => ⟨a, m', rfl, h⟩
    · rintro ⟨_, _, ⟨⟩, h⟩
      exact h

/-- Is the task one of values, with no declaration in it? -/
def Task.Valued : Task → Prop
  | .evaluate _ => True
  | .evaluateAll _ => True
  | .invoke _ _ _ => True
  | .call _ _ _ => True
  | .access _ _ _ => True
  | .bind _ _ => True
  | _ => False

/-- Is the task not one of statements? -/
def Task.Plain : Task → Prop
  | .execute _ => False
  | .executeAll _ => False
  | .interpret _ => False
  | _ => True

/-- Is the task one inside a program? -/
def Task.Inside : Task → Prop
  | .interpret _ => False
  | _ => True

theorem Task.Valued.plain {task : Task} (h : task.Valued) : task.Plain := by
  cases task <;> trivial

theorem Task.Plain.inside {task : Task} (h : task.Plain) : task.Inside := by
  cases task <;> trivial

theorem Task.Plain.not_executes {task : Task} (h : task.Plain) : ¬task.Executes := by
  cases task <;> first | exact id | exact h.elim

theorem Task.plain_of_not {task : Task} (h : ¬task.Begins) (h' : ¬task.Executes) : task.Plain := by
  cases task <;> first | trivial | exact (h trivial).elim | exact (h' trivial).elim

/-- All moments are of such tasks. -/
def OfTasks (Q : Task → Prop) (calls : List Moment) : Prop := ∀ M ∈ calls, Q M.task

namespace OfTasks

variable {Q Q' : Task → Prop} {calls calls' : List Moment}

theorem nil : OfTasks Q [] := by simp [OfTasks]

theorem one {M : Moment} (h : Q M.task) : OfTasks Q [M] := by simpa [OfTasks] using h

theorem append (h : OfTasks Q calls) (h' : OfTasks Q calls') : OfTasks Q (calls ++ calls') :=
  List.forall_mem_append.mpr ⟨h, h'⟩

theorem after {α : Type} {p : Step α} {m : Machine} {k : α → Machine → List Moment}
    (h : ∀ a m', OfTasks Q (k a m')) : OfTasks Q (after p m k) := by
  intro M hM
  obtain ⟨a, m', -, hmem⟩ := mem_after.mp hM
  exact h a m' M hmem

theorem imp (h : OfTasks Q calls) (hQ : ∀ task, Q task → Q' task) : OfTasks Q' calls :=
  fun M hM => hQ M.task (h M hM)

end OfTasks

open OfTasks

theorem valued_callsOfExpr (n : Nat) (m : Machine) (e : Expr) :
    OfTasks Task.Valued (callsOfExpr n m e) := by
  cases e with
  | literal _ | function _ => exact nil
  | grouping _ | unary _ _ | «variable» _ _ | «this» _ _ => exact one trivial
  | binary _ _ _ | assign _ _ _ => exact (one trivial).append (.after fun _ _ => one trivial)
  | logical _ _ _ =>
    refine (one trivial).append (.after fun v _ => ?_)
    split
    · exact nil
    · exact one trivial
  | call _ _ _ =>
    exact (one trivial).append (.after fun _ _ => (one trivial).append (.after fun _ _ => one trivial))
  | get _ _ =>
    refine (one trivial).append (.after fun v _ => ?_)
    split
    · split
      · exact one trivial
      · exact nil
    · exact nil
  | set _ _ _ =>
    refine (one trivial).append (.after fun v _ => ?_)
    split
    · exact one trivial
    · exact nil
  | «super» _ _ _ =>
    refine (one trivial).append ?_
    split
    · exact nil
    · refine .after fun v _ => ?_
      split
      · refine .after fun ⟨_, _⟩ _ => ?_
        dsimp only
        split
        · exact one trivial
        · exact nil
      · exact nil

theorem valued_callsOfInvocation (n : Nat) (m : Machine) (paren : Token) (arguments : List Value)
    (callee : Value) : OfTasks Task.Valued (callsOfInvocation n m paren arguments callee) := by
  unfold callsOfInvocation
  split
  · exact .after fun _ _ => one trivial
  · refine .after fun _ _ => .after fun _ _ => ?_
    split
    · exact (one trivial).append (.after fun _ _ => one trivial)
    · exact nil
  · exact nil

theorem inside_callsOfStmt (n : Nat) (m : Machine) (s : Stmt) :
    OfTasks Task.Inside (callsOfStmt n m s) := by
  unfold callsOfStmt
  split
  · exact one trivial
  · exact one trivial
  · exact one trivial
  · exact (one trivial).append (.after fun _ _ => one trivial)
  · exact .after fun _ _ => one trivial
  · refine (one trivial).append (.after fun _ _ => ?_)
    split
    · exact one trivial
    · split
      · exact one trivial
      · exact nil
  · refine (one trivial).append (.after fun _ _ => ?_)
    split
    · refine (one trivial).append (.after fun _ _ => ?_)
      split
      · exact one trivial
      · exact nil
    · exact nil
  · exact nil
  · exact nil
  · exact one trivial
  · exact .after fun _ _ => one trivial
  · exact one trivial
  · refine (one trivial).append (.after fun _ _ => ?_)
    split
    · exact one trivial
    · exact nil

/-- Only a block, an `if` and a `while` have statements executed. -/
theorem holder_of_executes {n : Nat} {m : Machine} {s : Stmt} {M : Moment}
    (h : M ∈ callsOfStmt n m s) (hM : M.task.Executes) :
    (∃ ss, s = .block ss) ∨
      (∃ condition thenBranch elseBranch, s = .ifElse condition thenBranch elseBranch) ∨
      ∃ condition body, s = .while condition body := by
  have hplain : ¬OfTasks Task.Plain (callsOfStmt n m s) := fun hcalls =>
    (hcalls M h).not_executes hM
  cases s with
  | block ss => exact .inl ⟨ss, rfl⟩
  | ifElse condition thenBranch elseBranch => exact .inr (.inl ⟨_, _, _, rfl⟩)
  | «while» condition body => exact .inr (.inr ⟨_, _, rfl⟩)
  | expression _ | print _ => exact absurd (one trivial) hplain
  | «break» _ => exact absurd nil hplain
  | function declaration =>
    obtain ⟨_, _⟩ := declaration
    rw [callsOfStmt] at hplain
    exact absurd (.after fun _ _ => one trivial) hplain
  | var _ value =>
    cases value with
    | none => exact absurd (one trivial) hplain
    | some _ => exact absurd ((one trivial).append (.after fun _ _ => one trivial)) hplain
  | «return» _ value =>
    cases value with
    | none => exact absurd nil hplain
    | some _ => exact absurd (one trivial) hplain
  | «class» _ superclass _ =>
    cases superclass with
    | none => exact absurd (one trivial) hplain
    | some _ =>
      refine absurd ((one trivial).append (.after fun v _ => ?_)) hplain
      cases v with
      | «class» _ => exact one trivial
      | _ => exact nil

theorem topLevel_task (n : Nat) (m : Machine) (s : Stmt) :
    (topLevel n m s).task = .execute s ∨ ∃ e, (topLevel n m s).task = .evaluate e := by
  unfold topLevel
  split
  next e _ => exact .inr ⟨e, rfl⟩
  next => exact .inl rfl

namespace Moment

variable {M M' : Moment}

theorem calls_of_allowance_eq_zero (hallowance : M.allowance = 0) (h : M.task.Inside) :
    M.calls = [] := by
  obtain ⟨allowance, task, m⟩ := M
  obtain rfl : allowance = 0 := hallowance
  cases task with
  | interpret _ => exact h.elim
  | _ => simp only [calls]

/-- No statement is executed in the course of a task of values, but for a call. -/
theorem plain_calls (h : M.task.Plain) (hcall : ¬M.task.Begins) : OfTasks Task.Plain M.calls := by
  obtain ⟨allowance, task, m⟩ := M
  cases allowance with
  | zero =>
    rw [calls_of_allowance_eq_zero rfl (Task.Plain.inside h)]
    exact nil
  | succ n =>
    cases task with
    | evaluate e => exact (valued_callsOfExpr n m e).imp fun _ => Task.Valued.plain
    | evaluateAll es =>
      cases es with
      | nil => exact nil
      | cons e es => exact (one trivial).append (.after fun _ _ => one trivial)
    | invoke callee paren arguments =>
      exact (valued_callsOfInvocation n m paren arguments callee).imp fun _ => Task.Valued.plain
    | call f paren arguments => exact absurd trivial hcall
    | access role id name => exact nil
    | bind f receiver => exact nil
    | declareClass name superclass methods => exact one trivial
    | define name v => exact nil
    | execute s => exact h.elim
    | executeAll ss => exact h.elim
    | interpret program => exact h.elim

theorem inside_calls (h : M.task.Inside) : OfTasks Task.Inside M.calls := by
  by_cases hplain : M.task.Plain ∧ ¬M.task.Begins
  · exact (plain_calls hplain.1 hplain.2).imp fun _ => Task.Plain.inside
  obtain ⟨allowance, task, m⟩ := M
  cases allowance with
  | zero =>
    rw [calls_of_allowance_eq_zero rfl h]
    exact nil
  | succ n =>
    cases task with
    | call f paren arguments =>
      simp only [calls]
      exact .after fun _ _ => one trivial
    | execute s => exact inside_callsOfStmt n m s
    | executeAll ss =>
      cases ss with
      | nil => exact nil
      | cons s ss =>
        refine (one trivial).append (.after fun flow _ => ?_)
        cases flow with
        | normal => exact one trivial
        | «break» => exact nil
        | «return» v => exact nil
    | interpret program => exact h.elim
    | _ => exact absurd ⟨trivial, id⟩ hplain

/-- Programs are gone through only at top level. -/
theorem interpret_of_calls {program : List Stmt} (h : M' ∈ M.calls)
    (hM' : M'.task = .interpret program) : ∃ s, M.task = .interpret (s :: program) := by
  by_cases hinside : M.task.Inside
  · have htask := inside_calls hinside M' h
    rw [hM'] at htask
    exact htask.elim
  obtain ⟨allowance, task, m⟩ := M
  cases task with
  | interpret ss =>
    cases ss with
    | nil => simp [calls] at h
    | cons s ss =>
      rcases List.mem_append.mp h with h | h
      · obtain rfl := List.mem_singleton.mp h
        rcases topLevel_task allowance m s with htask | ⟨e, htask⟩
        · cases hM'.symm.trans htask
        · cases hM'.symm.trans htask
      · obtain ⟨_, m', -, hmem⟩ := mem_after.mp h
        obtain rfl := List.mem_singleton.mp hmem
        obtain rfl : ss = program := by simpa using hM'
        exact ⟨s, rfl⟩
  | _ => exact absurd trivial hinside

/-- The superclass of a class that a statement declares is what its expression has come to. -/
theorem declareClass_of_callsOfStmt {n : Nat} {m : Machine} {s : Stmt} {name : Token} {c : Class}
    {ms : List Method} (h : M' ∈ callsOfStmt n m s)
    (hM' : M'.task = .declareClass name (some c) ms) :
    ∃ e, s = .class name (some e) ms ∧ evaluate n e m = .ok (.class c) M'.machine := by
  unfold callsOfStmt at h
  split at h
  all_goals grind [mem_after]

/-- A subclass is declared only by its statement, right after its superclass has been evaluated. -/
theorem declareClass_of_calls {name : Token} {c : Class} {ms : List Method} (h : M' ∈ M.calls)
    (hM' : M'.task = .declareClass name (some c) ms) :
    ∃ n e, M.allowance = n + 1 ∧ M.task = .execute (.class name (some e) ms) ∧
      Machine.evaluate n e M.machine = .ok (.class c) M'.machine := by
  have hvalued : ∀ {calls : List Moment}, OfTasks Task.Valued calls → M' ∉ calls := by
    intro calls hcalls hmem
    have htask := hcalls M' hmem
    rw [hM'] at htask
    exact htask
  unfold calls at h
  split at h
  case h_2 s ss _ =>
    rcases List.mem_append.mp h with h | h
    · obtain rfl := List.mem_singleton.mp h
      rcases topLevel_task M.allowance M.machine s with htask | ⟨e, htask⟩
      · cases hM'.symm.trans htask
      · cases hM'.symm.trans htask
    · grind [mem_after]
  case h_4 e n _ _ => exact absurd h (hvalued (valued_callsOfExpr n _ e))
  case h_7 callee paren arguments n _ _ =>
    exact absurd h (hvalued (valued_callsOfInvocation n _ paren arguments callee))
  case h_9 s n htask hallowance =>
    obtain ⟨e, rfl, hok⟩ := declareClass_of_callsOfStmt h hM'
    exact ⟨n, e, hallowance, htask, hok⟩
  all_goals grind [mem_after]
end Moment

end Lox
