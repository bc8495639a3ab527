import Lox.Proofs.Machine.Flow
import Lox.Proofs.Machine.Tasks

namespace Lox

open Machine

/-- What a step gives, if it succeeds. -/
def given? {α : Type} : EStateM.Result Stop Machine α → Option α
  | .ok a _ => some a
  | .error _ _ => none

namespace Moment

/-- How the statements of a moment end, if they do. -/
def flow? (M : Moment) : Option Flow :=
  match M.task with
  | .execute s => given? (Machine.execute M.allowance s M.machine)
  | .executeAll ss => given? (Machine.executeAll M.allowance ss M.machine)
  | _ => none

/-- Is the moment a round of a loop? -/
def IsLoop (M : Moment) : Prop := ∃ condition body, M.task = .execute (.while condition body)

/-- What is executed at a moment, innermost first, down to where the activation began. -/
inductive Activation : List Moment → Prop where
  | begin {M} : M.task.Begins → Activation [M]
  | enter {M M' stack} : M' ∈ M.calls → M'.task.Executes → Activation (M :: stack) →
      Activation (M' :: M :: stack)

end Moment

theorem given?_bind {α β : Type} {p : Step α} {k : α → Step β} {m m' : Machine} {a : α}
    (h : p m = .ok a m') : given? ((p >>= k) m) = given? (k a m') := by
  rw [bind_of_ok h]

theorem given?_eq_some {α : Type} {r : EStateM.Result Stop Machine α} {a : α} :
    given? r = some a ↔ ∃ m, r = .ok a m := by
  cases r <;> simp [given?]

theorem given?_within {α : Type} (f : FrameRef) (p : Step α) (m : Machine) :
    given? (Machine.within f p m) = given? (p { m with frame := some f }) := by
  unfold Machine.within
  split <;> next h => rw [h]; rfl

/-- A loop never ends with a `break`. -/
theorem gives_while (n : Nat) (condition : Expr) (body : Stmt) :
    Machine.Gives (execute n (.while condition body)) (· ≠ .break) := by
  induction n with
  | zero => exact .throw .exhausted
  | succ n ih =>
    unfold execute
    refine .andThen fun v => ?_
    split
    · refine .andThen fun flow => ?_
      split
      · exact ih
      · exact .pure nofun
      · exact .pure nofun
    · exact .pure nofun

/-- What is executed next inside a statement ends it, if it does not end normally; only a loop takes
a `break` for its own end. -/
inductive Moment.Hands (flow : Flow) (M M' : Moment) : Prop where
  | on : M.flow? = some flow → Hands flow M M'
  | taken : flow = .break → M.IsLoop → M.flow? = some .normal → Hands flow M M'

namespace Moment

variable {M M' : Moment} {flow : Flow} {n : Nat} {m : Machine}

/-- A loop whose condition holds goes on with its body. -/
theorem given?_while {condition : Expr} {m₁ : Machine} {v : Value} (body : Stmt)
    (hv : evaluate n condition m = .ok v m₁) (htruthy : v.truthy = true) :
    given? (execute (n + 1) (.while condition body) m) =
      given? ((do
        match ← execute n body with
        | .normal => execute n (.while condition body)
        | .break => return .normal
        | .return v => return .return v : Step Flow) m₁) := by
  rw [execute]
  refine (given?_bind hv).trans ?_
  exact congrArg (fun p : Step Flow => given? (p m₁)) (if_pos htruthy)

theorem hands_of_block {ss : List Stmt} (h : M' ∈ callsOfStmt n m (.block ss))
    (hflow : M'.flow? = some flow) : Hands flow ⟨n + 1, .execute (.block ss), m⟩ M' := by
  rw [callsOfStmt, mem_after] at h
  obtain ⟨frame, m', hframe, hmem⟩ := h
  obtain rfl := List.mem_singleton.mp hmem
  refine .on ?_
  show given? (execute (n + 1) (.block ss) m) = _
  rw [execute, get_bind_apply, given?_bind hframe, given?_within]
  exact hflow

theorem hands_of_ifElse {condition : Expr} {thenBranch : Stmt} {elseBranch : Option Stmt}
    (h : M' ∈ callsOfStmt n m (.ifElse condition thenBranch elseBranch))
    (hM' : M'.task.Executes) (hflow : M'.flow? = some flow) :
    Hands flow ⟨n + 1, .execute (.ifElse condition thenBranch elseBranch), m⟩ M' := by
  rcases List.mem_append.mp h with h | h
  · obtain rfl := List.mem_singleton.mp h
    exact hM'.elim
  obtain ⟨v, m', hv, hmem⟩ := mem_after.mp h
  refine .on ?_
  show given? (execute (n + 1) (.ifElse condition thenBranch elseBranch) m) = _
  rw [execute.eq_def]
  dsimp only
  rw [given?_bind hv]
  split at hmem
  next htruthy =>
    obtain rfl := List.mem_singleton.mp hmem
    rw [if_pos htruthy]
    exact hflow
  next hfalsy =>
    rw [if_neg hfalsy]
    cases elseBranch with
    | none => simp at hmem
    | some elseBranch =>
      obtain rfl := List.mem_singleton.mp hmem
      exact hflow

theorem hands_of_while {condition : Expr} {body : Stmt}
    (h : M' ∈ callsOfStmt n m (.while condition body)) (hM' : M'.task.Executes)
    (hflow : M'.flow? = some flow) (hne : flow ≠ .normal) :
    Hands flow ⟨n + 1, .execute (.while condition body), m⟩ M' := by
  rcases List.mem_append.mp h with h | h
  · obtain rfl := List.mem_singleton.mp h
    exact hM'.elim
  obtain ⟨v, m₁, hv, hmem⟩ := mem_after.mp h
  split at hmem
  next htruthy =>
    have hloop := given?_while body hv htruthy
    rcases List.mem_append.mp hmem with hmem | hmem
    · obtain rfl := List.mem_singleton.mp hmem
      obtain ⟨m₂, hbody⟩ := given?_eq_some.mp hflow
      rw [given?_bind hbody] at hloop
      cases flow with
      | normal => exact absurd rfl hne
      | «break» => exact .taken rfl ⟨condition, body, rfl⟩ hloop
      | «return» v => exact .on hloop
    · obtain ⟨flow', m₂, hbody, hmem⟩ := mem_after.mp hmem
      rw [given?_bind hbody] at hloop
      cases flow' with
      | normal =>
        obtain rfl := List.mem_singleton.mp hmem
        exact .on (hloop.trans hflow)
      | «break» => simp at hmem
      | «return» v => simp at hmem
  next => simp at hmem

theorem hands_of_execute {s : Stmt} (h : M' ∈ callsOfStmt n m s) (hM' : M'.task.Executes)
    (hflow : M'.flow? = some flow) (hne : flow ≠ .normal) :
    Hands flow ⟨n + 1, .execute s, m⟩ M' := by
  obtain ⟨ss, rfl⟩ | ⟨condition, thenBranch, elseBranch, rfl⟩ | ⟨condition, body, rfl⟩ :=
    holder_of_executes h hM'
  · exact hands_of_block h hflow
  · exact hands_of_ifElse h hM' hflow
  · exact hands_of_while h hM' hflow hne

theorem hands_of_calls (h : M' ∈ M.calls) (hM : M.task.Executes) (hM' : M'.task.Executes)
    (hflow : M'.flow? = some flow) (hne : flow ≠ .normal) : Hands flow M M' := by
  obtain ⟨allowance, task, m⟩ := M
  cases allowance with
  | zero => cases task <;> first | exact hM.elim | simp [calls] at h
  | succ n =>
    cases task with
    | execute s => exact hands_of_execute h hM' hflow hne
    | executeAll ss =>
      cases ss with
      | nil => simp [calls] at h
      | cons s ss =>
        refine .on ?_
        show given? (executeAll (n + 1) (s :: ss) m) = _
        rw [executeAll]
        rcases List.mem_append.mp h with h | h
        · obtain rfl := List.mem_singleton.mp h
          obtain ⟨m', hs⟩ := given?_eq_some.mp hflow
          rw [given?_bind hs]
          cases flow with
          | normal => exact absurd rfl hne
          | «break» => rfl
          | «return» v => rfl
        · obtain ⟨flow', m', hs, hmem⟩ := mem_after.mp h
          rw [given?_bind hs]
          cases flow' with
          | normal =>
            obtain rfl := List.mem_singleton.mp hmem
            exact hflow
          | «break» => simp at hmem
          | «return» v => simp at hmem
    | _ => exact hM.elim

/-- In a call the body of the function is executed. -/
theorem body_of_call {f : Closure} {paren : Token} {arguments : List Value} (h : M' ∈ M.calls)
    (hM : M.task = .call f paren arguments) :
    ∃ n, M.allowance = n + 1 ∧ M'.allowance = n ∧ M'.task = .executeAll f.function.body ∧
      Machine.newFrame f.frame arguments M.machine =
        .ok M.newRef { M'.machine with frame := M.machine.frame } ∧
      M'.machine.frame = some M.newRef := by
  obtain ⟨allowance, task, m⟩ := M
  obtain rfl : task = .call f paren arguments := hM
  cases allowance with
  | zero => simp [calls] at h
  | succ n =>
    simp only [calls, mem_after] at h
    obtain ⟨frame, m', hframe, hmem⟩ := h
    obtain rfl := List.mem_singleton.mp hmem
    rw [newFrame_apply] at hframe
    obtain ⟨rfl, rfl⟩ := EStateM.Result.ok.inj hframe
    exact ⟨n, rfl, rfl, rfl, newFrame_apply _ _ _, rfl⟩

/-- At top level the first statement is executed. -/
theorem head_of_interpret {program : List Stmt} (h : M' ∈ M.calls) (hM : M.task = .interpret program)
    (hM' : M'.task.Executes) :
    ∃ s ss, program = s :: ss ∧ M' = ⟨M.allowance, .execute s, M.machine⟩ := by
  obtain ⟨allowance, task, m⟩ := M
  obtain rfl : task = .interpret program := hM
  cases program with
  | nil => simp [calls] at h
  | cons s ss =>
    have hcalls : M' = topLevel allowance m s ∨
        M' ∈ after (interpretOne allowance s) m fun _ m => [⟨allowance, .interpret ss, m⟩] := by
      simpa [calls] using h
    refine ⟨s, ss, rfl, ?_⟩
    rcases hcalls with rfl | hmem
    · revert hM'
      unfold topLevel
      split
      · exact fun h => h.elim
      · exact fun _ => rfl
    · obtain ⟨_, m', _, hmem⟩ := mem_after.mp hmem
      obtain rfl := List.mem_singleton.mp hmem
      exact hM'.elim

/-- What is called is formed, and what runs at top level is formed and does not return. -/
def Regular (M : Moment) : Prop :=
  match M.task with
  | .call f _ _ => f.function.Formed
  | .interpret program => FormedStatements false program ∧ ReturnlessStatements program
  | _ => True

/-- A body ends neither with a `break` nor, at top level, with a `return`. -/
theorem flow_of_begins (h : M' ∈ M.calls) (hM : M.task.Begins) (hregular : M.Regular)
    (hM' : M'.task.Executes) (hflow : M'.flow? = some flow) :
    flow.Allowed false (∃ f paren arguments, M.task = .call f paren arguments) := by
  unfold Regular at hregular
  cases htask : M.task with
  | call f paren arguments =>
    obtain ⟨n, -, -, hbody, -⟩ := body_of_call h htask
    rw [htask] at hregular
    unfold flow? at hflow
    rw [hbody] at hflow
    obtain ⟨m', hok⟩ := given?_eq_some.mp hflow
    exact (flows _).executeAll _ false _ hregular.body (.inl ⟨f, paren, arguments, rfl⟩) _ _ _ hok
  | interpret program =>
    obtain ⟨s, ss, rfl, rfl⟩ := head_of_interpret h htask hM'
    rw [htask] at hregular
    obtain ⟨m', hok⟩ := given?_eq_some.mp hflow
    exact (flows _).execute s false _ hregular.1.1 (.inr hregular.2.1) _ _ _ hok
  | _ =>
    rw [htask] at hM
    exact hM.elim

/-- A call that is not of an initializer gives what its body returns. -/
theorem call_of_return {f : Closure} {paren : Token} {arguments : List Value} {v : Value}
    (h : M' ∈ M.calls) (hM : M.task = .call f paren arguments)
    (hflow : M'.flow? = some (.return v)) (hf : f.isInitializer = false) :
    given? (Machine.call M.allowance f paren arguments M.machine) = some v := by
  obtain ⟨n, hn, hn', hbody, hframe, hin⟩ := body_of_call h hM
  unfold flow? at hflow
  rw [hbody, hn'] at hflow
  obtain ⟨m', hok⟩ := given?_eq_some.mp hflow
  have hwithin : Machine.within M.newRef (executeAll n f.function.body)
      { M'.machine with frame := M.machine.frame } = .ok (.return v) { m' with frame := M.machine.frame } := by
    unfold Machine.within
    have hmachine : { M'.machine with frame := some M.newRef } = M'.machine := by rw [← hin]
    dsimp only
    rw [hmachine, hok]
  rw [hn, Machine.call, given?_bind hframe, given?_bind hwithin, hf]
  rfl

/-- Where an activation begins no statement is executed. -/
theorem flow?_of_begins (h : M.task.Begins) : M.flow? = none := by
  unfold flow?
  split
  next htask => exact (htask ▸ h).elim
  next htask => exact (htask ▸ h).elim
  next => rfl

theorem not_isLoop_of_break (h : M.flow? = some .break) : ¬M.IsLoop := by
  rintro ⟨condition, body, htask⟩
  unfold flow? at h
  rw [htask] at h
  obtain ⟨m', hok⟩ := given?_eq_some.mp h
  exact gives_while _ condition body _ _ _ hok rfl

/-- The innermost loop that is executed takes a `break`, and there is one. -/
theorem Activation.break {stack : List Moment} (h : Activation (M :: stack))
    (hregular : ∀ N ∈ stack, N.Regular) (hflow : M.flow? = some .break) :
    ∃ inner loop outer, stack = inner ++ loop :: outer ∧ loop.IsLoop ∧
      loop.flow? = some .normal ∧ ∀ N ∈ M :: inner, ¬N.IsLoop ∧ N.flow? = some .break := by
  induction stack generalizing M with
  | nil =>
    cases h with
    | begin hM =>
      rw [flow?_of_begins hM] at hflow
      cases hflow
  | cons N stack ih =>
    cases h with
    | enter hmem hM hstack =>
      have hmine : ¬M.IsLoop ∧ M.flow? = some .break := ⟨not_isLoop_of_break hflow, hflow⟩
      by_cases hN : N.task.Begins
      · exact absurd (flow_of_begins hmem hN (hregular N (by simp)) hM hflow) (by simp [Flow.Allowed])
      have hN' : N.task.Executes := by
        cases hstack with
        | begin h => exact absurd h hN
        | enter _ h _ => exact h
      cases hands_of_calls hmem hN' hM hflow nofun with
      | on hon =>
        obtain ⟨inner, loop, outer, rfl, hloop, hnormal, hinner⟩ :=
          ih hstack (fun N' h => hregular N' (by simp [h])) hon
        exact ⟨N :: inner, loop, outer, rfl, hloop, hnormal, List.forall_mem_cons.mpr ⟨hmine, hinner⟩⟩
      | taken _ hloop hnormal =>
        exact ⟨[], N, stack, rfl, hloop, hnormal, List.forall_mem_cons.mpr ⟨hmine, by simp⟩⟩

/-- The call in which it is executed takes a `return`, and there is one. -/
theorem Activation.return {stack : List Moment} {v : Value} (h : Activation (M :: stack))
    (hregular : ∀ N ∈ stack, N.Regular) (hflow : M.flow? = some (.return v)) :
    ∃ inner C f paren arguments, stack = inner ++ [C] ∧ C.task = .call f paren arguments ∧
      (∀ N ∈ M :: inner, N.flow? = some (.return v)) ∧ (f.isInitializer = false →
        given? (Machine.call C.allowance f paren arguments C.machine) = some v) := by
  induction stack generalizing M with
  | nil =>
    cases h with
    | begin hM =>
      rw [flow?_of_begins hM] at hflow
      cases hflow
  | cons N stack ih =>
    cases h with
    | enter hmem hM hstack =>
      cases hstack with
      | begin hN =>
        obtain ⟨f, paren, arguments, hcall⟩ :=
          flow_of_begins hmem hN (hregular N (by simp)) hM hflow
        exact ⟨[], N, f, paren, arguments, rfl, hcall, by simpa using hflow,
          call_of_return hmem hcall hflow⟩
      | enter hmem' hN hstack =>
        cases hands_of_calls hmem hN hM hflow nofun with
        | on hon =>
          obtain ⟨inner, C, f, paren, arguments, heq, hcall, hinner, hresult⟩ :=
            ih (.enter hmem' hN hstack) (fun N' h => hregular N' (by simp [h])) hon
          exact ⟨N :: inner, C, f, paren, arguments, by rw [heq]; rfl, hcall,
            List.forall_mem_cons.mpr ⟨hflow, hinner⟩, hresult⟩
        | taken hbreak => exact nomatch hbreak

/-- What is left of a program that is formed and does not return is such a program. -/
theorem regular_of_reaches {program ss : List Stmt} (h : M.Reaches M')
    (hM : M.task = .interpret program) (hregular : M.Regular) (hM' : M'.task = .interpret ss) :
    M'.Regular := by
  unfold Regular at hregular ⊢
  rw [hM] at hregular
  rw [hM']
  induction h generalizing ss with
  | refl =>
    obtain rfl : program = ss := by simpa using hM.symm.trans hM'
    exact hregular
  | tail _ hmem ih =>
    obtain ⟨s, hs⟩ := interpret_of_calls hmem hM'
    obtain ⟨hformed, hreturnless⟩ := ih hs
    exact ⟨hformed.2, hreturnless.2⟩

/-- A statement that is executed lies in an activation that began on the way to it. -/
theorem exists_activation {program : List Stmt} (h : M.Reaches M') (hM : M.task = .interpret program)
    (hM' : M'.task.Executes) :
    ∃ stack, Activation (M' :: stack) ∧ ∀ N ∈ stack, M.Reaches N := by
  induction h with
  | refl =>
    rw [hM] at hM'
    exact hM'.elim
  | @tail N N' hreach hmem ih =>
    by_cases hbegins : N.task.Begins
    · exact ⟨[N], .enter hmem hM' (.begin hbegins), List.forall_mem_singleton.mpr hreach⟩
    by_cases hexecutes : N.task.Executes
    · obtain ⟨stack, hstack, hall⟩ := ih hexecutes
      exact ⟨N :: stack, .enter hmem hM' hstack, List.forall_mem_cons.mpr ⟨hreach, hall⟩⟩
    · have hplain := plain_calls (Task.plain_of_not hbegins hexecutes) hbegins N' hmem
      exact absurd hM' hplain.not_executes

end Moment

end Lox
