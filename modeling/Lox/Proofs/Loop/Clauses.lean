import Lox.Proofs.Machine.Rounds
import Lox.Proofs.Tree.Formed

namespace Lox

open Machine

/-- The first clause of a `for` loop. -/
inductive ForStart where
  | var (name : Token) (value : Option Expr)
  | expression (e : Expr)

def ForStart.tree : ForStart → Stmt
  | var name value => .var name value
  | expression e => .expression e

/-- The clauses of a `for` loop, all of which but the body may be absent. The body is a statement,
not a declaration. -/
structure ForLoop where
  start : Option ForStart
  condition : Option Expr
  step : Option Expr
  body : Stmt
  undeclaring : body.declared? = none

namespace ForLoop

variable (l : ForLoop)

/-- What the grammar makes of the loop. -/
def tree : Stmt :=
  Grammar.forLoop (l.start.map ForStart.tree) l.condition l.step l.body

/-- The condition is evaluated; an absent one holds. -/
def Checks : Machine → Ending Value → Prop :=
  match l.condition with
  | none => fun m r => r = .ok (.bool true) m
  | some e => EndsIn (evaluate · e)

/-- The step is evaluated, if there is one. -/
def Steps : Machine → Ending Flow → Prop :=
  match l.step with
  | none => fun m r => r = .ok .normal m
  | some e => Chain (EndsIn (evaluate · e)) fun _ m r => r = .ok .normal m

/-- The body is executed, and the step follows it if it ends normally. -/
def Turns : Machine → Ending Flow → Prop :=
  Chain (EndsIn (execute · l.body)) (Flow.Then l.Steps)

/-- The start is executed once in a frame of its own, and in this frame the condition is checked
before every round. -/
def RunsBy (turns : Machine → Ending Flow → Prop) : Machine → Ending Flow → Prop :=
  match l.start with
  | none => Loops l.Checks turns
  | some start => Apart (Chain (EndsIn (execute · start.tree)) fun _ => Loops l.Checks turns)

/-- What the loop means. -/
def Runs : Machine → Ending Flow → Prop := l.RunsBy l.Turns

/-- Rounds with a step are in frames of their own. -/
def RunsApart : Machine → Ending Flow → Prop :=
  l.RunsBy (if l.step.isSome then Apart l.Turns else l.Turns)

end ForLoop

/-- A start ends normally, if it does not fail. -/
theorem ForStart.normal (start : ForStart) {m m' : Machine} {flow : Flow}
    (h : EndsIn (execute · start.tree) m (.ok flow m')) : flow = .normal := by
  obtain ⟨n, h⟩ := h
  cases n with
  | zero => cases h
  | succ n =>
    have hgives : ∀ {α : Type} (p : Step α),
        (do let _ ← p; return Flow.normal : Step Flow) m = .ok flow m' → flow = .normal := by
      intro α p hp
      rw [bind_apply] at hp
      cases hr : p m <;> rw [hr] at hp <;> cases hp
      rfl
    cases start with
    | expression e => exact hgives (evaluate n e) h
    | var name value =>
      cases value with
      | none => exact hgives (define name .nil) h
      | some e =>
        refine hgives (do define name (← evaluate n e)) ?_
        rw [bind_assoc]
        exact h

namespace ForLoop

variable {l : ForLoop} {m : Machine} {r : Ending Flow}

theorem endsIn_condition : EndsIn (evaluate · (l.condition.getD (.literal .true))) = l.Checks := by
  unfold Checks
  cases l.condition with
  | some e => rfl
  | none =>
    funext m r
    rw [← endsIn_succ (growing_evaluate _)]
    exact propext endsIn_pure

theorem endsIn_step {e : Expr} (hstep : l.step = some e) :
    EndsIn (executeAll · [.expression e]) = l.Steps := by
  funext m r
  rw [endsIn_executeAll_one, endsIn_expression, Steps, hstep]

/-- The tree of a round. -/
def round (l : ForLoop) : Stmt :=
  match l.step with
  | some step => .block [l.body, .expression step]
  | none => l.body

theorem endsIn_round :
    EndsIn (execute · l.round) = if l.step.isSome then Apart l.Turns else l.Turns := by
  funext m r
  unfold round
  cases hstep : l.step with
  | some e =>
    rw [if_pos Option.isSome_some, endsIn_block]
    refine congrFun (congrFun (congrArg Apart (funext fun m => funext fun r => ?_)) m) r
    rw [endsIn_executeAll_cons, endsIn_step hstep]
    rfl
  | none =>
    rw [if_neg (by simp)]
    exact propext (chain_normal fun m r => by rw [Steps, hstep]).symm

theorem tree_eq : l.tree = match l.start with
    | some start => .block [start.tree, .while (l.condition.getD (.literal .true)) l.round]
    | none => .while (l.condition.getD (.literal .true)) l.round := by
  unfold tree Grammar.forLoop round
  cases l.start <;> rfl

/-- The tree that the grammar makes of a `for` loop does what its clauses tell. -/
theorem endsIn_tree : EndsIn (execute · l.tree) = l.RunsApart := by
  have hloop : EndsIn (execute · (.while (l.condition.getD (.literal .true)) l.round)) =
      Loops l.Checks (if l.step.isSome then Apart l.Turns else l.Turns) := by
    funext m r
    rw [endsIn_while, endsIn_condition, endsIn_round]
  funext m r
  rw [tree_eq]
  unfold RunsApart RunsBy
  cases l.start with
  | none => rw [hloop]
  | some start =>
    dsimp only
    rw [endsIn_block]
    refine congrFun (congrFun (congrArg Apart (funext fun m => funext fun r => ?_)) m) r
    rw [endsIn_executeAll_cons]
    refine propext (exists_congr fun r' => and_congr_right fun hstart => ?_)
    cases r' with
    | error e m' => exact .rfl
    | ok flow m' =>
      obtain rfl := start.normal hstart
      rw [← hloop]
      exact endsIn_executeAll_one

end ForLoop

end Lox
