import Lox.Grammar.Statement
import Lox.Proofs.Machine.Allowance

namespace Lox.Machine

variable {α β : Type} {m : Machine}

theorem growing_pure (a : α) : Growing fun _ => (pure a : Step α) := fun _ => .refl _

theorem endsIn_const {p : Step α} {r : Ending α} : EndsIn (fun _ => p) m r ↔ p m = r.result :=
  ⟨fun ⟨_, h⟩ => h, fun h => ⟨0, h⟩⟩

theorem endsIn_pure {a : α} {r : Ending α} : EndsIn (fun _ => pure a) m r ↔ r = .ok a m := by
  rw [endsIn_const, pure_apply]
  constructor
  · intro h
    have hr : Ending.result (.ok a m) = r.result := h
    exact (Ending.result_injective hr).symm
  · rintro rfl
    rfl

/-- The machine goes back to the frame `f?`. -/
def Ending.backTo (f? : Option FrameRef) : Ending α → Ending α
  | .ok a m => .ok a { m with frame := f? }
  | .error e m => .error e { m with frame := f? }

/-- In a new frame within the current one. -/
def entered (m : Machine) : Machine :=
  { m with frame := some ⟨m.frames.frames.size⟩, frames := m.frames.push m.frame [] }

/-- What `P` tells happens in a new frame, and then the machine is where it was. -/
def Apart (P : Machine → Ending α → Prop) (m : Machine) (r : Ending α) : Prop :=
  ∃ r', P m.entered r' ∧ r = r'.backTo m.frame

/-- A check and a round by turns, up to a check that does not hold or a round that does not end
normally. -/
inductive Loops (check : Machine → Ending Value → Prop) (round : Machine → Ending Flow → Prop) :
    Machine → Ending Flow → Prop where
  | unchecked {m e m'} : check m (.error e m') → Loops check round m (.error e m')
  | ended {m v m'} : check m (.ok v m') → v.truthy = false → Loops check round m (.ok .normal m')
  | failed {m v m' e m''} : check m (.ok v m') → v.truthy = true → round m' (.error e m'') →
      Loops check round m (.error e m'')
  | broken {m v m' m''} : check m (.ok v m') → v.truthy = true → round m' (.ok .break m'') →
      Loops check round m (.ok .normal m'')
  | returned {m v m' w m''} : check m (.ok v m') → v.truthy = true →
      round m' (.ok (.return w) m'') → Loops check round m (.ok (.return w) m'')
  | again {m v m' m'' r} : check m (.ok v m') → v.truthy = true → round m' (.ok .normal m'') →
      Loops check round m'' r → Loops check round m r

theorem endsIn_within {p : Nat → Step α} {f : FrameRef} {r : Ending α} :
    EndsIn (fun n => within f (p n)) m r ↔
      ∃ r', EndsIn p { m with frame := some f } r' ∧ r = r'.backTo m.frame := by
  have hwithin : ∀ n (r' : Ending α), p n { m with frame := some f } = r'.result →
      within f (p n) m = (r'.backTo m.frame).result := by
    intro n r' h
    unfold within
    dsimp only
    rw [h]
    cases r' <;> rfl
  constructor
  · rintro ⟨n, h⟩
    dsimp only at h
    cases hp : p n { m with frame := some f } with
    | ok a m' =>
      rw [hwithin n (.ok a m') hp] at h
      exact ⟨.ok a m', ⟨n, hp⟩, (Ending.result_injective h).symm⟩
    | error e m' =>
      cases e with
      | error e =>
        rw [hwithin n (.error e m') hp] at h
        exact ⟨.error e m', ⟨n, hp⟩, (Ending.result_injective h).symm⟩
      | exhausted =>
        unfold within at h
        rw [hp] at h
        cases r <;> cases h
  · rintro ⟨r', ⟨n, h⟩, rfl⟩
    exact ⟨n, hwithin n r' h⟩

theorem endsIn_expression {e : Expr} {r : Ending Flow} :
    EndsIn (execute · (.expression e)) m r ↔
      Chain (EndsIn (evaluate · e)) (fun _ m r => r = .ok .normal m) m r := by
  rw [← endsIn_succ (growing_execute _)]
  simp only [execute]
  rw [endsIn_bind (growing_evaluate e) fun _ => growing_pure _]
  refine exists_congr fun r' => and_congr_right fun _ => ?_
  cases r' with
  | error e m' => exact .rfl
  | ok v m' => exact endsIn_pure

theorem endsIn_executeAll_nil {r : Ending Flow} :
    EndsIn (executeAll · []) m r ↔ r = .ok .normal m := by
  rw [← endsIn_succ (growing_executeAll _)]
  simp only [executeAll]
  exact endsIn_pure

/-- What comes behind a statement is skipped unless it ends normally. -/
def Flow.Then (next : Machine → Ending Flow → Prop) (flow : Flow) (m : Machine)
    (r : Ending Flow) : Prop :=
  match flow with
  | .normal => next m r
  | flow => r = .ok flow m

/-- Behind a statement it makes no difference what only ends normally. -/
theorem chain_normal {P next : Machine → Ending Flow → Prop} {r : Ending Flow}
    (hnext : ∀ m r, next m r ↔ r = .ok .normal m) : Chain P (Flow.Then next) m r ↔ P m r := by
  have hthen : ∀ {r' : Ending Flow}, r'.Then (Flow.Then next) r ↔ r = r' := by
    intro r'
    cases r' with
    | error e m' => exact .rfl
    | ok flow m' =>
      cases flow with
      | normal => exact hnext m' r
      | _ => exact .rfl
  constructor
  · rintro ⟨r', h, hr⟩
    obtain rfl := hthen.mp hr
    exact h
  · exact fun h => ⟨r, h, hthen.mpr rfl⟩

theorem endsIn_executeAll_cons {s : Stmt} {ss : List Stmt} {r : Ending Flow} :
    EndsIn (executeAll · (s :: ss)) m r ↔
      Chain (EndsIn (execute · s)) (Flow.Then (EndsIn (executeAll · ss))) m r := by
  rw [← endsIn_succ (growing_executeAll _)]
  simp only [executeAll]
  rw [endsIn_bind (growing_execute s)]
  · refine exists_congr fun r' => and_congr_right fun _ => ?_
    cases r' with
    | error e m' => exact .rfl
    | ok flow m' =>
      cases flow with
      | normal => exact .rfl
      | _ => exact endsIn_pure
  · intro flow
    cases flow with
    | normal => exact growing_executeAll ss
    | _ => exact growing_pure _

theorem endsIn_executeAll_one {s : Stmt} {r : Ending Flow} :
    EndsIn (executeAll · [s]) m r ↔ EndsIn (execute · s) m r :=
  endsIn_executeAll_cons.trans (chain_normal fun _ _ => endsIn_executeAll_nil)

theorem endsIn_block {ss : List Stmt} {r : Ending Flow} :
    EndsIn (execute · (.block ss)) m r ↔ Apart (EndsIn (executeAll · ss)) m r := by
  rw [← endsIn_succ (growing_execute _)]
  have hblock : ∀ n, execute (n + 1) (.block ss) m =
      within ⟨m.frames.frames.size⟩ (executeAll n ss)
        { m with frames := m.frames.push m.frame [] } := by
    intro n
    rw [execute, get_bind_apply, bind_of_ok (newFrame_apply _ _ _)]
  have hends : EndsIn (fun n => execute (n + 1) (.block ss)) m r ↔
      EndsIn (fun n => within ⟨m.frames.frames.size⟩ (executeAll n ss))
        { m with frames := m.frames.push m.frame [] } r :=
    exists_congr fun n => (congrArg (· = r.result) (hblock n)).to_iff
  rw [hends, endsIn_within]
  exact .rfl

/-- How a loop goes on behind a round. -/
def Flow.Again (next : Machine → Ending Flow → Prop) (flow : Flow) (m : Machine)
    (r : Ending Flow) : Prop :=
  match flow with
  | .normal => next m r
  | .break => r = .ok .normal m
  | .return w => r = .ok (.return w) m

/-- One turn of a loop. -/
theorem endsIn_while_step {condition : Expr} {body : Stmt} {r : Ending Flow} :
    EndsIn (execute · (.while condition body)) m r ↔
      Chain (EndsIn (evaluate · condition)) (fun v m r =>
        if v.truthy then
          Chain (EndsIn (execute · body))
            (Flow.Again (EndsIn (execute · (.while condition body)))) m r
        else r = .ok .normal m) m r := by
  have hgrowing : ∀ flow : Flow, Growing fun n =>
      (match flow with
        | .normal => execute n (.while condition body)
        | .break => pure .normal
        | .return v => pure (.return v) : Step Flow) := by
    intro flow
    cases flow with
    | normal => exact growing_execute _
    | _ => exact growing_pure _
  rw [← endsIn_succ (growing_execute _)]
  simp only [execute]
  rw [endsIn_bind (growing_evaluate condition)]
  · refine exists_congr fun r₁ => and_congr_right fun _ => ?_
    cases r₁ with
    | error e m' => exact .rfl
    | ok v m' =>
      show EndsIn (fun n => if v.truthy then _ else _) m' r ↔ if v.truthy then _ else _
      cases v.truthy with
      | false => exact endsIn_pure
      | true =>
        refine (endsIn_bind (growing_execute body) hgrowing).trans ?_
        refine exists_congr fun r₂ => and_congr_right fun _ => ?_
        cases r₂ with
        | error e m'' => exact .rfl
        | ok flow m'' =>
          cases flow with
          | normal => exact .rfl
          | _ => exact endsIn_pure
  · intro v
    cases v.truthy with
    | false => exact growing_pure _
    | true => exact fun n => (growing_execute body n).bind fun flow => hgrowing flow n

/-- By induction on the allowance, of which every turn uses up a part. -/
theorem loops_of_execute {n : Nat} {condition : Expr} {body : Stmt} {r : Ending Flow}
    (h : execute n (.while condition body) m = r.result) :
    Loops (EndsIn (evaluate · condition)) (EndsIn (execute · body)) m r := by
  induction n generalizing m r with
  | zero => cases r <;> cases h
  | succ n ih =>
    rw [execute, bind_apply] at h
    cases hcheck : evaluate n condition m with
    | error e m' =>
      rw [hcheck] at h
      cases r with
      | ok flow m'' => cases h
      | error e' m'' =>
        cases h
        exact .unchecked ⟨n, hcheck⟩
    | ok v m' =>
      rw [hcheck] at h
      dsimp only at h
      cases hv : v.truthy with
      | false =>
        rw [hv] at h
        obtain rfl : r = .ok .normal m' := endsIn_pure.mp ⟨n, h⟩
        exact .ended ⟨n, hcheck⟩ hv
      | true =>
        rw [hv, if_pos rfl, bind_apply] at h
        cases hround : execute n body m' with
        | error e m'' =>
          rw [hround] at h
          cases r with
          | ok flow m'' => cases h
          | error e' m'' =>
            cases h
            exact .failed ⟨n, hcheck⟩ hv ⟨n, hround⟩
        | ok flow m'' =>
          rw [hround] at h
          cases flow with
          | normal => exact .again ⟨n, hcheck⟩ hv ⟨n, hround⟩ (ih h)
          | «break» =>
            obtain rfl : r = .ok .normal m'' := endsIn_pure.mp ⟨n, h⟩
            exact .broken ⟨n, hcheck⟩ hv ⟨n, hround⟩
          | «return» w =>
            obtain rfl : r = .ok (.return w) m'' := endsIn_pure.mp ⟨n, h⟩
            exact .returned ⟨n, hcheck⟩ hv ⟨n, hround⟩

theorem endsIn_of_loops {condition : Expr} {body : Stmt} {r : Ending Flow}
    (h : Loops (EndsIn (evaluate · condition)) (EndsIn (execute · body)) m r) :
    EndsIn (execute · (.while condition body)) m r := by
  have hturn : ∀ {m v m' r₂ r}, EndsIn (evaluate · condition) m (.ok v m') → v.truthy = true →
      EndsIn (execute · body) m' r₂ →
      r₂.Then (Flow.Again (EndsIn (execute · (.while condition body)))) r →
      EndsIn (execute · (.while condition body)) m r := by
    intro m v m' r₂ r hcheck hv hround hr
    refine endsIn_while_step.mpr ⟨_, hcheck, ?_⟩
    show if v.truthy then _ else _
    rw [if_pos hv]
    exact ⟨r₂, hround, hr⟩
  induction h with
  | unchecked hcheck => exact endsIn_while_step.mpr ⟨_, hcheck, rfl⟩
  | ended hcheck hv => exact endsIn_while_step.mpr ⟨_, hcheck, by simp [Ending.Then, hv]⟩
  | failed hcheck hv hround => exact hturn hcheck hv hround rfl
  | broken hcheck hv hround => exact hturn hcheck hv hround rfl
  | returned hcheck hv hround => exact hturn hcheck hv hround rfl
  | again hcheck hv hround _ ih => exact hturn hcheck hv hround ih

/-- A `while` loop checks its condition and executes its body by turns. -/
theorem endsIn_while {condition : Expr} {body : Stmt} {r : Ending Flow} :
    EndsIn (execute · (.while condition body)) m r ↔
      Loops (EndsIn (evaluate · condition)) (EndsIn (execute · body)) m r :=
  ⟨fun ⟨_, h⟩ => loops_of_execute h, endsIn_of_loops⟩

end Lox.Machine
