import Lox.Proofs.Loop.Mirror

namespace Lox.ForLoop

open Machine Loop

/-- The clauses of two loops, of which the first has an empty scope around each round that has a
step. -/
structure Moved (A : Tables) (l l' : ForLoop) : Prop where
  start : Option.Rel (fun s s' => s.tree.Moved A .outside s'.tree) l.start l'.start
  condition : Option.Rel (Expr.Moved A .outside) l.condition l'.condition
  step : Option.Rel (Expr.Moved A (.inside 0)) l.step l'.step
  body : l.body.Moved A (if l.step.isSome then .inside 0 else .outside) l'.body

theorem frame_of_endsIn {α : Type} {p : Nat → Step α} (hp : ∀ n, Retaining (p n)) {m : Machine}
    {r : Ending α} (h : EndsIn p m r) : (final r.result).frame = m.frame := by
  obtain ⟨n, h⟩ := h
  rw [← h]
  exact (hp n m).frame

theorem frame_of_steps {l : ForLoop} {m : Machine} {r : Ending Flow} (h : l.Steps m r) :
    (final r.result).frame = m.frame := by
  unfold Steps at h
  cases hstep : l.step with
  | none =>
    rw [hstep] at h
    obtain rfl := h
    rfl
  | some e =>
    rw [hstep] at h
    obtain ⟨r₁, he, hr⟩ := h
    have hframe := frame_of_endsIn (fun n => (retainingParts n).evaluate e) he
    cases r₁ <;> (obtain rfl := hr; exact hframe)

/-- A round leaves the machine where it was. -/
theorem frame_of_turns {l : ForLoop} {m : Machine} {r : Ending Flow} (h : l.Turns m r) :
    (final r.result).frame = m.frame := by
  obtain ⟨r₁, hbody, hr⟩ := h
  have hframe := frame_of_endsIn (fun n => (retainingParts n).execute l.body) hbody
  cases r₁ with
  | error e m' =>
    obtain rfl := hr
    exact hframe
  | ok flow m' =>
    cases flow with
    | normal => exact (frame_of_steps hr).trans hframe
    | _ =>
      obtain rfl := hr
      exact hframe

namespace Moved

variable {A : Tables} {l l' : ForLoop}

theorem checks (h : l.Moved A l') :
    Mirrors A .outside (Matching.Alike A) l.Checks l'.Checks := by
  have hcondition := h.condition
  unfold Checks
  generalize l.condition = e? at hcondition
  generalize l'.condition = e?' at hcondition
  cases hcondition with
  | none => exact .const fun _ => .bool true
  | some he => exact .evaluate he

theorem steps {k : Inset} (h : Option.Rel (Expr.Moved A k) l.step l'.step) :
    Mirrors A k (FlowsAlike A) l.Steps l'.Steps := by
  unfold Steps
  generalize l.step = e? at h
  generalize l'.step = e?' at h
  cases h with
  | none => exact .const fun _ => .normal
  | some he => exact (Mirrors.evaluate he).andThen (.const fun _ => .normal)

/-- A round in a frame of its own is like one without. -/
theorem turns (h : l.Moved A l') : Mirrors A .outside (FlowsAlike A)
    (if l.step.isSome then Apart l.Turns else l.Turns) l'.Turns := by
  have hbody := h.body
  have hstep := h.step
  cases hsome : l.step.isSome with
  | true =>
    rw [hsome, if_pos rfl] at hbody
    rw [if_pos rfl]
    refine Mirrors.round ?_ fun _ _ => frame_of_turns
    exact (Mirrors.execute hbody).flowThen (steps hstep)
  | false =>
    rw [hsome] at hbody
    rw [if_neg nofun]
    rw [if_neg nofun] at hbody
    refine (Mirrors.execute hbody).flowThen (steps ?_)
    have hnone := Option.isSome_eq_false_iff.mp hsome
    rw [Option.isNone_iff_eq_none] at hnone
    rw [hnone] at hstep ⊢
    generalize l'.step = e?' at hstep
    cases hstep
    exact .none

theorem runs (h : l.Moved A l') : Mirrors A .outside (FlowsAlike A) l.RunsApart l'.Runs := by
  have hloops := h.checks.loops h.turns
  have hstart := h.start
  unfold RunsApart Runs RunsBy
  generalize l.start = s? at hstart
  generalize l'.start = s?' at hstart
  cases hstart with
  | none => exact hloops
  | some hs => exact ((Mirrors.execute hs).andThen hloops).apart

/-- What the tree of a loop does is what the clauses of the other one tell. -/
theorem mirrors (h : l.Moved A l') :
    Mirrors A .outside (FlowsAlike A) (EndsIn (execute · l.tree)) l'.Runs := by
  rw [l.endsIn_tree]
  exact h.runs

end Moved

end Lox.ForLoop
