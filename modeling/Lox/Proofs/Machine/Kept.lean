import Lox.Proofs.Machine.Retained
import Lox.Proofs.Machine.Tasks

namespace Lox

/-- The notes are the same, and all frames are still there. -/
structure Machine.Keeps (m m' : Machine) : Prop where
  frames : Frames.Kept m.frames m'.frames
  addresses : m'.addresses = m.addresses

namespace Machine

variable {m m' m'' : Machine}

theorem Keeps.refl (m : Machine) : Keeps m m := ⟨.refl _, rfl⟩

theorem Keeps.trans (h : Keeps m m') (h' : Keeps m' m'') : Keeps m m'' :=
  ⟨h.frames.trans h'.frames, h'.addresses.trans h.addresses⟩

theorem Retains.keeps (h : Retains m m') : Keeps m m' := ⟨h.frames.kept, h.addresses⟩

end Machine

/-- At all these moments what the machine has is still there. -/
def KeptBy (m : Machine) (calls : List Moment) : Prop := ∀ M ∈ calls, m.Keeps M.machine

namespace KeptBy

open Machine

variable {m m' : Machine} {calls calls' : List Moment} {n : Nat}

theorem nil : KeptBy m [] := by simp [KeptBy]

theorem here (n : Nat) (task : Task) : KeptBy m [⟨n, task, m⟩] := by
  simpa [KeptBy] using Keeps.refl m

theorem append (h : KeptBy m calls) (h' : KeptBy m calls') : KeptBy m (calls ++ calls') :=
  List.forall_mem_append.mpr ⟨h, h'⟩

theorem after {α : Type} {p : Step α} {k : α → Machine → List Moment} (hp : Retaining p)
    (h : ∀ a m', KeptBy m' (k a m')) : KeptBy m (after p m k) := by
  intro M hM
  obtain ⟨a, m', hok, hmem⟩ := mem_after.mp hM
  have hretains := hp m
  rw [hok] at hretains
  exact hretains.keeps.trans (h a m' M hmem)

/-- A moment in another frame. -/
theorem inside (n : Nat) (task : Task) (frame : FrameRef) :
    KeptBy m [⟨n, task, { m with frame := some frame }⟩] := by
  intro M hM
  obtain rfl := List.mem_singleton.mp hM
  exact ⟨.refl _, rfl⟩

theorem callsOfExpr (n : Nat) (m : Machine) (e : Expr) : KeptBy m (callsOfExpr n m e) := by
  have hparts := retainingParts n
  cases e with
  | literal | function => exact .nil
  | grouping | unary | «variable» | «this» => exact .here _ _
  | binary => exact (here _ _).append (.after (hparts.evaluate _) fun _ _ => .here _ _)
  | logical =>
    refine (here _ _).append (.after (hparts.evaluate _) fun v m' => ?_)
    split
    · exact .nil
    · exact .here _ _
  | assign => exact (here _ _).append (.after (hparts.evaluate _) fun _ _ => .here _ _)
  | call =>
    exact (here _ _).append (.after (hparts.evaluate _) fun _ _ => (here _ _).append
      (.after (hparts.evaluateAll _) fun _ _ => .here _ _))
  | get =>
    refine (here _ _).append (.after (hparts.evaluate _) fun v m' => ?_)
    split
    · split
      · exact .here _ _
      · exact .nil
    · exact .nil
  | set =>
    refine (here _ _).append (.after (hparts.evaluate _) fun v m' => ?_)
    split
    · exact .here _ _
    · exact .nil
  | «super» id keyword =>
    refine (here _ _).append ?_
    split
    · exact .nil
    · refine .after (Retaining.readLocal keyword _) fun v m' => ?_
      split
      · refine .after (Retaining.receiver keyword _) fun ⟨i, c⟩ m' => ?_
        dsimp only
        split
        · exact .here _ _
        · exact .nil
      · exact .nil

theorem callsOfInvocation (n : Nat) (m : Machine) (paren : Token) (arguments : List Value)
    (callee : Value) : KeptBy m (callsOfInvocation n m paren arguments callee) := by
  cases callee with
  | function identity f => exact .after (Retaining.checkArity _ _ _) fun _ _ => .here _ _
  | «class» c =>
    refine .after (Retaining.checkArity _ _ _) fun _ _ => .after Retaining.newInstance fun i m' => ?_
    split
    · exact (here _ _).append (.after (Retaining.bindReceiver _ _) fun _ _ => .here _ _)
    · exact .nil
  | _ => exact .nil

theorem callsOfStmt (n : Nat) (m : Machine) (s : Stmt) : KeptBy m (callsOfStmt n m s) := by
  have hparts := retainingParts n
  unfold Lox.callsOfStmt
  split
  · exact .here _ _
  · exact .here _ _
  · exact .here _ _
  · exact (here _ _).append (.after (hparts.evaluate _) fun _ _ => .here _ _)
  · exact .after (Retaining.newFrame _ _) fun _ _ => .inside _ _ _
  · refine (here _ _).append (.after (hparts.evaluate _) fun v m' => ?_)
    split
    · exact .here _ _
    · split
      · exact .here _ _
      · exact .nil
  · refine (here _ _).append (.after (hparts.evaluate _) fun v m' => ?_)
    split
    · refine (here _ _).append (.after (hparts.execute _) fun flow m' => ?_)
      split
      · exact .here _ _
      · exact .nil
    · exact .nil
  · exact .nil
  · exact .nil
  · exact .here _ _
  · exact .after (Retaining.functionValue _) fun _ _ => .here _ _
  · exact .here _ _
  · refine (here _ _).append (.after (hparts.evaluate _) fun v m' => ?_)
    split
    · exact .here _ _
    · exact .nil

end KeptBy

namespace Moment

theorem keptBy_calls (M : Moment) : KeptBy M.machine M.calls := by
  unfold calls
  split
  · exact .nil
  · refine KeptBy.append ?_ (.after (Machine.retaining_interpretOne _ _) fun _ _ => .here _ _)
    unfold topLevel
    split <;> exact .here _ _
  · exact .nil
  · exact .callsOfExpr _ _ _
  · exact .nil
  · exact (KeptBy.here _ _).append
      (.after ((Machine.retainingParts _).evaluate _) fun _ _ => .here _ _)
  · exact .callsOfInvocation _ _ _ _ _
  · exact .after (Machine.Retaining.newFrame _ _) fun _ _ => .inside _ _ _
  · exact .callsOfStmt _ _ _
  · exact .nil
  · refine (KeptBy.here _ _).append
      (.after ((Machine.retainingParts _).execute _) fun flow m' => ?_)
    split
    · exact .here _ _
    · exact .nil
  · exact .nil
  · exact .nil
  · exact .here _ _
  · exact .nil

/-- Whatever a moment goes through, the frames that it has are kept, and so are the notes. -/
theorem Reaches.keeps {M M' : Moment} (h : M.Reaches M') : M.machine.Keeps M'.machine := by
  induction h with
  | refl => exact .refl _
  | tail _ hcall ih => exact ih.trans (keptBy_calls _ _ hcall)

end Moment

end Lox
