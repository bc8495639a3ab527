import Lox.Proofs.Machine.Twin

namespace Lox

variable {V : Value → Value → Prop}

structure Frame.Alike (V : Value → Value → Prop) (g g' : Frame Value) : Prop where
  enclosing : g.enclosing = g'.enclosing
  cells : RowTwin V g.cells g'.cells

namespace Frames

/-- Frames at the same places with corresponding cells. -/
abbrev Alike (V : Value → Value → Prop) (s s' : Frames Value) : Prop :=
  RowTwin (Frame.Alike V) s.frames s'.frames

namespace Alike

variable {s s' : Frames Value}

theorem get? (h : s.Alike V s') (f : FrameRef) :
    Option.Rel (Frame.Alike V) (s.get? f) (s'.get? f) := h f.index

theorem size_eq (h : s.Alike V s') (f : FrameRef) : s.size f = s'.size f := by
  have hf := h.get? f
  unfold size
  generalize s.get? f = g? at hf
  generalize s'.get? f = g?' at hf
  cases hf with
  | none => rfl
  | some hg => exact hg.cells.size_eq

theorem ancestor?_eq (h : s.Alike V s') (f : FrameRef) (depth : Nat) :
    s.ancestor? f depth = s'.ancestor? f depth := by
  induction depth generalizing f with
  | zero => rfl
  | succ depth ih =>
    have hf := h.get? f
    rw [ancestor?, ancestor?]
    generalize s.get? f = g? at hf
    generalize s'.get? f = g?' at hf
    cases hf with
    | none => rfl
    | @some g g' hg =>
      obtain ⟨enclosing, cells⟩ := g
      obtain ⟨enclosing', cells'⟩ := g'
      obtain rfl : enclosing = enclosing' := hg.enclosing
      cases enclosing with
      | none => rfl
      | some outer => exact ih outer

theorem cell? (h : s.Alike V s') (f : FrameRef) (slot : Nat) :
    Option.Rel V (s.cell? f slot) (s'.cell? f slot) := by
  have hf := h.get? f
  unfold Frames.cell?
  generalize s.get? f = g? at hf
  generalize s'.get? f = g?' at hf
  cases hf with
  | none => exact .none
  | some hg => exact hg.cells slot

theorem getAt (h : s.Alike V s') (f : FrameRef) (a : Address) :
    ExceptRel Eq V (s.getAt f a) (s'.getAt f a) := by
  rw [Frames.getAt, Frames.getAt, h.ancestor?_eq]
  cases s'.ancestor? f a.depth with
  | none => exact .error rfl
  | some g =>
    have hcell := h.cell? g a.slot
    dsimp only
    generalize s.cell? g a.slot = v? at hcell
    generalize s'.cell? g a.slot = v?' at hcell
    cases hcell with
    | none => exact .error rfl
    | some hv => exact .ok hv

theorem locate_eq (h : s.Alike V s') (f : FrameRef) (a : Address) :
    s.locate f a = s'.locate f a := by
  rw [locate, locate, h.ancestor?_eq]
  cases s'.ancestor? f a.depth with
  | none => rfl
  | some g => simp only [h.size_eq]

variable {v v' : Value}

theorem define (h : s.Alike V s') (hv : V v v') (f : FrameRef) :
    (s.define f v).2.Alike V (s'.define f v').2 :=
  h.modify f.index fun _ _ hg => ⟨hg.enclosing, hg.cells.push hv⟩

theorem set (h : s.Alike V s') (hv : V v v') (f : FrameRef) (slot : Nat) :
    (s.set f slot v).Alike V (s'.set f slot v') :=
  h.modify f.index fun _ _ hg => ⟨hg.enclosing, hg.cells.setIfInBounds slot hv⟩

theorem push (h : s.Alike V s') {vs vs' : List Value} (hvs : List.Forall₂ V vs vs')
    (enclosing : Option FrameRef) : (s.push enclosing vs).Alike V (s'.push enclosing vs') :=
  RowTwin.push h ⟨rfl, .ofList hvs⟩

end Alike

end Frames

end Lox
