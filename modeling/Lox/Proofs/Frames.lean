import Lox.Frame

namespace Lox

namespace Frames

variable {α : Type} {s s' s'' : Frames α} {f g : FrameRef} {g? : Option FrameRef}

theorem get?_eq_some (h : s.get? f = some frame) : f.index < s.frames.size := by
  obtain ⟨hlt, -⟩ := Array.getElem?_eq_some_iff.mp h
  exact hlt

/-- The state with a new frame of these cells. -/
def push (s : Frames α) (enclosing : Option FrameRef) (cells : List α) : Frames α :=
  ⟨s.frames.push ⟨enclosing, cells.toArray⟩⟩

theorem get?_push (enclosing : Option FrameRef) (cells : List α) :
    (s.push enclosing cells).get? f =
      if f.index = s.frames.size then some ⟨enclosing, cells.toArray⟩ else s.get? f := by
  rw [get?, push, Array.getElem?_push]
  rfl

theorem get?_define (v : α) : (s.define g v).2.get? f =
    if g = f then (s.get? f).map fun frame => { frame with cells := frame.cells.push v }
    else s.get? f := by
  obtain ⟨i⟩ := f
  obtain ⟨j⟩ := g
  rw [get?, define, Array.getElem?_modify]
  simp only [FrameRef.mk.injEq]
  rfl

theorem get?_set (slot : Nat) (v : α) : (s.set g slot v).get? f =
    if g = f then (s.get? f).map fun frame =>
      { frame with cells := frame.cells.setIfInBounds slot v }
    else s.get? f := by
  obtain ⟨i⟩ := f
  obtain ⟨j⟩ := g
  rw [get?, set, Array.getElem?_modify]
  simp only [FrameRef.mk.injEq]
  rfl

theorem size_of_get? {frame : Frame α} (h : s.get? f = some frame) :
    s.size f = frame.cells.size := by
  simp [size, h]

theorem cell?_of_get? {frame : Frame α} (h : s.get? f = some frame) (slot : Nat) :
    s.cell? f slot = frame.cells[slot]? := by
  simp [cell?, h]

theorem getAt_of_ancestor? {a : Address} {v : α} (h : s.ancestor? f a.depth = some g)
    (hv : s.cell? g a.slot = some v) : s.getAt f a = .ok v := by
  simp [getAt, h, hv]

theorem getAt_of_cell?_eq_none {a : Address} (h : s.ancestor? f a.depth = some g)
    (hv : s.cell? g a.slot = none) : s.getAt f a = .error a := by
  simp [getAt, h, hv]

theorem slot_lt_size_iff {slot : Nat} : slot < s.size g ↔ (s.cell? g slot).isSome := by
  unfold size cell?
  cases s.get? g <;> simp

theorem ancestor?_succ {outer : FrameRef} {cells : Array α}
    (h : s.get? f = some ⟨some outer, cells⟩) (depth : Nat) :
    s.ancestor? f (depth + 1) = s.ancestor? outer depth := by
  rw [ancestor?, h]

theorem size_frames_define (v : α) : (s.define g v).2.frames.size = s.frames.size := by
  simp [define]

theorem size_frames_set (slot : Nat) (v : α) : (s.set g slot v).frames.size = s.frames.size := by
  simp [set]

/-- A new frame is filled by defining one cell after the other. -/
theorem foldl_define_create (enclosing : Option FrameRef) (cells : List α) :
    cells.foldl (fun t v => (t.define (s.create enclosing).1 v).2) (s.create enclosing).2 =
      s.push enclosing cells := by
  have hfold : ∀ (rest before : List α),
      rest.foldl (fun t v => (t.define (s.create enclosing).1 v).2) (s.push enclosing before) =
        s.push enclosing (before ++ rest) := by
    intro rest
    induction rest with
    | nil => simp
    | cons v rest ih =>
      intro before
      have hdefine : ((s.push enclosing before).define (s.create enclosing).1 v).2 =
          s.push enclosing (before ++ [v]) := by
        simp only [define, push, create, mk.injEq]
        refine Array.ext_getElem? fun i => ?_
        rw [Array.getElem?_modify, Array.getElem?_push, Array.getElem?_push]
        by_cases hi : i = s.frames.size
        · simp [hi]
        · simp [hi, Ne.symm hi]
      rw [List.foldl_cons, hdefine, ih, List.append_assoc, List.singleton_append]
  exact hfold cells []

/-- Frames stay, with their links and their cells; only the frame `g?` may get more cells. -/
def Grows (g? : Option FrameRef) (s s' : Frames α) : Prop :=
  ∀ f frame, s.get? f = some frame → ∃ frame', s'.get? f = some frame' ∧
    frame'.enclosing = frame.enclosing ∧ frame.cells.size ≤ frame'.cells.size ∧
    (some f ≠ g? → frame'.cells.size = frame.cells.size)

theorem Grows.refl (g? : Option FrameRef) (s : Frames α) : Grows g? s s :=
  fun _ frame h => ⟨frame, h, rfl, Nat.le_refl _, fun _ => rfl⟩

theorem Grows.trans (h : Grows g? s s') (h' : Grows g? s' s'') : Grows g? s s'' := by
  intro f frame hf
  obtain ⟨frame', hf', hlink', hle', hsame'⟩ := h f frame hf
  obtain ⟨frame'', hf'', hlink'', hle'', hsame''⟩ := h' f frame' hf'
  refine ⟨frame'', hf'', hlink''.trans hlink', Nat.le_trans hle' hle'', fun hne => ?_⟩
  exact (hsame'' hne).trans (hsame' hne)

theorem Grows.of_none (h : Grows none s s') : Grows g? s s' := by
  intro f frame hf
  obtain ⟨frame', hf', hlink, hle, hsame⟩ := h f frame hf
  exact ⟨frame', hf', hlink, hle, fun _ => hsame (by simp)⟩

/-- What a frame gets that was not there before does not count. -/
theorem Grows.of_fresh (h : Grows (some g) s s') (hg : s.get? g = none) : Grows none s s' := by
  intro f frame hf
  obtain ⟨frame', hf', hlink, hle, hsame⟩ := h f frame hf
  refine ⟨frame', hf', hlink, hle, fun _ => hsame ?_⟩
  rintro ⟨⟩
  simp [hf] at hg

theorem Grows.size (h : Grows none s s') (hf : (s.get? f).isSome) : s'.size f = s.size f := by
  obtain ⟨frame, hf⟩ := Option.isSome_iff_exists.mp hf
  obtain ⟨frame', hf', -, -, hsame⟩ := h f frame hf
  rw [size_of_get? hf, size_of_get? hf', hsame (by simp)]

theorem grows_push (s : Frames α) (enclosing : Option FrameRef) (cells : List α) :
    Grows g? s (s.push enclosing cells) := by
  intro f frame hf
  have hlt := get?_eq_some hf
  refine ⟨frame, ?_, rfl, Nat.le_refl _, fun _ => rfl⟩
  rw [get?_push, if_neg (by omega), hf]

theorem grows_define (s : Frames α) (g : FrameRef) (v : α) :
    Grows (some g) s (s.define g v).2 := by
  intro f frame hf
  rw [get?_define, hf]
  by_cases hgf : g = f
  · subst hgf
    refine ⟨{ frame with cells := frame.cells.push v }, by simp, rfl, by simp, by simp⟩
  · exact ⟨frame, by simp [hgf], rfl, Nat.le_refl _, fun _ => rfl⟩

theorem grows_set (s : Frames α) (g : FrameRef) (slot : Nat) (v : α) :
    Grows g? s (s.set g slot v) := by
  intro f frame hf
  rw [get?_set, hf]
  by_cases hgf : g = f
  · subst hgf
    exact ⟨{ frame with cells := frame.cells.setIfInBounds slot v }, by simp, rfl, by simp, by simp⟩
  · exact ⟨frame, by simp [hgf], rfl, Nat.le_refl _, fun _ => rfl⟩

/-- Frames stay, with their links and their cells, and any of them may get more cells. -/
def Kept (s s' : Frames α) : Prop :=
  ∀ f frame, s.get? f = some frame → ∃ frame', s'.get? f = some frame' ∧
    frame'.enclosing = frame.enclosing ∧ frame.cells.size ≤ frame'.cells.size

theorem Kept.refl (s : Frames α) : Kept s s := fun _ frame h => ⟨frame, h, rfl, Nat.le_refl _⟩

theorem Kept.trans (h : Kept s s') (h' : Kept s' s'') : Kept s s'' := by
  intro f frame hf
  obtain ⟨frame', hf', hlink', hle'⟩ := h f frame hf
  obtain ⟨frame'', hf'', hlink'', hle''⟩ := h' f frame' hf'
  exact ⟨frame'', hf'', hlink''.trans hlink', Nat.le_trans hle' hle''⟩

theorem Grows.kept (h : Grows g? s s') : Kept s s' := by
  intro f frame hf
  obtain ⟨frame', hf', hlink, hle, -⟩ := h f frame hf
  exact ⟨frame', hf', hlink, hle⟩

theorem Kept.ancestor? (h : Kept s s') {depth : Nat} (hg : s.ancestor? f depth = some g) :
    s'.ancestor? f depth = some g := by
  induction depth generalizing f with
  | zero => exact hg
  | succ depth ih =>
    cases hf : s.get? f with
    | none => simp [Frames.ancestor?, hf] at hg
    | some frame =>
      obtain ⟨enclosing, cells⟩ := frame
      obtain ⟨⟨enclosing', cells'⟩, hf', hlink, -⟩ := h f _ hf
      obtain rfl : enclosing' = enclosing := hlink
      cases enclosing' with
      | none => simp [Frames.ancestor?, hf] at hg
      | some outer =>
        rw [ancestor?_succ hf] at hg
        rw [ancestor?_succ hf']
        exact ih hg

theorem locate_eq_ok {a : Address} :
    s.locate f a = .ok g ↔ s.ancestor? f a.depth = some g ∧ a.slot < s.size g := by
  unfold locate
  cases s.ancestor? f a.depth with
  | none => simp
  | some h =>
    dsimp only
    rw [Option.some.injEq]
    split
    next hslot => exact ⟨fun heq => ⟨Except.ok.inj heq, Except.ok.inj heq ▸ hslot⟩,
      fun heq => congrArg Except.ok heq.1⟩
    next hslot => exact ⟨nofun, fun heq => absurd (heq.1 ▸ heq.2) hslot⟩

/-- A cell that is found from some frame goes on to be found from there. -/
theorem Kept.locate (h : Kept s s') {a : Address} (hg : s.locate f a = .ok g) :
    s'.locate f a = .ok g := by
  obtain ⟨hancestor, hslot⟩ := locate_eq_ok.mp hg
  refine locate_eq_ok.mpr ⟨h.ancestor? hancestor, ?_⟩
  cases hframe : s.get? g with
  | none => simp [size, hframe] at hslot
  | some frame =>
    obtain ⟨frame', hframe', -, hle⟩ := h g frame hframe
    rw [size_of_get? hframe] at hslot
    rw [size_of_get? hframe']
    exact Nat.lt_of_lt_of_le hslot hle

theorem ancestor?_add {depth : Nat} (h : s.ancestor? f depth = some g) (more : Nat) :
    s.ancestor? f (depth + more) = s.ancestor? g more := by
  induction depth generalizing f with
  | zero =>
    obtain rfl := Option.some.inj h
    rw [Nat.zero_add]
  | succ depth ih =>
    rw [Nat.add_right_comm]
    cases hf : s.get? f with
    | none => simp [Frames.ancestor?, hf] at h
    | some frame =>
      obtain ⟨enclosing, cells⟩ := frame
      cases enclosing with
      | none => simp [Frames.ancestor?, hf] at h
      | some outer =>
        rw [ancestor?_succ hf] at h
        rw [ancestor?_succ hf]
        exact ih h

/-- From further in, a cell is found at an address that goes further out. -/
theorem locate_add {outer : FrameRef} {depth : Nat} (h : s.ancestor? f depth = some outer)
    {a : Address} (hg : s.locate outer a = .ok g) : s.locate f ⟨depth + a.depth, a.slot⟩ = .ok g := by
  obtain ⟨hancestor, hslot⟩ := locate_eq_ok.mp hg
  exact locate_eq_ok.mpr ⟨(ancestor?_add h a.depth).trans hancestor, hslot⟩

end Frames

end Lox
