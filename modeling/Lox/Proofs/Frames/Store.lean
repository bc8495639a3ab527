import Lox.Proofs.Frames

namespace Lox

namespace Frames

variable {α : Type} {s s' : Frames α} {f g : FrameRef} {a : Address} {v : α}

/-- The handle of a frame that was made. -/
def Has (s : Frames α) (f : FrameRef) : Prop := f.index < s.frames.size

instance (s : Frames α) (f : FrameRef) : Decidable (s.Has f) := Nat.decLt _ _

/-- What can be done to frames. -/
inductive Request (α : Type) where
  | create (enclosing : Option FrameRef)
  | define (f : FrameRef) (v : α)
  | assign (f : FrameRef) (a : Address) (v : α)

/-- Every handle in a request is that of a frame. -/
def Allows (s : Frames α) : Request α → Prop
  | .create enclosing => ∀ f ∈ enclosing, s.Has f
  | .define f _ => s.Has f
  | .assign f _ _ => s.Has f

/-- The frames after a request. What cannot be assigned leaves them as they are. -/
def after (s : Frames α) : Request α → Frames α
  | .create enclosing => (s.create enclosing).2
  | .define f v => (s.define f v).2
  | .assign f a v =>
    match s.assignAt f a v with
    | .ok s' => s'
    | .error _ => s

/-- The frames that requests, one after the other, have made. -/
inductive Built {α : Type} : Frames α → Prop where
  | empty : Built .empty
  | after {s : Frames α} {r : Request α} : Built s → s.Allows r → Built (s.after r)

/-- The frame `g` is `depth` links out from `f`. -/
inductive Reaches {α : Type} (s : Frames α) : FrameRef → Nat → FrameRef → Prop where
  | here {f : FrameRef} : Reaches s f 0 f
  | outward {f g outer : FrameRef} {cells : Array α} {depth : Nat} :
      s.get? f = some ⟨some outer, cells⟩ → Reaches s outer depth g → Reaches s f (depth + 1) g

/-- There are so many links, and the frame at their end has a cell there. -/
def Holds (s : Frames α) (f : FrameRef) (a : Address) : Prop :=
  ∃ g, s.Reaches f a.depth g ∧ a.slot < s.size g

/-- Two addresses, each from a frame of its own, that name one place. -/
def SamePlace (s : Frames α) (f : FrameRef) (a : Address) (g : FrameRef) (b : Address) : Prop :=
  (∃ h, s.Reaches f a.depth h ∧ s.Reaches g b.depth h) ∧ b.slot = a.slot

/-- What makes frames a store. -/
structure Lawful (s : Frames α) : Prop where
  acyclic : ∀ f depth, ¬s.Reaches f (depth + 1) f
  readable : ∀ f a, s.Has f → ((∃ v, s.getAt f a = .ok v) ↔ s.Holds f a)
  writable : ∀ f a v, s.Has f → ((∃ s', s.assignAt f a v = .ok s') ↔ s.Holds f a)
  /-- A value that was assigned is read at every address of its place, and at no other. -/
  assigned : ∀ f a v s', s.Has f → s.assignAt f a v = .ok s' → ∀ g b, s.Has g →
    (s.SamePlace f a g b → s'.getAt g b = .ok v) ∧
      (¬s.SamePlace f a g b → s'.getAt g b = s.getAt g b)
  refused : ∀ f a v b, s.Has f → s.assignAt f a v = .error b → s.after (.assign f a v) = s
  /-- A definition gives the next slot, where nothing could be read before. -/
  defined : ∀ f v, s.Has f → (s.define f v).1 = s.size f ∧ ∀ g b, s.Has g →
    (s.SamePlace f ⟨0, s.size f⟩ g b →
      (¬∃ w, s.getAt g b = .ok w) ∧ (s.define f v).2.getAt g b = .ok v) ∧
      (¬s.SamePlace f ⟨0, s.size f⟩ g b → (s.define f v).2.getAt g b = s.getAt g b)
  /-- No request changes what a frame is enclosed by. -/
  settled : ∀ r, s.Allows r → ∀ f depth g, s.Has f →
    ((s.after r).Reaches f depth g ↔ s.Reaches f depth g)

theorem has_iff : s.Has f ↔ ∃ frame, s.get? f = some frame := by
  rw [Has, get?, ← Option.isSome_iff_exists, isSome_getElem?]

theorem ancestor?_eq_some_iff {depth : Nat} :
    s.ancestor? f depth = some g ↔ s.Reaches f depth g := by
  constructor
  · intro h
    induction depth generalizing f with
    | zero =>
      obtain rfl := Option.some.inj h
      exact .here
    | succ depth ih =>
      cases hf : s.get? f with
      | none => simp [ancestor?, hf] at h
      | some frame =>
        obtain ⟨enclosing, cells⟩ := frame
        cases enclosing with
        | none => simp [ancestor?, hf] at h
        | some outer =>
          rw [ancestor?_succ hf] at h
          exact .outward hf (ih h)
  · intro h
    induction h with
    | here => rfl
    | outward hf _ ih => rwa [ancestor?_succ hf]

theorem samePlace_iff {b : Address} {h : FrameRef} (hf : s.Reaches f a.depth h) :
    s.SamePlace f a g b ↔ s.Reaches g b.depth h ∧ b.slot = a.slot := by
  refine and_congr_left' ⟨?_, fun hg => ⟨h, hf, hg⟩⟩
  rintro ⟨k, hk, hg⟩
  have heq := (ancestor?_eq_some_iff.mpr hf).symm.trans (ancestor?_eq_some_iff.mpr hk)
  obtain rfl := Option.some.inj heq
  exact hg

/-- A frame is enclosed by one that was there before. -/
def Ordered (s : Frames α) : Prop :=
  ∀ f g cells, s.get? f = some ⟨some g, cells⟩ → g.index < f.index

theorem Ordered.has (h : s.Ordered) {cells : Array α} (hf : s.get? f = some ⟨some g, cells⟩) :
    s.Has g :=
  Nat.lt_trans (h f g cells hf) (get?_eq_some hf)

theorem kept_set (s : Frames α) (g : FrameRef) (slot : Nat) (v : α) :
    Kept s (s.set g slot v) :=
  Grows.kept (grows_set s g slot v : Grows none s _)

theorem kept_after (s : Frames α) (r : Request α) : Kept s (s.after r) := by
  cases r with
  | create enclosing => exact Grows.kept (grows_push s enclosing [] : Grows none s _)
  | define f v => exact (grows_define s f v).kept
  | assign f a v =>
    simp only [after, assignAt]
    cases s.locate f a with
    | error b => exact Kept.refl s
    | ok g => exact kept_set s g a.slot v

/-- What a frame is enclosed by is seen by whoever has a handle on it, before and after. -/
theorem Kept.get?_of_has (h : Kept s s') (hf : s.Has f) : ∃ enclosing cells cells',
    s.get? f = some ⟨enclosing, cells⟩ ∧ s'.get? f = some ⟨enclosing, cells'⟩ := by
  obtain ⟨⟨enclosing, cells⟩, hget⟩ := has_iff.mp hf
  obtain ⟨⟨enclosing', cells'⟩, hget', hlink, -⟩ := h f _ hget
  obtain rfl : enclosing' = enclosing := hlink
  exact ⟨enclosing', cells, cells', hget, hget'⟩

theorem Ordered.ancestor?_eq (ho : s.Ordered) (h : Kept s s') (hf : s.Has f) (depth : Nat) :
    s'.ancestor? f depth = s.ancestor? f depth := by
  induction depth generalizing f with
  | zero => rfl
  | succ depth ih =>
    obtain ⟨enclosing, cells, cells', hget, hget'⟩ := h.get?_of_has hf
    cases enclosing with
    | none => simp [ancestor?, hget, hget']
    | some outer =>
      rw [ancestor?_succ hget, ancestor?_succ hget']
      exact ih (ho.has hget)

theorem Ordered.after (ho : s.Ordered) {r : Request α} (hr : s.Allows r) : (s.after r).Ordered := by
  intro f g cells hf
  by_cases hhas : s.Has f
  · obtain ⟨enclosing, cells', cells'', hget, hget'⟩ := (kept_after s r).get?_of_has hhas
    obtain ⟨rfl, -⟩ := Frame.mk.inj (Option.some.inj (hget'.symm.trans hf))
    exact ho f g cells' hget
  · -- The frame is new, so it was made by this request, inside a frame that there was.
    have hlt := get?_eq_some hf
    cases r with
    | create enclosing =>
      have hnew : f.index = s.frames.size := by
        simp only [Frames.after, create, Array.size_push] at hlt
        unfold Has at hhas
        omega
      have hget := get?_push (s := s) (f := f) enclosing []
      rw [if_pos hnew] at hget
      obtain ⟨rfl, -⟩ := Frame.mk.inj (Option.some.inj (hget.symm.trans hf))
      rw [hnew]
      exact hr g rfl
    | define h v =>
      simp only [Frames.after, size_frames_define] at hlt
      exact absurd hlt hhas
    | assign h a v =>
      simp only [Frames.after, assignAt] at hlt
      cases hlocate : s.locate h a with
      | error b =>
        simp only [hlocate, Except.map] at hlt
        exact absurd hlt hhas
      | ok k =>
        simp only [hlocate, Except.map, size_frames_set] at hlt
        exact absurd hlt hhas

theorem Built.ordered (h : s.Built) : s.Ordered := by
  induction h with
  | empty => exact fun f g cells hf => by simp [get?, Frames.empty] at hf
  | after _ hr ih => exact ih.after hr

theorem Ordered.index_le (ho : s.Ordered) {depth : Nat} (h : s.Reaches f depth g) :
    g.index + depth ≤ f.index := by
  induction h with
  | here => exact Nat.le_refl _
  | @outward f g outer cells depth hget _ ih =>
    have hlt := ho f outer cells hget
    omega

theorem cell?_set (h : FrameRef) (slot i : Nat) (hslot : slot < s.size h) :
    (s.set h slot v).cell? f i = if f = h ∧ i = slot then some v else s.cell? f i := by
  unfold cell?
  rw [get?_set]
  by_cases heq : h = f
  · subst heq
    cases hget : s.get? h with
    | none => simp [size, hget] at hslot
    | some frame =>
      rw [size_of_get? hget] at hslot
      by_cases hi : slot = i
      · subst hi
        simp [hslot]
      · simp [hi, Ne.symm hi]
  · simp [heq, Ne.symm heq]

theorem cell?_define (h : FrameRef) (i : Nat) (hh : s.Has h) :
    (s.define h v).2.cell? f i = if f = h ∧ i = s.size h then some v else s.cell? f i := by
  unfold cell?
  rw [get?_define]
  by_cases heq : h = f
  · subst heq
    obtain ⟨frame, hget⟩ := has_iff.mp hh
    simp [hget, size_of_get? hget, Array.getElem?_push]
  · simp [heq, Ne.symm heq]

theorem getAt_eq_ok_iff : s.getAt f a = .ok v ↔
    ∃ g, s.Reaches f a.depth g ∧ s.cell? g a.slot = some v := by
  simp only [← ancestor?_eq_some_iff]
  unfold getAt
  cases s.ancestor? f a.depth with
  | none => simp
  | some g =>
    cases hcell : s.cell? g a.slot <;> simp [hcell]

/-- Where the paths are the same, a read depends on the cell at the end only. -/
theorem getAt_congr (hancestor : s'.ancestor? f a.depth = s.ancestor? f a.depth)
    (hcell : ∀ g, s.Reaches f a.depth g → s'.cell? g a.slot = s.cell? g a.slot) :
    s'.getAt f a = s.getAt f a := by
  unfold getAt
  rw [hancestor]
  cases h : s.ancestor? f a.depth with
  | none => rfl
  | some g => simp only [hcell g (ancestor?_eq_some_iff.mp h)]

theorem readable_iff : (∃ v, s.getAt f a = .ok v) ↔ s.Holds f a := by
  simp only [getAt_eq_ok_iff, Holds, slot_lt_size_iff, Option.isSome_iff_exists]
  exact ⟨fun ⟨v, g, hg, hv⟩ => ⟨g, hg, v, hv⟩, fun ⟨g, hg, v, hv⟩ => ⟨v, g, hg, hv⟩⟩

theorem assignAt_eq_ok_iff : s.assignAt f a v = .ok s' ↔
    ∃ g, s.Reaches f a.depth g ∧ a.slot < s.size g ∧ s' = s.set g a.slot v := by
  unfold assignAt
  constructor
  · intro h
    cases hlocate : s.locate f a with
    | error b => simp [hlocate, Except.map] at h
    | ok g =>
      obtain ⟨hg, hslot⟩ := locate_eq_ok.mp hlocate
      refine ⟨g, ancestor?_eq_some_iff.mp hg, hslot, ?_⟩
      simpa [hlocate, Except.map, eq_comm] using h
  · rintro ⟨g, hg, hslot, rfl⟩
    rw [locate_eq_ok.mpr ⟨ancestor?_eq_some_iff.mpr hg, hslot⟩]
    rfl

/-- A cell at `slot` of the frame `h` is all that changes, and the paths stay. -/
theorem getAt_of_cell {h : FrameRef} {slot : Nat}
    (hancestor : s'.ancestor? g a.depth = s.ancestor? g a.depth)
    (hcell : ∀ k i, s'.cell? k i = if k = h ∧ i = slot then some v else s.cell? k i) :
    (s.Reaches g a.depth h ∧ a.slot = slot → s'.getAt g a = .ok v) ∧
      (¬(s.Reaches g a.depth h ∧ a.slot = slot) → s'.getAt g a = s.getAt g a) := by
  constructor
  · rintro ⟨hreaches, hslot⟩
    refine getAt_eq_ok_iff.mpr ⟨h, ?_, ?_⟩
    · rwa [← ancestor?_eq_some_iff, hancestor, ancestor?_eq_some_iff]
    · rw [hcell, if_pos ⟨rfl, hslot⟩]
  · intro hother
    refine getAt_congr hancestor fun k hk => ?_
    rw [hcell, if_neg]
    rintro ⟨rfl, hslot⟩
    exact hother ⟨hk, hslot⟩

/-- Frames that were built by creating, defining and assigning are a store: whatever path a value is
written along, it is read along all paths to the same frame, and nowhere else. -/
theorem built_lawful (h : s.Built) : s.Lawful where
  acyclic f depth hcycle := by
    have hle := h.ordered.index_le hcycle
    omega
  readable f a _ := readable_iff
  writable f a v _ := by
    simp only [assignAt_eq_ok_iff]
    exact ⟨fun ⟨_, g, hg, hslot, _⟩ => ⟨g, hg, hslot⟩,
      fun ⟨g, hg, hslot⟩ => ⟨_, g, hg, hslot, rfl⟩⟩
  assigned f a v s' hf hassign g b hg := by
    obtain ⟨k, hk, hslot, rfl⟩ := assignAt_eq_ok_iff.mp hassign
    rw [samePlace_iff hk]
    exact getAt_of_cell (h.ordered.ancestor?_eq (kept_set s k a.slot v) hg _)
      fun l i => cell?_set k a.slot i hslot
  refused f a v b _ herror := by simp [after, herror]
  defined f v hf := by
    refine ⟨rfl, fun g b hg => ?_⟩
    rw [samePlace_iff .here]
    obtain ⟨hnew, hother⟩ := getAt_of_cell
      (h.ordered.ancestor?_eq (grows_define s f v).kept hg b.depth) fun l i => cell?_define f i hf
    refine ⟨fun hplace => ⟨?_, hnew hplace⟩, hother⟩
    rw [readable_iff]
    rintro ⟨k, hk, hslot⟩
    have heq := (ancestor?_eq_some_iff.mpr hplace.1).symm.trans (ancestor?_eq_some_iff.mpr hk)
    obtain rfl := Option.some.inj heq
    exact Nat.ne_of_lt hslot hplace.2
  settled r hr f depth g hf := by
    rw [← ancestor?_eq_some_iff, ← ancestor?_eq_some_iff,
      h.ordered.ancestor?_eq (kept_after s r) hf]

/-- Two frames inside one that has a cell. -/
def twoInside : Frames Nat :=
  (((Frames.empty.after (.create none)).after (.define ⟨0⟩ 7)).after (.create (some ⟨0⟩))).after
    (.create (some ⟨0⟩))

/-- What is assigned through one of two frames is read through the other. -/
theorem built_lawful_twoInside : twoInside.Built ∧ twoInside.Lawful ∧
    ∃ s', twoInside.assignAt ⟨1⟩ ⟨1, 0⟩ 42 = .ok s' ∧ s'.getAt ⟨2⟩ ⟨1, 0⟩ = .ok 42 := by
  have hbuilt : twoInside.Built := by
    refine .after (.after (.after (.after .empty ?_) ?_) ?_) ?_
    · exact nofun
    · show Has _ _
      decide
    all_goals
      rintro f ⟨⟩
      decide
  have hlawful := built_lawful hbuilt
  have hleft : twoInside.Reaches ⟨1⟩ 1 ⟨0⟩ := .outward rfl .here
  have hright : twoInside.Reaches ⟨2⟩ 1 ⟨0⟩ := .outward rfl .here
  obtain ⟨s', hs'⟩ := (hlawful.writable ⟨1⟩ ⟨1, 0⟩ 42 (by decide)).mpr ⟨⟨0⟩, hleft, by decide⟩
  exact ⟨hbuilt, hlawful, s', hs', (hlawful.assigned ⟨1⟩ ⟨1, 0⟩ 42 s' (by decide) hs' ⟨2⟩ ⟨1, 0⟩
    (by decide)).1 ⟨⟨⟨0⟩, hleft, hright⟩, rfl⟩⟩

end Frames

end Lox
