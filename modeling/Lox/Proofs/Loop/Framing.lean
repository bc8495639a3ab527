import Lox.Proofs.Frames
import Lox.Proofs.Loop.Inset
import Lox.Proofs.Machine.Like

namespace Lox

/-- The frames of one machine, told by those of the other one that has no empty frames. -/
structure Framing where
  /-- Frames that correspond, and how far inside an empty frame what stands in them is. -/
  pairs : FrameRef → Inset → FrameRef → Prop
  /-- An empty frame, and where the other machine is when this one is in it. -/
  rounds : FrameRef → Option FrameRef → Prop

namespace Framing

variable (W : Framing)

/-- What stands in `f?` in one machine stands in `f?'` in the other. -/
inductive Stands : Inset → Option FrameRef → Option FrameRef → Prop where
  | top : Stands .outside none none
  | frame {f k f'} : W.pairs f k f' → Stands k (some f) (some f')
  | round {r f?'} : W.rounds r f?' → Stands (.inside 0) (some r) f?'

/-- A framing may grow. -/
structure Within (W W' : Framing) : Prop where
  pairs : ∀ {f k f'}, W.pairs f k f' → W'.pairs f k f'
  rounds : ∀ {r f?'}, W.rounds r f?' → W'.rounds r f?'

/-- The framing with one more pair. -/
def pair (f : FrameRef) (k : Inset) (f' : FrameRef) : Framing where
  pairs g j g' := W.pairs g j g' ∨ g = f ∧ j = k ∧ g' = f'
  rounds := W.rounds

/-- The framing with one more empty frame. -/
def round (r : FrameRef) (f?' : Option FrameRef) : Framing where
  pairs := W.pairs
  rounds q g?' := W.rounds q g?' ∨ q = r ∧ g?' = f?'

variable (A : Tables)

/-- A function stands where the other one does. -/
def Function (f f' : Closure) : Prop :=
  ∃ k, W.Stands k f.frame f'.frame ∧ f.function.Moved A k f'.function ∧
    (f.isInitializer = true → k ≠ .inside 0)

/-- A method stands one scope further in than its class, in that of its receiver. -/
def Method (f f' : Closure) : Prop :=
  ∃ k, W.Stands k f.frame f'.frame ∧ f.function.Moved A k.inner f'.function

/-- The same value, laid out in another way. -/
abbrev Like : Value → Value → Prop := Value.Like (W.Function A) (W.Method A)

/-- The frames are as the framing tells. -/
structure Fits (s s' : Frames Value) : Prop where
  paired : ∀ {f k f'}, W.pairs f k f' → ∃ g g' j, s.get? f = some g ∧ s'.get? f' = some g' ∧
    RowTwin (W.Like A) g.cells g'.cells ∧ k = j.inner ∧ W.Stands j g.enclosing g'.enclosing
  empty : ∀ {r f?'}, W.rounds r f?' → ∃ outer, s.get? r = some ⟨outer, #[]⟩ ∧
    W.Stands .outside outer f?'
  left : ∀ {f k g j f'}, W.pairs f k f' → W.pairs g j f' → f = g
  right : ∀ {f k f' j g'}, W.pairs f k f' → W.pairs f j g' → f' = g'
  apart : ∀ {r f?' k g'}, W.rounds r f?' → ¬W.pairs r k g'

variable {W A} {W' W'' : Framing} {s s' : Frames Value} {k : Inset} {f f' : FrameRef}
  {f? f?' : Option FrameRef}

theorem Within.refl (W : Framing) : W.Within W := ⟨id, id⟩

theorem Within.trans (h : W.Within W') (h' : W'.Within W'') : W.Within W'' :=
  ⟨fun hp => h'.pairs (h.pairs hp), fun hr => h'.rounds (h.rounds hr)⟩

theorem within_pair (W : Framing) (f : FrameRef) (k : Inset) (f' : FrameRef) :
    W.Within (W.pair f k f') := ⟨.inl, id⟩

theorem within_round (W : Framing) (r : FrameRef) (f?' : Option FrameRef) :
    W.Within (W.round r f?') := ⟨id, .inl⟩

theorem Stands.within (h : W.Stands k f? f?') (hW : W.Within W') : W'.Stands k f? f?' := by
  cases h with
  | top => exact .top
  | frame hp => exact .frame (hW.pairs hp)
  | round hr => exact .round (hW.rounds hr)

/-- A closure that is no initializer may stand right inside an empty frame. -/
theorem Function.of_stands {c c' : Closure} (hstands : W.Stands k c.frame c'.frame)
    (hmoved : c.function.Moved A k c'.function) (hinit : c.isInitializer = false) :
    W.Function A c c' :=
  ⟨k, hstands, hmoved, fun htrue => absurd (hinit.symm.trans htrue) Bool.false_ne_true⟩

theorem Function.within {c c' : Closure} (h : W.Function A c c') (hW : W.Within W') :
    W'.Function A c c' := by
  obtain ⟨k, hstands, hmoved⟩ := h
  exact ⟨k, hstands.within hW, hmoved⟩

theorem Method.within {c c' : Closure} (h : W.Method A c c') (hW : W.Within W') :
    W'.Method A c c' := by
  obtain ⟨k, hstands, hmoved⟩ := h
  exact ⟨k, hstands.within hW, hmoved⟩

theorem Like.within {v v' : Value} (h : W.Like A v v') (hW : W.Within W') : W'.Like A v v' :=
  h.imp (fun _ _ hf => hf.within hW) fun _ _ hf => hf.within hW

/-- Right inside an empty frame there are no cells, and elsewhere the frames are paired. -/
theorem Stands.pairs (h : W.Stands k f? f?') (hk : k ≠ .inside 0) :
    (f? = none ∧ f?' = none) ∨ ∃ f f', f? = some f ∧ f?' = some f' ∧ W.pairs f k f' := by
  cases h with
  | top => exact .inl ⟨rfl, rfl⟩
  | frame hp => exact .inr ⟨_, _, rfl, rfl, hp⟩
  | round _ => exact absurd rfl hk

/-- Frames that correspond. -/
def Paired (W : Framing) (f f' : FrameRef) : Prop := ∃ k, W.pairs f k f'

end Framing

namespace Frames

/-- The frame so many links out, if there is one at all. -/
def reach? (s : Frames Value) (f? : Option FrameRef) (depth : Nat) : Option FrameRef :=
  f?.bind (s.ancestor? · depth)

/-- What is at an address. -/
def read? (s : Frames Value) (f? : Option FrameRef) (a : Address) : Option Value :=
  (s.reach? f? a.depth).bind (s.cell? · a.slot)

/-- The frame that has a cell at an address. -/
def place? (s : Frames Value) (f? : Option FrameRef) (a : Address) : Option FrameRef :=
  (s.reach? f? a.depth).filter (a.slot < s.size ·)

variable {s : Frames Value} {f : FrameRef}

theorem reach?_succ {g : Frame Value} (h : s.get? f = some g) (depth : Nat) :
    s.reach? (some f) (depth + 1) = s.reach? g.enclosing depth := by
  obtain ⟨enclosing, cells⟩ := g
  show s.ancestor? f (depth + 1) = _
  rw [Frames.ancestor?, h]
  cases enclosing <;> rfl

theorem getAt_eq (f : FrameRef) (a : Address) :
    (s.getAt f a).toOption = s.read? (some f) a := by
  unfold getAt read? reach?
  dsimp only [Option.bind_some]
  cases s.ancestor? f a.depth with
  | none => rfl
  | some g =>
    dsimp only [Option.bind_some]
    cases s.cell? g a.slot <;> rfl

theorem locate_eq (f : FrameRef) (a : Address) :
    (s.locate f a).toOption = s.place? (some f) a := by
  unfold locate place? reach?
  dsimp only [Option.bind_some]
  cases s.ancestor? f a.depth with
  | none => rfl
  | some g =>
    dsimp only [Option.filter_some]
    by_cases hlt : a.slot < s.size g <;> simp [hlt, Except.toOption]

/-- A new frame leaves the others as they are. -/
theorem get?_push_of_some {g : Frame Value} (h : s.get? f = some g) (enclosing : Option FrameRef)
    (vs : List Value) : (s.push enclosing vs).get? f = some g := by
  rw [get?_push, if_neg (Nat.ne_of_lt (get?_eq_some h)), h]

theorem get?_push_new (s : Frames Value) (enclosing : Option FrameRef) (vs : List Value) :
    (s.push enclosing vs).get? ⟨s.frames.size⟩ = some ⟨enclosing, vs.toArray⟩ := by
  rw [get?_push, if_pos rfl]

end Frames

namespace Framing.Fits

variable {W : Framing} {A : Tables} {s s' : Frames Value} {k : Inset}
  {f f' : FrameRef} {f? f?' : Option FrameRef}

/-- Where code stands in paired frames or at top level, it has not to stand in an empty frame. -/
theorem reach?_of_proper (h : W.Fits A s s') {depth : Nat}
    (hproper : ∀ {k f? f?'}, W.Stands k f? f?' → k ≠ .inside 0 →
      Option.Rel W.Paired (s.reach? f? (k.hops depth)) (s'.reach? f?' depth))
    (hstands : W.Stands k f? f?') :
    Option.Rel W.Paired (s.reach? f? (k.hops depth)) (s'.reach? f?' depth) := by
  cases hstands with
  | top => exact hproper .top nofun
  | frame hp =>
    obtain ⟨_, _, j, -, -, -, rfl, -⟩ := h.paired hp
    exact hproper (.frame hp) j.inner_ne
  | round hr =>
    obtain ⟨outer, hget, houter⟩ := h.empty hr
    rw [show Inset.hops (.inside 0) depth = depth + 1 from rfl, Frames.reach?_succ hget]
    exact hproper houter nofun

/-- The links lead to frames that correspond, with one hop more over an empty frame. -/
theorem reach? (h : W.Fits A s s') (hstands : W.Stands k f? f?') (depth : Nat) :
    Option.Rel W.Paired (s.reach? f? (k.hops depth)) (s'.reach? f?' depth) := by
  induction depth generalizing k f? f?' with
  | zero =>
    refine h.reach?_of_proper (fun {k f? f?'} hstands hk => ?_) hstands
    rw [Inset.hops_zero hk]
    obtain ⟨rfl, rfl⟩ | ⟨f, f', rfl, rfl, hp⟩ := hstands.pairs hk
    · exact .none
    · exact .some ⟨k, hp⟩
  | succ depth ih =>
    refine h.reach?_of_proper (fun {k f? f?'} hstands hk => ?_) hstands
    obtain ⟨rfl, rfl⟩ | ⟨f, f', rfl, rfl, hp⟩ := hstands.pairs hk
    · exact .none
    · obtain ⟨g, g', j, hg, hg', -, rfl, henclosing⟩ := h.paired hp
      rw [Inset.hops_inner, Frames.reach?_succ hg, Frames.reach?_succ hg']
      exact ih henclosing

theorem cell? (h : W.Fits A s s') (hp : W.Paired f f') (slot : Nat) :
    Option.Rel (W.Like A) (s.cell? f slot) (s'.cell? f' slot) := by
  obtain ⟨k, hp⟩ := hp
  obtain ⟨g, g', _, hg, hg', hcells, -, -⟩ := h.paired hp
  rw [Frames.cell?, Frames.cell?, hg, hg']
  exact hcells slot

theorem size_eq (h : W.Fits A s s') (hp : W.Paired f f') : s.size f = s'.size f' := by
  obtain ⟨k, hp⟩ := hp
  obtain ⟨g, g', _, hg, hg', hcells, -, -⟩ := h.paired hp
  rw [Frames.size_of_get? hg, Frames.size_of_get? hg']
  exact hcells.size_eq

/-- What is read is alike. -/
theorem read? (h : W.Fits A s s') (hstands : W.Stands k f? f?') (a : Address) :
    Option.Rel (W.Like A) (s.read? f? (k.skip a)) (s'.read? f?' a) := by
  have hreach := h.reach? hstands a.depth
  unfold Frames.read? Inset.skip
  dsimp only
  generalize s.reach? f? _ = g? at hreach
  generalize s'.reach? f?' a.depth = g?' at hreach
  cases hreach with
  | none => exact .none
  | some hp => exact h.cell? hp a.slot

theorem place? (h : W.Fits A s s') (hstands : W.Stands k f? f?') (a : Address) :
    Option.Rel W.Paired (s.place? f? (k.skip a)) (s'.place? f?' a) := by
  have hreach := h.reach? hstands a.depth
  unfold Frames.place? Inset.skip
  dsimp only
  generalize s.reach? f? _ = g? at hreach
  generalize s'.reach? f?' a.depth = g?' at hreach
  cases hreach with
  | none => exact .none
  | some hp =>
    rw [Option.filter_some, Option.filter_some, h.size_eq hp]
    split
    · exact .some hp
    · exact .none

/-- The cells of two frames that correspond may change in the same way. -/
theorem modify {t t' : Frames Value} (h : W.Fits A s s') (hp : W.Paired f f')
    (c c' : Array Value → Array Value)
    (ht : ∀ g, t.get? g =
      if f = g then (s.get? g).map fun frame => { frame with cells := c frame.cells } else s.get? g)
    (ht' : ∀ g, t'.get? g =
      if f' = g then (s'.get? g).map fun frame => { frame with cells := c' frame.cells }
      else s'.get? g)
    (hc : ∀ a b, RowTwin (W.Like A) a b → RowTwin (W.Like A) (c a) (c' b)) : W.Fits A t t' := by
  obtain ⟨i, hp⟩ := hp
  refine ⟨fun {g k g'} hgp => ?_, fun {r f?'} hr => ?_, h.left, h.right, h.apart⟩
  · obtain ⟨frame, frame', j, hg, hg', hcells, hk, henclosing⟩ := h.paired hgp
    rw [ht, ht', hg, hg']
    by_cases heq : f = g
    · obtain rfl := heq
      obtain rfl := h.right hp hgp
      rw [if_pos rfl, if_pos rfl]
      exact ⟨_, _, j, rfl, rfl, hc _ _ hcells, hk, henclosing⟩
    · have hne : f' ≠ g' := by
        rintro rfl
        exact heq (h.left hp hgp)
      rw [if_neg heq, if_neg hne]
      exact ⟨frame, frame', j, rfl, rfl, hcells, hk, henclosing⟩
  · obtain ⟨outer, hget, houter⟩ := h.empty hr
    have hne : f ≠ r := by
      rintro rfl
      exact h.apart hr hp
    exact ⟨outer, by rw [ht, if_neg hne, hget], houter⟩

theorem define (h : W.Fits A s s') (hp : W.Paired f f') {v v' : Value} (hv : W.Like A v v') :
    W.Fits A (s.define f v).2 (s'.define f' v').2 :=
  h.modify hp (·.push v) (·.push v') (fun _ => Frames.get?_define v)
    (fun _ => Frames.get?_define v') fun _ _ hcells => hcells.push hv

theorem set (h : W.Fits A s s') (hp : W.Paired f f') (slot : Nat) {v v' : Value}
    (hv : W.Like A v v') : W.Fits A (s.set f slot v) (s'.set f' slot v') :=
  h.modify hp (·.setIfInBounds slot v) (·.setIfInBounds slot v')
    (fun _ => Frames.get?_set slot v) (fun _ => Frames.get?_set slot v')
    fun _ _ hcells => hcells.setIfInBounds slot hv

theorem ne_new_left (h : W.Fits A s s') (hp : W.pairs f k f') : f ≠ ⟨s.frames.size⟩ := by
  rintro rfl
  obtain ⟨_, _, _, hg, -⟩ := h.paired hp
  exact Nat.lt_irrefl _ (Frames.get?_eq_some hg)

theorem ne_new_right (h : W.Fits A s s') (hp : W.pairs f k f') : f' ≠ ⟨s'.frames.size⟩ := by
  rintro rfl
  obtain ⟨_, _, _, -, hg', -⟩ := h.paired hp
  exact Nat.lt_irrefl _ (Frames.get?_eq_some hg')

theorem ne_new_round (h : W.Fits A s s') {r : FrameRef} (hr : W.rounds r f?') :
    r ≠ ⟨s.frames.size⟩ := by
  rintro rfl
  obtain ⟨_, hg, -⟩ := h.empty hr
  exact Nat.lt_irrefl _ (Frames.get?_eq_some hg)

/-- Both machines make a new frame. -/
theorem push (h : W.Fits A s s') (hstands : W.Stands k f? f?') {vs vs' : List Value}
    (hvs : List.Forall₂ (W.Like A) vs vs') :
    (W.pair ⟨s.frames.size⟩ k.inner ⟨s'.frames.size⟩).Fits A (s.push f? vs) (s'.push f?' vs') := by
  have hW := W.within_pair ⟨s.frames.size⟩ k.inner ⟨s'.frames.size⟩
  constructor
  case paired =>
    rintro f i f' (hp | ⟨rfl, rfl, rfl⟩)
    · obtain ⟨g, g', j, hg, hg', hcells, hk, henclosing⟩ := h.paired hp
      exact ⟨g, g', j, Frames.get?_push_of_some hg _ _, Frames.get?_push_of_some hg' _ _,
        hcells.imp fun _ _ hv => hv.within hW, hk, henclosing.within hW⟩
    · exact ⟨_, _, k, Frames.get?_push_new _ _ _, Frames.get?_push_new _ _ _,
        (RowTwin.ofList hvs).imp fun _ _ hv => hv.within hW, rfl, hstands.within hW⟩
  case empty =>
    intro r f?' hr
    obtain ⟨outer, hget, houter⟩ := h.empty hr
    exact ⟨outer, Frames.get?_push_of_some hget _ _, houter.within hW⟩
  case left =>
    rintro f i g j f' (hp | ⟨rfl, rfl, rfl⟩) (hq | ⟨rfl, rfl, hf'⟩)
    · exact h.left hp hq
    · exact absurd hf' (h.ne_new_right hp)
    · exact absurd rfl (h.ne_new_right hq)
    · rfl
  case right =>
    rintro f i f' j g' (hp | ⟨rfl, rfl, rfl⟩) (hq | ⟨hf, rfl, rfl⟩)
    · exact h.right hp hq
    · exact absurd hf (h.ne_new_left hp)
    · exact absurd rfl (h.ne_new_left hq)
    · rfl
  case apart =>
    rintro r f?' i g' hr (hp | ⟨rfl, -, -⟩)
    · exact h.apart hr hp
    · exact h.ne_new_round hr rfl

/-- One of the machines makes an empty frame. -/
theorem round (h : W.Fits A s s') (hstands : W.Stands .outside f? f?') :
    (W.round ⟨s.frames.size⟩ f?').Fits A (s.push f? []) s' := by
  have hW := W.within_round ⟨s.frames.size⟩ f?'
  constructor
  case paired =>
    intro f i f' hp
    obtain ⟨g, g', j, hg, hg', hcells, hk, henclosing⟩ := h.paired hp
    exact ⟨g, g', j, Frames.get?_push_of_some hg _ _, hg', hcells.imp fun _ _ hv => hv.within hW,
      hk, henclosing.within hW⟩
  case empty =>
    rintro r g?' (hr | ⟨rfl, rfl⟩)
    · obtain ⟨outer, hget, houter⟩ := h.empty hr
      exact ⟨outer, Frames.get?_push_of_some hget _ _, houter.within hW⟩
    · exact ⟨f?, Frames.get?_push_new _ _ _, hstands.within hW⟩
  case left => exact h.left
  case right => exact h.right
  case apart =>
    rintro r g?' i g' (hr | ⟨rfl, -⟩) hp
    · exact h.apart hr hp
    · exact h.ne_new_left hp rfl

end Framing.Fits

end Lox
