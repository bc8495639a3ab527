import Lox.Proofs.Machine.Moment
import Lox.Proofs.Machine.Stored
import Lox.Proofs.Scope.Proper

namespace Lox

/-- What has been accepted and what has happened so far. -/
structure History where
  node : Node → Prop
  moment : Moment → Prop

/-- The moments at which the frames were made. -/
abbrev World := List Moment

/-- The nodes have been accepted, and are in all initializers that their places are in. -/
structure Known (P : History) (L : Lexical) (nodes : List Node) : Prop where
  accepted : ∀ node ∈ nodes, P.node node
  awaited : ∀ (i : Nat) (p : Place) (t : Token) (value : Expr), L[i]? = some p →
    p.pending = some (t, value) → ∀ node ∈ nodes, node ∈ value.nodes (L.drop i)

/-- The frame is one in which the initializer of the pending variable has been begun. -/
def Place.Awaits (P : History) (f : FrameRef) (p : Place) : Prop :=
  ∀ t value, p.pending = some (t, value) → p.site.names[p.count]? = some t.lexeme ∧
    ∃ D, P.moment D ∧ D.task = .execute (.var t (some value)) ∧ D.machine.frame = some f ∧
      D.machine.frames.size f = p.count

/-- The frames from here outwards are instances of the scopes around a place, and hold the cells of
the names that have been declared before it. -/
inductive Stands (P : History) (W : World) (s : Frames Value) : Option FrameRef → Lexical → Prop where
  | top : Stands P W s none []
  | frame {f p L frame M} : s.get? f = some frame → W[f.index]? = some M →
      M.task.site? = some p.site → p.count ≤ frame.cells.size → p.Awaits P f →
      Stands P W s frame.enclosing L → Stands P W s (some f) (p :: L)

/-- The function may stand at a place. -/
structure Function.Suits (P : History) (L : Lexical) (f : Function) : Prop where
  proper : L.Proper
  known : Known P L (f.nodes L)
  formed : f.Formed

/-- A closure that can be called. -/
def Closure.Callable (P : History) (W : World) (s : Frames Value) (f : Closure) : Prop :=
  (∃ L, Stands P W s f.frame L ∧ f.function.Suits P L) ∧ ∃ O, P.moment O ∧ O.Makes f

/-- A method that has not been bound to a receiver. -/
def Closure.Unbound (P : History) (W : World) (s : Frames Value) (f : Closure) : Prop :=
  (∃ L, Stands P W s f.frame L ∧ f.function.Suits P ((Site.this f.function).enter 1 L)) ∧
    ∃ O, P.moment O ∧ O.Makes f

def Class.Good (P : History) (W : World) (s : Frames Value) (c : Class) : Prop :=
  ∀ name f, c.method? name = some f → f.Unbound P W s

def Value.Good (P : History) (W : World) (s : Frames Value) : Value → Prop
  | .function _ f => f.Callable P W s
  | .class c => c.Good P W s
  | .instance _ c => c.Good P W s
  | _ => True

/-- The frame `g` was made at the moment `M` for a scope, and its cells belong to names of it. -/
structure Instance (P : History) (M : Moment) (g : FrameRef) (frame : Frame Value)
    (site : Site) : Prop where
  happened : P.moment M
  creates : M.Creates g site
  link : frame.enclosing = M.enclosing
  size : frame.cells.size ≤ site.names.length
  filled : ∀ slot < frame.cells.size, ∃ D name, P.moment D ∧ site.names[slot]? = some name ∧
    D.Appends g slot name
  receiver : ∀ f v, M.task = .bind f v → frame.cells = #[v] ∧ ∃ i c, v = .instance i c
  superclass : ∀ name c ms, M.task = .declareClass name (some c) ms → frame.cells = #[.class c]
  lineage : ∀ f, (∃ paren arguments, M.task = .call f paren arguments) ∨ (∃ v, M.task = .bind f v) →
    ∃ O, P.moment O ∧ O.Makes f

/-- What a host function gives back is made of plain values and of what it was given. -/
def NativeBody.Honest (body : NativeBody) : Prop :=
  ∀ turn arguments v, body turn arguments = .ok v → v ∈ arguments ∨ ∀ P W s, Value.Good P W s v

/-- A value without identity, or a host function. -/
def Value.Plain : Value → Prop
  | .function _ _ => False
  | .class _ => False
  | .instance _ _ => False
  | _ => True

/-- What a host function gives back is plain, or it is what it was given. -/
def NativeBody.Plain (body : NativeBody) : Prop :=
  ∀ turn arguments v, body turn arguments = .ok v → v ∈ arguments ∨ v.Plain

/-- A method goes by the name that it is found under, and is an initializer if that is `init`. -/
def Class.Named (c : Class) : Prop :=
  ∀ name f, c.method? name = some f →
    f.name = some name ∧ (f.isInitializer = true ↔ name = initializerName)

structure Class.Fits (P : History) (W : World) (m : Machine) (c : Class) : Prop where
  good : c.Good P W m.frames
  named : c.Named

/-- The receiver that a closure was bound to is in its frame. -/
def Closure.Bound (W : World) (f : Closure) : Prop :=
  ∃ g B enclosing receiver, f.frame = some g ∧ W[g.index]? = some B ∧
    B.task = .bind { f with frame := enclosing } receiver

/-- A closure can be called, and is bound to a receiver if it is an initializer. -/
structure Closure.Fits (P : History) (W : World) (m : Machine) (f : Closure) : Prop where
  callable : f.Callable P W m.frames
  bound : f.isInitializer = true → f.Bound W

/-- The instance is one of those that were made, if host functions do not make up others. -/
def InstanceRef.Existing (m : Machine) (i : InstanceRef) : Prop :=
  (∀ body ∈ m.natives, body.Plain) → i.index < m.instances.size

def Value.Fits (P : History) (W : World) (m : Machine) : Value → Prop
  | .function _ f => f.Fits P W m
  | .class c => c.Fits P W m
  | .instance i c => c.Fits P W m ∧ i.Existing m
  | _ => True

structure Sound (P : History) (W : World) (m : Machine) : Prop where
  table : ∀ node, P.node node → m.addresses[node.id]? = node.address?
  length : W.length = m.frames.frames.size
  frames : ∀ g frame M, m.frames.get? g = some frame → W[g.index]? = some M →
    ∃ site, Instance P M g frame site
  stored : m.Stores (Value.Fits P W m)
  natives : ∀ (i : Nat) (body : NativeBody), m.natives[i]? = some body → body.Honest

section

variable {P : History} {W W' : World} {s s' : Frames Value} {m m' : Machine} {g? : Option FrameRef}

theorem getElem?_extend {i : Nat} {M : Moment} (hW : W <+: W') (h : W[i]? = some M) :
    W'[i]? = some M := by
  obtain ⟨V, rfl⟩ := hW
  rw [List.getElem?_append_left (List.getElem?_eq_some_iff.mp h).1, h]

theorem Stands.mono {f : Option FrameRef} {L : Lexical} (h : Stands P W s f L) (hW : W <+: W')
    (hs : Frames.Grows g? s s') : Stands P W' s' f L := by
  induction h with
  | top => exact .top
  | frame hf hM hsite hcount hawaits _ ih =>
    obtain ⟨frame', hf', hlink, hle, -⟩ := hs _ _ hf
    refine .frame hf' (getElem?_extend hW hM) hsite (Nat.le_trans hcount hle) hawaits ?_
    rw [hlink]
    exact ih

theorem Closure.Callable.mono {f : Closure} (h : f.Callable P W s) (hW : W <+: W')
    (hs : Frames.Grows g? s s') : f.Callable P W' s' := by
  obtain ⟨⟨L, hstands, hsuits⟩, hmade⟩ := h
  exact ⟨⟨L, hstands.mono hW hs, hsuits⟩, hmade⟩

theorem Closure.Unbound.mono {f : Closure} (h : f.Unbound P W s) (hW : W <+: W')
    (hs : Frames.Grows g? s s') : f.Unbound P W' s' := by
  obtain ⟨⟨L, hstands, hsuits⟩, hmade⟩ := h
  exact ⟨⟨L, hstands.mono hW hs, hsuits⟩, hmade⟩

theorem Class.Good.mono {c : Class} (h : c.Good P W s) (hW : W <+: W')
    (hs : Frames.Grows g? s s') : c.Good P W' s' :=
  fun name f hf => (h name f hf).mono hW hs

theorem Closure.Bound.mono {f : Closure} (h : f.Bound W) (hW : W <+: W') : f.Bound W' := by
  obtain ⟨g, B, enclosing, receiver, hg, hB, htask⟩ := h
  exact ⟨g, B, enclosing, receiver, hg, getElem?_extend hW hB, htask⟩

/-- From one machine to the next the frames grow, and neither host functions nor instances get
lost. -/
structure Grown (g? : Option FrameRef) (W : World) (m : Machine) (W' : World) (m' : Machine) :
    Prop where
  world : W <+: W'
  frames : Frames.Grows g? m.frames m'.frames
  natives : ∀ body ∈ m.natives, body ∈ m'.natives
  instances : m.instances.size ≤ m'.instances.size

theorem Grown.of_frames {frames : Frames Value} (h : Frames.Grows g? m.frames frames)
    (hW : W <+: W') : Grown g? W m W' { m with frames } :=
  ⟨hW, h, fun _ => id, Nat.le_refl _⟩

theorem Grown.of_eq (hframes : m'.frames = m.frames) (hnatives : m'.natives = m.natives)
    (hinstances : m.instances.size ≤ m'.instances.size) : Grown g? W m W m' := by
  refine ⟨List.prefix_refl W, ?_, fun body hbody => ?_, hinstances⟩
  · rw [hframes]
    exact .refl _ _
  · rwa [hnatives]

/-- It does not matter in which frames the machines are. -/
theorem Grown.leave {f f' : Option FrameRef} (h : Grown g? W { m with frame := f } W' m') :
    Grown g? W m W' { m' with frame := f' } :=
  ⟨h.world, h.frames, h.natives, h.instances⟩

theorem Grown.of_grows {f? : Option FrameRef} (h : Grown g? W m W' m')
    (hs : Frames.Grows f? m.frames m'.frames) : Grown f? W m W' m' :=
  ⟨h.world, hs, h.natives, h.instances⟩

theorem Grown.trans {W'' : World} {m'' : Machine} (h : Grown g? W m W' m')
    (h' : Grown g? W' m' W'' m'') : Grown g? W m W'' m'' :=
  ⟨h.world.trans h'.world, h.frames.trans h'.frames,
    fun body hbody => h'.natives body (h.natives body hbody),
    Nat.le_trans h.instances h'.instances⟩

namespace Grown

theorem class_fits {c : Class} (h : Grown g? W m W' m') (hc : c.Fits P W m) : c.Fits P W' m' :=
  ⟨hc.good.mono h.world h.frames, hc.named⟩

theorem closure_fits {f : Closure} (h : Grown g? W m W' m') (hf : f.Fits P W m) : f.Fits P W' m' :=
  ⟨hf.callable.mono h.world h.frames, fun hinit => (hf.bound hinit).mono h.world⟩

theorem existing {i : InstanceRef} (h : Grown g? W m W' m') (hi : i.Existing m) : i.Existing m' :=
  fun hplain => Nat.lt_of_lt_of_le (hi fun body hbody => hplain body (h.natives body hbody))
    h.instances

theorem fits {v : Value} (h : Grown g? W m W' m') (hv : v.Fits P W m) : v.Fits P W' m' := by
  cases v with
  | function i f => exact h.closure_fits hv
  | «class» c => exact h.class_fits hv
  | «instance» i c => exact ⟨h.class_fits hv.1, h.existing hv.2⟩
  | _ => trivial

end Grown

/-- A change of what is stored, other than in frames. -/
theorem Sound.store (h : Sound P W m) (haddresses : m'.addresses = m.addresses)
    (hframes : m'.frames = m.frames) (hnatives : m'.natives = m.natives)
    (hinstances : m.instances.size ≤ m'.instances.size)
    (hstored : m'.Stores (Value.Fits P W m)) : Sound P W m' := by
  have hgrown : Grown none W m W m' := .of_eq hframes hnatives hinstances
  refine ⟨?_, ?_, ?_, hstored.imp fun _ => hgrown.fits, ?_⟩
  · rw [haddresses]
    exact h.table
  · rw [hframes]
    exact h.length
  · rw [hframes]
    exact h.frames
  · rw [hnatives]
    exact h.natives

/-- Soundness does not depend on the output, the counters and the current frame. -/
theorem Sound.congr (h : Sound P W m) (haddresses : m'.addresses = m.addresses)
    (hframes : m'.frames = m.frames) (hglobals : m'.globals = m.globals)
    (hinstances : m'.instances = m.instances) (hnatives : m'.natives = m.natives) :
    Sound P W m' :=
  h.store haddresses hframes hnatives (by rw [hinstances])
    (h.stored.congr hglobals hframes hinstances)

end

namespace Known

variable {P : History} {L : Lexical} {nodes nodes' : List Node}

theorem of_subset (h : Known P L nodes) (hsub : ∀ node ∈ nodes', node ∈ nodes) :
    Known P L nodes' :=
  ⟨fun node hnode => h.accepted node (hsub node hnode),
    fun i p t value hp hpending node hnode => h.awaited i p t value hp hpending node (hsub node hnode)⟩

theorem left (h : Known P L (nodes ++ nodes')) : Known P L nodes :=
  h.of_subset fun _ => List.mem_append_left _

theorem right (h : Known P L (nodes ++ nodes')) : Known P L nodes' :=
  h.of_subset fun _ => List.mem_append_right _

/-- A scope that is entered is in the initializers that are around it. -/
theorem enter (h : Known P L nodes) (site : Site) (count : Nat) :
    Known P (site.enter count L) nodes := by
  refine ⟨h.accepted, fun i p t value hp hpending => ?_⟩
  cases i with
  | zero =>
    obtain rfl := Option.some.inj hp
    exact absurd hpending (by simp)
  | succ i => exact h.awaited i p t value hp hpending

/-- The declarations of the innermost scope do not matter for the initializers around it. -/
theorem of_tail {L' : Lexical} (h : Known P L nodes) (htail : L'.tail = L.tail)
    (hhead : ∀ p ∈ L'.head?, p.pending = none) : Known P L' nodes := by
  refine ⟨h.accepted, fun i p t value hp hpending => ?_⟩
  cases L' with
  | nil => simp at hp
  | cons q L' =>
    cases i with
    | zero =>
      obtain rfl := Option.some.inj hp
      rw [hhead q rfl] at hpending
      exact absurd hpending (by simp)
    | succ i =>
      cases L with
      | nil =>
        obtain rfl : L' = [] := htail
        simp at hp
      | cons q' L =>
        obtain rfl : L' = L := htail
        exact h.awaited (i + 1) p t value hp hpending

/-- In its own initializer a variable is pending. -/
theorem await {t : Token} {value : Expr} (h : Known P L (value.nodes (L.await t value))) :
    Known P (L.await t value) (value.nodes (L.await t value)) := by
  refine ⟨h.accepted, fun i p t' value' hp hpending => ?_⟩
  cases L with
  | nil => exact h.awaited i p t' value' hp hpending
  | cons q L =>
    cases i with
    | zero =>
      obtain rfl := Option.some.inj hp
      obtain ⟨rfl, rfl⟩ := Prod.mk.inj (Option.some.inj hpending)
      exact fun _ => id
    | succ i => exact h.awaited (i + 1) p t' value' hp hpending

end Known

end Lox
