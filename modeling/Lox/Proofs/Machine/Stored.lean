import Lox.Proofs.Machine.Held
import Lox.Proofs.Machine.Retained

namespace Lox

/-- `P` holds of every value in a global, in a cell of a frame and in a field of an instance. -/
structure Machine.Stores (P : Value → Prop) (m : Machine) : Prop where
  globals : ∀ (name : String) (v : Value), m.globals[name]? = some v → P v
  cells : ∀ g frame, m.frames.get? g = some frame → ∀ v ∈ frame.cells, P v
  fields : ∀ (i : Nat) (fields : Fields) (name : String) (v : Value),
    m.instances[i]? = some fields → fields[name]? = some v → P v

namespace Machine.Stores

variable {P Q : Value → Prop} {C : Closure → Prop} {m m' : Machine} {v : Value}

theorem imp (h : m.Stores P) (hPQ : ∀ v, P v → Q v) : m.Stores Q :=
  ⟨fun name v hv => hPQ v (h.globals name v hv),
    fun g frame hg v hv => hPQ v (h.cells g frame hg v hv),
    fun i fields name v hi hv => hPQ v (h.fields i fields name v hi hv)⟩

/-- What holds of the closures that a machine holds can be said of the values that it stores. -/
theorem of_holds (h : ∀ f, m.Holds f → C f) : m.Stores fun v => ∀ f, v.Has f → C f :=
  ⟨fun _ _ hv f hf => h f (.global hv hf), fun _ _ hget _ hv f hf => h f (.cell hget hv hf),
    fun _ _ _ _ hi hv f hf => h f (.field hi hv hf)⟩

/-- Only the globals, the frames and the instances count. -/
theorem congr (h : m.Stores P) (hglobals : m'.globals = m.globals)
    (hframes : m'.frames = m.frames) (hinstances : m'.instances = m.instances) : m'.Stores P := by
  obtain ⟨h₁, h₂, h₃⟩ := h
  rw [← hglobals] at h₁
  rw [← hframes] at h₂
  rw [← hinstances] at h₃
  exact ⟨h₁, h₂, h₃⟩

theorem defineGlobal (h : m.Stores P) (name : String) (hv : P v) :
    (m.defineGlobal name v).Stores P := by
  refine ⟨fun key u hu => ?_, h.cells, h.fields⟩
  rw [Machine.defineGlobal, Std.TreeMap.getElem?_insert] at hu
  split at hu
  · have heq : v = u := Option.some.inj hu
    exact heq ▸ hv
  · exact h.globals key u hu

theorem push (h : m.Stores P) (enclosing : Option FrameRef) {vs : List Value}
    (hvs : ∀ v ∈ vs, P v) : { m with frames := m.frames.push enclosing vs }.Stores P := by
  refine ⟨h.globals, fun g frame hg u hu => ?_, h.fields⟩
  rw [Frames.get?_push] at hg
  split at hg
  · obtain rfl := Option.some.inj hg
    have hmem : u ∈ vs := List.mem_toArray.mp hu
    exact hvs u hmem
  · exact h.cells g frame hg u hu

theorem define (h : m.Stores P) (f : FrameRef) (hv : P v) :
    { m with frames := (m.frames.define f v).2 }.Stores P := by
  refine ⟨h.globals, fun g frame hg u hu => ?_, h.fields⟩
  rw [Frames.get?_define] at hg
  split at hg
  · obtain ⟨before, hbefore, rfl⟩ := Option.map_eq_some_iff.mp hg
    rcases Array.mem_push.mp hu with hu | rfl
    · exact h.cells g before hbefore u hu
    · exact hv
  · exact h.cells g frame hg u hu

theorem set (h : m.Stores P) (f : FrameRef) (slot : Nat) (hv : P v) :
    { m with frames := m.frames.set f slot v }.Stores P := by
  refine ⟨h.globals, fun g frame hg u hu => ?_, h.fields⟩
  rw [Frames.get?_set] at hg
  split at hg
  · obtain ⟨before, hbefore, rfl⟩ := Option.map_eq_some_iff.mp hg
    rcases Array.mem_or_eq_of_mem_setIfInBounds hu with hu | rfl
    · exact h.cells g before hbefore u hu
    · exact hv
  · exact h.cells g frame hg u hu

theorem newInstance (h : m.Stores P) :
    { m with instances := m.instances.push ∅ }.Stores P := by
  refine ⟨h.globals, h.cells, fun i fields name u hi hu => ?_⟩
  rw [Array.getElem?_push] at hi
  split at hi
  · obtain rfl := Option.some.inj hi
    simp at hu
  · exact h.fields i fields name u hi hu

theorem setField (h : m.Stores P) (i : Nat) (name : String) (hv : P v) :
    { m with instances := m.instances.modify i fun fields => fields.insert name v }.Stores P := by
  refine ⟨h.globals, h.cells, fun j fields key u hj hu => ?_⟩
  rw [Array.getElem?_modify] at hj
  split at hj
  · obtain ⟨before, hbefore, rfl⟩ := Option.map_eq_some_iff.mp hj
    rw [Std.TreeMap.getElem?_insert] at hu
    split at hu
    · have heq : v = u := Option.some.inj hu
      exact heq ▸ hv
    · exact h.fields j before key u hbefore hu
  · exact h.fields j fields key u hj hu

theorem getAt (h : m.Stores P) {f : FrameRef} {a : Address} (hget : m.frames.getAt f a = .ok v) :
    P v := by
  unfold Frames.getAt Frames.cell? at hget
  split at hget
  · simp at hget
  next g _ =>
    split at hget
    next u hu =>
      obtain rfl := Except.ok.inj hget
      split at hu
      next frame hframe => exact h.cells g frame hframe u (Array.mem_of_getElem? hu)
      next => simp at hu
    next => simp at hget

end Machine.Stores

end Lox
