import Lox.Proofs.Machine.Twin

namespace Lox

inductive Class.Has : Class → Closure → Prop where
  | own {identity name superclass} {methods : Std.TreeMap String Closure} {method : String} {f} :
    methods[method]? = some f → Has (.mk identity name superclass methods) f
  | inherited {identity name superclass} {methods : Std.TreeMap String Closure} {f} :
    Has superclass f → Has (.mk identity name (some superclass) methods) f

inductive Value.Has : Value → Closure → Prop where
  | function {identity f} : Has (.function identity f) f
  | class {c f} : c.Has f → Has (.class c) f
  | instance {i c f} : c.Has f → Has (.instance i c) f

inductive Machine.Holds (m : Machine) (f : Closure) : Prop where
  | global {name : String} {v} : m.globals[name]? = some v → v.Has f → Holds m f
  | cell {g : FrameRef} {frame v} : m.frames.get? g = some frame → v ∈ frame.cells → v.Has f →
    Holds m f
  | field {i : Nat} {fields : Fields} {name : String} {v} : m.instances[i]? = some fields →
    fields[name]? = some v → v.Has f → Holds m f

variable {K : Link}

theorem exists_of_rel {α β : Type} {R : α → β → Prop} {a? : Option α} {b? : Option β} {a : α}
    (h : Option.Rel R a? b?) (ha : a? = some a) : ∃ b, b? = some b ∧ R a b := by
  subst ha
  cases h with
  | some hab => exact ⟨_, rfl, hab⟩

theorem Class.Has.twin {c c' : Class} {f : Closure} (h : c.Has f) (hc : c.Twin K c') :
    ∃ f', c'.Has f' ∧ f.Twin K f' := by
  induction h generalizing c' with
  | own hf =>
    cases hc with
    | base hms | sub _ hms =>
      obtain ⟨f', hf', htwin⟩ := exists_of_rel (hms _) hf
      exact ⟨f', .own hf', htwin⟩
  | inherited _ ih =>
    cases hc with
    | sub hsuper _ =>
      obtain ⟨f', hf', htwin⟩ := ih hsuper
      exact ⟨f', .inherited hf', htwin⟩

theorem Value.Has.twin {v v' : Value} {f : Closure} (h : v.Has f) (hv : v.Twin K v') :
    ∃ f', v'.Has f' ∧ f.Twin K f' := by
  cases h with
  | function =>
    cases hv with
    | function _ hf => exact ⟨_, .function, hf⟩
  | «class» hf =>
    cases hv with
    | «class» hc =>
      obtain ⟨f', hf', htwin⟩ := hf.twin hc
      exact ⟨f', .class hf', htwin⟩
  | «instance» hf =>
    cases hv with
    | «instance» _ hc =>
      obtain ⟨f', hf', htwin⟩ := hf.twin hc
      exact ⟨f', .instance hf', htwin⟩

/-- What a machine holds, machines that are alike with it hold too. -/
theorem Machine.Holds.twin {m m' : Machine} {f : Closure} (h : m.Holds f) (hm : m.Twin K m') :
    ∃ f', m'.Holds f' ∧ f.Twin K f' := by
  cases h with
  | global hv hf =>
    obtain ⟨v', hv', htwin⟩ := exists_of_rel (hm.globals _) hv
    obtain ⟨f', hf', hclosure⟩ := hf.twin htwin
    exact ⟨f', .global hv' hf', hclosure⟩
  | @cell g frame v hframe hmem hf =>
    obtain ⟨frame', hframe', htwin⟩ := exists_of_rel (hm.frames g.index) hframe
    obtain ⟨i, hi⟩ := Array.mem_iff_getElem?.mp hmem
    obtain ⟨v', hv', hvalue⟩ := exists_of_rel (htwin.cells i) hi
    obtain ⟨f', hf', hclosure⟩ := hf.twin hvalue
    exact ⟨f', .cell hframe' (Array.mem_of_getElem? hv') hf', hclosure⟩
  | field hfields hv hf =>
    obtain ⟨fields', hfields', htable⟩ := exists_of_rel (hm.instances _) hfields
    obtain ⟨v', hv', hvalue⟩ := exists_of_rel (htable _) hv
    obtain ⟨f', hf', hclosure⟩ := hf.twin hvalue
    exact ⟨f', .field hfields' hv' hf', hclosure⟩

end Lox
