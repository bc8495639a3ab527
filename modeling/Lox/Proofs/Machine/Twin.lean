import Lox.Proofs.Machine.Apply
import Lox.Proofs.Machine.Like
import Lox.Proofs.Tree.Twin

namespace Lox

variable (K : Link)

structure Closure.Twin (f f' : Closure) : Prop where
  name : f.name = f'.name
  function : f.function.Twin K f'.function
  frame : f.frame = f'.frame
  isInitializer : f.isInitializer = f'.isInitializer

inductive Class.Twin : Class → Class → Prop where
  | base {i name ms ms'} : TableTwin (Closure.Twin K) ms ms' →
      Class.Twin (.mk i name none ms) (.mk i name none ms')
  | sub {i name c c' ms ms'} : Class.Twin c c' → TableTwin (Closure.Twin K) ms ms' →
      Class.Twin (.mk i name (some c) ms) (.mk i name (some c') ms')

inductive Value.Twin : Value → Value → Prop where
  | nil : Value.Twin .nil .nil
  | bool (b : Bool) : Value.Twin (.bool b) (.bool b)
  | number (x : Float) : Value.Twin (.number x) (.number x)
  | string (s : String) : Value.Twin (.string s) (.string s)
  | native (f : NativeRef) : Value.Twin (.native f) (.native f)
  | function (identity : Nat) {f f'} : f.Twin K f' →
      Value.Twin (.function identity f) (.function identity f')
  | class {c c'} : c.Twin K c' → Value.Twin (.class c) (.class c')
  | instance (i : InstanceRef) {c c'} : c.Twin K c' → Value.Twin (.instance i c) (.instance i c')

/-- The same error on another line, if it has one. -/
def RuntimeError.atLine (line : Nat) : RuntimeError → RuntimeError
  | operandMustBeNumber operator _ => operandMustBeNumber operator line
  | operandsMustBeNumbers operator _ => operandsMustBeNumbers operator line
  | invalidAddition _ => invalidAddition line
  | divisionByZero _ => divisionByZero line
  | undefinedVariable name _ => undefinedVariable name line
  | undefinedProperty name _ => undefinedProperty name line
  | arityMismatch expected got _ => arityMismatch expected got line
  | notCallable _ => notCallable line
  | notAnInstance _ => notAnInstance line
  | fieldOnNonInstance _ => fieldOnNonInstance line
  | superclassNotClass _ => superclassNotClass line
  | native name message _ => native name message line
  | invalidSlot a => invalidSlot a

/-- The same error on corresponding lines. -/
structure RuntimeError.Twin (e e' : RuntimeError) : Prop where
  same : e.atLine 0 = e'.atLine 0
  line : Option.Rel K.line e.line? e'.line?

structure Frame.Twin (g g' : Frame Value) : Prop where
  enclosing : g.enclosing = g'.enclosing
  cells : RowTwin (Value.Twin K) g.cells g'.cells

/-- A host function can look at neither the nodes nor the lines of the functions that it is given,
nor can it make any. -/
def NativeBody.Blind (body : NativeBody) : Prop :=
  ∀ (K : Link) (turn : Nat) (vs vs' : List Value), List.Forall₂ (Value.Twin K) vs vs' →
    ExceptRel Eq (Value.Twin K) (body turn vs) (body turn vs')

structure Machine.Twin (m m' : Machine) : Prop where
  globals : TableTwin (Value.Twin K) m.globals m'.globals
  frame : m.frame = m'.frame
  frames : RowTwin (Frame.Twin K) m.frames.frames m'.frames.frames
  instances : RowTwin (TableTwin (Value.Twin K)) m.instances m'.instances
  natives : m.natives = m'.natives
  blind : ∀ body ∈ m.natives, body.Blind
  turns : m.turns = m'.turns
  addresses : ∀ i i', K.node i i' → m.addresses[i]? = m'.addresses[i']?
  output : m.output = m'.output
  echoes : m.echoes = m'.echoes
  nextIdentity : m.nextIdentity = m'.nextIdentity

variable {K} {K' : Link}

theorem Closure.Twin.within {f f' : Closure} (h : f.Twin K f') (hK : K.Within K') : f.Twin K' f' :=
  ⟨h.name, h.function.within hK, h.frame, h.isInitializer⟩

theorem Class.Twin.within {c c' : Class} (h : c.Twin K c') (hK : K.Within K') : c.Twin K' c' := by
  induction h with
  | base hms => exact .base (hms.imp fun _ _ hf => hf.within hK)
  | sub _ hms ih => exact .sub ih (hms.imp fun _ _ hf => hf.within hK)

theorem Value.Twin.within {v v' : Value} (h : v.Twin K v') (hK : K.Within K') : v.Twin K' v' := by
  cases h with
  | function _ hf => exact .function _ (hf.within hK)
  | «class» hc => exact .class (hc.within hK)
  | «instance» _ hc => exact .instance _ (hc.within hK)
  | _ => constructor

theorem RuntimeError.Twin.within {e e' : RuntimeError} (h : e.Twin K e') (hK : K.Within K') :
    e.Twin K' e' :=
  ⟨h.same, rel_imp h.line hK.line⟩

theorem Frame.Twin.within {g g' : Frame Value} (h : g.Twin K g') (hK : K.Within K') :
    g.Twin K' g' :=
  ⟨h.enclosing, h.cells.imp fun _ _ hv => hv.within hK⟩

/-- The notes about nodes may change too, if the new ones agree. -/
theorem Machine.Twin.noting {m m' : Machine} (h : m.Twin K m') (hK : K.Within K')
    {addresses addresses' : Std.TreeMap Nat Address}
    (haddresses : ∀ i i', K'.node i i' → addresses[i]? = addresses'[i']?) :
    Machine.Twin K' { m with addresses } { m' with addresses := addresses' } where
  globals := h.globals.imp fun _ _ hv => hv.within hK
  frame := h.frame
  frames := h.frames.imp fun _ _ hg => hg.within hK
  instances := h.instances.imp fun _ _ hfields => hfields.imp fun _ _ hv => hv.within hK
  natives := h.natives
  blind := h.blind
  turns := h.turns
  addresses := haddresses
  output := h.output
  echoes := h.echoes
  nextIdentity := h.nextIdentity

theorem Closure.Twin.arity {f f' : Closure} (h : f.Twin K f') : f.arity = f'.arity :=
  h.function.params.length_eq

namespace Class.Twin

variable {c c' : Class}

theorem identity (h : c.Twin K c') : c.identity = c'.identity := by cases h <;> rfl

theorem name (h : c.Twin K c') : c.name = c'.name := by cases h <;> rfl

theorem method? (h : c.Twin K c') (name : String) :
    Option.Rel (Closure.Twin K) (c.method? name) (c'.method? name) := by
  induction h with
  | base hms => exact Class.rel_method? hms .none
  | sub _ hms ih => exact Class.rel_method? hms (.some ih)

/-- Nodes and lines cannot be seen from outside. -/
theorem like (h : c.Twin K c') : c.Like (fun _ _ => True) c' :=
  ⟨h.identity, h.name, fun name => rel_imp (h.method? name) fun _ _ hf =>
    ⟨hf.name, hf.arity, hf.isInitializer, trivial⟩⟩

theorem arity (h : c.Twin K c') : Machine.arity c = Machine.arity c' := h.like.arity

end Class.Twin

namespace Value.Twin

variable {v v' : Value}

theorem like (h : v.Twin K v') : v.Like (fun _ _ => True) (fun _ _ => True) v' := by
  cases h with
  | function identity hf =>
    exact .function identity ⟨hf.name, hf.arity, hf.isInitializer, trivial⟩
  | «class» hc => exact .class hc.like
  | «instance» i hc => exact .instance i hc.like
  | _ => constructor

theorem truthy (h : v.Twin K v') : v.truthy = v'.truthy := h.like.truthy

theorem text (h : v.Twin K v') : v.text = v'.text := h.like.text

end Value.Twin

end Lox
