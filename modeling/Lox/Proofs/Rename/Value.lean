import Lox.Proofs.Machine.Cells
import Lox.Proofs.Machine.Operation
import Lox.Proofs.Rename.Alike

namespace Lox

section Values

variable (F : Function → Function → Prop)

structure Closure.Alike (f f' : Closure) : Prop where
  name : f.name = f'.name
  arity : f.arity = f'.arity
  function : F f.function f'.function
  frame : f.frame = f'.frame
  isInitializer : f.isInitializer = f'.isInitializer

inductive Class.Alike : Class → Class → Prop where
  | base {i name ms ms'} : TableTwin (Closure.Alike F) ms ms' →
      Class.Alike (.mk i name none ms) (.mk i name none ms')
  | sub {i name c c' ms ms'} : Class.Alike c c' → TableTwin (Closure.Alike F) ms ms' →
      Class.Alike (.mk i name (some c) ms) (.mk i name (some c') ms')

/-- The same value, but for the functions that it is made of. -/
inductive Value.Alike : Value → Value → Prop where
  | nil : Value.Alike .nil .nil
  | bool (b : Bool) : Value.Alike (.bool b) (.bool b)
  | number (x : Float) : Value.Alike (.number x) (.number x)
  | string (s : String) : Value.Alike (.string s) (.string s)
  | native (f : NativeRef) : Value.Alike (.native f) (.native f)
  | function (identity : Nat) {f f'} : f.Alike F f' →
      Value.Alike (.function identity f) (.function identity f')
  | class {c c'} : c.Alike F c' → Value.Alike (.class c) (.class c')
  | instance (i : InstanceRef) {c c'} : c.Alike F c' →
      Value.Alike (.instance i c) (.instance i c')

end Values

/-- A host function that takes no notice of what the functions are made of that it is given. -/
def NativeBody.Heedless (body : NativeBody) : Prop :=
  ∀ (F : Function → Function → Prop) (turn : Nat) (vs vs' : List Value),
    List.Forall₂ (Value.Alike F) vs vs' → ExceptRel Eq (Value.Alike F) (body turn vs) (body turn vs')

variable {F : Function → Function → Prop}

theorem rel_self {α : Type} {R : α → α → Prop} (h : ∀ x, R x x) (x? : Option α) :
    Option.Rel R x? x? := by
  cases x? with
  | none => exact .none
  | some x => exact .some (h x)

theorem Closure.alike_self (hF : ∀ f, F f f) (f : Closure) : f.Alike F f :=
  ⟨rfl, rfl, hF _, rfl, rfl⟩

theorem Class.alike_self (hF : ∀ f, F f f) : (c : Class) → c.Alike F c
  | .mk _ _ none _ => .base fun _ => rel_self (Closure.alike_self hF) _
  | .mk _ _ (some c) _ => .sub (c.alike_self hF) fun _ => rel_self (Closure.alike_self hF) _

theorem Value.alike_self (hF : ∀ f, F f f) (v : Value) : v.Alike F v := by
  cases v with
  | function identity f => exact .function identity (f.alike_self hF)
  | «class» c => exact .class (c.alike_self hF)
  | «instance» i c => exact .instance i (c.alike_self hF)
  | _ => constructor

namespace Class.Alike

variable {c c' : Class}

theorem identity (h : c.Alike F c') : c.identity = c'.identity := by cases h <;> rfl

theorem name (h : c.Alike F c') : c.name = c'.name := by cases h <;> rfl

theorem method? (h : c.Alike F c') (name : String) :
    Option.Rel (Closure.Alike F) (c.method? name) (c'.method? name) := by
  induction h with
  | base hms => exact Class.rel_method? hms .none
  | sub _ hms ih => exact Class.rel_method? hms (.some ih)

/-- All that cannot be seen from outside may differ. -/
theorem like (h : c.Alike F c') : c.Like (fun _ _ => True) c' :=
  ⟨h.identity, h.name, fun name => rel_imp (h.method? name) fun _ _ hf =>
    ⟨hf.name, hf.arity, hf.isInitializer, trivial⟩⟩

theorem arity (h : c.Alike F c') : Machine.arity c = Machine.arity c' := h.like.arity

end Class.Alike

namespace Value.Alike

variable {v v' : Value}

theorem like (h : v.Alike F v') : v.Like (fun _ _ => True) (fun _ _ => True) v' := by
  cases h with
  | function identity hf =>
    exact .function identity ⟨hf.name, hf.arity, hf.isInitializer, trivial⟩
  | «class» hc => exact .class hc.like
  | «instance» i hc => exact .instance i hc.like
  | _ => constructor

theorem truthy (h : v.Alike F v') : v.truthy = v'.truthy := h.like.truthy

theorem text (h : v.Alike F v') : v.text = v'.text := h.like.text

end Value.Alike

variable (R : Renaming)

/-- The same value, but for locals with a new name in its functions. -/
abbrev Value.Renamed : Value → Value → Prop := Value.Alike (Function.Renamed R)

abbrev Closure.Renamed : Closure → Closure → Prop := Closure.Alike (Function.Renamed R)

abbrev Class.Renamed : Class → Class → Prop := Class.Alike (Function.Renamed R)

/-- The same error, or that of the local with its new name. -/
inductive RuntimeError.Renamed : RuntimeError → RuntimeError → Prop where
  | same (e : RuntimeError) : RuntimeError.Renamed e e
  | undefined (line : Nat) :
    RuntimeError.Renamed (.undefinedVariable R.old line) (.undefinedVariable R.new line)

/-- Inside of a block or a function the machine is not at top level. Where nodes name a local they
have an address. -/
structure Machine.Renamed (inside : Bool) (m m' : Machine) : Prop where
  globals : TableTwin (Value.Renamed R) m.globals m'.globals
  frame : m.frame = m'.frame
  inside : inside = true → m.frame.isSome
  frames : m.frames.Alike (Value.Renamed R) m'.frames
  instances : RowTwin (TableTwin (Value.Renamed R)) m.instances m'.instances
  natives : m.natives = m'.natives
  heedless : ∀ body ∈ m.natives, body.Heedless
  turns : m.turns = m'.turns
  addresses : m.addresses = m'.addresses
  noted : ∀ id, R.Notes id → (m.addresses[id]?).isSome
  output : m.output = m'.output
  echoes : m.echoes = m'.echoes
  nextIdentity : m.nextIdentity = m'.nextIdentity

end Lox
