import Lox.Machine.Evaluation
import Lox.Proofs.Machine.Rows
import Lox.Proofs.Parallel

namespace Lox

/-- What is found in classes corresponds, if it does in their own tables and further up. -/
theorem Class.rel_method? {R : Closure → Closure → Prop} {identity identity' : Nat}
    {name name' : String} {superclass superclass' : Option Class}
    {methods methods' : Std.TreeMap String Closure} (hmethods : TableTwin R methods methods')
    {method : String}
    (hsuper : Option.Rel (fun c c' => Option.Rel R (c.method? method) (c'.method? method))
      superclass superclass') :
    Option.Rel R ((Class.mk identity name superclass methods).method? method)
      ((Class.mk identity' name' superclass' methods').method? method) := by
  have hmethod := hmethods method
  cases hsuper with
  | none => exact hmethod
  | some hc =>
    rw [Class.method?, Class.method?]
    generalize methods[method]? = f? at hmethod
    generalize methods'[method]? = f?' at hmethod
    cases hmethod with
    | none => exact hc
    | some hf => exact .some hf

section

variable (C D : Closure → Closure → Prop)

/-- Closures that look the same from outside, and correspond. -/
structure Closure.Like (f f' : Closure) : Prop where
  name : f.name = f'.name
  arity : f.arity = f'.arity
  isInitializer : f.isInitializer = f'.isInitializer
  same : C f f'

/-- Classes that are found to have methods that correspond. -/
structure Class.Like (c c' : Class) : Prop where
  identity : c.identity = c'.identity
  name : c.name = c'.name
  method? : ∀ name, Option.Rel (Closure.Like D) (c.method? name) (c'.method? name)

/-- Functions correspond by `C`, and the methods of classes by `D`. -/
inductive Value.Like : Value → Value → Prop where
  | nil : Value.Like .nil .nil
  | bool (b : Bool) : Value.Like (.bool b) (.bool b)
  | number (x : Float) : Value.Like (.number x) (.number x)
  | string (s : String) : Value.Like (.string s) (.string s)
  | native (f : NativeRef) : Value.Like (.native f) (.native f)
  | function (identity : Nat) {f f'} : f.Like C f' →
      Value.Like (.function identity f) (.function identity f')
  | class {c c'} : c.Like D c' → Value.Like (.class c) (.class c')
  | instance (i : InstanceRef) {c c'} : c.Like D c' → Value.Like (.instance i c) (.instance i c')

end

/-- A host function that cannot tell what the closures are made of that it is given, and makes none
by itself. -/
def NativeBody.Oblivious (body : NativeBody) : Prop :=
  ∀ (C D : Closure → Closure → Prop) (turn : Nat) (vs vs' : List Value),
    List.Forall₂ (Value.Like C D) vs vs' →
      ExceptRel Eq (Value.Like C D) (body turn vs) (body turn vs')

variable {C C' D D' : Closure → Closure → Prop}

theorem Closure.Like.imp {f f' : Closure} (h : f.Like C f') (hC : C f f' → C' f f') :
    f.Like C' f' := ⟨h.name, h.arity, h.isInitializer, hC h.same⟩

theorem Closure.like_self {f : Closure} (h : C f f) : f.Like C f := ⟨rfl, rfl, rfl, h⟩

namespace Class.Like

variable {c c' : Class}

theorem imp (h : c.Like D c') (hD : ∀ f f', D f f' → D' f f') : c.Like D' c' :=
  ⟨h.identity, h.name, fun name => rel_imp (h.method? name) fun _ _ hf => hf.imp (hD _ _)⟩

/-- New classes. -/
theorem new (identity : Nat) (name : String) {superclass superclass' : Option Class}
    (hsuper : Option.Rel (Class.Like D) superclass superclass')
    {methods methods' : Std.TreeMap String Closure}
    (hmethods : TableTwin (Closure.Like D) methods methods') :
    (Class.mk identity name superclass methods).Like D
      (.mk identity name superclass' methods') := by
  exact ⟨rfl, rfl, fun method => Class.rel_method? hmethods
    (rel_imp hsuper fun _ _ hc => hc.method? method)⟩

theorem arity (h : c.Like D c') : Machine.arity c = Machine.arity c' := by
  have hinit := h.method? initializerName
  unfold Machine.arity
  generalize c.method? initializerName = f? at hinit
  generalize c'.method? initializerName = f?' at hinit
  cases hinit with
  | none => rfl
  | some hf => exact hf.arity

end Class.Like

namespace Value.Like

variable {v v' w w' : Value}

theorem imp (h : v.Like C D v') (hC : ∀ f f', C f f' → C' f f') (hD : ∀ f f', D f f' → D' f f') :
    v.Like C' D' v' := by
  cases h with
  | function identity hf => exact .function identity (hf.imp (hC _ _))
  | «class» hc => exact .class (hc.imp hD)
  | «instance» i hc => exact .instance i (hc.imp hD)
  | _ => constructor

theorem truthy (h : v.Like C D v') : v.truthy = v'.truthy := by cases h <;> rfl

theorem equals (hv : v.Like C D v') (hw : w.Like C D w') : v.equals w = v'.equals w' := by
  cases hv with
  | «class» hc =>
    cases hw with
    | «class» hd => simp only [Value.equals, hc.identity, hd.identity]
    | _ => rfl
  | _ => cases hw <;> rfl

theorem text (h : v.Like C D v') : v.text = v'.text := by
  cases h with
  | @function _ f f' hf =>
    obtain ⟨name, _, _, _⟩ := f
    obtain ⟨name', _, _, _⟩ := f'
    obtain rfl : name = name' := hf.name
    cases name <;> rfl
  | «class» hc => exact hc.name
  | «instance» _ hc => simp only [Value.text, hc.name]
  | _ => rfl

end Value.Like

end Lox
