import Lox.Machine.Evaluation
import Lox.Proofs.Frames

namespace Lox.Machine

variable {α β : Type} {m : Machine}

theorem bind_apply (p : Step α) (k : α → Step β) (m : Machine) :
    (p >>= k) m = match p m with
      | .ok a m' => k a m'
      | .error e m' => .error e m' := by
  show EStateM.bind p k m = _
  unfold EStateM.bind
  cases p m <;> rfl

theorem bind_of_ok {p : Step α} {k : α → Step β} {a : α} {m' : Machine} (h : p m = .ok a m') :
    (p >>= k) m = k a m' := by
  rw [bind_apply, h]

theorem bind_of_error {p : Step α} {k : α → Step β} {e : Stop} {m' : Machine}
    (h : p m = .error e m') : (p >>= k) m = .error e m' := by
  rw [bind_apply, h]

@[simp] theorem pure_apply (a : α) (m : Machine) : (pure a : Step α) m = .ok a m := rfl

@[simp] theorem get_apply (m : Machine) : (get : Step Machine) m = .ok m m := rfl

theorem modifyGet_apply {α : Type} (f : Machine → α × Machine) (m : Machine) :
    (modifyGet f : Step α) m = .ok (f m).1 (f m).2 := rfl

@[simp] theorem modify_apply (f : Machine → Machine) (m : Machine) :
    (modify f : Step PUnit) m = .ok ⟨⟩ (f m) := rfl

@[simp] theorem fail_apply (e : RuntimeError) (m : Machine) :
    (fail e : Step α) m = .error (.error e) m := rfl

@[simp] theorem undefined_apply (name : Token) (m : Machine) :
    (undefined name : Step α) m = .error (.error (.undefinedVariable name.lexeme name.line)) m := rfl

@[simp] theorem get_bind_apply (k : Machine → Step β) (m : Machine) :
    ((get : Step Machine) >>= k) m = k m m := rfl

theorem newFrame_apply (enclosing : Option FrameRef) (vs : List Value) (m : Machine) :
    newFrame enclosing vs m =
      .ok ⟨m.frames.frames.size⟩ { m with frames := m.frames.push enclosing vs } := by
  rw [← Frames.foldl_define_create]
  rfl

theorem bindReceiver_apply (f : Closure) (receiver : Value) (m : Machine) :
    bind f receiver m = .ok { f with frame := some ⟨m.frames.frames.size⟩ }
      { m with frames := m.frames.push f.frame [receiver] } := by
  rw [bind, bind_of_ok (newFrame_apply f.frame [receiver] m)]
  rfl

theorem define_apply (name : Token) (v : Value) (m : Machine) :
    define name v m = match m.frame with
      | none => .ok none (m.defineGlobal name.lexeme v)
      | some f => .ok (some (m.frames.size f)) { m with frames := (m.frames.define f v).2 } := by
  rw [define, modifyGet_apply]
  cases m.frame <;> rfl

theorem readLocal_apply (name : Token) (a : Address) {f : FrameRef} (hf : m.frame = some f) :
    readLocal name a m = match m.frames.getAt f a with
      | .ok v => .ok v m
      | .error _ => .error (.error (.undefinedVariable name.lexeme name.line)) m := by
  rw [readLocal, get_bind_apply, hf]
  dsimp only
  cases m.frames.getAt f a <;> rfl

theorem receiver_apply {f : FrameRef} {depth : Nat} {i : InstanceRef} {c : Class}
    (hf : m.frame = some f) (h : m.frames.getAt f ⟨depth, 0⟩ = .ok (.instance i c))
    (keyword : Token) (slot : Nat) :
    receiver keyword ⟨depth + 1, slot⟩ m = .ok (i, c) m := by
  rw [receiver, get_bind_apply, hf]
  dsimp only
  rw [h]
  rfl

theorem readVariable_of_address {id : Nat} {a : Address} (h : m.addresses[id]? = some a)
    (name : Token) : readVariable id name m = readLocal name a m := by
  rw [readVariable, get_bind_apply, h]

theorem assignVariable_of_address {id : Nat} {a : Address} (h : m.addresses[id]? = some a)
    (name : Token) (v : Value) : assignVariable id name v m = assignLocal name a v m := by
  rw [assignVariable, get_bind_apply, h]

theorem assignLocal_apply (name : Token) (a : Address) (v : Value) {f : FrameRef}
    (hf : m.frame = some f) :
    assignLocal name a v m = match m.frames.locate f a with
      | .ok g => .ok () { m with frames := m.frames.set g a.slot v }
      | .error _ => .error (.error (.undefinedVariable name.lexeme name.line)) m := by
  rw [assignLocal, hf]
  dsimp only
  cases m.frames.locate f a <;> rfl

theorem functionValue_apply (f : Closure) (m : Machine) :
    functionValue f m = .ok (.function m.nextIdentity f)
      { m with nextIdentity := m.nextIdentity + 1 } := rfl

end Lox.Machine
