import Lox.Proofs.Machine.Apply

namespace Lox.Machine

/-- The machine that a step leaves behind. -/
def final {α : Type} : EStateM.Result Stop Machine α → Machine
  | .ok _ m => m
  | .error _ m => m

/-- The machine is in the same frame, with the same addresses and the same way to echo. Frames are
still there, with their links and their cells, and only the current one may have got more cells.
Globals are still defined, and the output has at most been extended. -/
structure Retains (m m' : Machine) : Prop where
  frame : m'.frame = m.frame
  frames : Frames.Grows m.frame m.frames m'.frames
  globals : ∀ name, (m.global? name).isSome → (m'.global? name).isSome
  addresses : m'.addresses = m.addresses
  echoes : m'.echoes = m.echoes
  output : ∃ text, m'.output = m.output ++ text

variable {α β : Type} {m m' m'' : Machine} {p : Step α} {k : α → Step β}

theorem Retains.refl (m : Machine) : Retains m m :=
  ⟨rfl, .refl _ _, fun _ => id, rfl, rfl, "", String.append_empty.symm⟩

theorem Retains.trans (h : Retains m m') (h' : Retains m' m'') : Retains m m'' := by
  obtain ⟨text, htext⟩ := h.output
  obtain ⟨text', htext'⟩ := h'.output
  have hframes := h'.frames
  rw [h.frame] at hframes
  refine ⟨h'.frame.trans h.frame, h.frames.trans hframes, fun name hname => ?_,
    h'.addresses.trans h.addresses, h'.echoes.trans h.echoes, text ++ text', ?_⟩
  · exact h'.globals name (h.globals name hname)
  · rw [htext', htext, String.append_assoc]

/-- A change of the frames alone. -/
theorem Retains.of_frames {frames : Frames Value} (h : Frames.Grows m.frame m.frames frames) :
    Retains m { m with frames } :=
  ⟨rfl, h, fun _ => id, rfl, rfl, "", String.append_empty.symm⟩

theorem Retains.defineGlobal (m : Machine) (name : String) (v : Value) :
    Retains m (m.defineGlobal name v) := by
  refine ⟨rfl, .refl _ _, fun name' h => ?_, rfl, rfl, "", String.append_empty.symm⟩
  rw [global?, Machine.defineGlobal, Std.TreeMap.getElem?_insert]
  split
  · rfl
  · exact h

/-- Whatever the step does, it retains what was there. -/
def Retaining (p : Step α) : Prop := ∀ m, Retains m (final (p m))

namespace Retaining

theorem pure (a : α) : Retaining (Pure.pure a : Step α) := fun m => .refl m

theorem throw (e : Stop) : Retaining (MonadExcept.throw e : Step α) := fun m => .refl m

theorem fail (e : RuntimeError) : Retaining (Machine.fail e : Step α) := fun m => .refl m

theorem undefined (name : Token) : Retaining (Machine.undefined name : Step α) := fun m => .refl m

theorem bind (h : Retaining p) (hk : ∀ a, Retaining (k a)) : Retaining (p >>= k) := by
  intro m
  have hp := h m
  rw [bind_apply]
  cases hr : p m with
  | ok a m' =>
    rw [hr] at hp
    exact hp.trans (hk a m')
  | error e m' =>
    rw [hr] at hp
    exact hp

theorem get {k : Machine → Step β} (hk : ∀ m, Retaining (k m)) :
    Retaining ((MonadState.get : Step Machine) >>= k) :=
  fun m => hk m m

theorem map {f : α → β} (h : Retaining p) : Retaining (f <$> p) := by
  rw [← bind_pure_comp]
  exact h.bind fun a => .pure _

theorem ofExcept (r : Except RuntimeError α) : Retaining (Machine.ofExcept r) := by
  cases r with
  | ok a => exact .pure a
  | error e => exact .fail e

/-- A step in a new frame: what the frame gets does not count. -/
theorem within (h : Retaining p) (enclosing : Option FrameRef) (vs : List Value) :
    Retaining (newFrame enclosing vs >>= fun f => Machine.within f p) := by
  intro m
  rw [bind_of_ok (newFrame_apply enclosing vs m), Machine.within]
  have hp := h { m with frame := some ⟨m.frames.frames.size⟩, frames := m.frames.push enclosing vs }
  have hgrows : Frames.Grows none m.frames (final (p { m with
      frame := some ⟨m.frames.frames.size⟩, frames := m.frames.push enclosing vs })).frames := by
    refine Frames.Grows.of_fresh (g := ⟨m.frames.frames.size⟩) ?_ ?_
    · exact (Frames.grows_push _ _ _).trans hp.frames
    · simp [Frames.get?]
  cases hr : p { m with
      frame := some ⟨m.frames.frames.size⟩, frames := m.frames.push enclosing vs } with
  | ok a m' =>
    rw [hr] at hp hgrows
    exact ⟨rfl, hgrows.of_none, hp.globals, hp.addresses, hp.echoes, hp.output⟩
  | error e m' =>
    rw [hr] at hp hgrows
    exact ⟨rfl, hgrows.of_none, hp.globals, hp.addresses, hp.echoes, hp.output⟩

theorem newFrame (enclosing : Option FrameRef) (vs : List Value) :
    Retaining (Machine.newFrame enclosing vs) := by
  intro m
  rw [newFrame_apply]
  exact .of_frames (Frames.grows_push _ _ _)

theorem write (line : String) : Retaining (Machine.write line) :=
  fun _ => ⟨rfl, .refl _ _, fun _ => id, rfl, rfl, line ++ "\n", String.append_assoc⟩

theorem mintIdentity : Retaining Machine.mintIdentity :=
  fun _ => ⟨rfl, .refl _ _, fun _ => id, rfl, rfl, "", String.append_empty.symm⟩

theorem newInstance : Retaining Machine.newInstance :=
  fun _ => ⟨rfl, .refl _ _, fun _ => id, rfl, rfl, "", String.append_empty.symm⟩

theorem nextTurn : Retaining Machine.nextTurn :=
  fun _ => ⟨rfl, .refl _ _, fun _ => id, rfl, rfl, "", String.append_empty.symm⟩

theorem setField (i : InstanceRef) (name : Token) (v : Value) :
    Retaining (Machine.setField i name v) :=
  fun _ => ⟨rfl, .refl _ _, fun _ => id, rfl, rfl, "", String.append_empty.symm⟩

theorem define (name : Token) (v : Value) : Retaining (Machine.define name v) := by
  intro m
  rw [define_apply]
  split
  next => exact .defineGlobal m name.lexeme v
  next f hf =>
    refine .of_frames ?_
    rw [hf]
    exact Frames.grows_define _ _ _

theorem readLocal (name : Token) (a : Address) : Retaining (Machine.readLocal name a) := by
  refine .get fun m => ?_
  split
  · exact .undefined name
  · split
    · exact .pure _
    · exact .undefined name

theorem readVariable (id : Nat) (name : Token) : Retaining (Machine.readVariable id name) := by
  refine .get fun m => ?_
  split
  · exact .readLocal name _
  · split
    · exact .pure _
    · exact .undefined name

theorem assignLocal (name : Token) (a : Address) (v : Value) :
    Retaining (Machine.assignLocal name a v) := by
  intro m
  unfold Machine.assignLocal
  split
  · exact .refl m
  · split
    · exact .of_frames (Frames.grows_set _ _ _ _)
    · exact .refl m

theorem assignVariable (id : Nat) (name : Token) (v : Value) :
    Retaining (Machine.assignVariable id name v) := by
  refine .get fun m => ?_
  split
  · exact .assignLocal name _ v
  · split
    · exact fun m => .defineGlobal m name.lexeme v
    · exact .undefined name

theorem bindReceiver (f : Closure) (receiver : Value) : Retaining (Machine.bind f receiver) :=
  (newFrame f.frame [receiver]).bind fun _ => .pure _

theorem functionValue (f : Closure) : Retaining (Machine.functionValue f) :=
  mintIdentity.bind fun _ => .pure _

theorem property (i : InstanceRef) (c : Class) (name : Token) :
    Retaining (Machine.property i c name) := by
  refine .get fun m => ?_
  split
  · exact .pure _
  · split
    · exact (bindReceiver _ _).bind fun f => .functionValue f
    · exact .fail _

theorem receiver (keyword : Token) (a : Address) : Retaining (Machine.receiver keyword a) := by
  refine .get fun m => ?_
  split
  · split
    · exact .pure _
    · exact .fail _
  · exact .fail _

theorem superMethod (id : Nat) (keyword method : Token) :
    Retaining (Machine.superMethod id keyword method) := by
  refine .get fun m => ?_
  split
  · exact .undefined keyword
  · refine (readLocal keyword _).bind fun v => ?_
    split
    · refine (receiver keyword _).bind fun ⟨i, c⟩ => ?_
      dsimp only
      split
      · exact (bindReceiver _ _).bind fun f => .functionValue f
      · exact .fail _
    · exact .fail _

theorem boundReceiver (f : Closure) (paren : Token) : Retaining (Machine.boundReceiver f paren) := by
  refine .get fun m => ?_
  split
  · exact .fail _
  · split
    · exact .pure _
    · exact .fail _

theorem settle (name : Token) (slot : Option Nat) (v : Value) :
    Retaining (Machine.settle name slot v) := by
  intro m
  unfold Machine.settle
  split
  · split
    · exact .of_frames (Frames.grows_set _ _ _ _)
    · exact .refl m
  · exact .defineGlobal m name.lexeme v

theorem declareClass (name : Token) (superclass : Option Class) (methods : List Method) :
    Retaining (Machine.declareClass name superclass methods) := by
  refine (define name .nil).bind fun slot => .get fun m => ?_
  have hrest : ∀ frame, Retaining (do
      let c := Class.mk (← Machine.mintIdentity) name.lexeme superclass (methodTable frame methods)
      Machine.settle name slot (.class c)) :=
    fun frame => mintIdentity.bind fun _ => .settle name slot _
  split
  · exact ((newFrame _ _).map).bind hrest
  · exact (Retaining.pure m.frame).bind hrest

theorem checkArity (expected got : Nat) (paren : Token) :
    Retaining (Machine.checkArity expected got paren) := by
  unfold Machine.checkArity
  split
  · exact .fail _
  · exact .pure _

theorem callNative (f : NativeRef) (paren : Token) (arguments : List Value) :
    Retaining (Machine.callNative f paren arguments) := by
  refine nextTurn.bind fun turn => .get fun m => ?_
  split
  · exact .pure _
  · split
    · exact .pure _
    · exact .fail _

end Retaining

/-- Every part of the evaluator retains what was there. -/
structure RetainingParts (n : Nat) : Prop where
  evaluate : ∀ e, Retaining (Machine.evaluate n e)
  evaluateAll : ∀ es, Retaining (Machine.evaluateAll n es)
  invoke : ∀ callee paren arguments, Retaining (Machine.invoke n callee paren arguments)
  call : ∀ f paren arguments, Retaining (Machine.call n f paren arguments)
  execute : ∀ s, Retaining (Machine.execute n s)
  executeAll : ∀ ss, Retaining (Machine.executeAll n ss)

namespace RetainingParts

variable {n : Nat}

theorem evaluate_succ (h : RetainingParts n) (e : Expr) : Retaining (Machine.evaluate (n + 1) e) := by
  cases e <;> unfold Machine.evaluate <;> dsimp only
  case literal => exact .pure _
  case grouping inner => exact h.evaluate inner
  case unary => exact (h.evaluate _).bind fun _ => .ofExcept _
  case binary => exact (h.evaluate _).bind fun _ => (h.evaluate _).bind fun _ => .ofExcept _
  case logical =>
    refine (h.evaluate _).bind fun _ => ?_
    split
    · exact .pure _
    · exact h.evaluate _
  case «variable» => exact .readVariable _ _
  case assign =>
    exact (h.evaluate _).bind fun _ => (Retaining.assignVariable _ _ _).bind fun _ => .pure _
  case call =>
    exact (h.evaluate _).bind fun _ => (h.evaluateAll _).bind fun _ => h.invoke _ _ _
  case get =>
    refine (h.evaluate _).bind fun _ => ?_
    split
    · exact .property _ _ _
    · exact .fail _
  case set =>
    refine (h.evaluate _).bind fun _ => ?_
    split
    · exact (h.evaluate _).bind fun _ => (Retaining.setField _ _ _).bind fun _ => .pure _
    · exact .fail _
  case «this» => exact .readVariable _ _
  case «super» => exact .superMethod _ _ _
  case function => exact .get fun _ => .functionValue _

theorem evaluateAll_succ (h : RetainingParts n) (es : List Expr) :
    Retaining (Machine.evaluateAll (n + 1) es) := by
  cases es <;> unfold Machine.evaluateAll
  case nil => exact .pure _
  case cons => exact (h.evaluate _).bind fun _ => (h.evaluateAll _).bind fun _ => .pure _

theorem invoke_succ (h : RetainingParts n) (callee : Value) (paren : Token)
    (arguments : List Value) : Retaining (Machine.invoke (n + 1) callee paren arguments) := by
  unfold Machine.invoke
  split
  · exact (Retaining.checkArity _ _ _).bind fun _ => .callNative _ _ _
  · exact (Retaining.checkArity _ _ _).bind fun _ => h.call _ _ _
  · refine (Retaining.checkArity _ _ _).bind fun _ => Retaining.newInstance.bind fun i => ?_
    split
    · exact (Retaining.bindReceiver _ _).bind fun _ => (h.call _ _ _).bind fun _ => .pure _
    · exact .pure _
  · exact .fail _

theorem call_succ (h : RetainingParts n) (f : Closure) (paren : Token) (arguments : List Value) :
    Retaining (Machine.call (n + 1) f paren arguments) := by
  unfold Machine.call
  rw [← bind_assoc]
  refine ((h.executeAll _).within f.frame arguments).bind fun flow => ?_
  split
  · exact .boundReceiver _ _
  · split
    · exact .pure _
    · exact .pure _

theorem execute_succ (h : RetainingParts n) (s : Stmt) :
    Retaining (Machine.execute (n + 1) s) := by
  unfold Machine.execute
  split
  · exact (h.evaluate _).bind fun _ => .pure _
  · exact (h.evaluate _).bind fun _ => (Retaining.write _).bind fun _ => .pure _
  · exact (Retaining.define _ _).bind fun _ => .pure _
  · exact (h.evaluate _).bind fun _ => (Retaining.define _ _).bind fun _ => .pure _
  · exact .get fun m => (h.executeAll _).within m.frame []
  · refine (h.evaluate _).bind fun _ => ?_
    split
    · exact h.execute _
    · split
      · exact h.execute _
      · exact .pure _
  · refine (h.evaluate _).bind fun _ => ?_
    split
    · refine (h.execute _).bind fun flow => ?_
      split
      · exact h.execute _
      · exact .pure _
      · exact .pure _
    · exact .pure _
  · exact .pure _
  · exact .pure _
  · exact (h.evaluate _).bind fun _ => .pure _
  · exact .get fun _ => (Retaining.functionValue _).bind fun _ =>
      (Retaining.define _ _).bind fun _ => .pure _
  · exact (Retaining.declareClass _ _ _).bind fun _ => .pure _
  · refine (h.evaluate _).bind fun _ => ?_
    split
    · exact (Retaining.declareClass _ _ _).bind fun _ => .pure _
    · exact .fail _

theorem executeAll_succ (h : RetainingParts n) (ss : List Stmt) :
    Retaining (Machine.executeAll (n + 1) ss) := by
  cases ss <;> unfold Machine.executeAll
  case nil => exact .pure _
  case cons =>
    refine (h.execute _).bind fun flow => ?_
    split
    · exact h.executeAll _
    · exact .pure _

end RetainingParts

theorem retainingParts (n : Nat) : RetainingParts n := by
  induction n with
  | zero =>
    constructor
    all_goals intros
    · exact .throw .exhausted
    · exact .throw .exhausted
    · exact .throw .exhausted
    · exact .throw .exhausted
    · exact .throw .exhausted
    · exact .throw .exhausted
  | succ n ih =>
    exact ⟨ih.evaluate_succ, ih.evaluateAll_succ, ih.invoke_succ, ih.call_succ, ih.execute_succ,
      ih.executeAll_succ⟩

theorem retaining_interpretOne (n : Nat) (s : Stmt) : Retaining (interpretOne n s) := by
  have h := retainingParts n
  refine .get fun m => ?_
  split
  · exact (h.evaluate _).bind fun _ => .write _
  · exact (h.execute _).bind fun _ => .pure _

theorem retaining_interpret (n : Nat) (program : List Stmt) : Retaining (interpret n program) := by
  induction program with
  | nil => exact .pure ()
  | cons s ss ih => exact (retaining_interpretOne n s).bind fun _ => ih

end Lox.Machine
