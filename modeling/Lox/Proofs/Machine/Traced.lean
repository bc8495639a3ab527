import Lox.Proofs.Machine.Classes
import Lox.Proofs.Machine.Stored
import Lox.Proofs.Tree.Tokens

namespace Lox

/-- The functions in a class, inherited ones included, keep only tokens as `P` says. -/
def Class.Bears (P : Token → Prop) (c : Class) : Prop := ∀ f, c.Has f → f.function.Bears P

def Value.Bears (P : Token → Prop) (v : Value) : Prop := ∀ f, v.Has f → f.function.Bears P

def Flow.Bears (P : Token → Prop) : Flow → Prop
  | .return v => v.Bears P
  | _ => True

variable {P : Token → Prop}

theorem Value.Bears.nil : Value.Bears P .nil := nofun

theorem Value.Bears.function {identity : Nat} {f : Closure} (h : f.function.Bears P) :
    (Value.function identity f).Bears P := by
  intro g hg
  cases hg
  exact h

theorem Value.Bears.class {c : Class} (h : c.Bears P) : (Value.class c).Bears P := by
  intro f hf
  cases hf with
  | «class» hf => exact h f hf

theorem Value.Bears.instance {i : InstanceRef} {c : Class} (h : c.Bears P) :
    (Value.instance i c).Bears P := by
  intro f hf
  cases hf with
  | «instance» hf => exact h f hf

theorem Value.Bears.ofClass {c : Class} (h : (Value.class c).Bears P) : c.Bears P :=
  fun f hf => h f (.class hf)

theorem Value.Bears.ofInstance {i : InstanceRef} {c : Class} (h : (Value.instance i c).Bears P) :
    c.Bears P :=
  fun f hf => h f (.instance hf)

theorem Class.has_of_method? {c : Class} {name : String} {f : Closure}
    (h : c.method? name = some f) : c.Has f := by
  induction c using Class.method?.induct name with
  | case1 _ _ methods => exact .own h
  | case2 _ _ superclass methods g hg =>
    rw [Class.method?, hg] at h
    exact .own (hg.trans h)
  | case3 _ _ superclass methods hg ih =>
    rw [Class.method?, hg] at h
    exact .inherited (ih h)

/-- The functions in a new class are its methods and those of its superclass. -/
theorem Class.Bears.new {identity : Nat} {name : String} {superclass : Option Class}
    {frame : Option FrameRef} {methods : List Method}
    (hsuper : ∀ c, superclass = some c → c.Bears P) (hmethods : BearsMethods P methods) :
    (Class.mk identity name superclass (Machine.methodTable frame methods)).Bears P := by
  intro f hf
  cases hf with
  | own hf =>
    obtain ⟨method, hmem, rfl⟩ := mem_methodTable hf
    have hmethod : method.Bears P := (bearsMethods_iff methods).mp hmethods method hmem
    exact hmethod.function
  | inherited hf => exact hsuper _ rfl f hf

namespace Operation

/-- The result of an operator holds no function, and its error is at the operator. -/
def Judges (line : Nat) : Except RuntimeError Value → Prop
  | .ok v => ∀ f, ¬ v.Has f
  | .error e => e.line? = some line

theorem judges_unary (operator : Token) (v : Value) : Judges operator.line (unary operator v) := by
  unfold unary
  split
  · exact nofun
  · exact nofun
  · rfl

theorem judges_add (line : Nat) (v w : Value) : Judges line (add line v w) := by
  unfold add
  split
  · exact nofun
  · exact nofun
  · exact nofun
  · rfl

theorem judges_divide (line : Nat) (x y : Float) : Judges line (divide line x y) := by
  unfold divide
  split
  · rfl
  · exact nofun

theorem judges_onNumbers (operator : Token) (x y : Float) :
    Judges operator.line (onNumbers operator x y) := by
  unfold onNumbers
  split
  · exact nofun
  · exact nofun
  · exact judges_divide operator.line x y
  · exact nofun
  · exact nofun
  · exact nofun
  · exact nofun
  · rfl

theorem judges_numeric (operator : Token) (v w : Value) :
    Judges operator.line (numeric operator v w) := by
  unfold numeric
  split
  · exact judges_onNumbers operator _ _
  · rfl

theorem judges_binary (operator : Token) (v w : Value) :
    Judges operator.line (binary operator v w) := by
  unfold binary
  split
  · exact nofun
  · exact nofun
  · exact judges_add operator.line v w
  · exact judges_numeric operator v w

theorem not_has_literal (value : Literal) (f : Closure) : ¬ (literal value).Has f := by
  cases value <;> exact nofun

end Operation

namespace Machine

/-- The frame that the machine is in, if any, is there. -/
def Present (m : Machine) : Prop := ∀ f, m.frame = some f → (m.frames.get? f).isSome

/-- All functions that the machine has or can be handed keep only tokens as `P` says. -/
structure Bears (P : Token → Prop) (m : Machine) : Prop where
  present : m.Present
  stored : m.Stores (Value.Bears P)
  handed : ∀ body ∈ m.natives, ∀ turn vs v, (∀ u ∈ vs, u.Bears P) → body turn vs = .ok v →
    v.Bears P

variable {α β : Type} {m m' : Machine} {p : Step α} {k : α → Step β} {Q : α → Prop}
  {R : β → Prop}

theorem Present.keep (h : m.Present) (hkeep : Retains m m') : m'.Present := by
  intro f hf
  rw [hkeep.frame] at hf
  obtain ⟨frame, hframe⟩ := Option.isSome_iff_exists.mp (h f hf)
  obtain ⟨frame', hframe', -⟩ := hkeep.frames f frame hframe
  exact Option.isSome_iff_exists.mpr ⟨frame', hframe'⟩

/-- The step goes on with such functions alone and yields what `Q` says, or else its error is at the
line of a token as `P` says. -/
def Traces (P : Token → Prop) (m : Machine) (p : Step α) (Q : α → Prop) : Prop :=
  match p m with
  | .ok a m' => m'.Bears P ∧ Q a
  | .error (.error e) _ => ∃ t, P t ∧ e.line? = some t.line
  | .error .exhausted _ => True

namespace Traces

theorem pure {a : α} (hm : m.Bears P) (h : Q a) : Traces P m (Pure.pure a) Q := ⟨hm, h⟩

theorem exhausted : Traces P m (MonadExcept.throw .exhausted : Step α) Q := trivial

theorem fail {e : RuntimeError} {t : Token} (ht : P t) (he : e.line? = some t.line) :
    Traces P m (Machine.fail e) Q := ⟨t, ht, he⟩

theorem undefined {name : Token} (hname : P name) : Traces P m (Machine.undefined name) Q :=
  ⟨name, hname, rfl⟩

theorem get {k : Machine → Step β} (h : Traces P m (k m) R) :
    Traces P m ((MonadState.get : Step Machine) >>= k) R := h

theorem bind (h : Traces P m p Q)
    (hk : ∀ a m', p m = .ok a m' → m'.Bears P → Q a → Traces P m' (k a) R) :
    Traces P m (p >>= k) R := by
  unfold Traces at h ⊢
  rw [bind_apply]
  cases hp : p m with
  | ok a m' =>
    rw [hp] at h
    exact hk a m' hp h.1 h.2
  | error e m' =>
    rw [hp] at h
    cases e with
    | error e => exact h
    | exhausted => trivial

/-- A step that succeeds, stores nothing that it must not and leaves the host functions alone. -/
theorem of_ok {a : α} (h : p m = .ok a m') (hp : Retaining p) (hm : m.Bears P)
    (hstored : m'.Stores (Value.Bears P)) (hnatives : m'.natives = m.natives) (hq : Q a) :
    Traces P m p Q := by
  have hkeep : Retains m m' := by
    have hfinal := hp m
    rwa [h] at hfinal
  have hhanded := hm.handed
  rw [← hnatives] at hhanded
  unfold Traces
  rw [h]
  exact ⟨⟨hm.present.keep hkeep, hstored, hhanded⟩, hq⟩

theorem judged {operator : Token} {r : Except RuntimeError Value} (hm : m.Bears P)
    (hoperator : P operator) (h : Operation.Judges operator.line r) :
    Traces P m (ofExcept r) (Value.Bears P) := by
  cases r with
  | ok v => exact pure hm fun f hf => absurd hf (h f)
  | error e => exact fail hoperator h

/-- After a step in another frame the machine is in its own frame again, which is still there. -/
theorem within {f : FrameRef} (hm : m.Bears P) (hp : Retaining p)
    (h : Traces P { m with frame := some f } p Q) : Traces P m (Machine.within f p) Q := by
  have hfinal := hp { m with frame := some f }
  unfold Traces Machine.within at *
  cases hr : p { m with frame := some f } with
  | ok a m' =>
    rw [hr] at h hfinal
    obtain ⟨hm', hq⟩ := h
    refine ⟨⟨fun g hg => ?_, hm'.stored.congr rfl rfl rfl, hm'.handed⟩, hq⟩
    obtain ⟨frame, hframe⟩ := Option.isSome_iff_exists.mp (hm.present g hg)
    obtain ⟨frame', hframe', -⟩ := hfinal.frames.kept g frame hframe
    exact Option.isSome_iff_exists.mpr ⟨frame', hframe'⟩
  | error e m' =>
    rw [hr] at h
    cases e with
    | error e => exact h
    | exhausted => trivial

theorem write (hm : m.Bears P) (line : String) :
    Traces P m (Machine.write line) fun _ => True :=
  of_ok rfl (.write line) hm (hm.stored.congr rfl rfl rfl) rfl trivial

theorem mintIdentity (hm : m.Bears P) : Traces P m Machine.mintIdentity fun _ => True :=
  of_ok rfl .mintIdentity hm (hm.stored.congr rfl rfl rfl) rfl trivial

theorem nextTurn (hm : m.Bears P) : Traces P m Machine.nextTurn fun _ => True :=
  of_ok rfl .nextTurn hm (hm.stored.congr rfl rfl rfl) rfl trivial

theorem newInstance (hm : m.Bears P) : Traces P m Machine.newInstance fun _ => True :=
  of_ok rfl .newInstance hm hm.stored.newInstance rfl trivial

theorem setField (hm : m.Bears P) (i : InstanceRef) (name : Token) {v : Value} (hv : v.Bears P) :
    Traces P m (Machine.setField i name v) fun _ => True :=
  of_ok rfl (.setField i name v) hm (hm.stored.setField i.index name.lexeme hv) rfl trivial

theorem newFrame (hm : m.Bears P) (enclosing : Option FrameRef) {vs : List Value}
    (hvs : ∀ v ∈ vs, v.Bears P) :
    Traces P m (Machine.newFrame enclosing vs) fun _ => True :=
  of_ok (newFrame_apply enclosing vs m) (.newFrame enclosing vs) hm
    (hm.stored.push enclosing hvs) rfl trivial

/-- A step in a new frame. -/
theorem inside (hm : m.Bears P) (enclosing : Option FrameRef) {vs : List Value}
    (hvs : ∀ v ∈ vs, v.Bears P) (hp : Retaining p)
    (h : ∀ m', m'.Bears P → Traces P m' p Q) :
    Traces P m (Machine.newFrame enclosing vs >>= fun f => Machine.within f p) Q := by
  refine (newFrame hm enclosing hvs).bind fun f m₁ hnew hm₁ _ => ?_
  rw [newFrame_apply] at hnew
  obtain ⟨rfl, rfl⟩ := EStateM.Result.ok.inj hnew
  apply within hm₁ hp
  apply h
  refine ⟨fun g hg => ?_, hm₁.stored.congr rfl rfl rfl, hm₁.handed⟩
  obtain rfl := Option.some.inj hg
  dsimp only
  rw [Frames.get?_push, if_pos rfl]
  rfl

theorem functionValue (hm : m.Bears P) {f : Closure} (hf : f.function.Bears P) :
    Traces P m (Machine.functionValue f) (Value.Bears P) :=
  of_ok (functionValue_apply f m) (.functionValue f) hm (hm.stored.congr rfl rfl rfl) rfl
    (.function hf)

theorem bindReceiver (hm : m.Bears P) (f : Closure) {receiver : Value}
    (hreceiver : receiver.Bears P) :
    Traces P m (Machine.bind f receiver) fun g => g.function = f.function :=
  have hvs : ∀ v ∈ [receiver], v.Bears P := List.forall_mem_singleton.mpr hreceiver
  of_ok (bindReceiver_apply f receiver m) (.bindReceiver f receiver) hm
    (hm.stored.push f.frame hvs) rfl rfl

theorem define (hm : m.Bears P) (name : Token) {v : Value} (hv : v.Bears P) :
    Traces P m (Machine.define name v) fun _ => True := by
  cases hf : m.frame with
  | none =>
    have happly : Machine.define name v m = .ok none (m.defineGlobal name.lexeme v) := by
      rw [define_apply, hf]
    exact of_ok happly (.define name v) hm (hm.stored.defineGlobal name.lexeme hv) rfl trivial
  | some f =>
    have happly : Machine.define name v m =
        .ok (some (m.frames.size f)) { m with frames := (m.frames.define f v).2 } := by
      rw [define_apply, hf]
    exact of_ok happly (.define name v) hm (hm.stored.define f hv) rfl trivial

theorem readLocal (hm : m.Bears P) {name : Token} (hname : P name) (a : Address) :
    Traces P m (Machine.readLocal name a) (Value.Bears P) := by
  apply Traces.get
  split
  · exact undefined hname
  next f _ =>
    split
    next v hget => exact pure hm (hm.stored.getAt hget)
    next => exact undefined hname

theorem readVariable (hm : m.Bears P) (id : Nat) {name : Token} (hname : P name) :
    Traces P m (Machine.readVariable id name) (Value.Bears P) := by
  apply Traces.get
  split
  · exact readLocal hm hname _
  · split
    next v hv => exact pure hm (hm.stored.globals name.lexeme v hv)
    next => exact undefined hname

theorem assignLocal (hm : m.Bears P) {name : Token} (hname : P name) (a : Address) {v : Value}
    (hv : v.Bears P) : Traces P m (Machine.assignLocal name a v) fun _ => True := by
  have hundefined : Traces P m (Machine.undefined name) fun _ : Unit => True := undefined hname
  unfold Traces at hundefined ⊢
  cases hf : m.frame with
  | none =>
    have happly : Machine.assignLocal name a v m = Machine.undefined name m := by
      rw [Machine.assignLocal, hf]
    rw [happly]
    exact hundefined
  | some f =>
    cases hlocate : m.frames.locate f a with
    | error b =>
      have happly : Machine.assignLocal name a v m = Machine.undefined name m := by
        rw [assignLocal_apply name a v hf, hlocate]
        rfl
      rw [happly]
      exact hundefined
    | ok g =>
      have happly : Machine.assignLocal name a v m =
          .ok () { m with frames := m.frames.set g a.slot v } := by
        rw [assignLocal_apply name a v hf, hlocate]
      exact of_ok happly (.assignLocal name a v) hm (hm.stored.set g a.slot hv) rfl trivial

theorem assignVariable (hm : m.Bears P) (id : Nat) {name : Token} (hname : P name) {v : Value}
    (hv : v.Bears P) : Traces P m (Machine.assignVariable id name v) fun _ => True := by
  apply Traces.get
  split
  · exact assignLocal hm hname _ hv
  · split
    · have hkeep : Retaining (modify fun m => m.defineGlobal name.lexeme v) :=
        fun m => .defineGlobal m name.lexeme v
      exact of_ok (modify_apply _ m) hkeep hm (hm.stored.defineGlobal name.lexeme hv) rfl trivial
    · exact undefined hname

/-- The method of a class with its receiver. -/
theorem boundMethod (hm : m.Bears P) {c d : Class} {name : String} {f : Closure} {i : InstanceRef}
    (hf : c.method? name = some f) (hc : c.Bears P) (hd : d.Bears P) :
    Traces P m (do Machine.functionValue (← Machine.bind f (.instance i d))) (Value.Bears P) := by
  have hfunction : f.function.Bears P := hc f (Class.has_of_method? hf)
  refine (bindReceiver hm f (.instance hd)).bind fun g m' _ hm' hg => ?_
  exact functionValue hm' (hg ▸ hfunction)

theorem property (hm : m.Bears P) (i : InstanceRef) {c : Class} {name : Token} (hc : c.Bears P)
    (hname : P name) : Traces P m (Machine.property i c name) (Value.Bears P) := by
  apply Traces.get
  split
  next v hv =>
    obtain ⟨fields, hfields, hv⟩ := Option.bind_eq_some_iff.mp hv
    exact pure hm (hm.stored.fields _ fields _ v hfields hv)
  next =>
    split
    next f hf => exact boundMethod hm hf hc hc
    next => exact fail hname rfl

theorem receiver (hm : m.Bears P) {keyword : Token} (hkeyword : P keyword) (a : Address) :
    Traces P m (Machine.receiver keyword a) fun r => r.2.Bears P := by
  apply Traces.get
  split
  · split
    next i c hget => exact pure hm (hm.stored.getAt hget).ofInstance
    next => exact fail hkeyword rfl
  · exact fail hkeyword rfl

theorem superMethod (hm : m.Bears P) (id : Nat) {keyword method : Token} (hkeyword : P keyword)
    (hmethod : P method) : Traces P m (Machine.superMethod id keyword method) (Value.Bears P) := by
  apply Traces.get
  split
  · exact undefined hkeyword
  next a _ =>
    refine (readLocal hm hkeyword a).bind fun v m₁ _ hm₁ hv => ?_
    split
    next superclass =>
      refine (receiver hm₁ hkeyword a).bind fun ⟨i, c⟩ m₂ _ hm₂ hc => ?_
      dsimp only
      split
      next f hf => exact boundMethod hm₂ hf hv.ofClass hc
      next => exact fail hmethod rfl
    next => exact fail hkeyword rfl

theorem boundReceiver (hm : m.Bears P) (f : Closure) {paren : Token} (hparen : P paren) :
    Traces P m (Machine.boundReceiver f paren) (Value.Bears P) := by
  apply Traces.get
  split
  · exact fail hparen rfl
  · split
    next v hget => exact pure hm (hm.stored.getAt hget)
    next => exact fail hparen rfl

/-- The cell for a declaration is still there, so its value finds its place. -/
theorem settle (hm : m.Bears P) (name : Token) {slot : Option Nat} {v : Value} (hv : v.Bears P)
    (hslot : ∀ i f, slot = some i → m.frame = some f → i < m.frames.size f) :
    Traces P m (Machine.settle name slot v) fun _ => True := by
  have hglobal : Machine.settle name slot v m = .ok () (m.defineGlobal name.lexeme v) →
      Traces P m (Machine.settle name slot v) fun _ => True := fun happly =>
    of_ok happly (.settle name slot v) hm (hm.stored.defineGlobal name.lexeme hv) rfl trivial
  cases slot with
  | none => exact hglobal rfl
  | some i =>
    cases hf : m.frame with
    | none =>
      apply hglobal
      unfold Machine.settle
      rw [hf]
    | some f =>
      have hlocate : m.frames.locate f ⟨0, i⟩ = .ok f :=
        Frames.locate_eq_ok.mpr ⟨rfl, hslot i f rfl hf⟩
      have happly : Machine.settle name (some i) v m =
          .ok () { m with frames := m.frames.set f i v } := by
        unfold Machine.settle
        rw [hf]
        dsimp only
        rw [hlocate]
      exact of_ok happly (.settle name (some i) v) hm (hm.stored.set f i hv) rfl trivial

/-- The slot that a declaration has got is one of its frame, and remains so. -/
theorem slot_of_define {name : Token} {v : Value} {slot : Option Nat} (hpresent : m.Present)
    (h : Machine.define name v m = .ok slot m') {i : Nat} {f : FrameRef} (hslot : slot = some i)
    (hf : m'.frame = some f) : i < m'.frames.size f := by
  have hframe : m'.frame = m.frame := by
    have hkeep := Retaining.define name v m
    rw [h] at hkeep
    exact hkeep.frame
  rw [hframe] at hf
  rw [define_apply, hf] at h
  obtain ⟨rfl, rfl⟩ := EStateM.Result.ok.inj h
  obtain rfl := Option.some.inj hslot
  obtain ⟨frame, hget⟩ := Option.isSome_iff_exists.mp (hpresent f hf)
  have hget' : (m.frames.define f v).2.get? f =
      some { frame with cells := frame.cells.push v } := by
    rw [Frames.get?_define, if_pos rfl, hget]
    rfl
  dsimp only
  rw [Frames.size_of_get? hget, Frames.size_of_get? hget', Array.size_push]
  exact Nat.lt_succ_self _

theorem declareClass (hm : m.Bears P) (name : Token) {superclass : Option Class}
    {methods : List Method} (hsuper : ∀ c, superclass = some c → c.Bears P)
    (hmethods : BearsMethods P methods) :
    Traces P m (Machine.declareClass name superclass methods) fun _ => True := by
  refine (define hm name (v := .nil) .nil).bind fun slot m₁ hdefine hm₁ _ => ?_
  apply Traces.get
  -- Between the declaration and its value only new frames and identities are made.
  have hrest : ∀ frame m₂, Retains m₁ m₂ → m₂.Bears P → Traces P m₂ (do
      let c := Class.mk (← Machine.mintIdentity) name.lexeme superclass (methodTable frame methods)
      Machine.settle name slot (.class c)) fun _ => True := by
    intro frame m₂ hkeep hm₂
    refine (mintIdentity hm₂).bind fun identity m₃ hmint hm₃ _ => ?_
    apply settle hm₃ name (.class (.new hsuper hmethods))
    intro i f hi hf
    have hkeep' : Retains m₁ m₃ := by
      have hminted := Retaining.mintIdentity m₂
      rw [hmint] at hminted
      exact hkeep.trans hminted
    have hf₁ : m₁.frame = some f := hkeep'.frame.symm.trans hf
    have hlt : i < m₁.frames.size f := slot_of_define hm.present hdefine hi hf₁
    obtain ⟨frame₁, hframe₁⟩ := Option.isSome_iff_exists.mp (hm₁.present f hf₁)
    obtain ⟨frame₃, hframe₃, -, hle, -⟩ := hkeep'.frames f frame₁ hframe₁
    rw [Frames.size_of_get? hframe₁] at hlt
    rw [Frames.size_of_get? hframe₃]
    exact Nat.lt_of_lt_of_le hlt hle
  cases superclass with
  | none => exact hrest m₁.frame m₁ (.refl m₁) hm₁
  | some c =>
    have hcells : ∀ v ∈ [Value.class c], v.Bears P :=
      List.forall_mem_singleton.mpr (.class (hsuper c rfl))
    have hframe : Traces P m₁ (some <$> Machine.newFrame m₁.frame [.class c]) fun _ => True := by
      refine of_ok (a := some ⟨m₁.frames.frames.size⟩) ?_ (Retaining.newFrame _ _).map hm₁
        (hm₁.stored.push m₁.frame hcells) rfl trivial
      rw [← bind_pure_comp, bind_of_ok (newFrame_apply _ _ m₁)]
      rfl
    refine hframe.bind fun frame m₂ hnew hm₂ _ => hrest frame m₂ ?_ hm₂
    have hkeep := (Retaining.newFrame m₁.frame [.class c]).map (f := some) m₁
    rwa [hnew] at hkeep

theorem checkArity (hm : m.Bears P) (expected got : Nat) {paren : Token} (hparen : P paren) :
    Traces P m (Machine.checkArity expected got paren) fun _ => True := by
  unfold Machine.checkArity
  split
  · exact fail hparen rfl
  · exact pure hm trivial

theorem callNative (hm : m.Bears P) (f : NativeRef) {paren : Token} (hparen : P paren)
    {arguments : List Value} (harguments : ∀ v ∈ arguments, v.Bears P) :
    Traces P m (Machine.callNative f paren arguments) (Value.Bears P) := by
  refine (nextTurn hm).bind fun turn m' _ hm' _ => ?_
  apply Traces.get
  split
  · exact pure hm' .nil
  next body hbody =>
    have hmem : body ∈ m'.natives := Array.mem_of_getElem? hbody
    split
    next v hv => exact pure hm' (hm'.handed body hmem turn arguments v harguments hv)
    next => exact fail hparen rfl

end Traces

end Machine

end Lox
