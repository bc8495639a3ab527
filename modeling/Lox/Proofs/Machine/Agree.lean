import Lox.Proofs.Machine.Cells

namespace Lox

variable {K : Link}

theorem Machine.Twin.cells {m m' : Machine} (h : m.Twin K m') :
    m.frames.Alike (Value.Twin K) m'.frames :=
  fun i => rel_imp (h.frames i) fun _ _ hg => ⟨hg.enclosing, hg.cells⟩

theorem Frames.Alike.twin {s s' : Frames Value} (h : s.Alike (Value.Twin K) s') :
    RowTwin (Frame.Twin K) s.frames s'.frames :=
  fun i => rel_imp (h i) fun _ _ hg => ⟨hg.enclosing, hg.cells⟩

namespace Machine

/-- Why two steps that are alike end without a result. -/
inductive StopTwin (K : Link) : Stop → Stop → Prop where
  | error {e e'} : e.Twin K e' → StopTwin K (.error e) (.error e')
  | exhausted : StopTwin K .exhausted .exhausted

theorem Twin.defineGlobal {m m' : Machine} (h : m.Twin K m') (name : String) {v v' : Value}
    (hv : v.Twin K v') : (m.defineGlobal name v).Twin K (m'.defineGlobal name v') :=
  { h with globals := h.globals.insert name hv }

theorem Twin.defineNative {m m' : Machine} (h : m.Twin K m') (name : String) (arity : Nat)
    {body : NativeBody} (hbody : body.Blind) :
    (m.defineNative name arity body).Twin K (m'.defineNative name arity body) := by
  have hnatives : Machine.Twin K { m with natives := m.natives.push body }
      { m' with natives := m'.natives.push body } :=
    { h with
      natives := congrArg (Array.push · body) h.natives
      blind := fun b hb => by
        rcases Array.mem_push.mp hb with hb | rfl
        · exact h.blind b hb
        · exact hbody }
  refine hnatives.defineGlobal name ?_
  rw [h.natives]
  exact .native _

theorem Twin.goTo {m m' : Machine} (h : m.Twin K m') (frame : Option FrameRef)
    {frames frames' : Frames Value}
    (hframes : frames.Alike (Value.Twin K) frames') :
    Machine.Twin K { m with frame, frames } { m' with frame, frames := frames' } :=
  { h with frame := rfl, frames := hframes.twin }

/-- The two steps end alike from machines that are alike. -/
abbrev Agreeing (K : Link) {α β : Type} (R : α → β → Prop) (p : Step α) (q : Step β) : Prop :=
  Parallel (Machine.Twin K) (StopTwin K) R p q

end Machine

namespace Parallel

open Machine

variable {α β γ δ : Type} {R : α → β → Prop} {S : γ → δ → Prop} {p : Step α} {q : Step β}

theorem fail {e e' : RuntimeError} (h : e.Twin K e') :
    Agreeing K R (Machine.fail e : Step α) (Machine.fail e' : Step β) :=
  .throw (.error h)

theorem undefined {name name' : Token} (ht : name.Twin K name') :
    Agreeing K R (Machine.undefined name : Step α) (Machine.undefined name' : Step β) := by
  refine .fail ?_
  rw [ht.lexeme]
  exact ⟨rfl, .some ht.line⟩

theorem ofExcept {r : Except RuntimeError α} {r' : Except RuntimeError β}
    (h : ExceptRel (RuntimeError.Twin K) R r r') :
    Agreeing K R (Machine.ofExcept r) (Machine.ofExcept r') := by
  cases h with
  | ok h => exact .pure h
  | error h => exact .fail h

theorem within (h : Agreeing K R p q) (f : FrameRef) :
    Agreeing K R (Machine.within f p) (Machine.within f q) := by
  intro m m' hm
  have hp := h _ _ (hm.goTo (some f) hm.cells)
  unfold Machine.within
  dsimp only
  generalize p { m with frame := some f } = r at hp ⊢
  generalize q { m' with frame := some f } = r' at hp ⊢
  cases hp with
  | ok hab hm' => exact .ok hab { hm' with frame := hm.frame }
  | error he hm' => exact .error he { hm' with frame := hm.frame }

variable {name name' paren paren' keyword keyword' : Token} {v v' : Value} {i i' : Nat}

theorem write (line : String) : Agreeing K Eq (Machine.write line) (Machine.write line) :=
  fun m m' hm => .ok rfl { hm with output := by simp only [hm.output] }

theorem mintIdentity : Agreeing K Eq Machine.mintIdentity Machine.mintIdentity :=
  fun _ _ hm => .ok hm.nextIdentity { hm with nextIdentity := congrArg (· + 1) hm.nextIdentity }

theorem nextTurn : Agreeing K Eq Machine.nextTurn Machine.nextTurn :=
  fun _ _ hm => .ok hm.turns { hm with turns := congrArg (· + 1) hm.turns }

theorem newInstance : Agreeing K Eq Machine.newInstance Machine.newInstance :=
  fun _ _ hm => .ok (congrArg InstanceRef.mk hm.instances.size_eq)
    { hm with instances := hm.instances.push .empty }

theorem newFrame {vs vs' : List Value} (enclosing : Option FrameRef)
    (hvs : List.Forall₂ (Value.Twin K) vs vs') :
    Agreeing K Eq (Machine.newFrame enclosing vs) (Machine.newFrame enclosing vs') := by
  intro m m' hm
  rw [newFrame_apply, newFrame_apply]
  exact .ok (congrArg FrameRef.mk hm.frames.size_eq)
    { hm with frames := (hm.cells.push hvs enclosing).twin }

theorem define (ht : name.Twin K name') (hv : v.Twin K v') :
    Agreeing K Eq (Machine.define name v) (Machine.define name' v') := by
  intro m m' hm
  rw [define_apply, define_apply, ← hm.frame, ht.lexeme]
  cases m.frame with
  | none => exact .ok rfl (hm.defineGlobal _ hv)
  | some f =>
    exact .ok (congrArg some (hm.cells.size_eq f))
      (hm.goTo (some f) (hm.cells.define hv f))

theorem readLocal (ht : name.Twin K name') (a : Address) :
    Agreeing K (Value.Twin K) (Machine.readLocal name a) (Machine.readLocal name' a) := by
  refine .get fun m m' hm => ?_
  rw [← hm.frame]
  cases m.frame with
  | none => exact .undefined ht
  | some f =>
    have hcell := hm.cells.getAt f a
    dsimp only
    generalize m.frames.getAt f a = r at hcell
    generalize m'.frames.getAt f a = r' at hcell
    cases hcell with
    | ok hv => exact .pure hv
    | error => exact .undefined ht

theorem readVariable (hi : K.node i i') (ht : name.Twin K name') :
    Agreeing K (Value.Twin K) (Machine.readVariable i name) (Machine.readVariable i' name') := by
  refine .get fun m m' hm => ?_
  rw [hm.addresses i i' hi]
  cases m'.addresses[i']? with
  | some a => exact .readLocal ht a
  | none =>
    have hglobal := hm.globals name.lexeme
    rw [← ht.lexeme]
    dsimp only
    generalize m.globals[name.lexeme]? = v? at hglobal
    generalize m'.globals[name.lexeme]? = v?' at hglobal
    cases hglobal with
    | some hv => exact .pure hv
    | none => exact .undefined ht

theorem assignLocal (ht : name.Twin K name') (a : Address) (hv : v.Twin K v') :
    Agreeing K Eq (Machine.assignLocal name a v) (Machine.assignLocal name' a v') := by
  intro m m' hm
  unfold Machine.assignLocal
  rw [← hm.frame]
  cases m.frame with
  | none => exact undefined ht m m' hm
  | some f =>
    dsimp only
    rw [hm.cells.locate_eq]
    cases m'.frames.locate f a with
    | ok g => exact .ok rfl (hm.goTo (some f) (hm.cells.set hv g a.slot))
    | error => exact undefined ht m m' hm

theorem assignVariable (hi : K.node i i') (ht : name.Twin K name') (hv : v.Twin K v') :
    Agreeing K Eq (Machine.assignVariable i name v) (Machine.assignVariable i' name' v') := by
  refine .get fun m m' hm => ?_
  rw [hm.addresses i i' hi, hm.globals.contains_eq, ht.lexeme]
  cases m'.addresses[i']? with
  | some a => exact .assignLocal ht a hv
  | none =>
    dsimp only
    split
    · exact fun _ _ hm => .ok rfl (hm.defineGlobal _ hv)
    · exact .undefined ht

theorem bindReceiver {f f' : Closure} (hf : f.Twin K f') (hv : v.Twin K v') :
    Agreeing K (Closure.Twin K) (Machine.bind f v) (Machine.bind f' v') := by
  unfold Machine.bind
  rw [← hf.frame]
  refine (newFrame f.frame (.cons hv .nil)).bind ?_
  rintro g _ rfl
  exact .pure ⟨hf.name, hf.function, rfl, hf.isInitializer⟩

theorem functionValue {f f' : Closure} (hf : f.Twin K f') :
    Agreeing K (Value.Twin K) (Machine.functionValue f) (Machine.functionValue f') := by
  refine mintIdentity.bind ?_
  rintro identity _ rfl
  exact .pure (.function identity hf)

/-- What `bind` makes of a method is a value. -/
theorem boundMethod {f f' : Closure} (hf : f.Twin K f') (hv : v.Twin K v') :
    Agreeing K (Value.Twin K) (do Machine.functionValue (← Machine.bind f v))
      (do Machine.functionValue (← Machine.bind f' v')) :=
  (bindReceiver hf hv).bind fun _ _ h => .functionValue h

theorem property (j : InstanceRef) {c c' : Class} (hc : c.Twin K c') (ht : name.Twin K name') :
    Agreeing K (Value.Twin K) (Machine.property j c name) (Machine.property j c' name') := by
  refine .get fun m m' hm => ?_
  have hfield : Option.Rel (Value.Twin K) (m.instances[j.index]?.bind (·[name.lexeme]?))
      (m'.instances[j.index]?.bind (·[name.lexeme]?)) := by
    have hfields := hm.instances j.index
    generalize m.instances[j.index]? = t? at hfields
    generalize m'.instances[j.index]? = t?' at hfields
    cases hfields with
    | none => exact .none
    | some h => exact h name.lexeme
  have hmethod := hc.method? name.lexeme
  rw [← ht.lexeme]
  generalize m.instances[j.index]?.bind (·[name.lexeme]?) = v? at hfield
  generalize m'.instances[j.index]?.bind (·[name.lexeme]?) = v?' at hfield
  cases hfield with
  | some hv => exact .pure hv
  | none =>
    dsimp only
    generalize c.method? name.lexeme = f? at hmethod
    generalize c'.method? name.lexeme = f?' at hmethod
    cases hmethod with
    | some hf => exact boundMethod hf (.instance j hc)
    | none => exact .fail ⟨rfl, .some ht.line⟩

theorem setField (j : InstanceRef) (ht : name.Twin K name') (hv : v.Twin K v') :
    Agreeing K Eq (Machine.setField j name v) (Machine.setField j name' v') := by
  intro m m' hm
  rw [Machine.setField, Machine.setField, ← ht.lexeme]
  exact .ok rfl { hm with
    instances := hm.instances.modify j.index fun _ _ h => h.insert name.lexeme hv }

theorem receiver (ht : keyword.Twin K keyword') (a : Address) :
    Agreeing K (fun r r' => r.1 = r'.1 ∧ r.2.Twin K r'.2) (Machine.receiver keyword a)
      (Machine.receiver keyword' a) := by
  refine .get fun m m' hm => ?_
  have hmissing : RuntimeError.Twin K (.undefinedVariable "this" keyword.line)
      (.undefinedVariable "this" keyword'.line) := ⟨rfl, .some ht.line⟩
  rw [← hm.frame]
  dsimp only
  cases a.depth with
  | zero => exact .fail hmissing
  | succ depth =>
    cases m.frame with
    | none => exact .fail hmissing
    | some f =>
      have hcell := hm.cells.getAt f ⟨depth, 0⟩
      dsimp only
      generalize m.frames.getAt f ⟨depth, 0⟩ = r at hcell
      generalize m'.frames.getAt f ⟨depth, 0⟩ = r' at hcell
      cases hcell with
      | error => exact .fail hmissing
      | ok hv =>
        cases hv with
        | «instance» j hc => exact .pure ⟨rfl, hc⟩
        | _ => exact .fail hmissing

theorem superMethod {method method' : Token} (hi : K.node i i') (ht : keyword.Twin K keyword')
    (hmethod : method.Twin K method') :
    Agreeing K (Value.Twin K) (Machine.superMethod i keyword method)
      (Machine.superMethod i' keyword' method') := by
  refine .get fun m m' hm => ?_
  rw [hm.addresses i i' hi]
  cases m'.addresses[i']? with
  | none => exact .undefined ht
  | some a =>
    refine (readLocal ht a).bind fun v v' hv => ?_
    cases hv with
    | «class» hc =>
      refine (receiver ht a).bind fun r r' hr => ?_
      obtain ⟨j, d⟩ := r
      obtain ⟨j', d'⟩ := r'
      obtain ⟨rfl, hd⟩ := hr
      have hfound := hc.method? method.lexeme
      dsimp only
      rw [← hmethod.lexeme]
      generalize Class.method? method.lexeme _ = f? at hfound
      generalize Class.method? method.lexeme _ = f?' at hfound
      cases hfound with
      | some hf => exact boundMethod hf (.instance j hd)
      | none => exact .fail ⟨rfl, .some hmethod.line⟩
    | _ => exact .fail ⟨rfl, .some ht.line⟩

theorem boundReceiver {f f' : Closure} (hf : f.Twin K f') (ht : paren.Twin K paren') :
    Agreeing K (Value.Twin K) (Machine.boundReceiver f paren) (Machine.boundReceiver f' paren') := by
  refine .get fun m m' hm => ?_
  have hmissing : RuntimeError.Twin K (.undefinedVariable "this" paren.line)
      (.undefinedVariable "this" paren'.line) := ⟨rfl, .some ht.line⟩
  rw [← hf.frame]
  dsimp only
  cases f.frame with
  | none => exact .fail hmissing
  | some g =>
    have hcell := hm.cells.getAt g ⟨0, 0⟩
    dsimp only
    generalize m.frames.getAt g ⟨0, 0⟩ = r at hcell
    generalize m'.frames.getAt g ⟨0, 0⟩ = r' at hcell
    cases hcell with
    | error => exact .fail hmissing
    | ok hv => exact .pure hv

theorem settle (ht : name.Twin K name') (slot : Option Nat) (hv : v.Twin K v') :
    Agreeing K Eq (Machine.settle name slot v) (Machine.settle name' slot v') := by
  intro m m' hm
  unfold Machine.settle
  rw [← hm.frame, ht.lexeme]
  cases slot with
  | none => exact .ok rfl (hm.defineGlobal _ hv)
  | some slot =>
    cases m.frame with
    | none => exact .ok rfl (hm.defineGlobal _ hv)
    | some f =>
      dsimp only
      rw [hm.cells.locate_eq]
      cases m'.frames.locate f ⟨0, slot⟩ with
      | ok g => exact .ok rfl (hm.goTo (some f) (hm.cells.set hv g slot))
      | error => exact .error (.error ⟨rfl, .none⟩) hm

theorem methodTable {ms ms' : List Method} (hms : TwinMethods K ms ms') (frame : Option FrameRef) :
    TableTwin (Closure.Twin K) (Machine.methodTable frame ms) (Machine.methodTable frame ms') := by
  have hfold : ∀ {ms ms' : List Method}, TwinMethods K ms ms' → ∀ t t',
      TableTwin (Closure.Twin K) t t' → TableTwin (Closure.Twin K)
        (ms.foldl (fun t m => t.insert m.name.lexeme
          ⟨some m.name.lexeme, m.function, frame, m.name.lexeme = initializerName⟩) t)
        (ms'.foldl (fun t m => t.insert m.name.lexeme
          ⟨some m.name.lexeme, m.function, frame, m.name.lexeme = initializerName⟩) t') := by
    intro ms
    induction ms with
    | nil =>
      intro ms' hms t t' ht
      cases hms
      exact ht
    | cons m ms ih =>
      intro ms' hms t t' ht
      cases hms with
      | cons hm hms =>
        refine ih hms _ _ ?_
        cases hm with
        | mk hname hf =>
          dsimp only
          rw [← hname.lexeme]
          exact ht.insert _ ⟨rfl, hf, rfl, rfl⟩
  exact hfold hms ∅ ∅ .empty

theorem declareClass (ht : name.Twin K name') {superclass superclass' : Option Class}
    (hsuperclass : Option.Rel (Class.Twin K) superclass superclass') {ms ms' : List Method}
    (hms : TwinMethods K ms ms') :
    Agreeing K Eq (Machine.declareClass name superclass ms)
      (Machine.declareClass name' superclass' ms') := by
  refine (define ht .nil).bind ?_
  rintro slot _ rfl
  refine .get fun m m' hm => ?_
  rw [← hm.frame]
  cases hsuperclass with
  | none =>
    refine (Parallel.pure (R := Eq) (rfl : m.frame = m.frame)).bind ?_
    rintro frame _ rfl
    refine mintIdentity.bind ?_
    rintro identity _ rfl
    rw [← ht.lexeme]
    exact settle ht slot (.class (.base (methodTable hms frame)))
  | some hc =>
    refine ((newFrame m.frame (.cons (.class hc) .nil)).map (Q := Eq) ?_).bind ?_
    · rintro f _ rfl
      rfl
    rintro frame _ rfl
    refine mintIdentity.bind ?_
    rintro identity _ rfl
    rw [← ht.lexeme]
    exact settle ht slot (.class (.sub hc (methodTable hms frame)))

theorem checkArity (expected got : Nat) (ht : paren.Twin K paren') :
    Agreeing K Eq (Machine.checkArity expected got paren)
      (Machine.checkArity expected got paren') := by
  unfold Machine.checkArity
  split
  · exact .fail ⟨rfl, .some ht.line⟩
  · exact .pure rfl

theorem callNative (f : NativeRef) (ht : paren.Twin K paren') {vs vs' : List Value}
    (hvs : List.Forall₂ (Value.Twin K) vs vs') :
    Agreeing K (Value.Twin K) (Machine.callNative f paren vs)
      (Machine.callNative f paren' vs') := by
  refine nextTurn.bind ?_
  rintro turn _ rfl
  refine .get fun m m' hm => ?_
  rw [← hm.natives]
  cases hbody : m.natives[f.index]? with
  | none => exact .pure .nil
  | some body =>
    have hblind := hm.blind body (Array.mem_of_getElem? hbody) K turn vs vs' hvs
    dsimp only
    generalize body turn vs = r at hblind
    generalize body turn vs' = r' at hblind
    cases hblind with
    | ok hv => exact .pure hv
    | error hmessage => exact .fail ⟨by rw [hmessage]; rfl, .some ht.line⟩

end Parallel

end Lox
