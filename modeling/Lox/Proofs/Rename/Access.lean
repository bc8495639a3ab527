import Lox.Proofs.Rename.Value

namespace Lox

namespace Machine

/-- Why two steps end without a result, one of them with a new name for a local. -/
inductive StopRenamed (R : Renaming) : Stop → Stop → Prop where
  | error {e e'} : e.Renamed R e' → StopRenamed R (.error e) (.error e')
  | exhausted : StopRenamed R .exhausted .exhausted

variable {R : Renaming} {inside : Bool} {m m' : Machine}

theorem Renamed.defineGlobal (h : m.Renamed R inside m') (name : String) {v v' : Value}
    (hv : v.Renamed R v') : (m.defineGlobal name v).Renamed R inside (m'.defineGlobal name v') :=
  { h with globals := h.globals.insert name hv }

theorem Renamed.goTo (h : m.Renamed R inside m') (f : FrameRef) {frames frames' : Frames Value}
    (hframes : frames.Alike (Value.Renamed R) frames') (within : Bool) :
    Machine.Renamed R within { m with frame := some f, frames }
      { m' with frame := some f, frames := frames' } :=
  { h with frame := rfl, inside := fun _ => rfl, frames := hframes }

/-- At top level no name is known to be that of a local. -/
theorem Renamed.eq_of_frame_none (h : m.Renamed R inside m') (hframe : m.frame = none)
    {t t' : Token} (ht : t.RenamedIn R inside t') : t' = t := by
  rcases ht with rfl | ⟨rfl, -⟩
  · rfl
  · have hsome := h.inside rfl
    rw [hframe] at hsome
    cases hsome

theorem Renamed.eq_of_unnoted (h : m.Renamed R inside m') {id : Nat} (hid : m.addresses[id]? = none)
    {t t' : Token} (ht : t.RenamedAt R id t') : t' = t := by
  rcases ht with rfl | ⟨hnotes, -⟩
  · rfl
  · have hsome := h.noted id hnotes
    rw [hid] at hsome
    cases hsome

/-- The two steps go the same way, one of them with a new name for a local. -/
abbrev Following (R : Renaming) (inside : Bool) {α β : Type} (Q : α → β → Prop) (p : Step α)
    (q : Step β) : Prop :=
  Parallel (Machine.Renamed R inside) (StopRenamed R) Q p q

namespace Following

variable {α β : Type} {Q : α → β → Prop} {p : Step α} {q : Step β}

theorem fail {e e' : RuntimeError} (h : e.Renamed R e') :
    Following R inside Q (Machine.fail e) (Machine.fail e') :=
  .throw (.error h)

/-- An error that names no local. -/
theorem fails (e : RuntimeError) : Following R inside Q (Machine.fail e) (Machine.fail e) :=
  fail (.same e)

theorem undefined {t t' : Token} (h : t.Renamed R t') :
    Following R inside Q (Machine.undefined t) (Machine.undefined t') := by
  rcases h with rfl | ⟨hold, rfl⟩
  · exact fails _
  · refine fail ?_
    rw [hold]
    exact .undefined t.line

theorem ofExcept (r : Except RuntimeError Value) :
    Following R inside (Value.Renamed R) (Machine.ofExcept r) (Machine.ofExcept r) := by
  cases r with
  | ok v => exact .pure (v.alike_self Function.renamed_self)
  | error e => exact fails e

/-- What is done in a frame is done inside, and then the machines are where they were. -/
theorem within (h : Following R true Q p q) (f : FrameRef) :
    Following R inside Q (Machine.within f p) (Machine.within f q) := by
  intro m m' hm
  have hp := h _ _ (hm.goTo f hm.frames true)
  unfold Machine.within
  dsimp only
  generalize p { m with frame := some f } = r at hp ⊢
  generalize q { m' with frame := some f } = r' at hp ⊢
  cases hp with
  | ok hab hm' => exact .ok hab { hm' with frame := hm.frame, inside := hm.inside }
  | error he hm' => exact .error he { hm' with frame := hm.frame, inside := hm.inside }

variable {t t' : Token} {v v' : Value} {id : Nat}

theorem write (line : String) : Following R inside Eq (Machine.write line) (Machine.write line) :=
  fun m m' hm => .ok rfl { hm with output := by simp only [hm.output] }

theorem mintIdentity : Following R inside Eq Machine.mintIdentity Machine.mintIdentity :=
  fun _ _ hm => .ok hm.nextIdentity { hm with nextIdentity := congrArg (· + 1) hm.nextIdentity }

theorem nextTurn : Following R inside Eq Machine.nextTurn Machine.nextTurn :=
  fun _ _ hm => .ok hm.turns { hm with turns := congrArg (· + 1) hm.turns }

theorem newInstance : Following R inside Eq Machine.newInstance Machine.newInstance :=
  fun _ _ hm => .ok (congrArg InstanceRef.mk hm.instances.size_eq)
    { hm with instances := hm.instances.push .empty }

theorem newFrame {vs vs' : List Value} (enclosing : Option FrameRef)
    (hvs : List.Forall₂ (Value.Renamed R) vs vs') :
    Following R inside Eq (Machine.newFrame enclosing vs) (Machine.newFrame enclosing vs') := by
  intro m m' hm
  rw [newFrame_apply, newFrame_apply]
  have hsize : m.frames.frames.size = m'.frames.frames.size := RowTwin.size_eq hm.frames
  exact .ok (congrArg FrameRef.mk hsize) { hm with frames := hm.frames.push hvs enclosing }

/-- The name of a cell is not kept. -/
theorem define (ht : t.RenamedIn R inside t') (hv : v.Renamed R v') :
    Following R inside Eq (Machine.define t v) (Machine.define t' v') := by
  intro m m' hm
  rw [define_apply, define_apply, ← hm.frame]
  cases hframe : m.frame with
  | none =>
    obtain rfl := hm.eq_of_frame_none hframe ht
    exact .ok rfl (hm.defineGlobal _ hv)
  | some f =>
    exact .ok (congrArg some (hm.frames.size_eq f)) (hm.goTo f (hm.frames.define hv f) inside)

/-- A cell is reached by its address, whatever its name. -/
theorem readLocal (ht : t.Renamed R t') (a : Address) :
    Following R inside (Value.Renamed R) (Machine.readLocal t a) (Machine.readLocal t' a) := by
  refine .get fun m m' hm => ?_
  rw [← hm.frame]
  cases m.frame with
  | none => exact undefined ht
  | some f =>
    have hcell := hm.frames.getAt f a
    dsimp only
    generalize m.frames.getAt f a = r at hcell
    generalize m'.frames.getAt f a = r' at hcell
    cases hcell with
    | ok hv => exact .pure hv
    | error => exact undefined ht

theorem readVariable (ht : t.RenamedAt R id t') :
    Following R inside (Value.Renamed R) (Machine.readVariable id t)
      (Machine.readVariable id t') := by
  refine .get fun m m' hm => ?_
  rw [← hm.addresses]
  cases hid : m.addresses[id]? with
  | some a => exact readLocal ht.renamed a
  | none =>
    obtain rfl := hm.eq_of_unnoted hid ht
    have hglobal := hm.globals t'.lexeme
    dsimp only
    generalize m.globals[t'.lexeme]? = v? at hglobal
    generalize m'.globals[t'.lexeme]? = v?' at hglobal
    cases hglobal with
    | some hv => exact .pure hv
    | none => exact fails _

theorem assignLocal (ht : t.Renamed R t') (a : Address) (hv : v.Renamed R v') :
    Following R inside Eq (Machine.assignLocal t a v) (Machine.assignLocal t' a v') := by
  intro m m' hm
  unfold Machine.assignLocal
  rw [← hm.frame]
  cases m.frame with
  | none => exact undefined ht m m' hm
  | some f =>
    dsimp only
    rw [hm.frames.locate_eq]
    cases m'.frames.locate f a with
    | ok g => exact .ok rfl (hm.goTo f (hm.frames.set hv g a.slot) inside)
    | error => exact undefined ht m m' hm

theorem assignVariable (ht : t.RenamedAt R id t') (hv : v.Renamed R v') :
    Following R inside Eq (Machine.assignVariable id t v) (Machine.assignVariable id t' v') := by
  refine .get fun m m' hm => ?_
  rw [← hm.addresses]
  cases hid : m.addresses[id]? with
  | some a => exact assignLocal ht.renamed a hv
  | none =>
    obtain rfl := hm.eq_of_unnoted hid ht
    dsimp only
    rw [hm.globals.contains_eq]
    split
    · exact fun _ _ hm => .ok rfl (hm.defineGlobal _ hv)
    · exact fails _

theorem bindReceiver {f f' : Closure} (hf : f.Renamed R f') (hv : v.Renamed R v') :
    Following R inside (Closure.Renamed R) (Machine.bind f v) (Machine.bind f' v') := by
  unfold Machine.bind
  rw [← hf.frame]
  refine (newFrame f.frame (.cons hv .nil)).bind ?_
  rintro g _ rfl
  exact .pure { hf with frame := rfl }

theorem functionValue {f f' : Closure} (hf : f.Renamed R f') :
    Following R inside (Value.Renamed R) (Machine.functionValue f) (Machine.functionValue f') := by
  refine mintIdentity.bind ?_
  rintro identity _ rfl
  exact .pure (.function identity hf)

/-- What `bind` makes of a method is a value. -/
theorem boundMethod {f f' : Closure} (hf : f.Renamed R f') (hv : v.Renamed R v') :
    Following R inside (Value.Renamed R) (do Machine.functionValue (← Machine.bind f v))
      (do Machine.functionValue (← Machine.bind f' v')) :=
  (bindReceiver hf hv).bind fun _ _ h => functionValue h

theorem property (i : InstanceRef) {c c' : Class} (hc : c.Renamed R c') (t : Token) :
    Following R inside (Value.Renamed R) (Machine.property i c t) (Machine.property i c' t) := by
  refine .get fun m m' hm => ?_
  have hfield : Option.Rel (Value.Renamed R) (m.instances[i.index]?.bind (·[t.lexeme]?))
      (m'.instances[i.index]?.bind (·[t.lexeme]?)) := by
    have hfields := hm.instances i.index
    generalize m.instances[i.index]? = fields? at hfields
    generalize m'.instances[i.index]? = fields?' at hfields
    cases hfields with
    | none => exact .none
    | some h => exact h t.lexeme
  have hmethod := hc.method? t.lexeme
  generalize m.instances[i.index]?.bind (·[t.lexeme]?) = v? at hfield
  generalize m'.instances[i.index]?.bind (·[t.lexeme]?) = v?' at hfield
  cases hfield with
  | some hv => exact .pure hv
  | none =>
    dsimp only
    generalize c.method? t.lexeme = f? at hmethod
    generalize c'.method? t.lexeme = f?' at hmethod
    cases hmethod with
    | some hf => exact boundMethod hf (.instance i hc)
    | none => exact fails _

theorem setField (i : InstanceRef) (t : Token) (hv : v.Renamed R v') :
    Following R inside Eq (Machine.setField i t v) (Machine.setField i t v') :=
  fun _ _ hm => .ok rfl { hm with
    instances := hm.instances.modify i.index fun _ _ h => h.insert t.lexeme hv }

theorem receiver (t : Token) (a : Address) :
    Following R inside (fun r r' => r.1 = r'.1 ∧ r.2.Renamed R r'.2) (Machine.receiver t a)
      (Machine.receiver t a) := by
  refine .get fun m m' hm => ?_
  rw [← hm.frame]
  dsimp only
  cases a.depth with
  | zero => exact fails _
  | succ depth =>
    cases m.frame with
    | none => exact fails _
    | some f =>
      have hcell := hm.frames.getAt f ⟨depth, 0⟩
      dsimp only
      generalize m.frames.getAt f ⟨depth, 0⟩ = r at hcell
      generalize m'.frames.getAt f ⟨depth, 0⟩ = r' at hcell
      cases hcell with
      | error => exact fails _
      | ok hv =>
        cases hv with
        | «instance» i hc => exact .pure ⟨rfl, hc⟩
        | _ => exact fails _

theorem superMethod (id : Nat) (t method : Token) :
    Following R inside (Value.Renamed R) (Machine.superMethod id t method)
      (Machine.superMethod id t method) := by
  refine .get fun m m' hm => ?_
  rw [← hm.addresses]
  cases m.addresses[id]? with
  | none => exact fails _
  | some a =>
    refine (readLocal (.inl rfl) a).bind fun v v' hv => ?_
    cases hv with
    | «class» hc =>
      refine (receiver t a).bind fun r r' hr => ?_
      obtain ⟨i, d⟩ := r
      obtain ⟨i', d'⟩ := r'
      obtain ⟨rfl, hd⟩ := hr
      have hfound := hc.method? method.lexeme
      dsimp only
      generalize Class.method? method.lexeme _ = f? at hfound
      generalize Class.method? method.lexeme _ = f?' at hfound
      cases hfound with
      | some hf => exact boundMethod hf (.instance i hd)
      | none => exact fails _
    | _ => exact fails _

theorem boundReceiver {f f' : Closure} (hf : f.Renamed R f') (t : Token) :
    Following R inside (Value.Renamed R) (Machine.boundReceiver f t)
      (Machine.boundReceiver f' t) := by
  refine .get fun m m' hm => ?_
  rw [← hf.frame]
  dsimp only
  cases f.frame with
  | none => exact fails _
  | some g =>
    have hcell := hm.frames.getAt g ⟨0, 0⟩
    dsimp only
    generalize m.frames.getAt g ⟨0, 0⟩ = r at hcell
    generalize m'.frames.getAt g ⟨0, 0⟩ = r' at hcell
    cases hcell with
    | error => exact fails _
    | ok hv => exact .pure hv

theorem settle (t : Token) (slot : Option Nat) (hv : v.Renamed R v') :
    Following R inside Eq (Machine.settle t slot v) (Machine.settle t slot v') := by
  intro m m' hm
  unfold Machine.settle
  rw [← hm.frame]
  cases slot with
  | none => exact .ok rfl (hm.defineGlobal _ hv)
  | some slot =>
    cases m.frame with
    | none => exact .ok rfl (hm.defineGlobal _ hv)
    | some f =>
      dsimp only
      rw [hm.frames.locate_eq]
      cases m'.frames.locate f ⟨0, slot⟩ with
      | ok g => exact .ok rfl (hm.goTo f (hm.frames.set hv g slot) inside)
      | error a => exact fails (.invalidSlot a) m m' hm

theorem methodTable (frame : Option FrameRef) {ms ms' : List Method} (hms : RenamedMethods R ms ms') :
    TableTwin (Closure.Renamed R) (Machine.methodTable frame ms)
      (Machine.methodTable frame ms') := by
  refine List.rel_foldl ?_ .empty hms.forall₂
  rintro table table' htable m m' ⟨hname, hf⟩
  dsimp only
  rw [hname]
  exact htable.insert _ ⟨rfl, hf.arity, hf, rfl, rfl⟩

theorem declareClass (t : Token) {superclass superclass' : Option Class}
    (hsuperclass : Option.Rel (Class.Renamed R) superclass superclass') {ms ms' : List Method}
    (hms : RenamedMethods R ms ms') :
    Following R inside Eq (Machine.declareClass t superclass ms)
      (Machine.declareClass t superclass' ms') := by
  refine (define (.inl rfl) .nil).bind ?_
  rintro slot _ rfl
  refine .get fun m m' hm => ?_
  rw [← hm.frame]
  cases hsuperclass with
  | none =>
    refine (Parallel.pure (R := Eq) (rfl : m.frame = m.frame)).bind ?_
    rintro frame _ rfl
    refine mintIdentity.bind ?_
    rintro identity _ rfl
    exact settle t slot (.class (.base (methodTable frame hms)))
  | some hc =>
    refine ((newFrame m.frame (.cons (.class hc) .nil)).map (Q := Eq) ?_).bind ?_
    · rintro f _ rfl
      rfl
    rintro frame _ rfl
    refine mintIdentity.bind ?_
    rintro identity _ rfl
    exact settle t slot (.class (.sub hc (methodTable frame hms)))

theorem checkArity (expected got : Nat) (t : Token) :
    Following R inside Eq (Machine.checkArity expected got t)
      (Machine.checkArity expected got t) := by
  unfold Machine.checkArity
  split
  · exact fails _
  · exact .pure rfl

theorem callNative (f : NativeRef) (t : Token) {vs vs' : List Value}
    (hvs : List.Forall₂ (Value.Renamed R) vs vs') :
    Following R inside (Value.Renamed R) (Machine.callNative f t vs)
      (Machine.callNative f t vs') := by
  refine nextTurn.bind ?_
  rintro turn _ rfl
  refine .get fun m m' hm => ?_
  rw [← hm.natives]
  cases hbody : m.natives[f.index]? with
  | none => exact .pure .nil
  | some body =>
    have hheedless := hm.heedless body (Array.mem_of_getElem? hbody) _ turn vs vs' hvs
    dsimp only
    generalize body turn vs = r at hheedless
    generalize body turn vs' = r' at hheedless
    cases hheedless with
    | ok hv => exact .pure hv
    | error hmessage =>
      rw [hmessage]
      exact fails _

end Following

end Machine

end Lox
